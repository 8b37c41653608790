import Ltf.Proofs.StateRoundTrip

/-! What comes back from a raw log. A state in which everything is as long as it says and
can be indexed is read back field for field, without what the log leaves out. -/

namespace Ltf.Proofs.RawLogReread
open CString JsonC StateRoundTrip

/-- An output as the log keeps it: without the call it was made for. -/
def recalledOutput (o : TestOutput) : TestOutput := { o with logged := none }

def recalledOutputs (arr : DaPtr TestOutput) : DaPtr TestOutput := some ((arr.getD []).map recalledOutput)

/-- A keyword as the log keeps it: nobody knows any more whether it was ignored. -/
def recalledKeyword : KeywordStatus → KeywordStatus
  | .mk children name started finished _ file line => {
      name, started, finished, file, line
      children := match children with
        | none => some []
        | some kids => some (recalledKeywords kids) }
where
  recalledKeywords : List KeywordStatus → List KeywordStatus
  | [] => []
  | kid :: kids => recalledKeyword kid :: recalledKeywords kids

theorem recalledKeywords_eq (kids : List KeywordStatus) :
    recalledKeyword.recalledKeywords kids = kids.map recalledKeyword := by
  induction kids with
  | nil => rfl
  | cons kid kids ih => rw [recalledKeyword.recalledKeywords, ih, List.map_cons]

theorem recalledKeyword_eq (keyword : KeywordStatus) : recalledKeyword keyword = { keyword with
    ignored := false
    children := some ((keyword.children.getD []).map recalledKeyword) } := by
  obtain ⟨children, name, started, finished, ignored, file, line⟩ := keyword
  cases children with
  | none => rfl
  | some kids => rw [recalledKeyword, recalledKeywords_eq, Option.getD_some]

/-- A test as the log keeps it. The end of the teardown is not in the log, and the status only as a text. -/
def recalledTest (t : StateTest) : StateTest where
  name := t.name
  description := t.description
  started := t.started
  finished := t.finished
  teardownStart := t.teardownStart
  statusStr := t.statusStr
  tags := some (t.tags.getD [])
  failureReasons := recalledOutputs t.failureReasons
  outputs := recalledOutputs t.outputs
  teardownOutputs := recalledOutputs t.teardownOutputs
  teardownErrors := recalledOutputs t.teardownErrors
  keywordStatuses := some ((t.keywordStatuses.getD []).map recalledKeyword)

/-- A variable as the log keeps it: its name and the value that was used. -/
def recalledVar (var : VarEntry) : VarEntry := { name := var.name, finalValue := var.finalValue }

/-- A state as the log keeps it. Hooks, callbacks and the stage belong to the process that ran. -/
def recalled (s : LtfState) : LtfState where
  projectName := s.projectName
  ltfVersion := s.ltfVersion
  os := s.os
  osVersion := s.osVersion
  started := s.started
  finished := s.finished
  target := s.target
  totalAmount := daSize s.tests
  passedAmount := s.passedAmount
  failedAmount := s.failedAmount
  finishedAmount := s.finishedAmount
  vars := some ((s.vars.getD []).map recalledVar)
  tags := some (s.tags.getD [])
  tests := some ((s.tests.getD []).map recalledTest)

/-- An output whose message has the length it says, and one that is an `int`. -/
structure ExactOutput (o : TestOutput) : Prop where
  line : Int32 o.line
  level : o.level.isSome = true
  msg : ∃ text, o.msg = some text ∧ o.msgLen = text.bytes.length
  short : o.msgLen < 2147483648

theorem ExactOutput.well {o : TestOutput} (exact : ExactOutput o) : WellOutput o := by
  obtain ⟨text, msg, length⟩ := exact.msg
  refine ⟨exact.line, exact.level, ?_⟩
  intro other found
  cases msg.symm.trans found
  exact Nat.le_of_eq length

inductive ExactKeyword : KeywordStatus → Prop where
  | mk {keyword} (line : Int32 keyword.line) (size : Indexable keyword.children)
      (kids : ∀ kid ∈ keyword.children.getD [], ExactKeyword kid) : ExactKeyword keyword

structure ExactTest (t : StateTest) : Prop where
  tags : Indexable t.tags ∧ ∀ tag ∈ t.tags.getD [], tag.isSome = true
  outputs : ∀ arr ∈ outputArrays t, Indexable arr ∧ ∀ o ∈ arr.getD [], ExactOutput o
  keywords : Indexable t.keywordStatuses ∧ ∀ keyword ∈ t.keywordStatuses.getD [], ExactKeyword keyword

structure ExactState (s : LtfState) : Prop where
  amounts : s.passedAmount < 2147483648 ∧ s.failedAmount < 2147483648 ∧ s.finishedAmount < 2147483648
  vars : (∀ var ∈ s.vars.getD [], var.finalValue.isSome = true) ∧ ((s.vars.getD []).map (·.name)).Nodup
  tags : Indexable s.tags ∧ ∀ tag ∈ s.tags.getD [], tag.isSome = true
  tests : Indexable s.tests ∧ ∀ t ∈ s.tests.getD [], ExactTest t

section Parts
variable (lib : Coercions) (beyond : Nat → UInt8)

theorem output_recalled {o : TestOutput} (exact : ExactOutput o) :
    ltfStateTestOutputFromJson lib (ltfStateTestOutputToJson beyond o) = some (recalledOutput o) := by
  obtain ⟨text, msg, length⟩ := exact.msg
  have small : text.bytes.length < 2147483648 := length ▸ exact.short
  have whole : toInt o.msgLen = text.bytes.length := by rw [length, toInt_of_lt small]
  have nonneg : ¬ toInt o.msgLen < 0 := by omega
  rw [exact.well.reads lib beyond, exact.well.reread_text msg nonneg, whole, Int.toNat_natCast, List.take_length,
    CStr.ofBytes_bytes, ← length, ← msg]
  rfl

theorem outputs_recalled {arr : DaPtr TestOutput} (size : Indexable arr) (exact : ∀ o ∈ arr.getD [], ExactOutput o) :
    jsonArrayToDaOutputs lib (daOutputsToJsonArray beyond arr) = some (recalledOutputs arr) := by
  have small : ((arr.getD []).map (ltfStateTestOutputToJson beyond)).length ≤ 2147483648 := by
    rw [List.length_map]
    exact size
  have each : ((arr.getD []).map (ltfStateTestOutputToJson beyond)).map (ltfStateTestOutputFromJson lib) =
      (arr.getD []).map (some ∘ recalledOutput) := by
    rw [List.map_map]
    exact List.map_congr_left fun o inside => output_recalled lib beyond (exact o inside)
  simp only [jsonArrayToDaOutputs, daOutputsToJsonArray, elements, fetch_small Json.null small, mapM_of_map each,
    Option.map_some, recalledOutputs]

theorem tags_recalled {arr : DaPtr (Option CStr)} (size : Indexable arr) (known : ∀ tag ∈ arr.getD [], tag.isSome = true) :
    jsonArrayToDaStrings lib (daStringsToJsonArray arr) = some (arr.getD []) := by
  have small : ((arr.getD []).map fun s => newString (s.getD (.lit ""))).length ≤ 2147483648 := by
    rw [List.length_map]
    exact size
  have each : ((arr.getD []).map fun s => newString (s.getD (.lit ""))).map (jdupString lib) = arr.getD [] := by
    rw [List.map_map, List.map_congr_left (g := id), List.map_id]
    intro tag inside
    obtain ⟨text, there⟩ := Option.isSome_iff_exists.mp (known tag inside)
    rw [Function.comp_apply, there, Option.getD_some, jdupString_new, id]
  simp only [jsonArrayToDaStrings, daStringsToJsonArray, elements, fetch_small Json.null small, each]

theorem keyword_recalled {keyword : KeywordStatus} (exact : ExactKeyword keyword) :
    ltfStateTestKeywordFromJson lib (ltfStateTestKeywordToJson keyword) = recalledKeyword keyword := by
  induction exact with
  | @mk keyword line size kids ih =>
    have small : ((keyword.children.getD []).map ltfStateTestKeywordToJson).length ≤ 2147483648 := by
      rw [List.length_map]
      exact size
    have each : (keyword.children.getD []).map (ltfStateTestKeywordFromJson lib ∘ ltfStateTestKeywordToJson) =
        (keyword.children.getD []).map recalledKeyword := List.map_congr_left ih
    rw [keyword_read lib line, recalledKeyword_eq, elements, fetch_small Json.null small, List.map_map, each]

theorem keywords_recalled {arr : DaPtr KeywordStatus} (size : Indexable arr)
    (exact : ∀ keyword ∈ arr.getD [], ExactKeyword keyword) :
    jsonArrayToDaKeywords lib (daKeywordsToJsonArray arr) = some ((arr.getD []).map recalledKeyword) := by
  have small : ((arr.getD []).map ltfStateTestKeywordToJson).length ≤ 2147483648 := by
    rw [List.length_map]
    exact size
  have each : (arr.getD []).map (ltfStateTestKeywordFromJson lib ∘ ltfStateTestKeywordToJson) =
      (arr.getD []).map recalledKeyword :=
    List.map_congr_left fun keyword inside => keyword_recalled lib (exact keyword inside)
  rw [daKeywordsToJsonArray_eq, jsonArrayToDaKeywords_array, elements, fetch_small Json.null small, List.map_map, each]

theorem test_recalled {t : StateTest} (exact : ExactTest t) :
    ltfStateTestFromJson lib (ltfStateTestToJson beyond t) = some (recalledTest t) := by
  obtain ⟨name, description, started, finished, teardown, status, tags, reasons, outputs, teardowns, errors, keywords⟩ :=
    test_get beyond t
  obtain ⟨fineReasons, fineOutputs, fineTeardowns, fineErrors⟩ := (forall_outputArrays _ t).mp exact.outputs
  simp only [ltfStateTestFromJson, jgetStrDup_written lib name, jgetStrDup_written lib description,
    jgetStrDup_written lib started, jgetStrDup_written lib finished, jgetStrDup_written lib teardown,
    jgetStrDup_written lib status, tags, keywords, Option.bind_some, tags_recalled lib exact.tags.1 exact.tags.2,
    keywords_recalled lib exact.keywords.1 exact.keywords.2,
    jgetOutputs_written lib beyond reasons (outputs_recalled lib beyond fineReasons.1 fineReasons.2),
    jgetOutputs_written lib beyond outputs (outputs_recalled lib beyond fineOutputs.1 fineOutputs.2),
    jgetOutputs_written lib beyond teardowns (outputs_recalled lib beyond fineTeardowns.1 fineTeardowns.2),
    jgetOutputs_written lib beyond errors (outputs_recalled lib beyond fineErrors.1 fineErrors.2)]
  rfl

theorem vars_recalled {vars : DaPtr VarEntry} (values : ∀ var ∈ vars.getD [], var.finalValue.isSome = true)
    (names : ((vars.getD []).map (·.name)).Nodup) :
    ∃ fields, ltfStateVarsToJson vars = some (.object fields) ∧
      jsonObjectToVars (.object fields) = some ((vars.getD []).map recalledVar) := by
  have whole : ltfStateVarsToJson vars = ltfStateVarsToJson (some (vars.getD [])) := by cases vars <;> rfl
  refine ⟨_, whole.trans (vars_written values names), ?_⟩
  rw [jsonObjectToVars, varFields, List.map_map]
  congr 1
  apply List.map_congr_left
  intro var inside
  obtain ⟨value, final⟩ := Option.isSome_iff_exists.mp (values var inside)
  simp only [Function.comp_apply, newString, final, Option.getD_some, CStr.ofBytes_bytes, recalledVar]

/-- An exact state is written, and read back as the log keeps it. -/
theorem state_recalled {s : LtfState} (exact : ExactState s) :
    ∃ root, ltfStateToJson beyond s = some root ∧ ltfStateFromJson lib root = some (some (recalled s)) := by
  obtain ⟨fields, entries, vars'⟩ := vars_recalled exact.vars.1 exact.vars.2
  obtain ⟨root, written⟩ : ∃ root, ltfStateToJson beyond s = some root := by simp [ltfStateToJson, entries]
  obtain ⟨⟨members, object⟩, project, version, os, osVersion, started, finished, target, vars, tags, array, total,
    passed, failed, amount⟩ := state_get written
  have small : ((s.tests.getD []).map (ltfStateTestToJson beyond)).length ≤ 2147483648 := by
    rw [List.length_map]
    exact exact.tests.1
  have each : ((s.tests.getD []).map (ltfStateTestToJson beyond)).map (ltfStateTestFromJson lib) =
      (s.tests.getD []).map (some ∘ recalledTest) := by
    rw [List.map_map]
    exact List.map_congr_left fun t inside => test_recalled lib beyond (exact.tests.2 t inside)
  refine ⟨root, written, ?_⟩
  subst object
  simp only [ltfStateFromJson, array, elements, fetch_small Json.null small, mapM_of_map each,
    jgetStrDup_written lib project, jgetStrDup_written lib version, jgetStrDup_written lib os,
    jgetStrDup_written lib osVersion, jgetStrDup_written lib started, jgetStrDup_written lib finished,
    jgetStrDup_written lib target, vars, entries, vars', tags, Option.bind_some,
    tags_recalled lib exact.tags.1 exact.tags.2, counter_read lib exact.amounts.1 passed,
    counter_read lib exact.amounts.2.1 failed, counter_read lib exact.amounts.2.2 amount, List.length_map]
  rfl

end Parts
end Ltf.Proofs.RawLogReread
