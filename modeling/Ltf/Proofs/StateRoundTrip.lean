import Ltf.StateJson

/-! What the raw log holds is what is written again after it has been read, except for
messages whose length is negative as an `int` and for items an `int` index does not find. -/

namespace Ltf.Proofs.StateRoundTrip
open CString JsonC

structure Int32 (value : Int) : Prop where
  low : -2147483648 ≤ value
  high : value ≤ 2147483647

/-- An output whose level is one of the six and whose message is as long as it says. -/
structure WellOutput (o : TestOutput) : Prop where
  line : Int32 o.line
  level : o.level.isSome = true
  msg : ∀ text, o.msg = some text → o.msgLen ≤ text.bytes.length

inductive WellKeyword : KeywordStatus → Prop where
  | mk {keyword} (line : Int32 keyword.line) (kids : ∀ kid ∈ keyword.children.getD [], WellKeyword kid) :
      WellKeyword keyword

def outputArrays (t : StateTest) : List (DaPtr TestOutput) :=
  [t.failureReasons, t.outputs, t.teardownOutputs, t.teardownErrors]

theorem forall_outputArrays (holds : DaPtr TestOutput → Prop) (t : StateTest) : (∀ arr ∈ outputArrays t, holds arr) ↔
    holds t.failureReasons ∧ holds t.outputs ∧ holds t.teardownOutputs ∧ holds t.teardownErrors := by
  simp only [outputArrays, List.forall_mem_cons, List.not_mem_nil, false_implies, implies_true, and_true]

structure WellTest (t : StateTest) : Prop where
  outputs : ∀ arr ∈ outputArrays t, ∀ o ∈ arr.getD [], WellOutput o
  keywords : ∀ keyword ∈ t.keywordStatuses.getD [], WellKeyword keyword

structure WellState (s : LtfState) : Prop where
  total : s.totalAmount = daSize s.tests
  totalAmount : s.totalAmount < 2147483648
  passedAmount : s.passedAmount < 2147483648
  failedAmount : s.failedAmount < 2147483648
  finishedAmount : s.finishedAmount < 2147483648
  tests : ∀ t ∈ s.tests.getD [], WellTest t
  names : ((s.vars.getD []).map (·.name)).Nodup
  values : ∀ var ∈ s.vars.getD [], var.finalValue.isSome = true

/-- Writing, reading and writing again gives the same JSON value. -/
def RoundTrip (lib : Coercions) (beyond : Nat → UInt8) (s : LtfState) : Prop :=
  ∃ json back, ltfStateToJson beyond s = some json ∧ ltfStateFromJson lib json = some (some back) ∧
    ltfStateToJson beyond back = some json

/-- The message has a length that is none as an `int`. -/
def Overlong (o : TestOutput) : Prop := o.msg.isSome = true ∧ toInt o.msgLen < 0

/-- The part of the message that a length of type `int` reaches. -/
def message (o : TestOutput) : Option (List UInt8) := o.msg.map fun text => text.bytes.take (toInt o.msgLen).toNat

/-- Two outputs with the same entry in the raw log. -/
structure SameOutput (found own : TestOutput) : Prop where
  file : found.file = own.file
  line : found.line = own.line
  dateTime : found.dateTime = own.dateTime
  level : found.level = own.level
  message : message found = message own

def SameTag (found own : Option CStr) : Prop := found.getD (.lit "") = own.getD (.lit "")

/-- A keyword whose entry, once it is read, is written like that of another one. -/
inductive SameKeyword : KeywordStatus → KeywordStatus → Prop where
  | mk {found own : KeywordStatus} (name : found.name = own.name) (started : found.started = own.started)
      (finished : found.finished = own.finished) (file : found.file = own.file) (line : found.line = own.line)
      (size : (found.children.getD []).length = (own.children.getD []).length)
      (kids : ∀ i kid, (own.children.getD [])[i]? = some kid →
        SameKeyword ((found.children.getD []).getD (toSize (toInt i)) {}) kid) : SameKeyword found own

/-- No message is overlong, and each `int` index finds an output like the one it stands for. -/
structure OutputsFound (arr : DaPtr TestOutput) : Prop where
  messages : ∀ o ∈ arr.getD [], ¬ Overlong o
  found : Found SameOutput {} (arr.getD []) (arr.getD [])

structure TestFound (t : StateTest) : Prop where
  tags : Found SameTag none (t.tags.getD []) (t.tags.getD [])
  outputs : ∀ arr ∈ outputArrays t, OutputsFound arr
  keywords : Found SameKeyword {} (t.keywordStatuses.getD []) (t.keywordStatuses.getD [])

structure StateFound (s : LtfState) : Prop where
  tags : Found SameTag none (s.tags.getD []) (s.tags.getD [])
  tests : ∀ t ∈ s.tests.getD [], TestFound t

section Strings
variable (lib : Coercions)

theorem jdupString_new (text : CStr) : jdupString lib (newString text) = some text := by
  simp [jdupString, newString, getString]

theorem jgetStrDup_written {obj : Json} {key : String} {val : Option CStr}
    (written : get obj (.lit key) = val.map newString) :
    jgetStrDup lib obj key = val := by
  cases val with
  | none => simp [jgetStrDup, written]
  | some text => simp [jgetStrDup, written, jdupString_new]

theorem jgetInt_written {obj : Json} {key : String} {value : Int} (fits : Int32 value)
    (written : get obj (.lit key) = some (.int value)) : jgetInt lib obj key = value := by
  simp [jgetInt, written, getInt_of_range lib fits.low fits.high]

theorem newString_map {first second : Option CStr} : first.map newString = second.map newString ↔ first = second := by
  apply (Option.map_injective ?_).eq_iff
  intro first second same
  exact CStr.ext (Json.string.inj same)

end Strings

section Outputs
variable (lib : Coercions) (beyond : Nat → UInt8)

theorem level_name_injective : Function.Injective ltfLogLevelToStr := by
  intro first second same
  cases first with
  | none => cases second with
    | none => rfl
    | some level => cases level <;> cases same
  | some level =>
    have read := level_reread level
    cases second with
    | none => cases level <;> cases same
    | some other =>
      rw [same] at read
      exact (read.symm.trans (level_reread other))

theorem output_json_eq (first second : TestOutput) :
    ltfStateTestOutputToJson beyond first = ltfStateTestOutputToJson beyond second ↔
      first.file = second.file ∧ first.line = second.line ∧ first.dateTime = second.dateTime ∧
        first.level = second.level ∧
        (first.msg.map fun text => newStringLen (text.read beyond) (toInt first.msgLen)) =
          second.msg.map fun text => newStringLen (text.read beyond) (toInt second.msgLen) := by
  obtain ⟨file, line, dateTime, level, msg⟩ := output_get beyond first
  obtain ⟨file', line', dateTime', level', msg'⟩ := output_get beyond second
  constructor
  · intro same
    rw [same] at file line dateTime level msg
    exact ⟨newString_map.mp (file.symm.trans file'), Json.int.inj (Option.some.inj (line.symm.trans line')),
      newString_map.mp (dateTime.symm.trans dateTime'),
      level_name_injective (newString_map.mp (level.symm.trans level')), msg.symm.trans msg'⟩
  · intro alike
    obtain ⟨file, line, dateTime, level, msg⟩ := alike
    simp only [ltfStateTestOutputToJson, addStringLenIf, file, line, dateTime, level, msg]

def reread (o : TestOutput) : TestOutput :=
  let msg := if toInt o.msgLen < 0 then none else (message o).map .ofBytes
  { file := o.file, line := o.line, dateTime := o.dateTime, level := o.level, msg,
    msgLen := (msg.map (·.bytes.length)).getD 0 }

variable {o : TestOutput}

theorem WellOutput.inside (well : WellOutput o) {text : CStr} (msg : o.msg = some text) :
    (toInt o.msgLen).toNat ≤ text.bytes.length := by
  have short := well.msg text msg
  have below := toInt_le o.msgLen
  omega

theorem WellOutput.written (well : WellOutput o) (fits : ¬ Overlong o) :
    (o.msg.map fun text => newStringLen (text.read beyond) (toInt o.msgLen)) = (message o).map .string := by
  cases msg : o.msg with
  | none => simp [message, msg]
  | some text =>
    have nonneg : ¬ toInt o.msgLen < 0 := by simpa [Overlong, msg] using fits
    simp [message, msg, newStringLen, nonneg, CStr.read_within beyond (well.inside msg)]

theorem WellOutput.reads (well : WellOutput o) :
    ltfStateTestOutputFromJson lib (ltfStateTestOutputToJson beyond o) = some (reread o) := by
  obtain ⟨file, line, dateTime, level, msg⟩ := output_get beyond o
  obtain ⟨name, known⟩ := Option.isSome_iff_exists.mp well.level
  obtain ⟨text, named⟩ : ∃ text, ltfLogLevelToStr o.level = some text := by rw [known]; cases name <;> exact ⟨_, rfl⟩
  have leveled : ltfLogLevelFromStr text = o.level := by simpa [← known, named] using level_reread name
  have message : jgetStrDup lib (ltfStateTestOutputToJson beyond o) "msg" =
      if toInt o.msgLen < 0 then none else (message o).map .ofBytes := by
    rw [jgetStrDup, msg]
    by_cases long : Overlong o
    · obtain ⟨some, negative⟩ := long
      obtain ⟨text, some⟩ := Option.isSome_iff_exists.mp some
      simp [some, newStringLen, negative, jdupString, getString]
    · rw [well.written beyond long]
      split
      next negative =>
        have none : o.msg = none := by simpa [Overlong, negative] using long
        simp [StateRoundTrip.message, none]
      next => cases StateRoundTrip.message o <;> simp [jdupString, getString]
  simp [ltfStateTestOutputFromJson, jgetStrDup_written lib file, jgetStrDup_written lib dateTime,
    jgetInt_written lib well.line line, message, level, named, newString, getString, leveled, reread]

theorem reread_blank (gone : toInt o.msgLen < 0 ∨ o.msg = none) :
    reread o = { file := o.file, line := o.line, dateTime := o.dateTime, level := o.level } := by
  rcases gone with negative | none
  · simp [reread, negative]
  · simp [reread, message, none]

theorem WellOutput.reread_text (well : WellOutput o) {text : CStr} (msg : o.msg = some text)
    (nonneg : ¬ toInt o.msgLen < 0) :
    reread o = {
      file := o.file, line := o.line, dateTime := o.dateTime, level := o.level
      msg := some (.ofBytes (text.bytes.take (toInt o.msgLen).toNat))
      msgLen := (toInt o.msgLen).toNat } := by
  simp [reread, nonneg, message, msg, CStr.ofBytes_eq (CStr.take_clean _), well.inside msg]

theorem WellOutput.reread_well (well : WellOutput o) :
    WellOutput (reread o) ∧ ¬ Overlong (reread o) ∧ (¬ Overlong o → message (reread o) = message o) := by
  by_cases gone : toInt o.msgLen < 0 ∨ o.msg = none
  · rw [reread_blank gone]
    refine ⟨⟨well.line, well.level, by simp⟩, by simp [Overlong], ?_⟩
    intro fits
    have none : o.msg = none := by
      rcases gone with negative | none
      · simpa [Overlong, negative] using fits
      · exact none
    simp [message, none]
  · obtain ⟨nonneg, some⟩ := not_or.mp gone
    obtain ⟨text, msg⟩ := Option.ne_none_iff_exists'.mp some
    have bytes : (CStr.ofBytes (text.bytes.take (toInt o.msgLen).toNat)).bytes =
      text.bytes.take (toInt o.msgLen).toNat :=
      CStr.ofBytes_eq (CStr.take_clean _)
    have kept : toInt (toInt o.msgLen).toNat = toInt o.msgLen := toInt_toNat (by omega)
    rw [well.reread_text msg nonneg]
    refine ⟨⟨well.line, well.level, ?_⟩, ?_, ?_⟩
    · intro _ found
      cases found
      rw [bytes, List.length_take, Nat.min_eq_left (well.inside msg)]
    · simpa [Overlong, kept] using nonneg
    · intro _
      simp [message, msg, kept, bytes, List.take_take]

theorem reread_json_eq {found own : TestOutput} (well : WellOutput found) (well' : WellOutput own)
    (fits : ¬ Overlong found)
    (fits' : ¬ Overlong own) :
    ltfStateTestOutputToJson beyond (reread found) = ltfStateTestOutputToJson beyond own ↔ SameOutput found own := by
  obtain ⟨read, readable, same⟩ := well.reread_well
  have string : Function.Injective Json.string := fun _ _ same => Json.string.inj same
  rw [output_json_eq, read.written beyond readable, well'.written beyond fits', same fits,
    (Option.map_injective string).eq_iff]
  constructor
  · intro alike
    obtain ⟨file, line, dateTime, level, msg⟩ := alike
    exact ⟨file, line, dateTime, level, msg⟩
  · intro alike
    exact ⟨alike.file, alike.line, alike.dateTime, alike.level, alike.message⟩

/-- The `null` in the place of an overlong message is never written for an output that was read. -/
theorem reread_json_ne {found own : TestOutput} (well : WellOutput found) (overlong : Overlong own) :
    ltfStateTestOutputToJson beyond (reread found) ≠ ltfStateTestOutputToJson beyond own := by
  obtain ⟨read, readable, -⟩ := well.reread_well
  obtain ⟨some, negative⟩ := overlong
  obtain ⟨text, some⟩ := Option.isSome_iff_exists.mp some
  rw [Ne, output_json_eq, read.written beyond readable, some, Option.map_some, newStringLen, if_pos negative]
  intro alike
  obtain ⟨-, -, -, -, msg⟩ := alike
  obtain ⟨bytes, -, impossible⟩ := Option.map_eq_some_iff.mp msg
  cases impossible

theorem blank_well : WellOutput {} := ⟨⟨by decide, by decide⟩, rfl, by simp⟩

theorem blank_read : ltfStateTestOutputFromJson lib .null = some (reread {}) := by
  simp [ltfStateTestOutputFromJson, JsonC.get, jgetStrDup, jgetInt, reread, message]

theorem mapM_of_map {α β γ : Type} {read : α → Memory γ} {g : β → γ} {items : List α} {own : List β}
    (each : items.map read = own.map (some ∘ g)) : items.mapM read = some (own.map g) := by
  have through : items.mapM read = (items.map read).mapM id := by rw [List.mapM_map]; rfl
  rw [through, each, List.mapM_map]
  exact List.mapM_pure

/-- An array of outputs is read, and what is read is written as before when everything is found. -/
theorem outputs_reread (arr : DaPtr TestOutput) (well : ∀ o ∈ arr.getD [], WellOutput o) :
    ∃ back, jsonArrayToDaOutputs lib (daOutputsToJsonArray beyond arr) = some back ∧
      (daOutputsToJsonArray beyond back = daOutputsToJsonArray beyond arr ↔ OutputsFound arr) := by
  have known : ∀ o, o = {} ∨ o ∈ arr.getD [] → WellOutput o := by
    intro o source
    rcases source with rfl | inside
    · exact blank_well
    · exact well o inside
  have items : (elements ((arr.getD []).map (ltfStateTestOutputToJson beyond))).map (ltfStateTestOutputFromJson lib) =
      (fetch {} (arr.getD [])).map (some ∘ reread) := by
    rw [elements, fetch_map, fetch_map, blank_read, List.map_map]
    exact congrArg _ (List.map_congr_left fun o inside => (well o inside).reads lib beyond)
  refine ⟨some ((fetch {} (arr.getD [])).map reread),
    by simp [jsonArrayToDaOutputs, daOutputsToJsonArray, mapM_of_map items], ?_⟩
  rw [daOutputsToJsonArray, daOutputsToJsonArray, Json.array.injEq, Option.getD_some, List.map_map, map_fetch_eq]
  have same : (∀ o ∈ arr.getD [], ¬ Overlong o) →
      (Found (fun found own => (ltfStateTestOutputToJson beyond ∘ reread) found = ltfStateTestOutputToJson beyond own)
        {} (arr.getD []) (arr.getD []) ↔ Found SameOutput {} (arr.getD []) (arr.getD [])) := by
    intro messages
    apply Found.congr
    intro found own source inside
    have fits : ¬ Overlong found := by
      rcases source with rfl | inside
      · simp [Overlong]
      · exact messages found inside
    exact reread_json_eq beyond (known found source) (well own inside) fits (messages own inside)
  constructor
  · intro rewritten
    have messages : ∀ o ∈ arr.getD [], ¬ Overlong o := by
      intro o inside overlong
      obtain ⟨i, here⟩ := List.mem_iff_getElem?.mp inside
      exact reread_json_ne beyond (known _ (getD_mem ..)) overlong (rewritten.2 i o here)
    exact ⟨messages, (same messages).mp rewritten⟩
  · intro found
    exact (same found.messages).mpr found.found

end Outputs

section Keywords
variable (lib : Coercions)

theorem tags_reread (arr : DaPtr (Option CStr)) :
    daStringsToJsonArray (jsonArrayToDaStrings lib (daStringsToJsonArray arr)) = daStringsToJsonArray arr ↔
      Found SameTag none (arr.getD []) (arr.getD []) := by
  let write := fun s : Option CStr => newString (s.getD (.lit ""))
  have again : ∀ s, write (jdupString lib (write s)) = write s :=
    fun s => by simp only [write, jdupString_new, Option.getD_some]
  have items : ((elements ((arr.getD []).map write)).map (jdupString lib)).map write =
      (fetch none (arr.getD [])).map write := by
    rw [elements, fetch_map, fetch_map, fetch_map, List.map_map, List.map_map]
    exact congrArg _ (List.map_congr_left fun s _ => again s)
  have injective : ∀ first second, write first = write second ↔ SameTag first second := by
    intro first second
    exact ⟨fun same => CStr.ext (Json.string.inj same), fun same => congrArg newString same⟩
  simp only [daStringsToJsonArray, jsonArrayToDaStrings, Json.array.injEq, Option.getD_some]
  rw [items, map_fetch_eq]
  exact Found.congr fun s other _ _ => injective s other

theorem keyword_json_eq (first second : KeywordStatus) :
    ltfStateTestKeywordToJson first = ltfStateTestKeywordToJson second ↔
      first.name = second.name ∧ first.started = second.started ∧ first.finished = second.finished ∧
        first.file = second.file ∧ first.line = second.line ∧
        (first.children.getD []).map ltfStateTestKeywordToJson =
          (second.children.getD []).map ltfStateTestKeywordToJson := by
  constructor
  · intro same
    obtain ⟨name, started, finished, file, line, children⟩ := keyword_get first
    obtain ⟨name', started', finished', file', line', children'⟩ := keyword_get second
    rw [same] at name started finished file line children
    exact ⟨newString_map.mp (name.symm.trans name'), newString_map.mp (started.symm.trans started'),
      newString_map.mp (finished.symm.trans finished'), newString_map.mp (file.symm.trans file'),
      Json.int.inj (Option.some.inj (line.symm.trans line')),
      Json.array.inj (Option.some.inj (children.symm.trans children'))⟩
  · intro alike
    obtain ⟨name, started, finished, file, line, kids⟩ := alike
    rw [ltfStateTestKeywordToJson_eq, ltfStateTestKeywordToJson_eq, name, started, finished, file, line, kids]

theorem keyword_read {keyword : KeywordStatus} (line : Int32 keyword.line) :
    ltfStateTestKeywordFromJson lib (ltfStateTestKeywordToJson keyword) = {
      name := keyword.name, started := keyword.started, finished := keyword.finished, file := keyword.file
      line := keyword.line
      children := some ((elements ((keyword.children.getD []).map ltfStateTestKeywordToJson)).map
        (ltfStateTestKeywordFromJson lib)) } := by
  obtain ⟨name, started, finished, file, line', children⟩ := keyword_get keyword
  rw [ltfStateTestKeywordFromJson_eq, jgetStrDup_written lib name, jgetStrDup_written lib started,
    jgetStrDup_written lib finished, jgetStrDup_written lib file, jgetInt_written lib line line', children,
      Option.bind_some, jsonArrayToDaKeywords_array]

/-- A keyword written again after it has been read. -/
def rewritten (keyword : KeywordStatus) : Json :=
  ltfStateTestKeywordToJson (ltfStateTestKeywordFromJson lib (ltfStateTestKeywordToJson keyword))

theorem blank_keyword_read : ltfStateTestKeywordToJson (ltfStateTestKeywordFromJson lib .null) = rewritten lib {} := by
  have line : Int32 (KeywordStatus.line {}) := ⟨by decide, by decide⟩
  rw [rewritten, keyword_read lib line, ltfStateTestKeywordFromJson_eq, keyword_json_eq]
  exact ⟨rfl, rfl, rfl, rfl, rfl, rfl⟩

theorem keywords_rewritten (keywords : List KeywordStatus) :
    ((elements (keywords.map ltfStateTestKeywordToJson)).map (ltfStateTestKeywordFromJson lib)).map
        ltfStateTestKeywordToJson =
      (fetch {} keywords).map (rewritten lib) := by
  rw [elements, fetch_map, fetch_map, blank_keyword_read, fetch_map, List.map_map, List.map_map]
  rfl

theorem blank_keyword_well : WellKeyword {} := .mk ⟨by decide, by decide⟩ (by simp)

theorem rewritten_eq {own : KeywordStatus} (well : WellKeyword own) : ∀ {found : KeywordStatus}, WellKeyword found →
    (rewritten lib found = ltfStateTestKeywordToJson own ↔ SameKeyword found own) := by
  induction well with
  | @mk own line kids ih =>
    intro found kept
    obtain ⟨line', kids'⟩ := kept
    rw [rewritten, keyword_read lib line', keyword_json_eq, Option.getD_some, keywords_rewritten, map_fetch_eq]
    have known : ∀ i, WellKeyword ((found.children.getD []).getD i {}) := by
      intro i
      rcases getD_mem {} (found.children.getD []) i with missing | inside
      · rw [missing]
        exact blank_keyword_well
      · exact kids' _ inside
    constructor
    · intro alike
      obtain ⟨name, started, finished, file, line, size, each⟩ := alike
      refine .mk name started finished file line size ?_
      intro i kid here
      exact (ih kid (List.mem_of_getElem? here) (known _)).mp (each i kid here)
    · intro alike
      obtain ⟨name, started, finished, file, line, size, each⟩ := alike
      refine ⟨name, started, finished, file, line, size, ?_⟩
      intro i kid here
      exact (ih kid (List.mem_of_getElem? here) (known _)).mpr (each i kid here)

theorem keywords_reread (arr : DaPtr KeywordStatus) (well : ∀ keyword ∈ arr.getD [], WellKeyword keyword) :
    daKeywordsToJsonArray (jsonArrayToDaKeywords lib (daKeywordsToJsonArray arr)) = daKeywordsToJsonArray arr ↔
      Found SameKeyword {} (arr.getD []) (arr.getD []) := by
  have known : ∀ keyword, keyword = {} ∨ keyword ∈ arr.getD [] → WellKeyword keyword := by
    intro keyword source
    rcases source with rfl | inside
    · exact blank_keyword_well
    · exact well keyword inside
  simp only [daKeywordsToJsonArray_eq, jsonArrayToDaKeywords_array, Json.array.injEq, Option.getD_some]
  rw [keywords_rewritten, map_fetch_eq]
  exact Found.congr fun keyword own source inside => rewritten_eq lib (well own inside) (known keyword source)

end Keywords

section State
variable (lib : Coercions) (beyond : Nat → UInt8)

theorem test_json_eq (first second : StateTest) :
    ltfStateTestToJson beyond first = ltfStateTestToJson beyond second ↔
      (first.name = second.name ∧ first.description = second.description ∧ first.started = second.started ∧
        first.finished = second.finished ∧ first.teardownStart = second.teardownStart ∧
          first.statusStr = second.statusStr) ∧
      daStringsToJsonArray first.tags = daStringsToJsonArray second.tags ∧
      daOutputsToJsonArray beyond first.failureReasons = daOutputsToJsonArray beyond second.failureReasons ∧
      daOutputsToJsonArray beyond first.outputs = daOutputsToJsonArray beyond second.outputs ∧
      daOutputsToJsonArray beyond first.teardownOutputs = daOutputsToJsonArray beyond second.teardownOutputs ∧
      daOutputsToJsonArray beyond first.teardownErrors = daOutputsToJsonArray beyond second.teardownErrors ∧
      daKeywordsToJsonArray first.keywordStatuses = daKeywordsToJsonArray second.keywordStatuses := by
  constructor
  · intro same
    obtain ⟨name, description, started, finished, teardown, status, tags, reasons, outputs, teardowns, errors,
      keywords⟩ :=
      test_get beyond first
    obtain ⟨name', description', started', finished', teardown', status', tags', reasons', outputs', teardowns',
      errors', keywords'⟩ := test_get beyond second
    rw [same] at name description started finished teardown status tags reasons outputs teardowns errors keywords
    exact ⟨⟨newString_map.mp (name.symm.trans name'), newString_map.mp (description.symm.trans description'),
      newString_map.mp (started.symm.trans started'), newString_map.mp (finished.symm.trans finished'),
      newString_map.mp (teardown.symm.trans teardown'), newString_map.mp (status.symm.trans status')⟩,
      Option.some.inj (tags.symm.trans tags'), Option.some.inj (reasons.symm.trans reasons'),
      Option.some.inj (outputs.symm.trans outputs'), Option.some.inj (teardowns.symm.trans teardowns'),
      Option.some.inj (errors.symm.trans errors'), Option.some.inj (keywords.symm.trans keywords')⟩
  · intro alike
    obtain ⟨⟨name, description, started, finished, teardown, status⟩, tags, reasons, outputs, teardowns, errors,
      keywords⟩ := alike
    simp only [ltfStateTestToJson, name, description, started, finished, teardown, status, tags, reasons, outputs,
      teardowns, errors, keywords]

theorem jgetOutputs_written {obj : Json} {key : String} {arr : DaPtr TestOutput} {back : Memory (DaPtr TestOutput)}
    (written : get obj (.lit key) = some (daOutputsToJsonArray beyond arr))
    (reads : jsonArrayToDaOutputs lib (daOutputsToJsonArray beyond arr) = back) : jgetOutputs lib obj key = back := by
  simp [jgetOutputs, written, reads]

theorem test_reread {t : StateTest} (well : WellTest t) :
    ∃ back, ltfStateTestFromJson lib (ltfStateTestToJson beyond t) = some back ∧
      (ltfStateTestToJson beyond back = ltfStateTestToJson beyond t ↔ TestFound t) := by
  obtain ⟨name, description, started, finished, teardown, status, tags, reasons, outputs, teardowns, errors,
    keywords⟩ :=
    test_get beyond t
  obtain ⟨wellReasons, wellOutputs, wellTeardowns, wellErrors⟩ := (forall_outputArrays _ t).mp well.outputs
  obtain ⟨reasons', readReasons, sameReasons⟩ := outputs_reread lib beyond t.failureReasons wellReasons
  obtain ⟨outputs', readOutputs, sameOutputs⟩ := outputs_reread lib beyond t.outputs wellOutputs
  obtain ⟨teardowns', readTeardowns, sameTeardowns⟩ := outputs_reread lib beyond t.teardownOutputs wellTeardowns
  obtain ⟨errors', readErrors, sameErrors⟩ := outputs_reread lib beyond t.teardownErrors wellErrors
  refine ⟨{
    name := t.name, description := t.description, started := t.started, finished := t.finished
    teardownStart := t.teardownStart, statusStr := t.statusStr
    tags := jsonArrayToDaStrings lib (daStringsToJsonArray t.tags)
    failureReasons := reasons', outputs := outputs', teardownOutputs := teardowns', teardownErrors := errors'
    keywordStatuses := jsonArrayToDaKeywords lib (daKeywordsToJsonArray t.keywordStatuses) }, ?_, ?_⟩
  · simp [ltfStateTestFromJson, jgetStrDup_written lib name, jgetStrDup_written lib description,
      jgetStrDup_written lib started, jgetStrDup_written lib finished, jgetStrDup_written lib teardown,
      jgetStrDup_written lib status, tags, keywords, jgetOutputs_written lib beyond reasons readReasons,
      jgetOutputs_written lib beyond outputs readOutputs, jgetOutputs_written lib beyond teardowns readTeardowns,
      jgetOutputs_written lib beyond errors readErrors]
  · rw [test_json_eq, tags_reread, sameReasons, sameOutputs, sameTeardowns, sameErrors,
      keywords_reread lib t.keywordStatuses well.keywords]
    constructor
    · intro alike
      obtain ⟨_, tags, reasons, outputs, teardowns, errors, keywords⟩ := alike
      exact ⟨tags, (forall_outputArrays _ t).mpr ⟨reasons, outputs, teardowns, errors⟩, keywords⟩
    · intro found
      obtain ⟨reasons, outputs, teardowns, errors⟩ := (forall_outputArrays _ t).mp found.outputs
      exact ⟨⟨rfl, rfl, rfl, rfl, rfl, rfl⟩, found.tags, reasons, outputs, teardowns, errors, found.keywords⟩

theorem tests_reread (tests : List StateTest) (well : ∀ t ∈ tests, WellTest t) :
    ∃ back, (tests.map (ltfStateTestToJson beyond)).mapM (ltfStateTestFromJson lib) = some back ∧
      (back.map (ltfStateTestToJson beyond) = tests.map (ltfStateTestToJson beyond) ↔ ∀ t ∈ tests, TestFound t) := by
  induction tests with
  | nil => exact ⟨[], rfl, by simp⟩
  | cons t tests ih =>
    obtain ⟨first, reads, same⟩ := test_reread lib beyond (well t (by simp))
    obtain ⟨rest, readRest, sameRest⟩ := ih fun t inside => well t (by simp [inside])
    refine ⟨first :: rest, by simp [List.mapM_cons, reads, readRest], ?_⟩
    rw [List.map_cons, List.map_cons, List.cons.injEq, same, sameRest, List.forall_mem_cons]

def varFields (vars : List VarEntry) : Fields :=
  vars.map fun var => (var.name, newString (var.finalValue.getD (.lit "")))

theorem vars_written {vars : List VarEntry} (values : ∀ var ∈ vars, var.finalValue.isSome = true)
    (names : (vars.map (·.name)).Nodup) : ltfStateVarsToJson (some vars) = some (.object (varFields vars)) := by
  let put := fun (o : Fields) (var : VarEntry) => add o var.name (newString (var.finalValue.getD (.lit "")))
  have steps : ∀ items : List VarEntry, (∀ var ∈ items, var.finalValue.isSome = true) → ∀ o : Fields,
      items.foldlM (fun o var => var.finalValue.map fun value => add o var.name (newString value)) o =
        some (items.foldl put o) := by
    intro items known
    induction items with
    | nil => exact fun _ => rfl
    | cons var items ih =>
      intro o
      obtain ⟨value, final⟩ := Option.isSome_iff_exists.mp (known var (by simp))
      simpa [List.foldlM_cons, final, put] using ih (fun other inside => known other (by simp [inside])) (put o var)
  have fresh : vars.foldl put [] = varFields vars := by
    have added := Assoc.foldl_put_fresh (varFields vars) [] (by simpa [varFields, Function.comp_def] using names)
    simpa [varFields, List.foldl_map, put, add] using added
  simp [ltfStateVarsToJson, steps vars values, fresh]

theorem vars_reread {s : LtfState} (well : WellState s) : ∃ fields, ltfStateVarsToJson s.vars = some (.object fields) ∧
    ltfStateVarsToJson (jsonObjectToVars (.object fields)) = some (.object fields) := by
  have known : ∀ vars : DaPtr VarEntry, ltfStateVarsToJson vars = ltfStateVarsToJson (some (vars.getD [])) := by
    intro vars
    cases vars <;> rfl
  let read :=
    fun var : VarEntry => ({ name := var.name, finalValue := some (var.finalValue.getD (.lit "")) } : VarEntry)
  have reads : jsonObjectToVars (.object (varFields (s.vars.getD []))) = some ((s.vars.getD []).map read) := by
    simp [jsonObjectToVars, varFields, newString, read]
  refine ⟨varFields (s.vars.getD []), (known _).trans (vars_written well.values well.names), ?_⟩
  rw [reads, vars_written (by simp [read]) (by simpa [read, Function.comp_def] using well.names)]
  simp [varFields, read, Function.comp_def]

theorem counter_read {obj : Json} {key : String} {value : Nat} (small : value < 2147483648)
    (written : get obj (.lit key) = some (.int (toInt value))) : toSize (jgetInt lib obj key) = value := by
  have fits : Int32 (toInt value) := by
    rw [toInt_of_lt small]
    exact ⟨by omega, by omega⟩
  rw [jgetInt_written lib fits written, toSize_toInt small]

theorem state_reread {s : LtfState} (well : WellState s) : ∃ root back, ltfStateToJson beyond s = some root ∧
    ltfStateFromJson lib root = some (some back) ∧ (ltfStateToJson beyond back = some root ↔ StateFound s) := by
  obtain ⟨fields, entries, again⟩ := vars_reread well
  obtain ⟨tests, readTests, sameTests⟩ := tests_reread lib beyond (s.tests.getD []) well.tests
  obtain ⟨root, written⟩ : ∃ root, ltfStateToJson beyond s = some root := by simp [ltfStateToJson, entries]
  obtain ⟨⟨members, object⟩, project, version, os, osVersion, started, finished, target, vars, tags, array, total,
    passed, failed, amount⟩ := state_get written
  have size : (s.tests.getD []).length = s.totalAmount := well.total.symm
  let back : LtfState := {
    projectName := s.projectName, ltfVersion := s.ltfVersion, os := s.os, osVersion := s.osVersion
    started := s.started, finished := s.finished, target := s.target
    vars := jsonObjectToVars (.object fields)
    tags := jsonArrayToDaStrings lib (daStringsToJsonArray s.tags)
    tests := some tests
    totalAmount := s.totalAmount, passedAmount := s.passedAmount, failedAmount := s.failedAmount
    finishedAmount := s.finishedAmount }
  have reads : ltfStateFromJson lib root = some (some back) := by
    have small : ((s.tests.getD []).map (ltfStateTestToJson beyond)).length ≤ 2147483648 := by
      rw [List.length_map, size]
      exact Nat.le_of_lt well.totalAmount
    subst object
    simp only [ltfStateFromJson, array, elements, fetch_small Json.null small, readTests,
      jgetStrDup_written lib project, jgetStrDup_written lib version, jgetStrDup_written lib os,
      jgetStrDup_written lib osVersion, jgetStrDup_written lib started,
      jgetStrDup_written lib finished, jgetStrDup_written lib target, vars, entries, tags, Option.bind_some,
      counter_read lib well.passedAmount passed, counter_read lib well.failedAmount failed,
      counter_read lib well.finishedAmount amount, List.length_map, size]
    rfl
  refine ⟨root, back, written, reads, ?_, ?_⟩
  · intro rewritten
    obtain ⟨-, -, -, -, -, -, -, -, -, tags', array', -⟩ := state_get rewritten
    have sameTags := Option.some.inj (tags'.symm.trans tags)
    have sameArray := Json.array.inj (Option.some.inj (array'.symm.trans array))
    exact ⟨(tags_reread lib s.tags).mp sameTags, sameTests.mp sameArray⟩
  · intro found
    obtain ⟨foundTags, foundTests⟩ := found
    have sameTags := (tags_reread lib s.tags).mpr foundTags
    have sameArray := sameTests.mpr foundTests
    rw [← written]
    simp only [ltfStateToJson, back, again, entries, sameTags, Option.getD_some, sameArray]

/-- A well-formed state is written, read and written again as the same JSON value exactly
when no message is overlong and each `int` index finds what it stands for. -/
theorem state_round_trip_iff (s : LtfState) (well : WellState s) : RoundTrip lib beyond s ↔ StateFound s := by
  obtain ⟨root, back, written, reads, same⟩ := state_reread lib beyond well
  constructor
  · intro trip
    obtain ⟨root', back', written', reads', rewritten⟩ := trip
    obtain rfl : root = root' := by simpa [written] using written'
    obtain rfl : back = back' := by simpa [reads] using reads'
    exact same.mp rewritten
  · intro found
    exact ⟨root, back, written, reads, same.mpr found⟩

end State

/-- Arrays all of whose indices fit an `int`. -/
def Indexable {α : Type} (arr : DaPtr α) : Prop := (arr.getD []).length ≤ 2147483648

inductive IndexableKeyword : KeywordStatus → Prop where
  | mk {keyword} (size : Indexable keyword.children) (kids : ∀ kid ∈ keyword.children.getD [], IndexableKeyword kid) :
      IndexableKeyword keyword

structure IndexableTest (t : StateTest) : Prop where
  tags : Indexable t.tags
  outputs : ∀ arr ∈ outputArrays t, Indexable arr
  keywords : Indexable t.keywordStatuses ∧ ∀ keyword ∈ t.keywordStatuses.getD [], IndexableKeyword keyword

theorem same_keyword {keyword : KeywordStatus} (small : IndexableKeyword keyword) : SameKeyword keyword keyword := by
  induction small with
  | mk size kids ih =>
    obtain ⟨-, found⟩ : Found SameKeyword {} _ _ := found_small {} size ih
    exact .mk rfl rfl rfl rfl rfl rfl found

theorem state_found {s : LtfState} (tags : Indexable s.tags) (tests : ∀ t ∈ s.tests.getD [], IndexableTest t)
    (messages : ∀ t ∈ s.tests.getD [], ∀ arr ∈ outputArrays t, ∀ o ∈ arr.getD [], ¬ Overlong o) : StateFound s := by
  refine ⟨found_small none tags fun _ _ => rfl, ?_⟩
  intro t inside
  obtain ⟨small, outputs, sizes, kids⟩ := tests t inside
  refine ⟨found_small none small fun _ _ => rfl, fun arr among => ⟨messages t inside arr among, ?_⟩,
    found_small {} sizes fun keyword inside => same_keyword (kids keyword inside)⟩
  exact found_small {} (outputs arr among) fun _ _ => SameOutput.mk rfl rfl rfl rfl rfl

/-- A state with one test that has logged one message while it ran one keyword. -/
def loggedState (msg : CStr) (msgLen : Nat) : LtfState where
  projectName := some (.lit "project")
  tests := some [{
    name := some (.lit "talks")
    outputs := some [{ level := some .info, msg := some msg, msgLen }]
    keywordStatuses := some [{ name := some (.lit "check") }] }]
  totalAmount := 1

/-- Its one test. -/
theorem loggedState_test {msg : CStr} {msgLen : Nat} {t : StateTest}
    (inside : t ∈ (loggedState msg msgLen).tests.getD []) :
    t.tags = none ∧ t.failureReasons = none ∧ t.outputs = some [{ level := some .info, msg := some msg, msgLen }] ∧
      t.teardownOutputs = none ∧ t.teardownErrors = none ∧
        t.keywordStatuses = some [{ name := some (.lit "check") }] := by
  obtain rfl := List.mem_singleton.mp inside
  exact ⟨rfl, rfl, rfl, rfl, rfl, rfl⟩

theorem loggedState_well {msg : CStr} {msgLen : Nat} (inside : msgLen ≤ msg.bytes.length) :
    WellState (loggedState msg msgLen) := by
  have line : Int32 0 := ⟨by decide, by decide⟩
  refine ⟨rfl, by simp [loggedState], by simp [loggedState], by simp [loggedState], by simp [loggedState], ?_,
    by simp [loggedState], by simp [loggedState]⟩
  intro t among
  obtain ⟨-, reasons, outputs, teardowns, errors, keywords⟩ := loggedState_test among
  constructor
  · rw [forall_outputArrays, reasons, outputs, teardowns, errors]
    refine ⟨by simp, ?_, by simp, by simp⟩
    intro o logged
    obtain rfl := List.mem_singleton.mp logged
    exact ⟨line, rfl, fun text found => Option.some.inj found ▸ inside⟩
  · rw [keywords]
    intro keyword ran
    obtain rfl := List.mem_singleton.mp ran
    exact .mk line (by simp)

theorem loggedState_indexable (msg : CStr) (msgLen : Nat) :
    ∀ t ∈ (loggedState msg msgLen).tests.getD [], IndexableTest t := by
  intro t among
  obtain ⟨tags, reasons, outputs, teardowns, errors, keywords⟩ := loggedState_test among
  refine ⟨by simp [Indexable, tags], ?_, by simp [Indexable, keywords], ?_⟩
  · rw [forall_outputArrays]
    simp [Indexable, reasons, outputs, teardowns, errors]
  · rw [keywords]
    intro keyword ran
    obtain rfl := List.mem_singleton.mp ran
    exact .mk (by simp [Indexable]) (by simp)

theorem state_round_trip_short : RoundTrip default (fun _ => 0) (loggedState (.lit "hi") 2) := by
  have well : WellState (loggedState (.lit "hi") 2) := loggedState_well (by decide)
  refine (state_round_trip_iff default (fun _ => 0) (loggedState (.lit "hi") 2) well).mpr ?_
  apply state_found (by simp [Indexable, loggedState]) (loggedState_indexable _ _)
  intro t among
  obtain ⟨-, reasons, outputs, teardowns, errors, -⟩ := loggedState_test among
  rw [forall_outputArrays, reasons, outputs, teardowns, errors]
  simp [Overlong, toInt]

theorem overlong_lost {msg : CStr} {msgLen : Nat} (inside : msgLen ≤ msg.bytes.length) (negative : toInt msgLen < 0) :
    ¬ RoundTrip default (fun _ => 0) (loggedState msg msgLen) := by
  intro trip
  obtain ⟨root, back, written, reads, rewritten⟩ := trip
  obtain ⟨root', back', written', reads', same⟩ := state_reread default (fun _ => 0) (loggedState_well inside)
  obtain rfl : root = root' := by simpa [written] using written'
  obtain rfl : back = back' := by simpa [reads] using reads'
  have found := ((same.mp rewritten).tests _ (.head _)).outputs _ (.tail _ (.head _))
  exact found.messages _ (.head _) ⟨rfl, negative⟩

def letters (count : Nat) : CStr where
  bytes := List.replicate count 97
  terminated := by simp [List.mem_replicate]

theorem two_gigabytes_lost : ¬ RoundTrip default (fun _ => 0) (loggedState (letters 2147483648) 2147483648) := by
  have length : ∀ count, (letters count).bytes.length = count := fun count => List.length_replicate ..
  exact overlong_lost (length _).ge (by decide)

end Ltf.Proofs.StateRoundTrip
