import Ltf.HookContext
import Ltf.Proofs.KeywordTree
import Ltf.Proofs.LuaSlots
import Ltf.Proofs.StackHeights

/-! The context of a hook is the image of the state, and exactly one value on the stack. The
slots it takes on the way grow with the depth of the keywords of the current test, and
nothing asks Lua for more than there are. -/

namespace Ltf.Proofs.ContextImage
open CString HookContext LuaStack LuaTraversal LuaSlots KeywordTree

/-- A value, and the slots that are in use while it is built, its own included. -/
structure Plan where
  data : LuaData
  room : Nat

/-- What `lua_setfield` and `lua_seti` make of the entries of a table. -/
def enter (key : LuaValue) (data : LuaData) (entries : LuaEntries) : LuaEntries :=
  match data with
  | .value .nil => entries.filter (·.1 ≠ key)
  | data => Assoc.put entries (key, data)

abbrev Field := LuaValue × Option Plan

def enterField (entries : LuaEntries) (field : Field) : LuaEntries :=
  match field.2 with
  | none => entries
  | some plan => enter field.1 plan.data entries

def fieldRoom (field : Field) : Nat := (field.2.map (·.room)).getD 0

/-- A table with these fields, those that are `NULL` left out. -/
def record (fields : List Field) : Plan where
  data := .table none (fields.foldl enterField [])
  room := 1 + maximum (fields.map fieldRoom)

/-- A table with these values at `1, 2, ...`. -/
def numbered : Nat → List Plan → List Field
  | _, [] => []
  | i, plan :: plans => (.integer (i + 1), some plan) :: numbered (i + 1) plans

def sequence (plans : List Plan) : Plan := record (numbered 0 plans)

def scalar (value : LuaValue) : Plan := ⟨.value value, 1⟩

def text (key : CStr) (value : Option CStr) : Field :=
  (.string key.bytes, value.map fun value => scalar (.string value.bytes))

def named (key : CStr) (plan : Plan) : Field := (.string key.bytes, some plan)

section Image

def tagPlan (tag : Option CStr) : Plan := scalar ((tag.map fun text => LuaValue.string text.bytes).getD .nil)

def outputPlan (o : TestOutput) : Plan :=
  record [text (.lit "msg") o.msg, text (.lit "level") (ltfLogLevelToStr o.level), text (.lit "date_time") o.dateTime,
    text (.lit "file") o.file, named (.lit "line") (scalar (.integer o.line))]

mutual
def keywordPlan : KeywordStatus → Plan
  | .mk children name started finished _ file line =>
    record [text (.lit "name") name, text (.lit "started") started, text (.lit "finished") finished,
      text (.lit "file") file, named (.lit "line") (scalar (.integer line)),
      named (.lit "children") (sequence (match children with
        | none => []
        | some children => keywordPlans children))]

def keywordPlans : List KeywordStatus → List Plan
  | [] => []
  | child :: children => keywordPlan child :: keywordPlans children
end

theorem keywordPlans_eq (children : List KeywordStatus) : keywordPlans children = children.map keywordPlan := by
  induction children with
  | nil => rfl
  | cons child children ih => rw [keywordPlans, ih, List.map_cons]

theorem keywordPlan_eq (children : Option (List KeywordStatus)) (name started finished : Option CStr) (ignored : Bool)
    (file : Option CStr) (line : Int) : keywordPlan (.mk children name started finished ignored file line) =
    record [text (.lit "name") name, text (.lit "started") started, text (.lit "finished") finished,
      text (.lit "file") file, named (.lit "line") (scalar (.integer line)),
      named (.lit "children") (sequence ((children.getD []).map keywordPlan))] := by
  cases children with
  | none => rfl
  | some children => rw [keywordPlan, keywordPlans_eq, Option.getD_some]

def testPlan (t : StateTest) : Plan :=
  record [text (.lit "name") t.name, text (.lit "started") t.started, text (.lit "description") t.description,
    text (.lit "finished") t.finished, text (.lit "status") t.statusStr, text (.lit "teardown_start") t.teardownStart,
    text (.lit "teardown_end") t.teardownEnd, named (.lit "tags") (sequence ((t.tags.getD []).map tagPlan)),
    named (.lit "outputs") (sequence ((t.outputs.getD []).map outputPlan)),
    named (.lit "failure_reasons") (sequence ((t.failureReasons.getD []).map outputPlan)),
    named (.lit "teardown_outputs") (sequence ((t.teardownOutputs.getD []).map outputPlan)),
    named (.lit "teardown_errors") (sequence ((t.teardownErrors.getD []).map outputPlan)),
    named (.lit "keywords") (sequence ((t.keywordStatuses.getD []).map keywordPlan))]

def pairsPlan (pairs : List (CStr × Option CStr)) : Plan := record (pairs.map fun pair => text pair.1 pair.2)

def testRunPlan (globals : Globals) (state : LtfState) : Plan :=
  record [text (.lit "project_name") state.projectName, text (.lit "ltf_version") state.ltfVersion,
    text (.lit "os") state.os, text (.lit "os_version") state.osVersion, text (.lit "target") state.target,
    text (.lit "started") state.started, text (.lit "finished") state.finished,
    named (.lit "tags") (sequence ((state.tags.getD []).map tagPlan)),
    named (.lit "vars") (pairsPlan (globals.vars.map fun var => (var.name, var.finalValue))),
    named (.lit "secrets") (pairsPlan (globals.secrets.map fun secret => (secret.1, some secret.2)))]

def logsPlan (logs : Option LogPaths) : Plan :=
  record [text (.lit "dir") (logs.map (·.logsDir)), text (.lit "raw_log") (logs.map (·.rawLogFilePath)),
    text (.lit "output_log") (logs.map (·.outputLogFilePath))]

/-- The context as a value: the run, the current test if there is one, and the logs. -/
def contextPlan (globals : Globals) (state : LtfState) : Plan :=
  record [named (.lit "test_run") (testRunPlan globals state),
    (.string (CStr.lit "test").bytes, (state.tests.getD []).getLast?.map testPlan),
    named (.lit "logs") (logsPlan globals.logs)]

end Image

section Builders
variable {limit : Option Nat} {slots : List LuaData}

/-- The program pushes the value of the plan, or there are not enough slots for it. -/
def Builds (program : LuaStack → LuaRun LuaStack) (plan : Plan) : Prop :=
  ∀ limit slots, (Fits limit (slots.length + plan.room) → program ⟨slots, limit⟩ = .ok ⟨plan.data :: slots, limit⟩) ∧
    (¬ Fits limit (slots.length + plan.room) → program ⟨slots, limit⟩ = .error .overflow)

/-- The program adds the fields to the table on top, or there are not enough slots for one of them. -/
def Fills (program : LuaStack → LuaRun LuaStack) (fields : List Field) : Prop :=
  ∀ limit slots entries, Fits limit (slots.length + 1) →
    (Fits limit (slots.length + 1 + maximum (fields.map fieldRoom)) →
      program ⟨.table none entries :: slots, limit⟩ = .ok ⟨.table none (fields.foldl enterField entries) :: slots, limit⟩) ∧
    (¬ Fits limit (slots.length + 1 + maximum (fields.map fieldRoom)) →
      program ⟨.table none entries :: slots, limit⟩ = .error .overflow)

theorem maximum_append (first rest : List Nat) : maximum (first ++ rest) = max (maximum first) (maximum rest) := by
  induction first with
  | nil => exact (Nat.zero_max _).symm
  | cons height first ih =>
    show max height (maximum (first ++ rest)) = max (max height (maximum first)) _
    rw [ih, Nat.max_assoc]

theorem set_enter (slots : List LuaData) (entries : LuaEntries) (data : LuaData) (key : LuaValue) :
    LuaStack.set ⟨data :: .table none entries :: slots, limit⟩ key = ⟨.table none (enter key data entries) :: slots, limit⟩ := by
  cases data with
  | table => rfl
  | value value => cases value <;> rfl

theorem push_builds (value : LuaValue) : Builds (·.push (.value value)) (scalar value) := by
  intro limit slots
  refine ⟨fun fits => push_fits fits _, (push_pushes limit slots (.value value)).2⟩

theorem Fills.nil : Fills pure [] := by
  intro limit slots entries one
  exact ⟨fun _ => rfl, fun full => absurd one full⟩

/-- One field after the other. -/
theorem Fills.and_then {first rest : LuaStack → LuaRun LuaStack} {fields more : List Field} (begins : Fills first fields)
    (ends : Fills rest more) : Fills (fun L => first L >>= rest) (fields ++ more) := by
  intro limit slots entries one
  obtain ⟨filled, full⟩ := begins limit slots entries one
  rw [List.map_append, maximum_append, fits_max, List.foldl_append]
  by_cases room : Fits limit (slots.length + 1 + maximum (fields.map fieldRoom))
  · obtain ⟨filled', full'⟩ := ends limit slots (fields.foldl enterField entries) one
    have goes : first ⟨.table none entries :: slots, limit⟩ >>= rest = rest _ := Steps.bind_of_ok (filled room)
    exact ⟨fun both => goes.trans (filled' both.2), fun short => goes.trans (full' fun more => short ⟨room, more⟩)⟩
  · have stops : first ⟨.table none entries :: slots, limit⟩ >>= rest = _ := Steps.bind_of_error (full room)
    exact ⟨fun both => absurd both.1 room, fun _ => stops⟩

/-- What is built becomes the value at a key. -/
theorem Builds.set {program : LuaStack → LuaRun LuaStack} {plan : Plan} (builds : Builds program plan) (key : LuaValue) :
    Fills (fun L => program L >>= fun L => pure (L.set key)) [(key, some plan)] := by
  intro limit slots entries _
  obtain ⟨built, full⟩ := builds limit (.table none entries :: slots)
  have room : maximum ([((key, some plan) : Field)].map fieldRoom) = plan.room := Nat.max_zero _
  rw [room]
  refine ⟨fun fits => ?_, fun short => Steps.bind_of_error (full short)⟩
  have goes : program ⟨.table none entries :: slots, limit⟩ >>= (fun L => pure (L.set key)) =
      pure (LuaStack.set ⟨plan.data :: .table none entries :: slots, limit⟩ key) := Steps.bind_of_ok (built fits)
  rw [set_enter] at goes
  exact goes

theorem Builds.field {program : LuaStack → LuaRun LuaStack} {plan : Plan} (builds : Builds program plan) (key : CStr) :
    Fills (pushField key program) [named key plan] :=
  builds.set _

theorem string_fills (key : CStr) (value : Option CStr) : Fills (pushString key value) [text key value] := by
  cases value with
  | none =>
    intro limit slots entries one
    exact ⟨fun _ => rfl, fun full => absurd one full⟩
  | some value => exact (push_builds (.string value.bytes)).field key

theorem integer_fills (key : CStr) (value : Int) : Fills (pushInteger key value) [named key (scalar (.integer value))] :=
  (push_builds (.integer value)).field key

/-- A new table that is filled. -/
theorem Fills.record {program : LuaStack → LuaRun LuaStack} {fields : List Field} (fills : Fills program fields) :
    Builds (fun L => newTable L >>= program) (record fields) := by
  intro limit slots
  have sum : slots.length + (ContextImage.record fields).room = slots.length + 1 + maximum (fields.map fieldRoom) :=
    (Nat.add_assoc ..).symm
  rw [sum]
  by_cases one : Fits limit (slots.length + 1)
  · have pushed : newTable ⟨slots, limit⟩ = .ok ⟨.table none [] :: slots, limit⟩ := push_fits one _
    have goes : newTable ⟨slots, limit⟩ >>= program = program ⟨.table none [] :: slots, limit⟩ := Steps.bind_of_ok pushed
    obtain ⟨filled, full⟩ := fills limit slots [] one
    exact ⟨fun fits => goes.trans (filled fits), fun short => goes.trans (full short)⟩
  · have full : newTable ⟨slots, limit⟩ = .error .overflow := (push_pushes limit slots _).2 one
    exact ⟨fun fits => absurd (fits.mono (Nat.le_add_right ..)) one, fun _ => Steps.bind_of_error full⟩

theorem items_fill {α : Type} {pushItem : α → LuaStack → LuaRun LuaStack} {plan : α → Plan} {items : List α}
    (each : ∀ item ∈ items, Builds (pushItem item) (plan item)) (i : Nat) :
    Fills (pushItems pushItem i items) (numbered i (items.map plan)) := by
  induction items generalizing i with
  | nil => exact .nil
  | cons item items ih =>
    have first := (each item (by simp)).set (.integer (i + 1))
    have both := first.and_then (ih (fun other inside => each other (by simp [inside])) (i + 1))
    intro limit slots entries one
    have same : ∀ L, pushItems pushItem i (item :: items) L =
        (pushItem item L >>= fun L => pure (L.set (.integer (i + 1)))) >>= pushItems pushItem (i + 1) items := by
      intro L
      rw [pushItems, bind_assoc]
      rfl
    rw [same]
    exact both limit slots entries one

theorem list_builds {α : Type} {pushItem : α → LuaStack → LuaRun LuaStack} {plan : α → Plan} {items : List α}
    (each : ∀ item ∈ items, Builds (pushItem item) (plan item)) :
    Builds (pushList pushItem items) (sequence (items.map plan)) :=
  (items_fill each 0).record

theorem strings_fill (pairs : List (CStr × Option CStr)) :
    Fills (pushStrings pairs) (pairs.map fun pair => text pair.1 pair.2) := by
  induction pairs with
  | nil => exact .nil
  | cons pair pairs ih => exact (string_fills pair.1 pair.2).and_then ih

section Then
variable {rest : LuaStack → LuaRun LuaStack} {more : List Field}

theorem string_then (ends : Fills rest more) (key : CStr) (value : Option CStr) :
    Fills (fun L => pushString key value L >>= rest) (text key value :: more) :=
  (string_fills key value).and_then ends

theorem field_then {program : LuaStack → LuaRun LuaStack} {plan : Plan} (builds : Builds program plan) (ends : Fills rest more)
    (key : CStr) : Fills (fun L => pushField key program L >>= rest) (named key plan :: more) :=
  (builds.field key).and_then ends

end Then

theorem output_builds (o : TestOutput) : Builds (pushOutput o) (outputPlan o) := by
  apply Fills.record
  iterate 4 apply string_then
  exact integer_fills _ _

theorem children_build (children : Option (List KeywordStatus)) :
    (∀ kid ∈ children.getD [], Builds (pushKeyword kid) (keywordPlan kid)) →
    Builds (fun L => newTable L >>= fun L => match children with
      | none => pure L
      | some children => pushChildren 0 children L) (sequence ((children.getD []).map keywordPlan)) := by
  intro each
  apply Fills.record
  cases children with
  | none => exact .nil
  | some children =>
    have filled := items_fill each 0
    intro limit slots entries
    show _ → (_ → pushChildren 0 children _ = _) ∧ (_ → pushChildren 0 children _ = _)
    rw [pushChildren_eq]
    exact filled limit slots entries

theorem keyword_builds (node : KeywordStatus) : Builds (pushKeyword node) (keywordPlan node) := by
  induction node using keyword_induction with
  | step node each =>
    obtain ⟨children, name, started, finished, ignored, file, line⟩ := node
    intro limit slots
    rw [pushKeyword, keywordPlan_eq]
    revert limit slots
    apply Fills.record
    iterate 4 apply string_then
    apply (integer_fills _ _).and_then
    exact (children_build children each).field _

theorem pairs_build (pairs : List (CStr × Option CStr)) : Builds (pushPairs pairs) (pairsPlan pairs) :=
  (strings_fill pairs).record

theorem tags_build (tags : List (Option CStr)) : Builds (pushList luaPushString tags) (sequence (tags.map tagPlan)) :=
  list_builds fun _ _ => push_builds _

theorem outputs_build (outputs : List TestOutput) : Builds (pushList pushOutput outputs) (sequence (outputs.map outputPlan)) :=
  list_builds fun o _ => output_builds o

theorem test_run_builds (globals : Globals) (state : LtfState) :
    Builds (pushTestRun globals state) (testRunPlan globals state) := by
  apply Fills.record
  iterate 7 apply string_then
  apply field_then (tags_build _)
  apply field_then (pairs_build _)
  exact (pairs_build _).field _

theorem test_builds (t : StateTest) : Builds (pushTest t) (testPlan t) := by
  apply Fills.record
  iterate 7 apply string_then
  apply field_then (tags_build _)
  iterate 4 apply field_then (outputs_build _)
  exact (list_builds fun node _ => keyword_builds node).field _

theorem logs_build (logs : Option LogPaths) : Builds (pushLogs logs) (logsPlan logs) := by
  apply Fills.record
  iterate 2 apply string_then
  exact string_fills _ _

theorem context_builds (globals : Globals) (state : LtfState) :
    Builds (hooksContextPush globals state) (contextPlan globals state) := by
  apply Fills.record
  apply field_then (test_run_builds globals state)
  have logs := (logs_build globals.logs).field (.lit "logs")
  cases current : (state.tests.getD []).getLast? with
  | none =>
    intro limit slots entries
    exact logs limit slots entries
  | some t => exact field_then (test_builds t) logs _

end Builders
section Depth

mutual
def depth : KeywordStatus → Nat
  | .mk none _ _ _ _ _ _ => 1
  | .mk (some children) _ _ _ _ _ _ => 1 + deepest children

def deepest : List KeywordStatus → Nat
  | [] => 0
  | child :: children => max (depth child) (deepest children)
end

theorem depth_eq (node : KeywordStatus) : depth node = 1 + deepest (kids node) := by
  obtain ⟨children, name, started, finished, ignored, file, line⟩ := node
  cases children <;> rfl

theorem numbered_room (i : Nat) (plans : List Plan) : (numbered i plans).map fieldRoom = plans.map (·.room) := by
  induction plans generalizing i with
  | nil => rfl
  | cons plan plans ih =>
    rw [numbered, List.map_cons, ih, List.map_cons]
    rfl

theorem sequence_room (plans : List Plan) : (sequence plans).room = 1 + maximum (plans.map (·.room)) := by
  rw [← numbered_room 0]
  rfl

theorem text_room (key : CStr) (value : Option CStr) : fieldRoom (text key value) ≤ 1 := by
  cases value with
  | none => exact Nat.zero_le 1
  | some value => exact Nat.le_refl 1

@[simp] theorem named_room (key : CStr) (plan : Plan) : fieldRoom (named key plan) = plan.room := rfl

theorem record_room_le (fields : List Field) (n : Nat) :
    (record fields).room ≤ n + 1 ↔ ∀ field ∈ fields, fieldRoom field ≤ n := by
  show 1 + maximum (fields.map fieldRoom) ≤ n + 1 ↔ _
  rw [Nat.add_comm, Nat.add_le_add_iff_right, maximum_le, List.forall_mem_map]

theorem sequence_room_le (plans : List Plan) (n : Nat) :
    (sequence plans).room ≤ n + 1 ↔ ∀ plan ∈ plans, plan.room ≤ n := by
  rw [sequence_room, Nat.add_comm, Nat.add_le_add_iff_right, maximum_le, List.forall_mem_map]

theorem maximum_twice (forest : List KeywordStatus) : maximum (forest.map (2 * depth ·)) = 2 * deepest forest := by
  induction forest with
  | nil => rfl
  | cons node forest ih =>
    show max (2 * depth node) (maximum (forest.map (2 * depth ·))) = 2 * max (depth node) (deepest forest)
    rw [ih]
    omega

/-- A level of keywords takes a slot for the keyword and one for the list of its children. -/
theorem keyword_room (node : KeywordStatus) : (keywordPlan node).room = 2 * depth node := by
  induction node using keyword_induction with
  | step node each =>
    obtain ⟨children, name, started, finished, ignored, file, line⟩ := node
    have below : (sequence ((children.getD []).map keywordPlan)).room = 1 + 2 * deepest (children.getD []) := by
      rw [sequence_room, List.map_map, ← maximum_twice]
      exact congrArg (1 + maximum ·) (List.map_congr_left each)
    rw [keywordPlan_eq, depth_eq]
    show 1 + max (fieldRoom (text _ name)) (max (fieldRoom (text _ started)) (max (fieldRoom (text _ finished))
      (max (fieldRoom (text _ file)) (max 1 (max (sequence ((children.getD []).map keywordPlan)).room 0))))) = _
    have name_room := text_room (.lit "name") name
    have started_room := text_room (.lit "started") started
    have finished_room := text_room (.lit "finished") finished
    have file_room := text_room (.lit "file") file
    show _ = 2 * (1 + deepest (children.getD []))
    omega

theorem keywords_room_le (forest : List KeywordStatus) (n : Nat) :
    (sequence (forest.map keywordPlan)).room ≤ n + 1 ↔ 2 * deepest forest ≤ n := by
  rw [sequence_room, Nat.add_comm, Nat.add_le_add_iff_right, List.map_map, ← maximum_twice]
  exact Eq.to_iff (congrArg (maximum · ≤ n) (List.map_congr_left fun node _ => keyword_room node))

theorem outputs_room (outputs : List TestOutput) : (sequence (outputs.map outputPlan)).room ≤ 3 := by
  rw [sequence_room_le, List.forall_mem_map]
  intro o _
  rw [outputPlan, record_room_le]
  simp [text_room, scalar]

theorem tags_room (tags : List (Option CStr)) : (sequence (tags.map tagPlan)).room ≤ 2 := by
  rw [sequence_room_le, List.forall_mem_map]
  exact fun _ _ => Nat.le_refl 1

theorem pairs_room (pairs : List (CStr × Option CStr)) : (pairsPlan pairs).room ≤ 2 := by
  rw [pairsPlan, record_room_le, List.forall_mem_map]
  exact fun _ _ => text_room ..

theorem test_run_room (globals : Globals) (state : LtfState) : (testRunPlan globals state).room ≤ 3 := by
  rw [testRunPlan, record_room_le]
  have short : ∀ key value, fieldRoom (text key value) ≤ 2 := fun key value => (text_room key value).trans (Nat.le_succ 1)
  simp [short, tags_room, pairs_room]

theorem logs_room (logs : Option LogPaths) : (logsPlan logs).room ≤ 2 := by
  rw [logsPlan, record_room_le]
  simp [text_room]

theorem test_room_le (t : StateTest) {n : Nat} (enough : 3 ≤ n) :
    (testPlan t).room ≤ n + 1 ↔ 1 + 2 * deepest (t.keywordStatuses.getD []) ≤ n := by
  obtain ⟨m, rfl⟩ : ∃ m, n = m + 1 := ⟨n - 1, by omega⟩
  have short : ∀ key value, fieldRoom (text key value) ≤ m + 1 := fun key value => (text_room key value).trans (by omega)
  have tags : ∀ tags : List (Option CStr), (sequence (tags.map tagPlan)).room ≤ m + 1 := fun tags => (tags_room tags).trans (by omega)
  have outputs : ∀ outputs : List TestOutput, (sequence (outputs.map outputPlan)).room ≤ m + 1 :=
    fun outputs => (outputs_room outputs).trans enough
  rw [testPlan, record_room_le]
  simp only [List.forall_mem_cons, short, named_room, tags, outputs, keywords_room_le]
  simp
  omega

/-- The keywords of the current test. -/
def currentKeywords (state : LtfState) : List KeywordStatus :=
  ((state.tests.getD []).getLast?.bind (·.keywordStatuses)).getD []

theorem context_room_le (globals : Globals) (state : LtfState) {n : Nat} (enough : 5 ≤ n) :
    (contextPlan globals state).room ≤ n ↔ 3 + 2 * deepest (currentKeywords state) ≤ n := by
  obtain ⟨m, rfl⟩ : ∃ m, n = m + 1 := ⟨n - 1, by omega⟩
  have run : (testRunPlan globals state).room ≤ m := (test_run_room globals state).trans (by omega)
  have logs : (logsPlan globals.logs).room ≤ m := (logs_room globals.logs).trans (by omega)
  rw [contextPlan, record_room_le]
  simp only [List.forall_mem_cons, named_room, run, logs, currentKeywords]
  cases (state.tests.getD []).getLast? with
  | none => simp [fieldRoom, deepest]; omega
  | some t =>
    obtain ⟨k, rfl⟩ : ∃ k, m = k + 1 := ⟨m - 1, by omega⟩
    have test := test_room_le t (n := k) (by omega)
    simp [fieldRoom, test]
    omega

end Depth

section Reading

/-- What `lua_getfield` and `lua_geti` find in a table. -/
def entryAt (entries : LuaEntries) (key : LuaValue) : LuaData := (entries.lookup key).getD (.value .nil)

def index : LuaData → LuaValue → LuaData
  | .table _ entries, key => entryAt entries key
  | .value _, _ => .value .nil

def field (data : LuaData) (key : CStr) : LuaData := index data (.string key.bytes)

theorem entryAt_filter (entries : LuaEntries) (key other : LuaValue) :
    entryAt (entries.filter (·.1 ≠ key)) other = if other = key then .value .nil else entryAt entries other := by
  induction entries with
  | nil => simp [entryAt]
  | cons entry entries ih =>
    by_cases same : entry.1 = key
    · rw [List.filter_cons_of_neg (by simpa using same), ih, entryAt, entryAt, Assoc.lookup_cons, same]
      split <;> rfl
    · rw [List.filter_cons_of_pos (by simpa using same), entryAt, Assoc.lookup_cons, entryAt, Assoc.lookup_cons]
      by_cases here : other = entry.1
      · rw [if_pos here, if_pos here, if_neg (here ▸ same)]
      · rw [if_neg here, if_neg here]
        exact ih

/-- An entry is read back, and no other one is changed. -/
theorem entryAt_enter (key : LuaValue) (data : LuaData) (entries : LuaEntries) (other : LuaValue) :
    entryAt (enter key data entries) other = if other = key then data else entryAt entries other := by
  have put : entryAt (Assoc.put entries (key, data)) other = if other = key then data else entryAt entries other := by
    rw [entryAt, Assoc.lookup_put]
    split <;> rfl
  cases data with
  | table => exact put
  | value value =>
    cases value with
    | nil => exact entryAt_filter ..
    | _ => exact put

theorem entryAt_below (plans : List Plan) (i : Nat) (entries : LuaEntries) {key : Int} (below : key ≤ i) :
    entryAt ((numbered i plans).foldl enterField entries) (.integer key) = entryAt entries (.integer key) := by
  induction plans generalizing i entries with
  | nil => rfl
  | cons plan plans ih =>
    have other : LuaValue.integer key ≠ .integer (i + 1) := fun same => by
      cases same
      omega
    rw [numbered, List.foldl_cons, ih (i + 1) _ (by omega)]
    exact (entryAt_enter ..).trans (if_neg other)

theorem entryAt_numbered (plans : List Plan) (i j : Nat) (entries : LuaEntries) :
    entryAt ((numbered i plans).foldl enterField entries) (.integer (i + j + 1)) =
      (plans[j]?.map (·.data)).getD (entryAt entries (.integer (i + j + 1))) := by
  induction plans generalizing i j entries with
  | nil => rfl
  | cons plan plans ih =>
    rw [numbered, List.foldl_cons]
    cases j with
    | zero =>
      rw [entryAt_below plans (i + 1) _ (by omega)]
      exact (entryAt_enter ..).trans (if_pos (by simp))
    | succ j =>
      have same : (i : Int) + (j + 1 : Nat) + 1 = (i + 1 : Nat) + j + 1 := by omega
      have other : LuaValue.integer ((i + 1 : Nat) + j + 1) ≠ .integer (i + 1) := fun equal => by
        injection equal with equal
        omega
      have kept := (entryAt_enter (.integer (i + 1)) plan.data entries (.integer ((i + 1 : Nat) + j + 1))).trans (if_neg other)
      rw [same, ih, List.getElem?_cons_succ, ← kept]
      rfl

theorem index_sequence (plans : List Plan) (i : Nat) :
    index (sequence plans).data (.integer (i + 1)) = (plans[i]?.map (·.data)).getD (.value .nil) := by
  have found := entryAt_numbered plans 0 i []
  simpa [sequence, record, index, entryAt] using found

/-- `keywords[i].children[j]...`, with the positions counted from `1`. -/
def keywordAt : LuaData → List Nat → LuaData
  | _, [] => .value .nil
  | list, [i] => index list (.integer (i + 1))
  | list, i :: address => keywordAt (field (index list (.integer (i + 1))) (.lit "children")) address

theorem field_last (fields : List Field) (key : CStr) (plan : Plan) :
    field (record (fields ++ [named key plan])).data key = plan.data := by
  have found := (entryAt_enter (.string key.bytes) plan.data (fields.foldl enterField []) _).trans (if_pos rfl)
  rw [record, List.foldl_append]
  exact found

theorem field_children (node : KeywordStatus) :
    field (keywordPlan node).data (.lit "children") = (sequence ((kids node).map keywordPlan)).data := by
  obtain ⟨children, name, started, finished, ignored, file, line⟩ := node
  rw [keywordPlan_eq]
  exact field_last [_, _, _, _, _] ..

theorem keywordAt_nil (address : List Nat) : keywordAt (.value .nil) address = .value .nil := by
  induction address with
  | nil => rfl
  | cons i address ih =>
    cases address with
    | nil => rfl
    | cons j address => exact ih

/-- Every keyword of a forest is found at its address, and nothing anywhere else. -/
theorem keyword_found (address : List Nat) (forest : List KeywordStatus) :
    keywordAt (sequence (forest.map keywordPlan)).data address =
      ((nodeAt forest address).map (keywordPlan · |>.data)).getD (.value .nil) := by
  induction address generalizing forest with
  | nil => rfl
  | cons i address ih =>
    have here := index_sequence (forest.map keywordPlan) i
    rw [List.getElem?_map, Option.map_map] at here
    cases address with
    | nil => exact here
    | cons j address =>
      show keywordAt (field (index _ _) _) (j :: address) = ((forest[i]?.bind fun node => nodeAt (kids node) (j :: address)).map _).getD _
      rw [here]
      cases forest[i]? with
      | none => exact keywordAt_nil _
      | some node =>
        show keywordAt (field (keywordPlan node).data _) (j :: address) = _
        rw [field_children, ih]
        rfl

theorem nodeAt_nil (address : List Nat) : nodeAt [] address = none := by
  cases address with
  | nil => rfl
  | cons i address =>
    cases address with
    | nil => rfl
    | cons j address => rfl

/-- The keywords of the current test, where a hook finds them. -/
theorem current_found (globals : Globals) (state : LtfState) (address : List Nat) :
    keywordAt (field (field (contextPlan globals state).data (.lit "test")) (.lit "keywords")) address =
      ((nodeAt (currentKeywords state) address).map (keywordPlan · |>.data)).getD (.value .nil) := by
  have test : field (contextPlan globals state).data (.lit "test") =
      ((state.tests.getD []).getLast?.map (testPlan · |>.data)).getD (.value .nil) := by
    have other : LuaValue.string (CStr.lit "test").bytes ≠ .string (CStr.lit "logs").bytes := by decide
    have run : LuaValue.string (CStr.lit "test").bytes ≠ .string (CStr.lit "test_run").bytes := by decide
    cases current : (state.tests.getD []).getLast? with
    | none =>
      simp only [contextPlan, current, record, field, index, named, List.foldl_cons, List.foldl_nil, enterField,
        Option.map_none, Option.getD_none, entryAt_enter, if_neg other, if_neg run]
      rfl
    | some t =>
      simp only [contextPlan, current, record, field, index, named, List.foldl_cons, List.foldl_nil, enterField,
        Option.map_some, Option.getD_some, entryAt_enter, if_neg other, if_true]
  rw [test, currentKeywords]
  cases (state.tests.getD []).getLast? with
  | none =>
    show keywordAt (.value .nil) address = ((nodeAt [] address).map _).getD _
    rw [keywordAt_nil, nodeAt_nil]
    rfl
  | some t =>
    have keywords : field (testPlan t).data (.lit "keywords") = (sequence ((t.keywordStatuses.getD []).map keywordPlan)).data :=
      field_last [_, _, _, _, _, _, _, _, _, _, _, _] ..
    show keywordAt (field (testPlan t).data (.lit "keywords")) address = _
    rw [keywords, keyword_found]
    rfl

end Reading

section Hooks
open RunnerSteps HookLogs StackHeights
variable {env : Env} {r : Runner}

theorem takeLog_keywords (test : StateTest) (o : TestOutput) : (takeLog test o).keywordStatuses = test.keywordStatuses := by
  cases status : test.status <;> simp [takeLog, status]

variable (env) in
theorem log_keywords (call : LogCall) :
    Steps.Ends (ltfStateLog env call r) (fun after => currentKeywords after.state = currentKeywords r.state) := by
  intro after ran
  cases stage : r.state.currentStage with
  | hook =>
    rw [log_hook env stage call] at ran
    cases ran
    rfl
  | teardown =>
    simp only [ltfStateLog, tick_state, stage] at ran
    cases ran
    rfl
  | test =>
    have asks := log_asks env stage call
    by_cases empty : r.tests = []
    · rw [asks.absent empty] at ran
      cases ran
    · obtain ⟨earlier, test, here⟩ := has_record empty
      rw [log_test env here stage call] at ran
      cases ran
      simp [currentKeywords, recorded, here.tests, takeLog_keywords]

/-- A hook leaves the keywords of the current test alone, whatever it logs and defers. -/
theorem hook_keywords (fn : HookFn) (hook : LuaCode) :
    Steps.Ends (ltfHooksStep env fn r hook) (fun after => currentKeywords after.state = currentKeywords r.state) := by
  rw [hook_step_eq]
  have code : Steps.Ends (runLua env hook ((r.emit (r.state.hookStartedCbs.map (.hookStarted · fn))).push 2))
      (fun after => currentKeywords after.state = currentKeywords r.state) := by
    refine Steps.Ends.foldlM (fun middle action same => ?_) rfl
    cases action with
    | log call => exact fun after ran => (log_keywords env call after ran).trans same
    | defer fn args => exact .ok same
  refine code.bind fun called same => .ok ?_
  cases hook.outcome <;> exact same

theorem hooks_keywords {fn : HookFn} {done : List LuaCode} {middle : Runner}
    (ran : done.foldlM (ltfHooksStep env fn) r = .ok middle) : currentKeywords middle.state = currentKeywords r.state := by
  have kept : Steps.Ends (done.foldlM (ltfHooksStep env fn) r)
      (fun after => currentKeywords after.state = currentKeywords r.state) :=
    Steps.Ends.foldlM (fun _ hook same after ran => (hook_keywords fn hook after ran).trans same) rfl
  exact kept middle ran

/-- In the course of an event every hook finds the keywords of the current test in its context,
as long as its slots are there: a hook that failed before it holds one, and each level of
keywords takes two. -/
theorem context_pushed (env : Env) (globals : Globals) {fn : HookFn} {r after : Runner} (ran : ltfHooksRun env fn r = .ok after)
    {done rest : List LuaCode} {hook : LuaCode} (split : hookCalls r.state fn = done ++ hook :: rest)
    (small : r.luaTop + failures done + 6 ≤ luaMinstack) :
    ∃ middle, done.foldlM (ltfHooksStep env fn) (hooksStarted r) = .ok middle ∧
      ∀ below : List LuaData, below.length = middle.luaTop + 1 →
        if r.luaTop + failures done + 4 + 2 * deepest (currentKeywords r.state) ≤ luaMinstack then
          ∃ context, hooksContextPush globals middle.state ⟨below, some luaMinstack⟩ = .ok ⟨context :: below, some luaMinstack⟩ ∧
            ∀ address, keywordAt (field (field context (.lit "test")) (.lit "keywords")) address =
              ((nodeAt (currentKeywords r.state) address).map (keywordPlan · |>.data)).getD (.value .nil)
        else hooksContextPush globals middle.state ⟨below, some luaMinstack⟩ = .error .overflow := by
  have started : (done ++ hook :: rest).foldlM (ltfHooksStep env fn) (hooksStarted r) = .ok after := by
    rw [← split]
    cases hooks : hookCalls r.state fn with
    | nil => simp [hooks] at split
    | cons first others =>
      rw [← hooks_run_eq hooks]
      exact ran
  rw [List.foldlM_append, Steps.bind_ok] at started
  obtain ⟨middle, begun, _⟩ := started
  refine ⟨middle, begun, fun below height => ?_⟩
  have top : middle.luaTop = r.luaTop + failures done := (hooks_leave begun).top
  have same : currentKeywords middle.state = currentKeywords (hooksStarted r).state := hooks_keywords begun
  obtain ⟨built, full⟩ := context_builds globals middle.state (some luaMinstack) below
  have fits : Fits (some luaMinstack) (below.length + (contextPlan globals middle.state).room) ↔
      r.luaTop + failures done + 4 + 2 * deepest (currentKeywords r.state) ≤ luaMinstack := by
    have room := context_room_le globals middle.state (n := luaMinstack - below.length) (by omega)
    rw [same] at room
    change _ ↔ 3 + 2 * deepest (currentKeywords r.state) ≤ _ at room
    constructor
    · intro fits
      have bound := fits _ rfl
      have least := room.mp (by omega)
      omega
    · intro flat most is
      cases is
      have least := room.mpr (by omega)
      omega
  split
  next flat =>
    refine ⟨_, built (fits.mpr flat), fun address => ?_⟩
    rw [current_found, same]
    rfl
  next deep => exact full (mt fits.mp deep)

def nested : Nat → KeywordStatus
  | 0 => .mk none (some (.lit "leaf")) none none false none 1
  | n + 1 => .mk (some [nested n]) (some (.lit "outer")) none none false none 1

/-- A hook for the end of a test whose keywords nest this deep. -/
def afterNested (n : Nat) : Runner := { newRunner with state := { newRunner.state with
  tests := TestRun.twoTests.head?.map fun tc =>
    [{ TestRun.newRecord plainEnv tc newRunner with keywordStatuses := some [nested n] }]
  hooksTestFinished := [fun _ => .mk [] .returned] } }

/-- Eight levels of keywords are found in the context, for nine there is no room. -/
theorem context_pushed_nested :
    (∃ context, hooksContextPush {} (hooksStarted (afterNested 7)).state ⟨[.value .nil], some luaMinstack⟩ =
      .ok ⟨[context, .value .nil], some luaMinstack⟩) ∧
    hooksContextPush {} (hooksStarted (afterNested 8)).state ⟨[.value .nil], some luaMinstack⟩ = .error .overflow := by
  have one : ∀ n, ∃ after, ltfHooksRun plainEnv .testFinished (afterNested n) = .ok after := fun n => ⟨_, rfl⟩
  obtain ⟨after, ran⟩ := one 7
  obtain ⟨after', ran'⟩ := one 8
  have first : hookCalls (afterNested 7).state .testFinished = [] ++ .mk [] .returned :: [] := rfl
  have second : hookCalls (afterNested 8).state .testFinished = [] ++ .mk [] .returned :: [] := rfl
  obtain ⟨eight, begun, shallow⟩ := context_pushed plainEnv {} ran first (by decide)
  obtain ⟨nine, begun', deep⟩ := context_pushed plainEnv {} ran' second (by decide)
  cases begun
  cases begun'
  constructor
  · have built := shallow [.value .nil] rfl
    rw [if_pos (by decide)] at built
    obtain ⟨context, pushed, _⟩ := built
    exact ⟨context, pushed⟩
  · have full := deep [.value .nil] rfl
    rwa [if_neg (by decide)] at full

end Hooks

end Ltf.Proofs.ContextImage
