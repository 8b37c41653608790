import Ltf.Proofs.LuaLayout

/-! `lua_to_json` on tables. A table in which the loop never loses its key is converted
entry by entry; otherwise an error is raised, or more is left on the stack than was there. -/

namespace Ltf.Proofs.LuaToJson
open CString JsonC LuaStack LuaTraversal LuaLayout

variable {lua : LuaTexts} {limit : Option Nat} {slots below : List LuaData} {index fuel : Nat} {entries : LuaEntries}
  {jsonType : Option LuaValue} {data : LuaData}

/-! `lua_table_is_array` and `lua_table_forced_array` -/

def sequenceStep (state : Int × Bool) (entry : LuaValue × LuaData) : Int × Bool :=
  match entry.1 with
  | .integer k => (if k > state.1 then k else state.1, state.2)
  | _ => (state.1, false)

def isSequence (entries : LuaEntries) : Bool :=
  let (max, arrayLike) := entries.foldl sequenceStep (0, true)
  arrayLike && decide (max > 0)

/-- Is the table converted to an array? -/
def arrayMode (jsonType : Option LuaValue) (entries : LuaEntries) : Bool :=
  jsonType.any isArrayName || isSequence entries

theorem sequence_fold (entries : LuaEntries) (max : Int) (arrayLike : Bool) :
    ((entries.foldl sequenceStep (max, arrayLike)).2 = true ↔
      arrayLike = true ∧ ∀ entry ∈ entries, ∃ k, entry.1 = .integer k) ∧
    (0 < (entries.foldl sequenceStep (max, arrayLike)).1 ↔
      0 < max ∨ ∃ entry ∈ entries, ∃ k, entry.1 = .integer k ∧ 0 < k) := by
  induction entries generalizing max arrayLike with
  | nil => simp
  | cons entry entries ih =>
    obtain ⟨key, data⟩ := entry
    rw [List.foldl_cons]
    cases key with
    | integer k =>
      obtain ⟨all, positive⟩ := ih (if k > max then k else max) arrayLike
      refine ⟨by simpa [sequenceStep] using all, ?_⟩
      simp only [sequenceStep, positive, List.mem_cons, exists_eq_or_imp, LuaValue.integer.injEq, exists_eq_left', ← or_assoc]
      apply or_congr_left
      split <;> omega
    | _ =>
      obtain ⟨all, positive⟩ := ih max false
      simp only [sequenceStep]
      exact ⟨by simpa using all, by simpa using positive⟩

theorem isSequence_iff (entries : LuaEntries) : isSequence entries = true ↔
    (∀ entry ∈ entries, ∃ k, entry.1 = .integer k) ∧ ∃ entry ∈ entries, ∃ k, entry.1 = .integer k ∧ 0 < k := by
  obtain ⟨all, positive⟩ := sequence_fold entries 0 true
  simp only [isSequence, Bool.and_eq_true, decide_eq_true_eq, gt_iff_lt, all, positive, true_and, lt_irrefl, false_or]

theorem isArrayStep_eq (state : Int × Bool) (entry : LuaValue × LuaData) :
    isArrayStep state ⟨entry.2 :: .value entry.1 :: below, limit⟩ =
      .ok (sequenceStep state entry, ⟨.value entry.1 :: below, limit⟩) := by
  obtain ⟨key, data⟩ := entry
  cases key <;> rfl

theorem luaTableIsArray_eq (distinct : Distinct entries)
    (table : slot ⟨slots, limit⟩ index = some (.table jsonType entries)) (one : Fits limit (slots.length + 1))
    (two : entries ≠ [] → Fits limit (slots.length + 2)) :
    luaTableIsArray fuel index ⟨slots, limit⟩ =
      if entries.length < fuel then .ok (isSequence entries, ⟨slots, limit⟩) else .error .endless := by
  have left : remaining .nil entries = some entries := if_pos rfl
  have loop := whileNext_fold sequenceStep distinct table two (fun entry _ state => isArrayStep_eq state entry) left fuel
    (0, true)
  rw [luaTableIsArray, Steps.bind_of_ok (push_fits one _), loop]
  split <;> rfl

theorem luaTableForcedArray_eq (table : slot ⟨slots, limit⟩ index = some (.table jsonType entries))
    (two : jsonType.isSome → Fits limit (slots.length + 2)) :
    luaTableForcedArray index ⟨slots, limit⟩ = .ok (jsonType.any isArrayName, ⟨slots, limit⟩) := by
  cases jsonType with
  | none => simp only [luaTableForcedArray, table]; rfl
  | some jsonType =>
    simp only [luaTableForcedArray, table]
    have fits := two rfl
    rw [Steps.bind_of_ok (push_fits (fits.mono (by omega)) _), Steps.bind_of_ok (push_fits (by simpa using fits) _)]
    rfl

/-! One entry of the loop -/

variable (lua) in
/-- The text under which a value is added to an object. -/
def keyText (key : LuaValue) : List UInt8 := (lua.toString key).getD (lua.tolstring (.value key))

variable (lua) in
def addChild (isArray : Bool) (j : Json) (child : LuaValue × Json) : Json :=
  if isArray then arrayPutIdx j (toInt32 (lua.tointeger (.value child.1) - 1)) child.2
  else objectAdd j (.ofBytes (keyText lua child.1)) child.2

variable (lua) in
/-- What the body leaves of an entry: the key, its text, or both of the entry. -/
def leftOver (isArray : Bool) (data : LuaData) (key : LuaValue) : List LuaData :=
  if isArray then [.value key]
  else
    match key, lua.toString key with
    | .integer _, some text | .number _, some text => [.value (.string text)]
    | _, some _ => [.value key]
    | _, none => if data.isString then [data, .value key] else [.value key]

theorem addEntry_eq (isArray : Bool) (j child : Json) (key : LuaValue)
    (fits : isArray = false → lua.toString key = none → Fits limit (below.length + 3)) :
    addEntry lua isArray j child ⟨data :: .value key :: below, limit⟩ =
      .ok (addChild lua isArray j (key, child), ⟨leftOver lua isArray data key ++ below, limit⟩) := by
  cases isArray with
  | true => rfl
  | false =>
    cases text : lua.toString key with
    | some kstr =>
      cases key <;> simp_all [addEntry, keyString, LuaTexts.tostring, addChild, keyText, leftOver, LuaStack.second, pop,
        LuaChoices.toString, LuaData.isString, pure, Except.pure, bind, Except.bind]
    | none =>
      have unread : lua.tostring ⟨data :: .value key :: below, limit⟩ = (none, ⟨data :: .value key :: below, limit⟩) := by
        cases key <;> simp_all [LuaTexts.tostring, LuaChoices.toString]
      have pushed : push ⟨data :: .value key :: below, limit⟩ (.value (.string (lua.tolstring (.value key)))) =
          .ok ⟨.value (.string (lua.tolstring (.value key))) :: data :: .value key :: below, limit⟩ :=
        push_fits (by simpa using fits rfl text) _
      have string : keyString lua ⟨data :: .value key :: below, limit⟩ = .ok (lua.tolstring (.value key),
          ⟨.value (.string (lua.tolstring (.value key))) :: data :: .value key :: below, limit⟩) := by
        rw [keyString, unread]
        exact Steps.bind_of_ok pushed
      rw [addEntry, if_neg (by simp), Steps.bind_of_ok string]
      cases shape : data.isString <;> cases key <;>
        simp_all [addChild, keyText, leftOver, LuaStack.second, pop, pure, Except.pure, LuaChoices.toString]

/-! Nothing is ever taken from the slots that were there before. -/

theorem tostring_keeps (lua : LuaTexts) (L : LuaStack) : (lua.tostring L).2.top = L.top ∧
    ((lua.tostring L).1.isSome → (lua.tostring L).2.second.isString = true) := by
  unfold LuaTexts.tostring
  split
  next data key below shape =>
    cases key <;> simp [LuaChoices.toString, top, LuaStack.second, LuaData.isString, shape]
  next => simp

theorem keyString_grows {L : LuaStack} {done : List UInt8 × LuaStack} (ran : keyString lua L = .ok done) :
    done.2.top = L.top ∧ done.2.second.isString = true ∨ done.2.top = L.top + 1 := by
  obtain ⟨height, string⟩ := tostring_keeps lua L
  cases read : lua.tostring L with
  | mk text after =>
    rw [read] at height string
    cases text with
    | some kstr =>
      simp only [keyString, read] at ran
      cases ran
      exact .inl ⟨height, string rfl⟩
    | none =>
      simp only [keyString, read, Steps.bind_ok] at ran
      obtain ⟨grown, pushed, ran⟩ := ran
      cases ran
      rw [push_ok pushed]
      exact .inr (congrArg (· + 1) height)

theorem addEntry_grows {isArray : Bool} {j child : Json} {L : LuaStack} {done : Json × LuaStack}
    (ran : addEntry lua isArray j child L = .ok done) : L.top ≤ done.2.top + 1 := by
  cases isArray with
  | true =>
    cases ran
    simp only [pop, top, List.length_drop]
    omega
  | false =>
    rw [addEntry, if_neg (by simp), Steps.bind_ok] at ran
    obtain ⟨⟨kstr, after⟩, read, ran⟩ := ran
    cases ran
    rcases keyString_grows read with ⟨height, string⟩ | height
    · simp only [top] at height
      simp only [string, if_true, pop, top, List.length_drop]
      omega
    · simp only [top] at height
      simp only [top]
      split <;> simp only [pop, List.length_drop] <;> omega

theorem luaTableForcedArray_grows {L : LuaStack} {done : Bool × LuaStack}
    (ran : luaTableForcedArray index L = .ok done) : L.top ≤ done.2.top := by
  unfold luaTableForcedArray at ran
  split at ran
  · simp only [Steps.bind_ok] at ran
    obtain ⟨first, one, second, two, ran⟩ := ran
    cases ran
    rw [push_ok two, push_ok one]
    simp [pop, top]
  · cases ran
    exact Nat.le_refl _

theorem luaTableIsArray_grows {L : LuaStack} {done : Bool × LuaStack}
    (ran : luaTableIsArray fuel index L = .ok done) : L.top ≤ done.2.top := by
  simp only [luaTableIsArray, Steps.bind_ok] at ran
  obtain ⟨first, pushed, after, loop, ran⟩ := ran
  cases ran
  have grows : first.top ≤ after.2.top + 1 := by
    refine whileNext_grows ?_ loop
    intro state L done stepped
    unfold isArrayStep at stepped
    split at stepped <;> cases stepped <;> simp only [pop, top, List.length_drop] <;> omega
  rw [push_ok pushed] at grows
  simpa [top] using grows

theorem isArrayTable_grows {L : LuaStack} {done : Bool × LuaStack} (ran : isArrayTable fuel index L = .ok done) :
    L.top ≤ done.2.top := by
  rw [isArrayTable, Steps.bind_ok] at ran
  obtain ⟨⟨forced, middle⟩, first, ran⟩ := ran
  have before := luaTableForcedArray_grows first
  cases forced with
  | true =>
    cases ran
    exact before
  | false => exact before.trans (luaTableIsArray_grows ran)

theorem luaToJson_grows {L : LuaStack} {done : Json × LuaStack} (ran : luaToJson lua fuel index L = .ok done) :
    L.top ≤ done.2.top := by
  induction fuel generalizing index L done with
  | zero => cases ran
  | succ fuel ih =>
    unfold luaToJson at ran
    split at ran
    next =>
      simp only [Steps.bind_ok] at ran
      obtain ⟨⟨isArray, before⟩, chosen, start, pushed, loop⟩ := ran
      have grown := isArrayTable_grows chosen
      have after : start.top ≤ done.2.top + 1 := by
        refine whileNext_grows ?_ loop
        intro j L done turned
        simp only [Steps.bind_ok] at turned
        obtain ⟨⟨child, middle⟩, converted, added⟩ := turned
        have inner : L.top ≤ middle.top := ih converted
        have kept : middle.top ≤ done.2.top + 1 := addEntry_grows added
        omega
      rw [push_ok pushed] at after
      simp only [top, List.length_cons] at grown after ⊢
      omega
    next =>
      cases ran
      exact Nat.le_refl _
    next =>
      cases ran
      exact Nat.le_refl _

/-! The loop as a fold -/

variable (lua) in
/-- The body of the loop. -/
def turn (fuel : Nat) (isArray : Bool) (j : Json) (L : LuaStack) : LuaRun (Json × LuaStack) := do
  let (child, L) ← luaToJson lua fuel L.top L
  addEntry lua isArray j child L

def start (isArray : Bool) : Json := if isArray then .array [] else .object []

theorem turn_grows {isArray : Bool} {j : Json} {L : LuaStack} {done : Json × LuaStack}
    (ran : turn lua fuel isArray j L = .ok done) : L.top ≤ done.2.top + 1 := by
  rw [turn, Steps.bind_ok] at ran
  obtain ⟨⟨child, middle⟩, converted, added⟩ := ran
  have inner : L.top ≤ middle.top := luaToJson_grows converted
  have kept : middle.top ≤ done.2.top + 1 := addEntry_grows added
  omega

/-- On a table the loop is what counts, once there was fuel to look at all keys. -/
theorem luaToJson_table (distinct : Distinct entries)
    (table : slot ⟨slots, limit⟩ index = some (.table jsonType entries)) (one : Fits limit (slots.length + 1))
    (two : jsonType.isSome ∨ entries ≠ [] → Fits limit (slots.length + 2)) :
    luaToJson lua (fuel + 1) index ⟨slots, limit⟩ =
      if jsonType.any isArrayName = true ∨ entries.length < fuel then
        whileNext index (turn lua fuel (arrayMode jsonType entries)) fuel (start (arrayMode jsonType entries))
          ⟨.value .nil :: slots, limit⟩
      else .error .endless := by
  have decided : isArrayTable fuel index ⟨slots, limit⟩ =
      if jsonType.any isArrayName = true ∨ entries.length < fuel then .ok (arrayMode jsonType entries, ⟨slots, limit⟩)
      else .error .endless := by
    rw [isArrayTable, Steps.bind_of_ok (luaTableForcedArray_eq table fun is => two (.inl is))]
    cases forced : jsonType.any isArrayName with
    | true => simp [arrayMode, forced, pure, Except.pure]
    | false => simp [arrayMode, forced, luaTableIsArray_eq distinct table one fun some_ => two (.inr some_)]
  rw [luaToJson, table]
  simp only [decided]
  split
  next =>
    rw [Steps.bind_of_ok rfl, Steps.bind_of_ok (push_fits one _)]
    rfl
  next => rfl

variable (lua) in
/-- The key stays on the stack as it is, and nothing else does. -/
def Settles (isArray : Bool) (entry : LuaValue × LuaData) : Prop :=
  isArray = true ∨ (∃ bytes, entry.1 = .string bytes) ∨ lua.toString entry.1 = none ∧ entry.2.isString = false

variable (lua) in
inductive Orderly : LuaData → Prop where
  | value (value : LuaValue) : Orderly (.value value)
  | table {jsonType : Option LuaValue} {entries : LuaEntries}
      (settles : ∀ entry ∈ entries, Settles lua (arrayMode jsonType entries) entry)
      (inner : ∀ entry ∈ entries, Orderly entry.2) : Orderly (.table jsonType entries)

variable (lua) in
/-- What the loop makes of a value. -/
def toJson : LuaData → Json
  | .value value => scalarToJson value
  | .table jsonType entries =>
    (entries.map fun entry => (entry.1, toJson entry.2)).foldl (addChild lua (arrayMode jsonType entries))
      (start (arrayMode jsonType entries))
termination_by data => sizeOf data
decreasing_by exact sizeOf_child jsonType ‹_›

theorem settles_iff (isArray : Bool) (entry : LuaValue × LuaData) :
    Settles lua isArray entry ↔ leftOver lua isArray entry.2 entry.1 = [.value entry.1] := by
  obtain ⟨key, data⟩ := entry
  cases isArray with
  | true => simp [Settles, leftOver]
  | false =>
    cases key <;> cases shape : data.isString <;> simp [Settles, leftOver, LuaChoices.toString, shape]

/-- A turn of the loop that converts its value as it should. -/
theorem turn_eq {isArray : Bool} {entry : LuaValue × LuaData} {child : Json}
    (converted : luaToJson lua fuel (below.length + 2) ⟨entry.2 :: .value entry.1 :: below, none⟩ =
      .ok (child, ⟨entry.2 :: .value entry.1 :: below, none⟩)) (j : Json) :
    turn lua fuel isArray j ⟨entry.2 :: .value entry.1 :: below, none⟩ =
      .ok (addChild lua isArray j (entry.1, child), ⟨leftOver lua isArray entry.2 entry.1 ++ below, none⟩) := by
  have height : top ⟨entry.2 :: .value entry.1 :: below, none⟩ = below.length + 2 := rfl
  rw [turn, height, Steps.bind_of_ok converted]
  exact addEntry_eq isArray j child entry.1 fun _ _ => fits_none _

theorem luaToJson_runs (valid : Valid data) (orderly : Orderly lua data) (found : slot ⟨slots, none⟩ index = some data)
    (enough : sizeOf data < fuel) : luaToJson lua fuel index ⟨slots, none⟩ = .ok (toJson lua data, ⟨slots, none⟩) := by
  induction fuel generalizing data index slots with
  | zero => omega
  | succ fuel ih =>
    cases valid with
    | value value =>
      rw [luaToJson, found, toJson]
      rfl
    | @table jsonType entries distinct valid =>
      cases orderly with
      | table settles orderly =>
        have looked := length_lt jsonType entries
        rw [luaToJson_table distinct found (fits_none _) (fun _ => fits_none _), if_pos (.inr (by omega)),
          whileNext_fold (fun j entry => addChild lua (arrayMode jsonType entries) j (entry.1, toJson lua entry.2))
            distinct found (fun _ => fits_none _) ?_ (if_pos rfl), if_pos (by omega), toJson, List.foldl_map]
        intro entry inside j
        have smaller := sizeOf_child jsonType inside
        rw [turn_eq (ih (valid entry inside) (orderly entry inside) (slot_top ..) (by omega)),
          (settles_iff _ entry).mp (settles entry inside)]
        rfl

variable (lua) in
/-- A key that turns into its text on the stack is then no key of the table any more. -/
inductive Clear : LuaData → Prop where
  | value (value : LuaValue) : Clear (.value value)
  | table {jsonType : Option LuaValue} {entries : LuaEntries}
      (lost : ∀ entry ∈ entries, ∀ text, lua.toString entry.1 = some text → entry.1 ≠ .string text →
        .string text ∉ entries.map Prod.fst)
      (inner : ∀ entry ∈ entries, Clear entry.2) : Clear (.table jsonType entries)

theorem leftOver_cases (lua : LuaTexts) (isArray : Bool) (data : LuaData) (key : LuaValue) :
    leftOver lua isArray data key = [.value key] ∨ leftOver lua isArray data key = [data, .value key] ∨
      ∃ text, leftOver lua isArray data key = [.value (.string text)] ∧ lua.toString key = some text ∧
        key ≠ .string text := by
  cases isArray with
  | true => exact .inl rfl
  | false => cases key <;> cases shape : data.isString <;> simp [leftOver, LuaChoices.toString, shape]

/-- A conversion that leaves no more on the stack than was there was an orderly one. -/
theorem luaToJson_back (valid : Valid data) (clear : Clear lua data) (found : slot ⟨slots, none⟩ index = some data)
    {done : Json × LuaStack} (ran : luaToJson lua fuel index ⟨slots, none⟩ = .ok done)
    (height : done.2.top ≤ slots.length) : done = (toJson lua data, ⟨slots, none⟩) ∧ Orderly lua data := by
  induction fuel generalizing data index slots done with
  | zero => cases ran
  | succ fuel ih =>
    cases valid with
    | value value =>
      rw [luaToJson, found] at ran
      cases ran
      exact ⟨by rw [toJson], .value value⟩
    | @table jsonType entries distinct valid =>
      cases clear with
      | table lost clear =>
        rw [luaToJson_table distinct found (fits_none _) fun _ => fits_none _] at ran
        split at ran
        next =>
          let step := fun (j : Json) (entry : LuaValue × LuaData) =>
            addChild lua (arrayMode jsonType entries) j (entry.1, toJson lua entry.2)
          let good := fun (entry : LuaValue × LuaData) =>
            Settles lua (arrayMode jsonType entries) entry ∧ Orderly lua entry.2
          have each : ∀ entry ∈ entries, ∀ j done, turn lua fuel (arrayMode jsonType entries) j
              ⟨entry.2 :: .value entry.1 :: slots, none⟩ = .ok done → done.2.top ≤ slots.length + 1 →
              done = (step j entry, ⟨.value entry.1 :: slots, none⟩) ∧ good entry ∨
                ∃ key, done.2 = ⟨.value key :: slots, none⟩ ∧ remaining key entries = none := by
            intro entry inside j done turned room
            have split := turned
            rw [turn, Steps.bind_ok] at split
            obtain ⟨⟨child, middle⟩, converted, added⟩ := split
            have kept : middle.top ≤ done.2.top + 1 := addEntry_grows added
            obtain ⟨same, orderly⟩ := ih (valid entry inside) (clear entry inside) (slot_top ..) converted
              (kept.trans (by simpa using room))
            cases same
            rw [turn_eq converted] at turned
            cases turned
            rcases leftOver_cases lua (arrayMode jsonType entries) entry.2 entry.1 with
              kept | both | ⟨text, changed, read, other⟩
            · exact .inl ⟨by rw [kept]; rfl, (settles_iff _ entry).mpr kept, orderly⟩
            · simp [both, top] at room
            · refine .inr ⟨.string text, by rw [changed]; rfl, ?_⟩
              rw [remaining, if_neg (by simp)]
              exact after_none (lost entry inside text read other)
          obtain ⟨whole, all⟩ := whileNext_back distinct found (fun _ _ _ => turn_grows) each (if_pos rfl) ran height
          rw [whole, toJson, List.foldl_map]
          exact ⟨rfl, .table (fun entry inside => (all entry inside).1) fun entry inside => (all entry inside).2⟩
        next => cases ran

end Ltf.Proofs.LuaToJson
