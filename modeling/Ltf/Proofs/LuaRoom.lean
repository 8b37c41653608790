import Ltf.Proofs.LuaSlots

/-! The conversions on a stack with a limit. What ends there is what ends without a limit; and
a table needs as many slots as its tables are deep, twice over. -/

namespace Ltf.Proofs.LuaRoom
open CString JsonC LuaStack LuaTraversal LuaLayout LuaToJson LuaSlots

variable {lua : LuaTexts} {limit : Option Nat} {slots below : List LuaData} {index fuel : Nat} {entries : LuaEntries}
  {jsonType : Option LuaValue} {data : LuaData}

/-! Without a limit -/

def free (L : LuaStack) : LuaStack := { L with limit := none }

def freeAfter {σ : Type} (done : σ × LuaStack) : σ × LuaStack := (done.1, free done.2)

theorem push_covers (L : LuaStack) (data : LuaData) :
    Steps.Covers LuaStop.overflow free (L.push data) ((free L).push data) := by
  unfold push
  split
  next => exact .same rfl
  next =>
    split
    next => exact .same rfl
    next => exact .inl rfl

theorem next_covers (L : LuaStack) (index : Nat) :
    Steps.Covers LuaStop.overflow freeAfter (L.next index) ((free L).next index) := by
  have slot_free : (free L).slot index = L.slot index := rfl
  have slots_free : (free L).slots = L.slots := rfl
  unfold next
  rw [slot_free, slots_free]
  split
  next =>
    split
    next => exact .same rfl
    next => exact .same rfl
    next => exact (push_covers _ _).bind fun _ => .same rfl
  next => exact .same rfl

theorem whileNext_covers {σ : Type} {body : σ → LuaStack → LuaRun (σ × LuaStack)}
    (each : ∀ state L, Steps.Covers LuaStop.overflow freeAfter (body state L) (body state (free L)))
    (fuel : Nat) (state : σ) (L : LuaStack) :
    Steps.Covers LuaStop.overflow freeAfter (whileNext index body fuel state L) (whileNext index body fuel state (free L)) := by
  induction fuel generalizing state L with
  | zero => exact .same rfl
  | succ fuel ih =>
    rw [whileNext, whileNext]
    refine (next_covers L index).bind ?_
    rintro ⟨more, L⟩
    cases more with
    | false => exact .same rfl
    | true => exact (each state L).bind fun done => ih done.1 done.2

theorem isArrayTable_covers (L : LuaStack) :
    Steps.Covers LuaStop.overflow freeAfter (isArrayTable fuel index L) (isArrayTable fuel index (free L)) := by
  have slot_free : (free L).slot index = L.slot index := rfl
  have forced : Steps.Covers LuaStop.overflow freeAfter (luaTableForcedArray index L)
      (luaTableForcedArray index (free L)) := by
    unfold luaTableForcedArray
    rw [slot_free]
    split
    next => exact (push_covers _ _).bind fun L => (push_covers L _).bind fun _ => .same rfl
    next => exact .same rfl
  have step (state : Int × Bool) (L : LuaStack) :
      Steps.Covers LuaStop.overflow freeAfter (isArrayStep state L) (isArrayStep state (free L)) := by
    have second_free : (free L).second = L.second := rfl
    unfold isArrayStep
    rw [second_free]
    split <;> exact .same rfl
  refine forced.bind ?_
  rintro ⟨forcedArray, L⟩
  cases forcedArray with
  | true => exact .same rfl
  | false =>
    refine (push_covers L _).bind fun L => (whileNext_covers step fuel _ L).bind ?_
    rintro ⟨⟨max, arrayLike⟩, L⟩
    exact .same rfl

theorem addEntry_covers (isArray : Bool) (j child : Json) (L : LuaStack) :
    Steps.Covers LuaStop.overflow freeAfter (addEntry lua isArray j child L) (addEntry lua isArray j child (free L)) := by
  have read : lua.tostring (free L) = freeAfter (lua.tostring L) := by
    have slots_free : (free L).slots = L.slots := rfl
    unfold LuaTexts.tostring
    rw [slots_free]
    split
    next data key below shape =>
      cases text : lua.toString key <;> cases key <;> rfl
    next => rfl
  have string : Steps.Covers LuaStop.overflow freeAfter (keyString lua L) (keyString lua (free L)) := by
    unfold keyString
    rw [read]
    obtain ⟨text, L⟩ := lua.tostring L
    cases text with
    | some kstr => exact .same rfl
    | none => exact (push_covers L _).bind fun _ => .same rfl
  cases isArray with
  | true => exact .same rfl
  | false =>
    refine string.bind ?_
    rintro ⟨kstr, L⟩
    refine .same ?_
    have second_free : (free L).second = L.second := rfl
    simp only [freeAfter, second_free]
    cases L.second.isString <;> rfl

variable (lua) in
theorem luaToJson_covers (fuel index : Nat) (L : LuaStack) :
    Steps.Covers LuaStop.overflow freeAfter (luaToJson lua fuel index L) (luaToJson lua fuel index (free L)) := by
  induction fuel generalizing index L with
  | zero => exact .same rfl
  | succ fuel ih =>
    have slot_free : (free L).slot index = L.slot index := rfl
    unfold luaToJson
    rw [slot_free]
    split
    next =>
      refine (isArrayTable_covers L).bind ?_
      rintro ⟨isArray, L⟩
      refine (push_covers L _).bind fun L => whileNext_covers ?_ fuel _ L
      intro j L
      refine (ih L.top L).bind ?_
      rintro ⟨child, L⟩
      exact addEntry_covers isArray j child L
    next => exact .same rfl
    next => exact .same rfl

theorem set_free (L : LuaStack) (key : LuaValue) : (free L).set key = free (L.set key) := by
  have slots_free : (free L).slots = L.slots := rfl
  unfold LuaStack.set
  rw [slots_free]
  split <;> rfl

theorem jsonToLua_covers (value : Json) (L : LuaStack) :
    Steps.Covers LuaStop.overflow free (jsonToLua value L) (jsonToLua value (free L)) := by
  induction value using Json.induction generalizing L with
  | null | boolean | int | double | string =>
    rw [jsonToLua, jsonToLua]
    exact push_covers ..
  | array items ih =>
    rw [jsonToLua, jsonToLua]
    refine (push_covers L _).bind fun L => ?_
    generalize 0 = i
    induction items generalizing i L with
    | nil => exact .same rfl
    | cons item items inner =>
      rw [itemsToLua, itemsToLua]
      refine (ih item (by simp) L).bind fun L => ?_
      rw [set_free]
      exact inner (fun other inside => ih other (by simp [inside])) _ (i + 1)
  | object fields ih =>
    rw [jsonToLua, jsonToLua]
    refine (push_covers L _).bind fun L => ?_
    induction fields generalizing L with
    | nil => exact .same rfl
    | cons field fields inner =>
      rw [fieldsToLua, fieldsToLua]
      refine (ih field (by simp) L).bind fun L => ?_
      rw [set_free]
      exact inner (fun other inside => ih other (by simp [inside])) _

/-! A conversion that ends had the slots for it -/

theorem push_room {after : LuaStack} (ran : push ⟨slots, limit⟩ data = .ok after) : Fits limit (slots.length + 1) := by
  intro most is
  subst is
  by_contra full
  rw [push_full (by omega)] at ran
  cases ran

/-- A loop that leaves each key as it is was at each of the entries. -/
theorem whileNext_room {σ : Type} {body : σ → LuaStack → LuaRun (σ × LuaStack)} {good : LuaValue × LuaData → Prop}
    {rest : LuaEntries} {key : LuaValue} (distinct : Distinct entries)
    (table : slot ⟨below, limit⟩ index = some (.table jsonType entries))
    (each : ∀ entry ∈ rest, ∀ state done, body state ⟨entry.2 :: .value entry.1 :: below, limit⟩ = .ok done →
      done.2 = ⟨.value entry.1 :: below, limit⟩ ∧ good entry)
    (left : remaining key entries = some rest) {fuel : Nat} {state : σ} {done : σ × LuaStack}
    (ran : whileNext index body fuel state ⟨.value key :: below, limit⟩ = .ok done) :
    done.2 = ⟨below, limit⟩ ∧ ∀ entry ∈ rest, Fits limit (below.length + 2) ∧ good entry := by
  induction fuel generalizing key rest state with
  | zero => cases ran
  | succ fuel ih =>
    cases rest with
    | nil =>
      rw [whileNext_end table left] at ran
      cases ran
      exact ⟨rfl, by simp⟩
    | cons entry rest =>
      have room : Fits limit (below.length + 2) := by
        rw [whileNext, Steps.bind_ok] at ran
        obtain ⟨next, stepped, -⟩ := ran
        simp only [LuaStack.next, slot_push table, left, Steps.bind_ok] at stepped
        obtain ⟨pushed, grown, -⟩ := stepped
        exact push_room grown
      rw [whileNext_entry table room left, Steps.bind_ok] at ran
      obtain ⟨⟨after, middle⟩, first, ran⟩ := ran
      obtain ⟨same, fine⟩ := each entry (by simp) _ _ first
      dsimp only at same
      subst same
      obtain ⟨ended, all⟩ := ih (fun other inside => each other (by simp [inside])) (remaining_next distinct left) ran
      refine ⟨ended, ?_⟩
      intro other inside
      rcases List.mem_cons.mp inside with rfl | inside
      · exact ⟨room, fine⟩
      · exact all other inside

theorem addEntry_room {isArray : Bool} {j child : Json} {key : LuaValue} {done : Json × LuaStack}
    (ran : addEntry lua isArray j child ⟨data :: .value key :: below, limit⟩ = .ok done)
    (mode : isArray = false) (unread : lua.toString key = none) : Fits limit (below.length + 3) := by
  subst mode
  have read : lua.tostring ⟨data :: .value key :: below, limit⟩ = (none, ⟨data :: .value key :: below, limit⟩) := by
    cases key <;> simp_all [LuaTexts.tostring, LuaChoices.toString]
  rw [addEntry, if_neg (by simp), Steps.bind_ok] at ran
  obtain ⟨⟨kstr, after⟩, string, -⟩ := ran
  simp only [keyString, read, Steps.bind_ok] at string
  obtain ⟨pushed, grown, -⟩ := string
  exact push_room grown

/-- The slots before the first value. -/
theorem table_room (found : slot ⟨slots, limit⟩ index = some (.table jsonType entries)) (begins : Fits limit slots.length)
    {done : Json × LuaStack} (ran : luaToJson lua (fuel + 1) index ⟨slots, limit⟩ = .ok done) :
    Fits limit (slots.length + 1) ∧ (jsonType.isSome ∨ entries ≠ [] → Fits limit (slots.length + 2)) := by
  cases limit with
  | none => exact ⟨fits_none _, fun _ => fits_none _⟩
  | some most =>
    obtain ⟨room, rfl⟩ := Nat.exists_eq_add_of_le (begins most rfl)
    have enough : ¬ (room < (if jsonType.isSome then 2 else 1) ∨ room < 2 ∧ entries ≠ []) := by
      intro short
      cases fuel with
      | zero =>
        rw [luaToJson, found] at ran
        simp only [Steps.bind_ok] at ran
        obtain ⟨chosen, -, start, -, loop⟩ := ran
        cases loop
      | succ fuel =>
        rw [overflow_early found short] at ran
        cases ran
    rw [not_or, Nat.not_lt] at enough
    obtain ⟨least, more⟩ := enough
    constructor
    · intro most is
      cases is
      split at least <;> omega
    · rintro (is | some_) most equal
      · cases equal
        rw [if_pos is] at least
        omega
      · cases equal
        have two : ¬ room < 2 := fun less => more ⟨less, some_⟩
        omega

theorem luaToJson_room (valid : Valid data) (orderly : Orderly lua data) (found : slot ⟨slots, limit⟩ index = some data)
    {done : Json × LuaStack} (ran : luaToJson lua fuel index ⟨slots, limit⟩ = .ok done)
    (begins : Fits limit slots.length) : done.2 = ⟨slots, limit⟩ ∧ Fits limit (slots.length + height lua data) := by
  induction fuel generalizing data index slots done with
  | zero => cases ran
  | succ fuel ih =>
    cases valid with
    | value value =>
      rw [luaToJson, found] at ran
      cases ran
      exact ⟨rfl, by simpa [height] using begins⟩
    | @table jsonType entries distinct valid =>
      cases orderly with
      | table settles orderly =>
        obtain ⟨one, two⟩ := table_room found begins ran
        rw [luaToJson_table distinct found one two] at ran
        split at ran
        next =>
          let needs := fun (entry : LuaValue × LuaData) =>
            2 + max (height lua entry.2) (textSlots lua (arrayMode jsonType entries) entry.1)
          have each : ∀ entry ∈ entries, ∀ j done, turn lua fuel (arrayMode jsonType entries) j
              ⟨entry.2 :: .value entry.1 :: slots, limit⟩ = .ok done →
              done.2 = ⟨.value entry.1 :: slots, limit⟩ ∧ Fits limit (slots.length + needs entry) := by
            intro entry inside j done turned
            have room := two (.inr (List.ne_nil_of_mem inside))
            rw [turn, Steps.bind_ok] at turned
            obtain ⟨⟨child, middle⟩, converted, added⟩ := turned
            obtain ⟨same, inner⟩ := ih (valid entry inside) (orderly entry inside) (slot_top ..) converted room
            dsimp only at same added
            subst same
            have text : Fits limit (slots.length + 2 + textSlots lua (arrayMode jsonType entries) entry.1) := by
              rw [textSlots]
              split
              next unread => exact addEntry_room added unread.1 unread.2
              next => exact room
            rw [addEntry_eq _ _ _ _ fun mode unread => addEntry_room added mode unread] at added
            cases added
            refine ⟨?_, ?_⟩
            · rw [(settles_iff _ entry).mp (settles entry inside)]
              rfl
            · show Fits limit (slots.length + (2 + max _ _))
              rw [← Nat.add_assoc, fits_max]
              exact ⟨inner, text⟩
          obtain ⟨ended, all⟩ := whileNext_room distinct found each (if_pos rfl) ran
          refine ⟨ended, ?_⟩
          rw [height, fits_max]
          refine ⟨?_, ?_⟩
          · split
            next is => exact two (.inl is)
            next => exact one
          · intro most is
            have bound : maximum (entries.map needs) ≤ most - slots.length := by
              rw [maximum_le, List.forall_mem_map]
              intro entry inside
              have fits := (all entry inside).2 most is
              omega
            have least := one most is
            show slots.length + maximum (entries.map needs) ≤ most
            omega
        next => cases ran

/-! Within the slots that are guaranteed -/

theorem orderly_calm (orderly : Orderly lua data) : Calm lua data := by
  induction orderly with
  | value value => exact .value value
  | @table jsonType entries settles inner ih =>
    refine .table ?_ ih
    intro entry inside mode unread bytes string
    rcases settles entry inside with array | ⟨name, key⟩ | ⟨-, other⟩
    · simp [mode] at array
    · simp [key, LuaChoices.toString] at unread
    · simp [string, LuaData.isString] at other

/-- On the slots that are guaranteed a table is converted as it is without a limit, if it is shallow. -/
theorem toJson_called {args : List LuaData} {j : Json} (valid : Valid data) (orderly : Orderly lua data)
    (found : (called args).slot index = some data) (shallow : height lua data ≤ luaMinstack)
    (ran : luaToJson lua fuel index ⟨args, none⟩ = .ok (j, ⟨args, none⟩)) :
    luaToJson lua fuel index (called args) = .ok (j, called args) := by
  have sound : Steps.Sound (fun done => done.2 = called args) (· ≠ LuaStop.overflow)
      (luaToJson lua fuel index (called args)) :=
    luaToJson_within fuel valid (orderly_calm orderly) found ((called_fits args _).mpr shallow)
  have enough : luaToJson lua fuel index (called args) ≠ .error .overflow := by
    intro overflows
    rw [overflows] at sound
    exact sound rfl
  obtain ⟨done, ended, equal⟩ := (luaToJson_covers lua fuel index (called args)).back ran enough
  have child : done.1 = j := congrArg Prod.fst equal
  have whole : done.2 = called args := sound.of_ok ended
  rw [ended, ← child, ← whole]

/-- What is converted there is converted without a limit, and shallow. -/
theorem toJson_free {args : List LuaData} {j : Json} (valid : Valid data) (clear : Clear lua data)
    (found : (called args).slot index = some data)
    (ran : luaToJson lua fuel index (called args) = .ok (j, called args)) :
    j = toJson lua data ∧ Orderly lua data ∧ height lua data ≤ luaMinstack := by
  have unlimited := (luaToJson_covers lua fuel index (called args)).of_ok ran
  obtain ⟨same, orderly⟩ := luaToJson_back valid clear found unlimited (Nat.le_refl _)
  refine ⟨congrArg Prod.fst same, orderly, ?_⟩
  have begins : Fits (some (args.length + luaMinstack)) args.length := (called_fits args 0).mpr (Nat.zero_le _)
  exact (called_fits args _).mp (luaToJson_room valid orderly found ran begins).2

/-! Tables in tables -/

/-- How deep tables are nested in a value. -/
def nesting : LuaData → Nat
  | .value _ => 0
  | .table _ entries => 1 + maximum (entries.map fun entry => nesting entry.2)
termination_by data => sizeOf data
decreasing_by exact sizeOf_child _ ‹_›

theorem nesting_le (n : Nat) : nesting (.table jsonType entries) ≤ n + 1 ↔ ∀ entry ∈ entries, nesting entry.2 ≤ n := by
  rw [nesting, Nat.add_comm 1, Nat.add_le_add_iff_right, maximum_le, List.forall_mem_map]

theorem nesting_child {entry : LuaValue × LuaData} (inside : entry ∈ entries) :
    nesting entry.2 ≤ maximum (entries.map fun entry => nesting entry.2) :=
  (maximum_le _ _).mp (Nat.le_refl _) _ (List.mem_map_of_mem inside)

variable (lua) in
/-- Each key is a string or a number, which is its own text. -/
inductive Spelt : LuaData → Prop where
  | value (value : LuaValue) : Spelt (.value value)
  | table {jsonType : Option LuaValue} {entries : LuaEntries} (keys : ∀ entry ∈ entries, lua.toString entry.1 ≠ none)
      (inner : ∀ entry ∈ entries, Spelt entry.2) : Spelt (.table jsonType entries)

variable (lua) in
theorem nesting_height (data : LuaData) : 2 * nesting data ≤ height lua data + 1 := by
  induction data using LuaData.induction with
  | value value => simp [nesting]
  | table jsonType entries ih =>
    obtain ⟨least, each⟩ := (height_le _).mp (Nat.le_refl (height lua (.table jsonType entries)))
    have positive : 1 ≤ height lua (.table jsonType entries) := by split at least <;> omega
    have inner : nesting (.table jsonType entries) ≤ (height lua (.table jsonType entries) - 1) / 2 + 1 := by
      rw [nesting_le]
      intro entry inside
      have own := ih entry inside
      have room := each entry inside
      omega
    omega

theorem Spelt.height (spelt : Spelt lua data) : height lua data ≤ 2 * nesting data := by
  induction spelt with
  | value value => simp [LuaSlots.height]
  | @table jsonType entries keys inner ih =>
    have each := (@nesting_le entries jsonType (nesting (.table jsonType entries) - 1)).mp (by omega)
    have positive : 1 ≤ nesting (.table jsonType entries) := by rw [nesting]; omega
    rw [height_le]
    refine ⟨by split <;> omega, ?_⟩
    intro entry inside
    have text : textSlots lua (arrayMode jsonType entries) entry.1 = 0 := if_neg fun unread => keys entry inside unread.2
    have own := ih entry inside
    have room := each entry inside
    omega

/-- Ten tables in each other are what there is room for. -/
theorem Spelt.shallow_iff (spelt : Spelt lua data) : LuaSlots.height lua data ≤ luaMinstack ↔ nesting data ≤ 10 := by
  have least := nesting_height lua data
  have most := spelt.height
  simp only [luaMinstack]
  omega

end Ltf.Proofs.LuaRoom
