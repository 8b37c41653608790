import Ltf.Proofs.LuaToJson

/-! Slots of the stack that `lua_to_json`, `json_to_lua` and `l_module_ltf_register_secrets`
use above the arguments. Their number grows with the depth of a value and with the length
of a list; nothing asks Lua for more than the `LUA_MINSTACK` there are. -/

namespace Ltf.Proofs.LuaSlots
open CString JsonC LuaStack LuaTraversal LuaLayout LuaToJson

variable {lua : LuaTexts} {limit : Option Nat} {slots : List LuaData} {index fuel : Nat} {entries : LuaEntries}
  {jsonType : Option LuaValue} {data : LuaData}

def maximum (heights : List Nat) : Nat := heights.foldr max 0

theorem maximum_le (heights : List Nat) (n : Nat) : maximum heights ≤ n ↔ ∀ height ∈ heights, height ≤ n := by
  induction heights with
  | nil => simp [maximum]
  | cons first rest ih =>
    have step : maximum (first :: rest) = max first (maximum rest) := rfl
    rw [step, max_le_iff, ih]
    simp

variable (lua) in
/-- The text of a key that is neither a string nor a number is pushed. -/
def textSlots (isArray : Bool) (key : LuaValue) : Nat :=
  if isArray = false ∧ lua.toString key = none then 1 else 0

variable (lua) in
/-- How many slots `lua_to_json` uses for a value. -/
def height : LuaData → Nat
  | .value _ => 0
  | .table jsonType entries =>
    max (if jsonType.isSome then 2 else 1)
      (maximum (entries.map fun entry => 2 + max (height entry.2) (textSlots lua (arrayMode jsonType entries) entry.1)))
termination_by data => sizeOf data
decreasing_by exact sizeOf_child jsonType ‹_›

theorem height_le (n : Nat) : height lua (.table jsonType entries) ≤ n ↔
    (if jsonType.isSome then 2 else 1) ≤ n ∧
      ∀ entry ∈ entries, 2 + max (height lua entry.2) (textSlots lua (arrayMode jsonType entries) entry.1) ≤ n := by
  rw [height, max_le_iff, maximum_le, List.forall_mem_map]

variable (lua) in
/-- No text takes the place of a key and is itself a key of the table. -/
inductive Calm : LuaData → Prop where
  | value (value : LuaValue) : Calm (.value value)
  | table {jsonType : Option LuaValue} {entries : LuaEntries}
      (lost : ∀ entry ∈ entries, arrayMode jsonType entries = false → lua.toString entry.1 = none → ∀ bytes,
        entry.2 = .value (.string bytes) → LuaValue.string bytes ∉ entries.map Prod.fst)
      (inner : ∀ entry ∈ entries, Calm entry.2) : Calm (.table jsonType entries)

theorem leftOver_both {isArray : Bool} {data : LuaData} {key : LuaValue}
    (both : leftOver lua isArray data key = [data, .value key]) :
    isArray = false ∧ lua.toString key = none ∧ ∃ bytes, data = .value (.string bytes) := by
  cases isArray with
  | true => simp [leftOver] at both
  | false =>
    cases data with
    | table => cases key <;> simp [leftOver, LuaChoices.toString, LuaData.isString] at both
    | value value =>
      cases value <;> cases key <;> simp_all [leftOver, LuaChoices.toString, LuaData.isString]

variable (fuel) in
/-- With room for all of it, `lua_to_json` never asks for more. -/
theorem luaToJson_within (valid : Valid data) (calm : Calm lua data) (found : slot ⟨slots, limit⟩ index = some data)
    (fits : Fits limit (slots.length + height lua data)) :
    Steps.Sound (fun done => done.2 = ⟨slots, limit⟩) (· ≠ LuaStop.overflow)
      (luaToJson lua fuel index ⟨slots, limit⟩) := by
  induction fuel generalizing data index slots with
  | zero =>
    intro absurd
    cases absurd
  | succ fuel ih =>
    cases valid with
    | value value =>
      rw [luaToJson, found]
      rfl
    | @table jsonType entries distinct valid =>
      cases calm with
      | table lost calm =>
        obtain ⟨least, each⟩ := (height_le _).mp (Nat.le_refl (height lua (.table jsonType entries)))
        have one : Fits limit (slots.length + 1) := fits.mono (by split at least <;> omega)
        have two : jsonType.isSome ∨ entries ≠ [] → Fits limit (slots.length + 2) := by
          rintro (is | some_)
          · rw [if_pos is] at least
            exact fits.mono (by omega)
          · obtain ⟨entry, inside⟩ := List.exists_mem_of_ne_nil entries some_
            have more := each entry inside
            exact fits.mono (by omega)
        rw [luaToJson_table distinct found one two]
        split
        next =>
          refine whileNext_sound found (fun some_ => two (.inr some_)) ?_ fuel _ .nil
          intro entry inside j
          have room := each entry inside
          have begins : top ⟨entry.2 :: .value entry.1 :: slots, limit⟩ = (LuaData.value entry.1 :: slots).length + 1 := rfl
          rw [turn, begins]
          refine (ih (valid entry inside) (calm entry inside) (slot_top ..) (fits.mono ?_)).bind ?_
          · simp only [List.length_cons]
            omega
          · rintro ⟨child, L⟩ rfl
            dsimp only
            rw [addEntry_eq]
            · rcases leftOver_cases lua (arrayMode jsonType entries) entry.2 entry.1 with kept | both | ⟨text, changed, -⟩
              · exact ⟨entry.1, [], by rw [kept]; rfl, .inl rfl⟩
              · obtain ⟨mode, unread, bytes, string⟩ := leftOver_both both
                refine ⟨.string bytes, [.value entry.1], by rw [both, string]; rfl, .inr ?_⟩
                rw [remaining, if_neg (by simp)]
                exact after_none (lost entry inside mode unread bytes string)
              · exact ⟨.string text, [], by rw [changed]; rfl, .inl rfl⟩
            · intro mode unread
              have text : textSlots lua (arrayMode jsonType entries) entry.1 = 1 := if_pos ⟨mode, unread⟩
              exact fits.mono (by omega)
        next =>
          intro absurd
          cases absurd

/-! Where there is not enough room -/

variable (jsonType) in
/-- Any entry of a table may be the first one. -/
theorem layout_first {entry : LuaValue × LuaData} (inside : entry ∈ entries) {other : LuaData}
    (layout : Layout entry.2 other) :
    ∃ rest, Layout (.table jsonType entries) (.table jsonType ((entry.1, other) :: rest)) ∧
      ((entry.1 :: rest.map Prod.fst).Perm (entries.map Prod.fst)) := by
  obtain ⟨before, after, rfl⟩ := List.append_of_mem inside
  let same := fun (old : LuaValue × LuaData) => (old.1, old.2, old.2)
  refine ⟨before ++ after, .table (before.map same ++ (entry.1, entry.2, other) :: after.map same) ?_ ?_ ?_, ?_⟩
  · simp [same, Function.comp_def]
  · simp only [List.map_append, List.map_cons, List.map_map, Function.comp_def, same, List.map_id']
    exact List.perm_middle.symm
  · intro pair found
    simp only [List.mem_append, List.mem_cons, List.mem_map, same] at found
    rcases found with ⟨old, -, rfl⟩ | rfl | ⟨old, -, rfl⟩
    · exact Layout.refl old.2
    · exact layout
    · exact Layout.refl old.2
  · simp only [List.map_append, List.map_cons]
    exact List.perm_middle.symm

theorem arrayMode_perm {after : LuaEntries} (keys : (after.map Prod.fst).Perm (entries.map Prod.fst)) :
    arrayMode jsonType after = arrayMode jsonType entries := by
  have sequence : isSequence after = isSequence entries := by
    have byKeys : ∀ entries : LuaEntries, isSequence entries = true ↔
        (∀ key ∈ entries.map Prod.fst, ∃ k, key = LuaValue.integer k) ∧
          ∃ key ∈ entries.map Prod.fst, ∃ k, key = LuaValue.integer k ∧ 0 < k := by
      intro entries
      simp only [isSequence_iff, List.mem_map, forall_exists_index, and_imp, forall_apply_eq_imp_iff₂, exists_exists_and_eq_and]
    rw [Bool.eq_iff_iff, byKeys, byKeys]
    simp only [keys.mem_iff]
  rw [arrayMode, arrayMode, sequence]

/-- Without room for the slots a table needs before its first value, or for that value. -/
theorem overflow_early {room : Nat} (table : slot ⟨slots, some (slots.length + room)⟩ index = some (.table jsonType entries))
    (short : room < (if jsonType.isSome then 2 else 1) ∨ room < 2 ∧ entries ≠ []) :
    luaToJson lua (fuel + 2) index ⟨slots, some (slots.length + room)⟩ = .error .overflow := by
  have decided : isArrayTable (fuel + 1) index ⟨slots, some (slots.length + room)⟩ = .error .overflow := by
    cases jsonType with
    | some jsonType =>
      have small : room < 2 := by
        rcases short with less | ⟨less, -⟩
        · simpa using less
        · exact less
      rw [isArrayTable]
      apply Steps.bind_of_error
      simp only [luaTableForcedArray, table]
      cases room with
      | zero => exact Steps.bind_of_error (push_full (by simp) _)
      | succ room =>
        obtain rfl : room = 0 := by omega
        rw [Steps.bind_of_ok (push_fits (by intro most is; cases is; omega) _)]
        exact Steps.bind_of_error (push_full (by simp) _)
    | none =>
      have forced : luaTableForcedArray index ⟨slots, some (slots.length + room)⟩ =
          .ok (false, ⟨slots, some (slots.length + room)⟩) := by
        simp only [luaTableForcedArray, table]
        rfl
      rw [isArrayTable, Steps.bind_of_ok forced]
      dsimp only
      rw [if_neg (by simp), luaTableIsArray]
      cases room with
      | zero => exact Steps.bind_of_error (push_full (by simp) _)
      | succ room =>
        have more : room = 0 ∧ entries ≠ [] := by
          rcases short with less | ⟨less, some_⟩
          · simp at less
          · exact ⟨by omega, some_⟩
        obtain ⟨rfl, some_⟩ := more
        obtain ⟨entry, rest, rfl⟩ := List.exists_cons_of_ne_nil some_
        rw [Steps.bind_of_ok (push_fits (by intro most is; cases is; omega) _)]
        apply Steps.bind_of_error
        rw [whileNext]
        apply Steps.bind_of_error
        have left : remaining .nil (entry :: rest) = some (entry :: rest) := if_pos rfl
        simp only [next, slot_push table, left]
        exact Steps.bind_of_error (push_full (by simp) _)
  rw [luaToJson, table]
  exact Steps.bind_of_error decided

/-- What overflows in the first turn of the loop overflows. -/
theorem overflow_first {key : LuaValue} {rest : LuaEntries} (distinct : Distinct ((key, data) :: rest))
    (table : slot ⟨slots, limit⟩ index = some (.table jsonType ((key, data) :: rest)))
    (two : Fits limit (slots.length + 2)) (enough : rest.length + 1 < fuel)
    (exceeds : ∀ j, turn lua fuel (arrayMode jsonType ((key, data) :: rest)) j ⟨data :: .value key :: slots, limit⟩ =
      .error .overflow) :
    luaToJson lua (fuel + 1) index ⟨slots, limit⟩ = .error .overflow := by
  rw [luaToJson_table distinct table (two.mono (by omega)) (fun _ => two), if_pos (.inr (by simpa using enough))]
  cases fuel with
  | zero => omega
  | succ fuel =>
    have left : remaining .nil ((key, data) :: rest) = some ((key, data) :: rest) := if_pos rfl
    rw [whileNext_entry table two left]
    exact Steps.bind_of_error (exceeds _)

/-- A key whose text must be pushed, with no room for it. -/
theorem turn_full {value key : LuaValue} (unread : lua.toString key = none) (j : Json) :
    turn lua (fuel + 1) false j ⟨.value value :: .value key :: slots, some (slots.length + 2)⟩ = .error .overflow := by
  have begins : top ⟨.value value :: .value key :: slots, some (slots.length + 2)⟩ =
      (LuaData.value key :: slots).length + 1 := rfl
  have converted : luaToJson lua (fuel + 1) ((LuaData.value key :: slots).length + 1)
      ⟨.value value :: .value key :: slots, some (slots.length + 2)⟩ =
        .ok (scalarToJson value, ⟨.value value :: .value key :: slots, some (slots.length + 2)⟩) := by
    rw [luaToJson, slot_top]
    rfl
  have read : lua.tostring ⟨.value value :: .value key :: slots, some (slots.length + 2)⟩ =
      (none, ⟨.value value :: .value key :: slots, some (slots.length + 2)⟩) := by
    cases key <;> simp_all [LuaTexts.tostring, LuaChoices.toString]
  rw [turn, begins, Steps.bind_of_ok converted]
  dsimp only
  rw [addEntry, if_neg (by simp)]
  apply Steps.bind_of_error
  rw [keyString, read]
  exact Steps.bind_of_error (push_full (by simp) _)

/-- A value that needs more slots than there are overflows, if its entries are visited in
the right order. -/
theorem overflows (valid : Valid data) {room : Nat} (small : room < height lua data) :
    ∃ other, Layout data other ∧ ∃ least, ∀ fuel, least ≤ fuel → ∀ slots index,
      slot ⟨slots, some (slots.length + room)⟩ index = some other →
        luaToJson lua fuel index ⟨slots, some (slots.length + room)⟩ = .error .overflow := by
  induction valid generalizing room with
  | value value => simp [height] at small
  | @table jsonType entries distinct valid ih =>
    by_cases early : room < (if jsonType.isSome then 2 else 1) ∨ room < 2 ∧ entries ≠ []
    · refine ⟨_, Layout.refl _, 2, ?_⟩
      intro fuel enough slots index found
      obtain ⟨fuel, rfl⟩ := Nat.exists_eq_add_of_le' enough
      exact overflow_early found early
    · rw [not_or, Nat.not_lt] at early
      obtain ⟨begun, more⟩ := early
      have deep : ∃ entry ∈ entries,
          room < 2 + max (height lua entry.2) (textSlots lua (arrayMode jsonType entries) entry.1) := by
        by_contra none_
        have fits : height lua (.table jsonType entries) ≤ room := by
          rw [height_le]
          refine ⟨begun, fun entry inside => ?_⟩
          by_contra exceeds
          exact none_ ⟨entry, inside, by omega⟩
        omega
      obtain ⟨entry, inside, deep⟩ := deep
      have two : 2 ≤ room := by
        by_contra less
        exact more ⟨by omega, List.ne_nil_of_mem inside⟩
      by_cases below : room - 2 < height lua entry.2
      · obtain ⟨other, layout, least, exceeds⟩ := ih entry inside below
        obtain ⟨rest, whole, keys⟩ := layout_first jsonType inside layout
        refine ⟨_, whole, least + rest.length + 3, ?_⟩
        intro fuel enough slots index found
        obtain ⟨fuel, rfl⟩ := Nat.exists_eq_add_of_le' (show 1 ≤ fuel by omega)
        cases whole.valid (.table distinct valid) with
        | table distinct _ =>
          refine overflow_first distinct found (by intro most is; cases is; omega) (by omega) ?_
          intro j
          have begins : top ⟨other :: .value entry.1 :: slots, some (slots.length + room)⟩ =
              (LuaData.value entry.1 :: slots).length + 1 := rfl
          have limit : slots.length + room = (other :: LuaData.value entry.1 :: slots).length + (room - 2) := by
            simp only [List.length_cons]
            omega
          rw [turn, begins]
          apply Steps.bind_of_error
          rw [limit]
          exact exceeds fuel (by omega) _ _ (slot_top ..)
      · have pushed : textSlots lua (arrayMode jsonType entries) entry.1 = 1 ∧ height lua entry.2 = 0 ∧ room = 2 := by
          have one : textSlots lua (arrayMode jsonType entries) entry.1 ≤ 1 := by
            rw [textSlots]
            split <;> omega
          omega
        obtain ⟨text, flat, rfl⟩ := pushed
        have mode : arrayMode jsonType entries = false ∧ lua.toString entry.1 = none := by
          by_contra other
          simp [textSlots, other] at text
        obtain ⟨rest, whole, keys⟩ := layout_first jsonType inside (Layout.refl entry.2)
        refine ⟨_, whole, rest.length + 3, ?_⟩
        intro fuel enough slots index found
        obtain ⟨fuel, rfl⟩ := Nat.exists_eq_add_of_le' (show 2 ≤ fuel by omega)
        cases whole.valid (.table distinct valid) with
        | table distinct _ =>
          refine overflow_first distinct found (by intro most is; cases is; omega) (by omega) ?_
          intro j
          have same : arrayMode jsonType ((entry.1, entry.2) :: rest) = false := by
            rw [arrayMode_perm (by simpa using keys), mode.1]
          rw [same]
          cases value : entry.2 with
          | value value => exact turn_full mode.2 j
          | table inner others =>
            have least := ((height_le _).mp (flat.le.trans' (by rw [value]))).1
            split at least <;> omega

/-! Layouts need as many slots as the table they are of -/

theorem layout_calm {after : LuaData} (layout : Layout data after) (calm : Calm lua data) : Calm lua after := by
  induction layout with
  | value value => exact .value value
  | @table jsonType entries after pairs before order inner ih =>
    have whole : Layout (.table jsonType entries) (.table jsonType after) := .table pairs before order inner
    have matched := whole.matched
    cases calm with
    | table lost calm =>
      refine .table ?_ ?_
      · intro entry inside mode unread bytes string again
        obtain ⟨old, found, key, layout⟩ := matched.right entry inside
        rw [string] at layout
        have value : old.2 = .value (.string bytes) := by
          generalize old.2 = from_ at layout
          cases layout
          rfl
        rw [arrayMode_perm matched.keys] at mode
        exact lost old found mode (by rw [key, unread]) bytes value (matched.keys.mem_iff.mp again)
      · intro other inside
        obtain ⟨pair, among, rfl⟩ := List.mem_map.mp (order.mem_iff.mp inside)
        exact ih pair among (calm (pair.1, pair.2.1) (by rw [before]; exact List.mem_map_of_mem among))

variable (lua) in
theorem layout_height {after : LuaData} (layout : Layout data after) : height lua after ≤ height lua data := by
  induction layout with
  | value value => exact Nat.le_refl _
  | @table jsonType entries after pairs before order inner ih =>
    have whole : Layout (.table jsonType entries) (.table jsonType after) := .table pairs before order inner
    obtain ⟨least, each⟩ := (LuaSlots.height_le _).mp (Nat.le_refl (height lua (.table jsonType entries)))
    rw [LuaSlots.height_le]
    refine ⟨least, ?_⟩
    intro other inside
    obtain ⟨pair, among, rfl⟩ := List.mem_map.mp (order.mem_iff.mp inside)
    have bound := each (pair.1, pair.2.1) (by rw [before]; exact List.mem_map_of_mem among)
    have smaller := ih pair among
    rw [arrayMode_perm whole.matched.keys]
    dsimp only at bound ⊢
    omega

/-! `json_to_lua` -/

def jsonHeight : Json → Nat
  | .array items => 1 + maximum (items.map jsonHeight)
  | .object fields => 1 + maximum (fields.map fun field => jsonHeight field.2)
  | _ => 1
termination_by value => sizeOf value
decreasing_by
  · have smaller := List.sizeOf_lt_of_mem ‹_ ∈ items›
    rw [Json.array.sizeOf_spec]
    omega
  · have smaller := List.sizeOf_lt_of_mem ‹_ ∈ fields›
    have part : sizeOf field.2 < sizeOf field := by
      cases field
      simp only [Prod.mk.sizeOf_spec]
      omega
    rw [Json.object.sizeOf_spec]
    omega

/-- One value more on the stack, or an overflow when there is no room for what it needs. -/
def Pushes (limit : Option Nat) (slots : List LuaData) (needed : Nat) (run : LuaRun LuaStack) : Prop :=
  (Fits limit (slots.length + needed) → ∃ data, run = .ok ⟨data :: slots, limit⟩) ∧
    (¬ Fits limit (slots.length + needed) → run = .error .overflow)

theorem push_pushes (limit : Option Nat) (slots : List LuaData) (data : LuaData) :
    Pushes limit slots 1 (push ⟨slots, limit⟩ data) := by
  refine ⟨fun fits => ⟨data, push_fits fits data⟩, ?_⟩
  intro full
  cases limit with
  | none => exact absurd (fits_none _) full
  | some most =>
    apply push_full
    by_contra room
    apply full
    intro other is
    cases is
    omega

theorem set_shape (limit : Option Nat) (slots : List LuaData) (jsonType : Option LuaValue) (entries : LuaEntries)
    (data : LuaData) (key : LuaValue) : ∃ after, LuaStack.set
    ⟨data :: .table jsonType entries :: slots, limit⟩ key = ⟨.table jsonType after :: slots, limit⟩ := by
  unfold LuaStack.set
  split
  next shape => cases shape; exact ⟨_, rfl⟩
  next shape => cases shape; exact ⟨_, rfl⟩
  next other => exact absurd rfl (other _ _ _ _)

theorem fits_max (count first second : Nat) :
    Fits limit (count + max first second) ↔ Fits limit (count + first) ∧ Fits limit (count + second) := by
  constructor
  · intro fits
    exact ⟨fits.mono (by omega), fits.mono (by omega)⟩
  · rintro ⟨one, two⟩ most is
    have left := one most is
    have right := two most is
    omega

section Loop
variable {α β : Type} {heights : α → Nat} {loop : β → List α → LuaStack → LuaRun LuaStack}
  {convert : α → LuaStack → LuaRun LuaStack} {key : β → α → LuaValue} {next : β → β}

variable (jsonType) in
/-- A loop that sets in a table what it converts, one item after the other. -/
theorem setLoop_within (nil : ∀ at_ L, loop at_ [] L = .ok L)
    (cons : ∀ at_ item items L, loop at_ (item :: items) L = convert item L >>= fun L =>
      loop (next at_) items (L.set (key at_ item)))
    (items : List α) (each : ∀ item ∈ items, ∀ slots, Pushes limit slots (heights item) (convert item ⟨slots, limit⟩))
    (at_ : β) (entries : LuaEntries) (one : Fits limit (slots.length + 1)) :
    (Fits limit (slots.length + 1 + maximum (items.map heights)) →
      ∃ after, loop at_ items ⟨.table jsonType entries :: slots, limit⟩ = .ok ⟨.table jsonType after :: slots, limit⟩) ∧
    (¬ Fits limit (slots.length + 1 + maximum (items.map heights)) →
      loop at_ items ⟨.table jsonType entries :: slots, limit⟩ = .error .overflow) := by
  induction items generalizing at_ entries with
  | nil => exact ⟨fun _ => ⟨entries, nil at_ _⟩, fun full => absurd (by simpa [maximum] using one) full⟩
  | cons item items ih =>
    have first := each item (by simp) (.table jsonType entries :: slots)
    have step : maximum ((item :: items).map heights) = max (heights item) (maximum (items.map heights)) := rfl
    rw [step, fits_max, cons]
    by_cases room : Fits limit (slots.length + 1 + heights item)
    · obtain ⟨data, converted⟩ := first.1 room
      obtain ⟨after, put⟩ := set_shape limit slots jsonType entries data (key at_ item)
      rw [Steps.bind_of_ok converted, put]
      obtain ⟨fits, full⟩ := ih (fun other inside => each other (by simp [inside])) (next at_) after
      exact ⟨fun both => fits both.2, fun short => full fun more => short ⟨room, more⟩⟩
    · rw [Steps.bind_of_error (first.2 room)]
      exact ⟨fun both => absurd both.1 room, fun _ => rfl⟩

variable (loop convert next) in
theorem setLoop_pushes (nil : ∀ at_ L, loop at_ [] L = .ok L)
    (cons : ∀ at_ item items L, loop at_ (item :: items) L = convert item L >>= fun L =>
      loop (next at_) items (L.set (key at_ item)))
    (items : List α) (each : ∀ item ∈ items, ∀ slots, Pushes limit slots (heights item) (convert item ⟨slots, limit⟩))
    (at_ : β) :
    Pushes limit slots (1 + maximum (items.map heights)) (push ⟨slots, limit⟩ (.table none []) >>= loop at_ items) := by
  rw [Pushes, ← Nat.add_assoc]
  by_cases one : Fits limit (slots.length + 1)
  · rw [Steps.bind_of_ok (push_fits one _)]
    obtain ⟨fits, full⟩ := setLoop_within none nil cons items each at_ [] one
    exact ⟨fun room => (fits room).imp' _ fun _ is => is, full⟩
  · rw [Steps.bind_of_error ((push_pushes limit slots (.table none [])).2 one)]
    exact ⟨fun room => absurd (room.mono (by omega)) one, fun _ => rfl⟩

end Loop

theorem jsonToLua_pushes (value : Json) (limit : Option Nat) (slots : List LuaData) :
    Pushes limit slots (jsonHeight value) (jsonToLua value ⟨slots, limit⟩) := by
  induction value using Json.induction generalizing slots with
  | null | boolean | int | double | string =>
    rw [jsonToLua, jsonHeight]
    exact push_pushes ..
    all_goals simp
  | array items ih =>
    rw [jsonToLua, jsonHeight]
    exact setLoop_pushes itemsToLua jsonToLua (· + 1) (fun _ _ => by rw [itemsToLua]; rfl)
      (fun _ _ _ _ => by rw [itemsToLua]) items ih 0
  | object fields ih =>
    rw [jsonToLua, jsonHeight]
    exact setLoop_pushes (fun _ => fieldsToLua) (fun field => jsonToLua field.2) (fun _ => ())
      (fun _ _ => by rw [fieldsToLua]; rfl) (fun _ _ _ _ => by rw [fieldsToLua]) fields ih ()

/-! `l_module_ltf_register_secrets` -/

theorem names_eq (lua : LuaTexts) (names : List (List UInt8)) :
    ((List.range (lua.length.length (names.map LuaValue.string))).map fun i => (names.map LuaValue.string).getD i .nil) =
      names.map LuaValue.string := by
  have whole : lua.length.length (names.map LuaValue.string) = names.length := by
    rw [(lua.length.border _).unique (by simp), List.length_map]
  rw [whole]
  apply List.ext_getElem (by simp)
  intro i _ inside
  rw [List.getElem_map, List.getElem_range, List.getD_eq_getElem _ _ inside]

theorem registerSecrets_within (names : List (List UInt8)) (secrets : List CStr) :
    (names.map LuaValue.string).foldlM (registerSecret lua) (secrets, ⟨slots, limit⟩) = .error .overflow ↔
      ¬ (names = [] ∨ Fits limit (slots.length + names.length)) := by
  induction names generalizing secrets slots with
  | nil =>
    constructor
    · intro absurd
      cases absurd
    · intro other
      exact absurd (.inl rfl) other
  | cons name names ih =>
    rw [List.map_cons, List.foldlM_cons]
    by_cases room : Fits limit (slots.length + 1)
    · have kept : registerSecret lua (secrets, ⟨slots, limit⟩) (.string name) =
          .ok (secrets ++ [.ofBytes name], ⟨.value (.string name) :: slots, limit⟩) := by
        rw [registerSecret, Steps.bind_of_ok (push_fits room _)]
        rfl
      rw [Steps.bind_of_ok kept, ih]
      apply not_congr
      have lengths : (LuaData.value (.string name) :: slots).length + names.length = slots.length + (name :: names).length := by
        simp only [List.length_cons]
        omega
      rw [lengths]
      constructor
      · rintro (rfl | fits)
        · exact .inr room
        · exact .inr fits
      · rintro (empty | fits)
        · cases empty
        · exact .inr fits
    · have full : registerSecret lua (secrets, ⟨slots, limit⟩) (.string name) = .error .overflow := by
        rw [registerSecret, Steps.bind_of_error ((push_pushes limit slots _).2 room)]
      rw [Steps.bind_of_error full]
      refine ⟨fun _ => ?_, fun _ => rfl⟩
      rintro (empty | fits)
      · cases empty
      · exact room (fits.mono (by simp only [List.length_cons]; omega))

/-! The guaranteed slots -/

def luaMinstack : Nat := 20

/-- The stack of a C function that was called with these arguments. -/
def called (args : List LuaData) : LuaStack := ⟨args, some (args.length + luaMinstack)⟩

/-- In no order of its entries does the table make `lua_to_json` use more slots. -/
def ToJsonWithin (lua : LuaTexts) (data : LuaData) : Prop :=
  ∀ other, Layout data other → ∀ args index fuel, (called args).slot index = some other →
    luaToJson lua fuel index (called args) ≠ .error .overflow

def ToLuaWithin (value : Json) : Prop := ∀ args, jsonToLua value (called args) ≠ .error .overflow

def SecretsWithin (lua : LuaTexts) (names : List (List UInt8)) : Prop :=
  ∀ args, lModuleLtfRegisterSecrets lua (names.map .string) (called args) ≠ .error .overflow

theorem called_fits (args : List LuaData) (count : Nat) :
    Fits (some (args.length + luaMinstack)) (args.length + count) ↔ count ≤ luaMinstack := by
  constructor
  · intro fits
    have bound := fits _ rfl
    omega
  · intro less most is
    cases is
    omega

/-- A table that needs more slots overflows, whatever else is wrong with it. -/
theorem height_of_within (valid : Valid data) (within : ToJsonWithin lua data) : height lua data ≤ luaMinstack := by
  by_contra flat
  have deep : luaMinstack < height lua data := Nat.lt_of_not_le flat
  obtain ⟨other, layout, least, exceeds⟩ := overflows valid deep
  exact within other layout [other] 1 least rfl (exceeds least (Nat.le_refl _) [other] 1 rfl)

theorem within_of_height (valid : Valid data) (calm : Calm lua data) (flat : height lua data ≤ luaMinstack) :
    ToJsonWithin lua data := by
  intro other layout args index fuel found exceeds
  have least := layout_height lua layout
  have sound := luaToJson_within fuel (layout.valid valid) (layout_calm layout calm) found
    ((called_fits args (height lua other)).mpr (by omega))
  have is : luaToJson lua fuel index ⟨args, some (args.length + luaMinstack)⟩ = .error .overflow := exceeds
  rw [is] at sound
  exact sound rfl

theorem toLuaWithin_iff (value : Json) : ToLuaWithin value ↔ jsonHeight value ≤ luaMinstack := by
  constructor
  · intro within
    by_contra deep
    refine within [] ((jsonToLua_pushes value (some (List.length [] + luaMinstack)) []).2 ?_)
    rwa [called_fits []]
  · intro flat args exceeds
    obtain ⟨data, ran⟩ := (jsonToLua_pushes value _ args).1 ((called_fits args _).mpr flat)
    have is : jsonToLua value ⟨args, some (args.length + luaMinstack)⟩ = .error .overflow := exceeds
    rw [ran] at is
    cases is

theorem secretsWithin_iff (names : List (List UInt8)) : SecretsWithin lua names ↔ names.length ≤ luaMinstack := by
  have exceeds : ∀ args, lModuleLtfRegisterSecrets lua (names.map .string) (called args) = .error .overflow ↔
      ¬ (names = [] ∨ names.length ≤ luaMinstack) := by
    intro args
    rw [lModuleLtfRegisterSecrets, names_eq, called, registerSecrets_within, called_fits]
  simp only [SecretsWithin, ne_eq, exceeds, not_not]
  constructor
  · intro within
    rcases within [] with rfl | less
    · simp
    · exact less
  · exact fun less _ => .inr less

/-- All three stay within the guaranteed slots. -/
def AllWithin (lua : LuaTexts) (data : LuaData) (value : Json) (names : List (List UInt8)) : Prop :=
  ToJsonWithin lua data ∧ ToLuaWithin value ∧ SecretsWithin lua names

/-- What they are given does not need more than those, by its depth or by its length. -/
structure Shallow (lua : LuaTexts) (data : LuaData) (value : Json) (names : List (List UInt8)) : Prop where
  table : height lua data ≤ luaMinstack
  json : jsonHeight value ≤ luaMinstack
  names : names.length ≤ luaMinstack

/-- They stay within the slots exactly when they are given something shallow, as long as no
text takes the place of a key; and never when it is not shallow. -/
theorem all_within_room (valid : Valid data) (value : Json) (names : List (List UInt8)) :
    (AllWithin lua data value names → Shallow lua data value names) ∧
      (Calm lua data → Shallow lua data value names → AllWithin lua data value names) := by
  constructor
  · rintro ⟨table, json, secrets⟩
    exact ⟨height_of_within valid table, (toLuaWithin_iff value).mp json, (secretsWithin_iff names).mp secrets⟩
  · rintro calm ⟨table, json, short⟩
    exact ⟨within_of_height valid calm table, (toLuaWithin_iff value).mpr json, (secretsWithin_iff names).mpr short⟩

/-- `{ [true] = { "a" } }` -/
def shallow : LuaData := .table none [(.boolean true, .table none [(.integer 1, .value (.string [97]))])]

theorem shallow_valid : Valid shallow := by
  refine .table ⟨by simp, by simp⟩ ?_
  intro entry inside
  cases List.mem_singleton.mp inside
  refine .table ⟨by simp, by simp⟩ ?_
  intro entry inside
  cases List.mem_singleton.mp inside
  exact .value _

theorem shallow_all_within_room :
    (AllWithin .first shallow (.array [.null]) [[97], [98]] → Shallow .first shallow (.array [.null]) [[97], [98]]) ∧
      (Calm .first shallow → Shallow .first shallow (.array [.null]) [[97], [98]] →
        AllWithin .first shallow (.array [.null]) [[97], [98]]) :=
  all_within_room shallow_valid (.array [.null]) [[97], [98]]

/-- Tables in tables, with one entry each. -/
def nested : Nat → LuaData
  | 0 => .value (.integer 1)
  | depth + 1 => .table none [(.integer 1, nested depth)]

theorem nested_valid (depth : Nat) : Valid (nested depth) := by
  induction depth with
  | zero => exact .value _
  | succ depth ih =>
    refine .table ⟨by simp, by simp⟩ ?_
    intro entry inside
    cases List.mem_singleton.mp inside
    exact ih

theorem nested_height (depth : Nat) : 2 * depth ≤ height .first (nested depth) := by
  induction depth with
  | zero => exact Nat.zero_le _
  | succ depth ih =>
    obtain ⟨-, each⟩ := (height_le _).mp (Nat.le_refl (height .first (nested (depth + 1))))
    have room := each (.integer 1, nested depth) (by simp)
    dsimp only at room
    omega

/-- Eleven tables in each other, and twenty-one names of secrets. -/
theorem deep_overflows : ¬ ToJsonWithin .first (nested 11) ∧ ¬ SecretsWithin .first (List.replicate 21 [97]) := by
  constructor
  · intro within
    have flat := height_of_within (nested_valid 11) within
    have deep := nested_height 11
    simp only [luaMinstack] at flat
    omega
  · rw [secretsWithin_iff]
    simp [luaMinstack]

end Ltf.Proofs.LuaSlots
