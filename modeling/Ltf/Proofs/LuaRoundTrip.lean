import Ltf.Proofs.LuaTables

/-! `json_to_lua` and back, and the other way round. A table keeps neither `null` nor the
kind of an empty array, and every number goes through a double. -/

namespace Ltf.Proofs.LuaRoundTrip
open CString JsonC LuaStack LuaTraversal LuaLayout LuaToJson LuaSlots LuaRoom LuaTables

variable {lua : LuaTexts} {slots : List LuaData}

/-! What `json_to_lua` pushes -/

def present (key : LuaValue) : LuaData → LuaEntries
  | .value .nil => []
  | data => [(key, data)]

mutual
def toLua : Json → LuaData
  | .null => .value .nil
  | .boolean value => .value (.boolean value)
  | .double bits => .value (.number bits)
  | .int value => .value (.number (Binary64.ofInt (getInt64 value)))
  | .string bytes => .value (.string (CStr.ofBytes bytes).bytes)
  | .array items => .table none (itemEntries 0 items)
  | .object fields => .table none (fieldEntries fields)

def itemEntries : Nat → List Json → LuaEntries
  | _, [] => []
  | i, child :: items => present (.integer (i + 1)) (toLua child) ++ itemEntries (i + 1) items

def fieldEntries : List (CStr × Json) → LuaEntries
  | [] => []
  | (key, val) :: fields => present (.string key.bytes) (toLua val) ++ fieldEntries fields
end

theorem toLua_nil {value : Json} : toLua value = .value .nil ↔ value = .null := by
  cases value <;> simp [toLua]

theorem mem_present {key : LuaValue} {value : Json} {entry : LuaValue × LuaData} :
    entry ∈ present key (toLua value) ↔ value ≠ .null ∧ entry = (key, toLua value) := by
  unfold present
  split
  next empty => simp [toLua_nil.mp empty]
  next full =>
    have some_ : value ≠ .null := fun is => full (toLua_nil.mpr is)
    simp [some_]

theorem mem_itemEntries (i : Nat) (items : List Json) (entry : LuaValue × LuaData) : entry ∈ itemEntries i items ↔
    ∃ (n : Nat) (item : Json), items[n]? = some item ∧ item ≠ .null ∧
      entry = (.integer (i + n + 1 : Nat), toLua item) := by
  induction items generalizing i with
  | nil => simp [itemEntries]
  | cons child items ih =>
    rw [itemEntries, List.mem_append, mem_present, ih]
    constructor
    · rintro (⟨some_, rfl⟩ | ⟨n, item, found, some_, rfl⟩)
      · exact ⟨0, child, rfl, some_, by simp⟩
      · exact ⟨n + 1, item, found, some_, by simp; omega⟩
    · rintro ⟨n, item, found, some_, rfl⟩
      cases n with
      | zero =>
        cases found
        exact .inl ⟨some_, by simp⟩
      | succ n => exact .inr ⟨n, item, found, some_, by simp; omega⟩

theorem mem_fieldEntries (fields : Fields) (entry : LuaValue × LuaData) : entry ∈ fieldEntries fields ↔
    ∃ field ∈ fields, field.2 ≠ .null ∧ entry = (.string field.1.bytes, toLua field.2) := by
  induction fields with
  | nil => simp [fieldEntries]
  | cons field fields ih =>
    obtain ⟨key, value⟩ := field
    rw [fieldEntries, List.mem_append, mem_present, ih]
    simp

/-- An entry under a new key, if it is one, leaves the keys distinct. -/
theorem present_nodup {key : LuaValue} {data : LuaData} {entries : LuaEntries} (nodup : (entries.map Prod.fst).Nodup)
    (fresh : key ∉ entries.map Prod.fst) : ((present key data ++ entries).map Prod.fst).Nodup := by
  unfold present
  split
  next => exact nodup
  next =>
    rw [List.singleton_append, List.map_cons, List.nodup_cons]
    exact ⟨fresh, nodup⟩

theorem keys_itemEntries (i : Nat) (items : List Json) : ((itemEntries i items).map Prod.fst).Nodup := by
  induction items generalizing i with
  | nil => simp [itemEntries]
  | cons child items ih =>
    rw [itemEntries]
    apply present_nodup (ih (i + 1))
    intro again
    obtain ⟨entry, inside, key⟩ := List.mem_map.mp again
    obtain ⟨n, item, -, -, rfl⟩ := (mem_itemEntries ..).mp inside
    simp at key
    omega

theorem keys_fieldEntries {fields : Fields} (distinct : (fields.map Prod.fst).Nodup) :
    ((fieldEntries fields).map Prod.fst).Nodup := by
  induction fields with
  | nil => simp [fieldEntries]
  | cons field fields ih =>
    obtain ⟨key, value⟩ := field
    rw [List.map_cons, List.nodup_cons] at distinct
    rw [fieldEntries]
    apply present_nodup (ih distinct.2)
    intro again
    obtain ⟨entry, inside, same⟩ := List.mem_map.mp again
    obtain ⟨field, found, -, rfl⟩ := (mem_fieldEntries ..).mp inside
    have equal : field.1 = key := CStr.ext (by simpa using same)
    exact distinct.1 (List.mem_map.mpr ⟨field, found, equal⟩)

theorem set_fresh {key : LuaValue} {data : LuaData} {entries : LuaEntries} (fresh : key ∉ entries.map Prod.fst) :
    LuaStack.set ⟨data :: .table none entries :: slots, none⟩ key =
      ⟨.table none (entries ++ present key data) :: slots, none⟩ := by
  by_cases empty : data = .value .nil
  · subst empty
    have kept : entries.filter (fun entry => decide (entry.1 ≠ key)) = entries := by
      rw [List.filter_eq_self]
      intro entry inside
      simp only [decide_eq_true_eq]
      intro same
      exact fresh (same ▸ List.mem_map_of_mem inside)
    simp only [LuaStack.set, kept, present, List.append_nil]
  · have there : present key data = [(key, data)] := by
      unfold present
      split
      · exact absurd rfl empty
      · rfl
    have added : Assoc.put entries (key, data) = entries ++ [(key, data)] := Assoc.put_fresh fresh
    rw [there, ← added]
    unfold LuaStack.set
    split
    next shape =>
      cases shape
      exact absurd rfl empty
    next shape =>
      cases shape
      rfl
    next other => exact absurd rfl (other _ _ _ _)

theorem itemsToLua_eq (items : List Json) (i : Nat) (entries : LuaEntries)
    (each : ∀ item ∈ items, ∀ slots, jsonToLua item ⟨slots, none⟩ = .ok ⟨toLua item :: slots, none⟩)
    (fresh : ∀ n, i < n → LuaValue.integer (n : Nat) ∉ entries.map Prod.fst) :
    itemsToLua i items ⟨.table none entries :: slots, none⟩ =
      .ok ⟨.table none (entries ++ itemEntries i items) :: slots, none⟩ := by
  induction items generalizing i entries with
  | nil => simp [itemsToLua, itemEntries, pure, Except.pure]
  | cons child items ih =>
    have here := fresh (i + 1) (by omega)
    rw [Nat.cast_succ] at here
    rw [itemsToLua, Steps.bind_of_ok (each child (by simp) _), set_fresh here, ih]
    · rw [itemEntries, List.append_assoc]
    · intro item inside
      exact each item (by simp [inside])
    · intro n later again
      rw [List.map_append, List.mem_append] at again
      rcases again with old | new
      · exact fresh n (by omega) old
      · obtain ⟨entry, inside, key⟩ := List.mem_map.mp new
        obtain ⟨-, rfl⟩ := mem_present.mp inside
        simp at key
        omega

theorem fieldsToLua_eq (fields : Fields) (entries : LuaEntries)
    (each : ∀ field ∈ fields, ∀ slots, jsonToLua field.2 ⟨slots, none⟩ = .ok ⟨toLua field.2 :: slots, none⟩)
    (distinct : (fields.map Prod.fst).Nodup)
    (fresh : ∀ field ∈ fields, LuaValue.string field.1.bytes ∉ entries.map Prod.fst) :
    fieldsToLua fields ⟨.table none entries :: slots, none⟩ =
      .ok ⟨.table none (entries ++ fieldEntries fields) :: slots, none⟩ := by
  induction fields generalizing entries with
  | nil => simp [fieldsToLua, fieldEntries, pure, Except.pure]
  | cons field fields ih =>
    obtain ⟨key, value⟩ := field
    rw [List.map_cons, List.nodup_cons] at distinct
    rw [fieldsToLua, Steps.bind_of_ok (each (key, value) (by simp) _), set_fresh (fresh (key, value) (by simp)), ih]
    · rw [fieldEntries, List.append_assoc]
    · intro field inside
      exact each field (by simp [inside])
    · exact distinct.2
    · intro field inside again
      rw [List.map_append, List.mem_append] at again
      rcases again with old | new
      · exact fresh field (by simp [inside]) old
      · obtain ⟨entry, found, same⟩ := List.mem_map.mp new
        obtain ⟨-, rfl⟩ := mem_present.mp found
        have equal : field.1 = key := CStr.ext (by simpa using same.symm)
        exact distinct.1 (List.mem_map.mpr ⟨field, inside, equal⟩)

theorem jsonToLua_eq {value : Json} (distinct : value.Distinct) (slots : List LuaData) :
    jsonToLua value ⟨slots, none⟩ = .ok ⟨toLua value :: slots, none⟩ := by
  induction distinct generalizing slots with
  | null => rw [jsonToLua, toLua]; rfl
  | boolean value => rw [jsonToLua, toLua]; rfl
  | int value => rw [jsonToLua, toLua]; rfl
  | double bits => rw [jsonToLua, toLua]; rfl
  | string bytes => rw [jsonToLua, toLua]; rfl
  | @array items inner ih =>
    rw [jsonToLua, Steps.bind_of_ok (push_fits (fits_none _) _), itemsToLua_eq items 0 [] ih (by simp), List.nil_append,
      toLua]
  | @object fields keys inner ih =>
    rw [jsonToLua, Steps.bind_of_ok (push_fits (fits_none _) _), fieldsToLua_eq fields [] ih keys (by simp),
      List.nil_append, toLua]

theorem toLua_valid {value : Json} (distinct : value.Distinct) : Valid (toLua value) := by
  induction distinct with
  | null | boolean value | int value | double bits | string bytes =>
    rw [toLua]
    exact .value _
  | @array items inner ih =>
    rw [toLua]
    refine .table ⟨keys_itemEntries 0 items, ?_⟩ ?_
    · intro inside
      obtain ⟨entry, found, key⟩ := List.mem_map.mp inside
      obtain ⟨n, item, -, -, rfl⟩ := (mem_itemEntries ..).mp found
      cases key
    · intro entry inside
      obtain ⟨n, item, found, -, rfl⟩ := (mem_itemEntries ..).mp inside
      exact ih item (List.mem_of_getElem? found)
  | @object fields keys inner ih =>
    rw [toLua]
    refine .table ⟨keys_fieldEntries keys, ?_⟩ ?_
    · intro inside
      obtain ⟨entry, found, key⟩ := List.mem_map.mp inside
      obtain ⟨field, -, -, rfl⟩ := (mem_fieldEntries ..).mp found
      cases key
    · intro entry inside
      obtain ⟨field, found, -, rfl⟩ := (mem_fieldEntries ..).mp inside
      exact ih field found

/-! On the slots that are guaranteed -/

/-- How deep arrays and objects are nested in a value. -/
def depth : Json → Nat
  | .array items => 1 + maximum (items.map depth)
  | .object fields => 1 + maximum (fields.map fun field => depth field.2)
  | _ => 0
termination_by value => sizeOf value
decreasing_by
  · have smaller := List.sizeOf_lt_of_mem ‹_ ∈ items›
    rw [Json.array.sizeOf_spec]
    omega
  · have smaller := List.sizeOf_lt_of_mem ‹_ ∈ fields›
    have part : sizeOf field.2 < sizeOf field := by
      cases field
      simp only [Prod.mk.sizeOf_spec]
      omega
    rw [Json.object.sizeOf_spec]
    omega

theorem depth_array (items : List Json) (n : Nat) : depth (.array items) ≤ n + 1 ↔ ∀ item ∈ items, depth item ≤ n := by
  rw [depth, Nat.add_comm 1, Nat.add_le_add_iff_right, maximum_le, List.forall_mem_map]

theorem depth_object (fields : Fields) (n : Nat) :
    depth (.object fields) ≤ n + 1 ↔ ∀ field ∈ fields, depth field.2 ≤ n := by
  rw [depth, Nat.add_comm 1, Nat.add_le_add_iff_right, maximum_le, List.forall_mem_map]

theorem jsonHeight_le (value : Json) : jsonHeight value ≤ depth value + 1 := by
  induction value using Json.induction with
  | null | boolean | int | double | string =>
    rw [jsonHeight, depth]
    all_goals simp
  | array items ih =>
    have positive : 1 ≤ depth (.array items) := by rw [depth]; omega
    have each := (depth_array items (depth (.array items) - 1)).mp (by omega)
    rw [jsonHeight, Nat.add_comm 1, Nat.add_le_add_iff_right, maximum_le, List.forall_mem_map]
    intro item inside
    have own := ih item inside
    have room := each item inside
    omega
  | object fields ih =>
    have positive : 1 ≤ depth (.object fields) := by rw [depth]; omega
    have each := (depth_object fields (depth (.object fields) - 1)).mp (by omega)
    rw [jsonHeight, Nat.add_comm 1, Nat.add_le_add_iff_right, maximum_le, List.forall_mem_map]
    intro field inside
    have own := ih field inside
    have room := each field inside
    omega

/-- A table whose entries are nested as the parts of a value are is nested as the value is. -/
theorem nesting_eq {value : Json} {entries : LuaEntries} (compound : 1 ≤ depth value)
    (same : ∀ n, (∀ entry ∈ entries, nesting entry.2 ≤ n) ↔ depth value ≤ n + 1) :
    nesting (.table none entries) = depth value := by
  have positive : 1 ≤ nesting (.table none entries) := by rw [nesting]; omega
  have below := (@nesting_le entries none (depth value - 1)).mpr ((same (depth value - 1)).mpr (by omega))
  have above := (same (nesting (.table none entries) - 1)).mp ((@nesting_le entries none _).mp (by omega))
  omega

/-- The tables are nested as the value is. -/
theorem nesting_toLua (value : Json) : nesting (toLua value) = depth value := by
  induction value using Json.induction with
  | null | boolean | int | double | string =>
    rw [toLua, nesting, depth]
    all_goals simp
  | array items ih =>
    rw [toLua]
    refine nesting_eq (by rw [depth]; omega) fun n => ?_
    rw [depth_array]
    constructor
    · intro each item inside
      by_cases empty : item = .null
      · simp [empty, depth]
      · obtain ⟨i, here⟩ := List.mem_iff_getElem?.mp inside
        rw [← ih item inside]
        exact each _ ((mem_itemEntries 0 items _).mpr ⟨i, item, here, empty, rfl⟩)
    · intro each entry inside
      obtain ⟨i, item, here, -, rfl⟩ := (mem_itemEntries ..).mp inside
      have among := List.mem_of_getElem? here
      rw [ih item among]
      exact each item among
  | object fields ih =>
    rw [toLua]
    refine nesting_eq (by rw [depth]; omega) fun n => ?_
    rw [depth_object]
    constructor
    · intro each field inside
      by_cases empty : field.2 = .null
      · simp [empty, depth]
      · rw [← ih field inside]
        exact each _ ((mem_fieldEntries fields _).mpr ⟨field, inside, empty, rfl⟩)
    · intro each entry inside
      obtain ⟨field, among, -, rfl⟩ := (mem_fieldEntries ..).mp inside
      rw [ih field among]
      exact each field among

theorem jsonToLua_called {value : Json} (distinct : value.Distinct) (args : List LuaData)
    (shallow : jsonHeight value ≤ luaMinstack) :
    jsonToLua value (called args) = .ok ⟨toLua value :: args, (called args).limit⟩ := by
  obtain ⟨data, ran⟩ := (jsonToLua_pushes value _ args).1 ((called_fits args _).mpr shallow)
  have same := (jsonToLua_covers value (called args)).of_ok ran
  rw [show free (called args) = ⟨args, none⟩ from rfl, jsonToLua_eq distinct] at same
  cases same
  exact ran

theorem jsonToLua_free {value : Json} (distinct : value.Distinct) {args : List LuaData} {data : LuaData}
    (ran : jsonToLua value (called args) = .ok ⟨data :: args, (called args).limit⟩) :
    data = toLua value := by
  have same := (jsonToLua_covers value (called args)).of_ok ran
  rw [show free (called args) = ⟨args, none⟩ from rfl, jsonToLua_eq distinct] at same
  cases same
  rfl

/-! The tables that `json_to_lua` makes, in the order in which `lua_next` visits them -/

/-- The entries of an array: the items that are not `null`, under their places. -/
structure Sequence (items : List Json) (after : LuaEntries) : Prop where
  distinct : Distinct after
  item : ∀ entry ∈ after, ∃ (n : Nat) (item : Json), items[n]? = some item ∧ item ≠ .null ∧
    entry.1 = .integer (n + 1 : Nat) ∧ Layout (toLua item) entry.2
  entry : ∀ (n : Nat) (item : Json), items[n]? = some item → item ≠ .null →
    ∃ entry ∈ after, entry.1 = .integer (n + 1 : Nat) ∧ Layout (toLua item) entry.2

/-- The entries of an object: the fields that are not `null`, under their keys. -/
structure Record (fields : Fields) (after : LuaEntries) : Prop where
  distinct : Distinct after
  field : ∀ entry ∈ after, ∃ field ∈ fields, field.2 ≠ .null ∧ entry.1 = .string field.1.bytes ∧
    Layout (toLua field.2) entry.2
  entry : ∀ field ∈ fields, field.2 ≠ .null → ∃ entry ∈ after, entry.1 = .string field.1.bytes ∧
    Layout (toLua field.2) entry.2

theorem layout_array {items : List Json} {data : LuaData} (distinct : (Json.array items).Distinct)
    (layout : Layout (toLua (.array items)) data) : ∃ after, data = .table none after ∧ Sequence items after := by
  have valid := toLua_valid distinct
  rw [toLua] at layout valid
  obtain ⟨after, rfl, distinct, matched⟩ := layout.table_inv valid
  refine ⟨after, rfl, distinct, ?_, ?_⟩
  · intro entry inside
    obtain ⟨old, found, key, layout⟩ := matched.right entry inside
    obtain ⟨n, item, here, some_, rfl⟩ := (mem_itemEntries ..).mp found
    exact ⟨n, item, here, some_, by rw [← key, Nat.zero_add], layout⟩
  · intro n item here some_
    obtain ⟨entry, inside, key, layout⟩ := matched.left _ ((mem_itemEntries 0 items _).mpr ⟨n, item, here, some_, rfl⟩)
    exact ⟨entry, inside, by rw [key, Nat.zero_add], layout⟩

theorem layout_object {fields : Fields} {data : LuaData} (distinct : (Json.object fields).Distinct)
    (layout : Layout (toLua (.object fields)) data) : ∃ after, data = .table none after ∧ Record fields after := by
  have valid := toLua_valid distinct
  rw [toLua] at layout valid
  obtain ⟨after, rfl, distinct, matched⟩ := layout.table_inv valid
  refine ⟨after, rfl, distinct, ?_, ?_⟩
  · intro entry inside
    obtain ⟨old, found, key, layout⟩ := matched.right entry inside
    obtain ⟨field, here, some_, rfl⟩ := (mem_fieldEntries ..).mp found
    exact ⟨field, here, some_, key.symm, layout⟩
  · intro field here some_
    obtain ⟨entry, inside, key, layout⟩ := matched.left _ ((mem_fieldEntries fields _).mpr ⟨field, here, some_, rfl⟩)
    exact ⟨entry, inside, key, layout⟩

theorem Sequence.mode {items : List Json} {after : LuaEntries} (sequence : Sequence items after) (some_ : after ≠ []) :
    arrayMode none after = true := by
  refine arrayMode_of_integer ?_ some_
  intro entry inside
  obtain ⟨n, item, -, -, key, -⟩ := sequence.item entry inside
  exact ⟨_, key, by omega⟩

theorem Record.mode {fields : Fields} {after : LuaEntries} (record : Record fields after) : arrayMode none after = false := by
  by_contra array
  rw [Bool.not_eq_false, arrayMode, Option.any_none, Bool.false_or, isSequence_iff] at array
  obtain ⟨-, entry, inside, k, key, -⟩ := array
  obtain ⟨field, -, -, string, -⟩ := record.field entry inside
  simp [key] at string

/-- What holds of every value and is inherited by the two kinds of tables holds of
whatever a value is laid out as. -/
theorem layout_induction {motive : LuaData → Prop} (value : ∀ value, motive (.value value))
    (array : ∀ (items : List Json) (after : LuaEntries), Sequence items after →
      (∀ entry ∈ after, motive entry.2) → motive (.table none after))
    (object : ∀ (fields : Fields) (after : LuaEntries), Record fields after →
      (∀ entry ∈ after, motive entry.2) → motive (.table none after))
    {json : Json} (distinct : json.Distinct) {data : LuaData} (layout : Layout (toLua json) data) : motive data := by
  induction distinct generalizing data with
  | null | boolean | int | double | string =>
    rw [toLua] at layout
    cases layout
    exact value _
  | @array items inner ih =>
    obtain ⟨after, rfl, sequence⟩ := layout_array (.array inner) layout
    apply array items after sequence
    intro entry inside
    obtain ⟨n, item, here, -, -, layout⟩ := sequence.item entry inside
    exact ih item (List.mem_of_getElem? here) layout
  | @object fields keys inner ih =>
    obtain ⟨after, rfl, record⟩ := layout_object (.object keys inner) layout
    apply object fields after record
    intro entry inside
    obtain ⟨field, here, -, -, layout⟩ := record.field entry inside
    exact ih field here layout

theorem layout_orderly {value : Json} (distinct : value.Distinct) {data : LuaData} (layout : Layout (toLua value) data) :
    Orderly lua data := by
  refine layout_induction (motive := Orderly lua) .value ?array ?object distinct layout
  case array =>
    intro items after sequence inner
    refine .table ?_ inner
    intro entry inside
    exact .inl (sequence.mode (List.ne_nil_of_mem inside))
  case object =>
    intro fields after record inner
    refine .table ?_ inner
    intro entry inside
    obtain ⟨field, -, -, key, -⟩ := record.field entry inside
    exact .inr (.inl ⟨_, key⟩)

theorem layout_clear {value : Json} (distinct : value.Distinct) {data : LuaData} (layout : Layout (toLua value) data) :
    Clear lua data := by
  refine layout_induction (motive := Clear lua) .value ?array ?object distinct layout
  case array =>
    intro items after sequence inner
    refine .table ?_ inner
    intro entry inside text read other again
    obtain ⟨second, found, string⟩ := List.mem_map.mp again
    obtain ⟨n, item, -, -, key, -⟩ := sequence.item second found
    simp [key] at string
  case object =>
    intro fields after record inner
    refine .table ?_ inner
    intro entry inside text read other
    obtain ⟨field, -, -, key, -⟩ := record.field entry inside
    simp [key, LuaChoices.toString] at read other
    exact absurd read other

theorem toJson_empty : toJson lua (.table none []) = .object [] := by
  rw [toJson]
  rfl

variable (lua) in
theorem Sequence.filled {items : List Json} {after : LuaEntries} (sequence : Sequence items after) (some_ : after ≠ [])
    (small : items.length ≤ 2147483648) : ∃ back, toJson lua (.table none after) = .array back ∧
      Filled (after.map fun entry => (position entry.1, toJson lua entry.2)) back := by
  refine toJson_array lua (sequence.mode some_) sequence.distinct ?_
  intro entry inside
  obtain ⟨n, item, here, -, key, -⟩ := sequence.item entry inside
  have bound := (List.getElem?_eq_some_iff.mp here).1
  exact ⟨_, key, by omega, by omega⟩

theorem position_succ (n : Nat) : position (.integer (n + 1 : Nat)) = n := by
  simp [position]

variable (lua) in
theorem Record.back {fields : Fields} {after : LuaEntries} (record : Record fields after) :
    ∃ back, toJson lua (.table none after) = .object back ∧
      ∀ key value, (key, value) ∈ back ↔
        ∃ entry ∈ after, entry.1 = .string key.bytes ∧ value = toJson lua entry.2 := by
  have text : ∀ entry ∈ after, ∃ key : CStr, entry.1 = .string key.bytes ∧ CStr.ofBytes (keyText lua entry.1) = key := by
    intro entry inside
    obtain ⟨field, -, -, key, -⟩ := record.field entry inside
    refine ⟨field.1, key, ?_⟩
    rw [key]
    exact CStr.ofBytes_bytes field.1
  have texts : (after.map fun entry => CStr.ofBytes (keyText lua entry.1)).Nodup := by
    refine List.Nodup.map_on ?_ record.distinct.nodup.of_map
    intro first inside second found same
    obtain ⟨one, key, is⟩ := text first inside
    obtain ⟨two, other, also⟩ := text second found
    rw [is, also] at same
    exact List.inj_on_of_nodup_map record.distinct.nodup inside found (by rw [key, other, same])
  refine ⟨_, toJson_object record.mode texts, ?_⟩
  intro key value
  constructor
  · intro inside
    obtain ⟨entry, found, same⟩ := List.mem_map.mp inside
    cases same
    obtain ⟨one, is, same⟩ := text entry found
    exact ⟨entry, found, by rw [same, is], rfl⟩
  · rintro ⟨entry, found, is, rfl⟩
    obtain ⟨one, other, same⟩ := text entry found
    refine List.mem_map.mpr ⟨entry, found, ?_⟩
    have equal : one = key := CStr.ext (by simpa [is] using other.symm)
    rw [same, equal]

/-! JSON to Lua and back -/

/-- There are no integers, no `\0` in strings, no `null` in objects, no empty arrays, and
no array ends with `null` or is longer than an `int` can count. -/
inductive Faithful : Json → Prop where
  | null : Faithful .null
  | boolean (value : Bool) : Faithful (.boolean value)
  | double (bits : UInt64) : Faithful (.double bits)
  | string {bytes : List UInt8} (clean : (0 : UInt8) ∉ bytes) : Faithful (.string bytes)
  | array {items : List Json} {last : Json} (ends : items.getLast? = some last) (some_ : last ≠ .null)
      (small : items.length ≤ 2147483648) (inner : ∀ item ∈ items, Faithful item) : Faithful (.array items)
  | object {fields : Fields} (full : ∀ field ∈ fields, field.2 ≠ .null) (inner : ∀ field ∈ fields, Faithful field.2) :
      Faithful (.object fields)

theorem filled_at {after : LuaEntries} {back : List Json}
    (filled : Filled (after.map fun entry => (position entry.1, toJson lua entry.2)) back) {n : Nat} {data : LuaData}
    (inside : (LuaValue.integer (n + 1 : Nat), data) ∈ after) : back[n]? = some (toJson lua data) := by
  have there := filled.there _ (List.mem_map_of_mem (f := fun entry => (position entry.1, toJson lua entry.2)) inside)
  rwa [position_succ] at there

/-- An array that does not end with `null` comes back with the same length. -/
theorem Sequence.equal {items : List Json} {after : LuaEntries} {last : Json} (sequence : Sequence items after)
    (ends : items.getLast? = some last) (some_ : last ≠ .null) (small : items.length ≤ 2147483648)
    (inner : ∀ item ∈ items, ∀ data, Layout (toLua item) data → item.Equal (toJson lua data)) :
    (Json.array items).Equal (toJson lua (.table none after)) := by
  have final : items[items.length - 1]? = some last := by rwa [← List.getLast?_eq_getElem?]
  obtain ⟨entry, inside, key, -⟩ := sequence.entry _ last final some_
  obtain ⟨back, is, filled⟩ := sequence.filled lua (List.ne_nil_of_mem inside) small
  have there : ∀ entry ∈ after, ∀ n : Nat, entry.1 = .integer (n + 1 : Nat) → back[n]? = some (toJson lua entry.2) := by
    rintro ⟨key, data⟩ inside n rfl
    exact filled_at filled inside
  rw [is]
  refine .array ?_ ?_
  · have low := (List.getElem?_eq_some_iff.mp (there entry inside _ key)).1
    have high : back.length ≤ items.length := by
      by_contra long
      obtain ⟨pair, found, reach⟩ := filled.reach items.length (by omega)
      obtain ⟨entry, inside, rfl⟩ := List.mem_map.mp found
      obtain ⟨n, item, here, -, key, -⟩ := sequence.item entry inside
      have bound := (List.getElem?_eq_some_iff.mp here).1
      simp only [key, position_succ] at reach
      omega
    omega
  · intro i a b here found
    by_cases empty : a = .null
    · subst empty
      rcases filled.hole i b found with old | ⟨rfl, -⟩
      · obtain ⟨entry, inside, same⟩ := List.mem_map.mp old
        obtain ⟨n, item, other, full, key, -⟩ := sequence.item entry inside
        have index : position entry.1 = i := congrArg Prod.fst same
        rw [key, position_succ] at index
        subst index
        rw [here] at other
        cases other
        exact absurd rfl full
      · exact .null
    · obtain ⟨entry, inside, key, layout⟩ := sequence.entry i a here empty
      rw [there entry inside i key] at found
      cases found
      exact inner a (List.mem_of_getElem? here) _ layout

/-- An object without `null` comes back with the same keys. -/
theorem Record.equal {fields : Fields} {after : LuaEntries} (record : Record fields after)
    (keys : (fields.map Prod.fst).Nodup) (full : ∀ field ∈ fields, field.2 ≠ .null)
    (inner : ∀ field ∈ fields, ∀ data, Layout (toLua field.2) data → field.2.Equal (toJson lua data)) :
    (Json.object fields).Equal (toJson lua (.table none after)) := by
  obtain ⟨back, is, member⟩ := record.back lua
  rw [is]
  refine .object ?_ ?_
  · intro key
    constructor
    · intro inside
      obtain ⟨field, found, rfl⟩ := List.mem_map.mp inside
      obtain ⟨entry, among, same, -⟩ := record.entry field found (full field found)
      exact List.mem_map.mpr ⟨(field.1, toJson lua entry.2), (member ..).mpr ⟨entry, among, same, rfl⟩, rfl⟩
    · intro inside
      obtain ⟨⟨name, value⟩, found, rfl⟩ := List.mem_map.mp inside
      obtain ⟨entry, among, same, -⟩ := (member ..).mp found
      obtain ⟨field, here, -, other, -⟩ := record.field entry among
      have equal : field.1 = name := CStr.ext (by simpa [same] using other.symm)
      exact List.mem_map.mpr ⟨field, here, equal⟩
  · intro key a b here found
    obtain ⟨entry, among, same, rfl⟩ := (member ..).mp found
    obtain ⟨field, there, -, other, layout⟩ := record.field entry among
    have equal : field.1 = key := CStr.ext (by simpa [same] using other.symm)
    obtain rfl : field = (key, a) := List.inj_on_of_nodup_map keys there here equal
    exact inner _ there _ layout

theorem equal_of_faithful {value : Json} (distinct : value.Distinct) (faithful : Faithful value) {data : LuaData}
    (layout : Layout (toLua value) data) : value.Equal (toJson lua data) := by
  induction faithful generalizing data with
  | null =>
    rw [toLua] at layout
    cases layout
    rw [toJson]
    exact .null
  | boolean value =>
    rw [toLua] at layout
    cases layout
    rw [toJson]
    exact .boolean value
  | double bits =>
    rw [toLua] at layout
    cases layout
    rw [toJson]
    exact .double bits
  | @string bytes clean =>
    rw [toLua] at layout
    cases layout
    rw [toJson, scalarToJson, CStr.ofBytes_bytes, newString, CStr.ofBytes_eq clean]
    exact .string bytes
  | @array items last ends some_ small inner ih =>
    obtain ⟨after, rfl, sequence⟩ := layout_array distinct layout
    cases distinct with
    | array distinct => exact sequence.equal ends some_ small fun item inside _ => ih item inside (distinct item inside)
  | @object fields full inner ih =>
    obtain ⟨after, rfl, record⟩ := layout_object distinct layout
    cases distinct with
    | object keys distinct => exact record.equal keys full fun field inside _ => ih field inside (distinct field inside)

/-- What is needed for an array to come back as an equal one. -/
theorem Sequence.needed {items : List Json} {after : LuaEntries} (sequence : Sequence items after)
    (own : (Json.array items).Equal (toJson lua (.table none after))) :
    items.length ≤ 2147483648 ∧ ∃ last, items.getLast? = some last ∧ last ≠ .null := by
  have some_ : after ≠ [] := by
    rintro rfl
    rw [toJson_empty] at own
    cases own
  have small : items.length ≤ 2147483648 := by
    rcases toJson_shape lua none after with ⟨-, back, is, bound⟩ | ⟨other, -⟩
    · rw [is] at own
      cases own with
      | array length each => omega
    · simp [sequence.mode some_] at other
  refine ⟨small, ?_⟩
  obtain ⟨back, is, filled⟩ := sequence.filled lua some_ small
  have positive : 0 < items.length := by
    obtain ⟨entry, inside⟩ := List.exists_mem_of_ne_nil after some_
    obtain ⟨n, item, here, -⟩ := sequence.item entry inside
    have bound := (List.getElem?_eq_some_iff.mp here).1
    omega
  rw [is] at own
  cases own with
  | array length each =>
    obtain ⟨pair, found, reach⟩ := filled.reach (items.length - 1) (by omega)
    obtain ⟨entry, inside, rfl⟩ := List.mem_map.mp found
    obtain ⟨n, item, here, some_, key, -⟩ := sequence.item entry inside
    have bound := (List.getElem?_eq_some_iff.mp here).1
    simp only [key, position_succ] at reach
    obtain rfl : n = items.length - 1 := by omega
    exact ⟨item, by rwa [List.getLast?_eq_getElem?], some_⟩

/-- What is needed for an object to come back as an equal one. -/
theorem Record.needed {fields : Fields} {after : LuaEntries} (record : Record fields after)
    (keys : (fields.map Prod.fst).Nodup) (own : (Json.object fields).Equal (toJson lua (.table none after))) :
    ∀ field ∈ fields, field.2 ≠ .null := by
  intro field inside
  obtain ⟨back, is, member⟩ := record.back lua
  rw [is] at own
  cases own with
  | object names each =>
    obtain ⟨⟨name, value⟩, found, same⟩ := List.mem_map.mp ((names field.1).mp (List.mem_map_of_mem inside))
    obtain ⟨entry, among, is, -⟩ := (member ..).mp found
    obtain ⟨other, there, some_, key, -⟩ := record.field entry among
    have equal : other.1 = field.1 := by
      rw [← same]
      exact CStr.ext (by simpa [is] using key.symm)
    rwa [← List.inj_on_of_nodup_map keys there inside equal]

variable (lua) in
theorem faithful_of_equal {value : Json} (distinct : value.Distinct)
    (equal : ∀ data, Layout (toLua value) data → value.Equal (toJson lua data)) : Faithful value := by
  induction distinct with
  | null => exact .null
  | boolean value => exact .boolean value
  | double bits => exact .double bits
  | int value =>
    have own := equal _ (Layout.refl _)
    rw [toLua, toJson] at own
    cases own
  | string bytes =>
    have own := equal _ (Layout.refl _)
    rw [toLua, toJson, scalarToJson, CStr.ofBytes_bytes, newString] at own
    generalize same : (CStr.ofBytes bytes).bytes = kept at own
    cases own
    apply Faithful.string
    rw [← same]
    exact (CStr.ofBytes bytes).terminated
  | @array items inner ih =>
    have whole := Json.Distinct.array inner
    have own := equal _ (Layout.refl _)
    obtain ⟨after, table, sequence⟩ := layout_array whole (Layout.refl _)
    rw [table] at own
    obtain ⟨small, last, ends, some_⟩ := sequence.needed own
    refine .array ends some_ small ?_
    intro item inside
    by_cases empty : item = .null
    · subst empty
      exact .null
    · apply ih item inside
      intro data layout
      obtain ⟨n, here⟩ := List.mem_iff_getElem?.mp inside
      have old := (mem_itemEntries 0 items _).mpr ⟨n, item, here, empty, rfl⟩
      -- The same array with this item laid out in the given way.
      obtain ⟨other, relaid, found⟩ := Layout.replace none (keys_itemEntries 0 items) old layout
      have relaid : Layout (toLua (.array items)) (.table none other) := by rwa [toLua]
      obtain ⟨_, same, sequence⟩ := layout_array whole relaid
      cases same
      obtain ⟨back, is, filled⟩ := sequence.filled lua (List.ne_nil_of_mem found) small
      have again := equal _ relaid
      rw [is] at again
      rw [Nat.zero_add] at found
      cases again with
      | array length each => exact each n item _ here (filled_at filled found)
  | @object fields keys inner ih =>
    have whole := Json.Distinct.object keys inner
    have own := equal _ (Layout.refl _)
    obtain ⟨after, table, record⟩ := layout_object whole (Layout.refl _)
    rw [table] at own
    have full := record.needed keys own
    refine .object full ?_
    intro field inside
    apply ih field inside
    intro data layout
    have old := (mem_fieldEntries fields _).mpr ⟨field, inside, full field inside, rfl⟩
    obtain ⟨other, relaid, found⟩ := Layout.replace none (keys_fieldEntries keys) old layout
    have relaid : Layout (toLua (.object fields)) (.table none other) := by rwa [toLua]
    obtain ⟨_, same, record⟩ := layout_object whole relaid
    cases same
    obtain ⟨back, is, member⟩ := record.back lua
    have again := equal _ relaid
    rw [is] at again
    cases again with
    | object names each => exact each field.1 _ _ inside ((member ..).mpr ⟨_, found, rfl, rfl⟩)

theorem layout_spelt {value : Json} (distinct : value.Distinct) {data : LuaData} (layout : Layout (toLua value) data) :
    Spelt lua data := by
  refine layout_induction (motive := Spelt lua) .value ?array ?object distinct layout
  case array =>
    intro items after sequence inner
    refine .table ?_ inner
    intro entry inside
    obtain ⟨n, item, -, -, key, -⟩ := sequence.item entry inside
    simp [key, LuaChoices.toString]
  case object =>
    intro fields after record inner
    refine .table ?_ inner
    intro entry inside
    obtain ⟨field, -, -, key, -⟩ := record.field entry inside
    simp [key, LuaChoices.toString]

/-- On the slots there are `json_to_lua` pushes one value, and whatever the order in which `lua_next`
visits its tables, `lua_to_json` makes a value of it that is equal to the first one. -/
def JsonKept (lua : LuaTexts) (value : Json) : Prop :=
  ∀ args, ∃ data, jsonToLua value (called args) = .ok ⟨data :: args, (called args).limit⟩ ∧
    ∀ other, Layout data other → ∀ args index, (called args).slot index = some other →
      ∃ fuel back, luaToJson lua fuel index (called args) = .ok (back, called args) ∧ value.Equal back

theorem JsonKept.equal {value : Json} (distinct : value.Distinct) (kept : JsonKept lua value) {data : LuaData}
    (layout : Layout (toLua value) data) : value.Equal (toJson lua data) ∧ height lua data ≤ luaMinstack := by
  obtain ⟨pushed, ran, all⟩ := kept []
  obtain rfl := jsonToLua_free distinct ran
  obtain ⟨fuel, back, again, equal⟩ := all data layout [data] 1 rfl
  obtain ⟨rfl, -, shallow⟩ := toJson_free (layout.valid (toLua_valid distinct)) (layout_clear distinct layout) rfl again
  exact ⟨equal, shallow⟩

theorem jsonKept_iff {value : Json} (distinct : value.Distinct) : JsonKept lua value ↔ Faithful value ∧ depth value ≤ 10 := by
  have spelt : Spelt lua (toLua value) := layout_spelt distinct (Layout.refl _)
  constructor
  · intro kept
    refine ⟨faithful_of_equal lua distinct fun _ layout => (kept.equal distinct layout).1, ?_⟩
    rw [← nesting_toLua, ← spelt.shallow_iff]
    exact (kept.equal distinct (Layout.refl _)).2
  · rintro ⟨faithful, flat⟩ args
    have pushed := jsonHeight_le value
    refine ⟨_, jsonToLua_called distinct args (by simp only [luaMinstack]; omega), ?_⟩
    intro data layout args index found
    have valid := layout.valid (toLua_valid distinct)
    have orderly : Orderly lua data := layout_orderly distinct layout
    have shallow : height lua data ≤ luaMinstack := by
      refine (layout_height lua layout).trans (spelt.shallow_iff.mpr ?_)
      rwa [nesting_toLua]
    have free_found : slot ⟨args, none⟩ index = some data := found
    have ran := luaToJson_runs valid orderly free_found (Nat.lt_succ_self _)
    exact ⟨_, _, toJson_called valid orderly found shallow ran, equal_of_faithful distinct faithful layout⟩

/-- `[null, {}]` -/
def holed : Json := .array [.null, .object []]

theorem holed_kept_iff : JsonKept .first holed ↔ Faithful holed ∧ depth holed ≤ 10 := by
  apply jsonKept_iff
  apply Json.Distinct.array
  intro item inside
  simp only [List.mem_cons, List.not_mem_nil, or_false] at inside
  rcases inside with rfl | rfl
  · exact .null
  · exact .object .nil (by simp)

/-- `[]` comes back as `{}`. -/
theorem empty_array_lost : ¬ JsonKept .first (.array []) := by
  intro kept
  have equal := (kept.equal (.array (by simp)) (Layout.refl _)).1
  rw [toLua, itemEntries, toJson_empty] at equal
  cases equal

/-! Lua to JSON and back -/

/-- Strings without `\0`, booleans, 64-bit integers, sequences with keys `1` to `n`, and
tables whose keys are strings. -/
inductive Plain : LuaData → Prop where
  | string {bytes : List UInt8} (clean : (0 : UInt8) ∉ bytes) : Plain (.value (.string bytes))
  | boolean (value : Bool) : Plain (.value (.boolean value))
  | integer {value : Int} (fits : Binary64.IsInt64 value) : Plain (.value (.integer value))
  | sequence {jsonType : Option LuaValue} {entries : LuaEntries} (some_ : entries ≠ [])
      (keys : (entries.map Prod.fst).Perm ((List.range entries.length).map fun i => LuaValue.integer (i + 1 : Nat)))
      (inner : ∀ entry ∈ entries, Plain entry.2) : Plain (.table jsonType entries)
  | record {jsonType : Option LuaValue} {entries : LuaEntries} (free : jsonType.any isArrayName = false)
      (keys : ∀ entry ∈ entries, ∃ bytes, entry.1 = .string bytes ∧ (0 : UInt8) ∉ bytes)
      (distinct : (entries.map Prod.fst).Nodup) (inner : ∀ entry ∈ entries, Plain entry.2) : Plain (.table jsonType entries)

/-- What `==` of Lua says of two values of which only the second may be a float. -/
inductive LuaEqual : LuaValue → LuaValue → Prop where
  | same (value : LuaValue) : LuaEqual value value
  | float {value : Int} {bits : UInt64} (exact_ : Binary64.toInt64 bits = some value) :
      LuaEqual (.integer value) (.number bits)

/-- The same keys, and equal values. -/
inductive Agree : LuaData → LuaData → Prop where
  | value {first second : LuaValue} (equal : LuaEqual first second) : Agree (.value first) (.value second)
  | table {one two : Option LuaValue} {first second : LuaEntries}
      (keys : ∀ key, key ∈ first.map Prod.fst ↔ key ∈ second.map Prod.fst)
      (each : ∀ key a b, (key, a) ∈ first → (key, b) ∈ second → Agree a b) : Agree (.table one first) (.table two second)

/-- Each integer has at most 53 significant bits, and no sequence is longer than an `int` can count. -/
inductive Exact : LuaData → Prop where
  | string (bytes : List UInt8) : Exact (.value (.string bytes))
  | boolean (value : Bool) : Exact (.value (.boolean value))
  | integer {value : Int} (short : Binary64.Representable value.natAbs) : Exact (.value (.integer value))
  | table {jsonType : Option LuaValue} {entries : LuaEntries}
      (small : ∀ entry ∈ entries, ∀ k, entry.1 = .integer k → k ≤ 2147483648)
      (inner : ∀ entry ∈ entries, Exact entry.2) : Exact (.table jsonType entries)

section Plain
variable {data : LuaData} {entries : LuaEntries} {jsonType : Option LuaValue}

theorem sequence_keys (keys : (entries.map Prod.fst).Perm
    ((List.range entries.length).map fun i => LuaValue.integer (i + 1 : Nat))) :
    Distinct entries ∧ ∀ entry ∈ entries, ∃ i : Nat, entry.1 = .integer (i + 1 : Nat) := by
  have each : ∀ key ∈ entries.map Prod.fst, ∃ i : Nat, key = .integer (i + 1 : Nat) := by
    intro key inside
    obtain ⟨i, -, rfl⟩ := List.mem_map.mp (keys.mem_iff.mp inside)
    exact ⟨i, rfl⟩
  refine ⟨⟨?_, ?_⟩, fun entry inside => each _ (List.mem_map_of_mem inside)⟩
  · rw [keys.nodup_iff]
    refine List.nodup_range.map ?_
    intro first second same
    simp at same
    omega
  · intro inside
    obtain ⟨i, absurd⟩ := each _ inside
    cases absurd

theorem record_keys (keys : ∀ entry ∈ entries, ∃ bytes, entry.1 = .string bytes ∧ (0 : UInt8) ∉ bytes)
    (distinct : (entries.map Prod.fst).Nodup) : Distinct entries := by
  refine ⟨distinct, ?_⟩
  intro inside
  obtain ⟨entry, among, empty⟩ := List.mem_map.mp inside
  obtain ⟨bytes, key, -⟩ := keys entry among
  simp [key] at empty

theorem sequence_mode (some_ : entries ≠ []) (keys : ∀ entry ∈ entries, ∃ i : Nat, entry.1 = .integer (i + 1 : Nat)) :
    arrayMode jsonType entries = true := by
  refine arrayMode_of_integer ?_ some_
  intro entry inside
  obtain ⟨i, key⟩ := keys entry inside
  exact ⟨_, key, by omega⟩

theorem record_mode (free : jsonType.any isArrayName = false)
    (keys : ∀ entry ∈ entries, ∃ bytes, entry.1 = .string bytes ∧ (0 : UInt8) ∉ bytes) :
    arrayMode jsonType entries = false := by
  by_contra array
  rw [Bool.not_eq_false, arrayMode, free, Bool.false_or, isSequence_iff] at array
  obtain ⟨-, entry, inside, k, key, -⟩ := array
  obtain ⟨bytes, string, -⟩ := keys entry inside
  simp [key] at string

theorem Plain.valid (plain : Plain data) : Valid data := by
  induction plain with
  | string | boolean | integer => exact .value _
  | sequence some_ keys inner ih => exact .table (sequence_keys keys).1 ih
  | record free keys distinct inner ih => exact .table (record_keys keys distinct) ih

theorem Plain.orderly (plain : Plain data) : Orderly lua data := by
  induction plain with
  | string | boolean | integer => exact .value _
  | sequence some_ keys inner ih =>
    exact .table (fun entry inside => .inl (sequence_mode some_ (sequence_keys keys).2)) ih
  | record free keys distinct inner ih =>
    refine .table ?_ ih
    intro entry inside
    obtain ⟨bytes, key, -⟩ := keys entry inside
    exact .inr (.inl ⟨bytes, key⟩)

theorem Plain.clear (plain : Plain data) : Clear lua data := by
  induction plain with
  | string | boolean | integer => exact .value _
  | sequence some_ keys inner ih =>
    refine .table ?_ ih
    intro entry inside text read other again
    obtain ⟨second, found, string⟩ := List.mem_map.mp again
    obtain ⟨i, key⟩ := (sequence_keys keys).2 second found
    simp [key] at string
  | record free keys distinct inner ih =>
    refine .table ?_ ih
    intro entry inside text read other
    obtain ⟨bytes, key, -⟩ := keys entry inside
    simp [key, LuaChoices.toString] at read other
    exact absurd read other

theorem Plain.full (plain : Plain data) : toJson lua data ≠ .null := by
  cases plain with
  | string | boolean | integer =>
    rw [toJson]
    intro absurd
    cases absurd
  | @sequence jsonType entries | @record jsonType entries =>
    intro absurd
    rcases toJson_shape lua jsonType entries with ⟨-, items, is, -⟩ | ⟨-, fields, is⟩
    all_goals
      rw [is] at absurd
      cases absurd

variable (lua jsonType) in
theorem sequence_filled (some_ : entries ≠ []) (keys : (entries.map Prod.fst).Perm
      ((List.range entries.length).map fun i => LuaValue.integer (i + 1 : Nat)))
    (small : ∀ entry ∈ entries, ∀ k, entry.1 = .integer k → k ≤ 2147483648) :
    ∃ items, toJson lua (.table jsonType entries) = .array items ∧
      Filled (entries.map fun entry => (position entry.1, toJson lua entry.2)) items := by
  obtain ⟨distinct, each⟩ := sequence_keys keys
  refine toJson_array lua (sequence_mode some_ each) distinct ?_
  intro entry inside
  obtain ⟨i, key⟩ := each entry inside
  exact ⟨_, key, by omega, small entry inside _ key⟩

variable (lua) in
theorem record_fields (free : jsonType.any isArrayName = false)
    (keys : ∀ entry ∈ entries, ∃ bytes, entry.1 = .string bytes ∧ (0 : UInt8) ∉ bytes)
    (distinct : (entries.map Prod.fst).Nodup) :
    toJson lua (.table jsonType entries) =
        .object (entries.map fun entry => (CStr.ofBytes (keyText lua entry.1), toJson lua entry.2)) ∧
      ∀ entry ∈ entries, LuaValue.string (CStr.ofBytes (keyText lua entry.1)).bytes = entry.1 := by
  have back : ∀ entry ∈ entries, LuaValue.string (CStr.ofBytes (keyText lua entry.1)).bytes = entry.1 := by
    intro entry inside
    obtain ⟨bytes, key, clean⟩ := keys entry inside
    rw [key]
    congr 1
    exact CStr.ofBytes_eq clean
  refine ⟨toJson_object (record_mode free keys) ?_, back⟩
  refine List.Nodup.map_on ?_ distinct.of_map
  intro first inside second found same
  apply List.inj_on_of_nodup_map distinct inside found
  rw [← back first inside, ← back second found, same]

theorem agree_of_exact (plain : Plain data) (exact_ : Exact data) : Agree data (toLua (toJson lua data)) := by
  induction plain with
  | @string bytes clean =>
    rw [toJson, scalarToJson, newString, toLua, CStr.ofBytes_bytes, CStr.ofBytes_eq clean]
    exact .value (.same _)
  | boolean value =>
    rw [toJson, scalarToJson, toLua]
    exact .value (.same _)
  | @integer value fits =>
    cases exact_ with
    | integer short =>
      have clamp : getInt64 value = value := by
        obtain ⟨low, high⟩ := fits
        simp only [getInt64]
        omega
      rw [toJson, scalarToJson, toLua, clamp]
      exact .value (.float ((Binary64.toInt64_ofInt fits).mpr short))
  | @sequence jsonType entries some_ keys inner ih =>
    cases exact_ with
    | table small exact_ =>
      obtain ⟨items, is, filled⟩ := sequence_filled lua jsonType some_ keys small
      rw [is, toLua]
      have there : ∀ {n : Nat} {data : LuaData}, (LuaValue.integer (n + 1 : Nat), data) ∈ entries →
          items[n]? = some (toJson lua data) := filled_at filled
      refine .table ?_ ?_
      · intro key
        constructor
        · intro inside
          obtain ⟨⟨key, data⟩, among, rfl⟩ := List.mem_map.mp inside
          obtain ⟨i, rfl⟩ : ∃ i : Nat, key = .integer (i + 1 : Nat) := (sequence_keys keys).2 _ among
          have full : toJson lua data ≠ .null := (inner _ among).full
          have entry := (mem_itemEntries 0 items _).mpr ⟨i, _, there among, full, rfl⟩
          rw [Nat.zero_add] at entry
          exact List.mem_map.mpr ⟨_, entry, rfl⟩
        · intro inside
          obtain ⟨entry, among, rfl⟩ := List.mem_map.mp inside
          obtain ⟨n, item, here, full, rfl⟩ := (mem_itemEntries ..).mp among
          rcases filled.hole n item here with old | ⟨empty, -⟩
          · obtain ⟨old, found, same⟩ := List.mem_map.mp old
            obtain ⟨i, key⟩ := (sequence_keys keys).2 old found
            have index : position old.1 = n := congrArg Prod.fst same
            rw [key, position_succ] at index
            exact List.mem_map.mpr ⟨old, found, by rw [key, index, Nat.zero_add]⟩
          · exact absurd empty full
      · intro key a b inside found
        obtain ⟨n, item, here, -, same⟩ := (mem_itemEntries ..).mp found
        rw [Nat.zero_add] at same
        cases same
        rw [there inside] at here
        cases here
        exact ih _ inside (exact_ _ inside)
  | @record jsonType entries free keys distinct inner ih =>
    cases exact_ with
    | table small exact_ =>
      obtain ⟨is, back⟩ := record_fields lua free keys distinct
      rw [is, toLua]
      refine .table ?_ ?_
      · intro key
        constructor
        · intro inside
          obtain ⟨entry, among, rfl⟩ := List.mem_map.mp inside
          have full : toJson lua entry.2 ≠ .null := (inner entry among).full
          refine List.mem_map.mpr ⟨_, (mem_fieldEntries ..).mpr ⟨_, List.mem_map_of_mem among, full, rfl⟩, ?_⟩
          exact back entry among
        · intro inside
          obtain ⟨entry, among, rfl⟩ := List.mem_map.mp inside
          obtain ⟨field, found, -, rfl⟩ := (mem_fieldEntries ..).mp among
          obtain ⟨old, here, rfl⟩ := List.mem_map.mp found
          exact List.mem_map.mpr ⟨old, here, (back old here).symm⟩
      · intro key a b inside found
        obtain ⟨field, among, -, same⟩ := (mem_fieldEntries ..).mp found
        obtain ⟨old, here, rfl⟩ := List.mem_map.mp among
        cases same
        have key := back old here
        rw [List.inj_on_of_nodup_map distinct here inside key.symm]
        exact ih _ inside (exact_ _ inside)

variable (lua) in
theorem exact_of_agree (plain : Plain data) (agree : Agree data (toLua (toJson lua data))) : Exact data := by
  induction plain with
  | @string bytes clean => exact .string bytes
  | boolean value => exact .boolean value
  | @integer value fits =>
    have clamp : getInt64 value = value := by
      obtain ⟨low, high⟩ := fits
      simp only [getInt64]
      omega
    rw [toJson, scalarToJson, toLua, clamp] at agree
    cases agree with
    | value equal =>
      cases equal with
      | float short => exact .integer ((Binary64.toInt64_ofInt fits).mp short)
  | @sequence jsonType entries some_ keys inner ih =>
    obtain ⟨-, each⟩ := sequence_keys keys
    have shape : ∃ items, toJson lua (.table jsonType entries) = .array items ∧ items.length ≤ 2147483648 := by
      rcases toJson_shape lua jsonType entries with ⟨-, shape⟩ | ⟨other, -⟩
      · exact shape
      · simp [sequence_mode some_ each] at other
    obtain ⟨items, is, bound⟩ := shape
    rw [is, toLua] at agree
    cases agree with
    | table same agree =>
      have small : ∀ entry ∈ entries, ∀ k, entry.1 = .integer k → k ≤ 2147483648 := by
        intro entry inside k key
        obtain ⟨other, found, here⟩ := List.mem_map.mp ((same entry.1).mp (List.mem_map_of_mem inside))
        obtain ⟨n, item, there, -, rfl⟩ := (mem_itemEntries ..).mp found
        have short := (List.getElem?_eq_some_iff.mp there).1
        simp [key] at here
        omega
      refine .table small ?_
      rintro ⟨key, value⟩ inside
      obtain ⟨i, rfl⟩ : ∃ i : Nat, key = .integer (i + 1 : Nat) := each _ inside
      obtain ⟨other, again, filled⟩ := sequence_filled lua jsonType some_ keys small
      rw [is] at again
      cases again
      have entry := (mem_itemEntries 0 items _).mpr ⟨i, _, filled_at filled inside, (inner _ inside).full, rfl⟩
      rw [Nat.zero_add] at entry
      exact ih _ inside (agree _ _ _ inside entry)
  | @record jsonType entries free keys distinct inner ih =>
    obtain ⟨is, back⟩ := record_fields lua free keys distinct
    rw [is, toLua] at agree
    cases agree with
    | table same agree =>
      refine .table ?_ ?_
      · intro entry inside k key
        obtain ⟨bytes, string, -⟩ := keys entry inside
        simp [key] at string
      · rintro ⟨key, value⟩ inside
        have field := List.mem_map_of_mem (f := fun entry => (CStr.ofBytes (keyText lua entry.1), toJson lua entry.2)) inside
        have entry := (mem_fieldEntries ..).mpr ⟨_, field, (inner _ inside).full, rfl⟩
        rw [back _ inside] at entry
        exact ih _ inside (agree _ _ _ inside entry)

theorem Plain.spelt (plain : Plain data) : Spelt lua data := by
  induction plain with
  | string | boolean | integer => exact .value _
  | sequence some_ keys inner ih =>
    refine .table ?_ ih
    intro entry inside
    obtain ⟨i, key⟩ := (sequence_keys keys).2 entry inside
    simp [key, LuaChoices.toString]
  | record free keys distinct inner ih =>
    refine .table ?_ ih
    intro entry inside
    obtain ⟨bytes, key, -⟩ := keys entry inside
    simp [key, LuaChoices.toString]

variable (lua) in
theorem depth_plain (plain : Plain data) (exact_ : Exact data) : depth (toJson lua data) ≤ nesting data := by
  induction plain with
  | string | boolean | integer =>
    rw [toJson, scalarToJson]
    simp [depth, newString]
  | @sequence jsonType entries some_ keys inner ih =>
    cases exact_ with
    | table small exact_ =>
      obtain ⟨items, is, filled⟩ := sequence_filled lua jsonType some_ keys small
      rw [is, nesting, Nat.add_comm 1, depth_array]
      intro item inside
      obtain ⟨n, here⟩ := List.mem_iff_getElem?.mp inside
      rcases filled.hole n item here with old | ⟨rfl, -⟩
      · obtain ⟨entry, among, same⟩ := List.mem_map.mp old
        have own : depth (toJson lua entry.2) ≤ nesting entry.2 := ih entry among (exact_ entry among)
        obtain rfl : toJson lua entry.2 = item := congrArg Prod.snd same
        exact own.trans (nesting_child among)
      · simp [depth]
  | @record jsonType entries free keys distinct inner ih =>
    cases exact_ with
    | table small exact_ =>
      obtain ⟨is, -⟩ := record_fields lua free keys distinct
      rw [is, nesting, Nat.add_comm 1, depth_object]
      intro field inside
      obtain ⟨entry, among, rfl⟩ := List.mem_map.mp inside
      exact (ih entry among (exact_ entry among)).trans (nesting_child among)

/-- On the slots there are the table is converted without a trace on the stack, and `json_to_lua` makes
a table of the result that agrees with it. -/
def TableKept (lua : LuaTexts) (data : LuaData) : Prop :=
  ∀ args index, (called args).slot index = some data →
    ∃ fuel j back, luaToJson lua fuel index (called args) = .ok (j, called args) ∧
      (∀ args, jsonToLua j (called args) = .ok ⟨back :: args, (called args).limit⟩) ∧ Agree data back

theorem TableKept.agree (plain : Plain data) (kept : TableKept lua data) :
    Agree data (toLua (toJson lua data)) ∧ height lua data ≤ luaMinstack := by
  obtain ⟨fuel, j, back, ran, pushed, agree⟩ := kept [data] 1 rfl
  obtain ⟨rfl, -, shallow⟩ := toJson_free plain.valid plain.clear rfl ran
  obtain rfl := jsonToLua_free (toJson_distinct lua data) (pushed [])
  exact ⟨agree, shallow⟩

theorem tableKept_iff (plain : Plain data) : TableKept lua data ↔ Exact data ∧ nesting data ≤ 10 := by
  have spelt : Spelt lua data := plain.spelt
  constructor
  · intro kept
    obtain ⟨agree, shallow⟩ := kept.agree plain
    exact ⟨exact_of_agree lua plain agree, spelt.shallow_iff.mp shallow⟩
  · rintro ⟨exact_, flat⟩ args index found
    have orderly : Orderly lua data := plain.orderly
    have free_found : slot ⟨args, none⟩ index = some data := found
    have ran := luaToJson_runs plain.valid orderly free_found (Nat.lt_succ_self _)
    have deep := depth_plain lua plain exact_
    have pushed := jsonHeight_le (toJson lua data)
    exact ⟨_, _, _, toJson_called plain.valid orderly found (spelt.shallow_iff.mpr flat) ran,
      fun args => jsonToLua_called (toJson_distinct lua data) args (by simp only [luaMinstack]; omega),
      agree_of_exact plain exact_⟩

end Plain

/-- `{ 9007199254740993 }` -/
def tooLong : LuaData := .table none [(.integer 1, .value (.integer 9007199254740993))]

theorem tooLong_plain : Plain tooLong := by
  refine .sequence (by simp) (by simp) ?_
  intro entry inside
  cases List.mem_singleton.mp inside
  exact .integer (by decide)

theorem tooLong_kept_iff : TableKept .first tooLong ↔ Exact tooLong ∧ nesting tooLong ≤ 10 := tableKept_iff tooLong_plain

/-- The integer comes back as `9007199254740992`. -/
theorem tooLong_lost : Plain tooLong ∧ ¬ TableKept .first tooLong := by
  refine ⟨tooLong_plain, ?_⟩
  intro kept
  have agree := (kept.agree tooLong_plain).1
  cases exact_of_agree .first tooLong_plain agree with
  | table small inner =>
    cases inner _ (List.mem_singleton_self _) with
    | integer short =>
      have lost := (Binary64.toInt64_ofInt (n := 9007199254740993) (by decide)).mpr short
      exact absurd lost (by decide)

end Ltf.Proofs.LuaRoundTrip
