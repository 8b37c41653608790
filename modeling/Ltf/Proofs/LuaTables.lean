import Ltf.Proofs.LuaRoom

/-! Tables with keys that are strings, positive integers or booleans of pairwise distinct
texts. They are converted as they should be when no key and no value gets in the way. -/

namespace Ltf.Proofs.LuaTables
open CString JsonC LuaStack LuaTraversal LuaLayout LuaToJson LuaSlots LuaRoom

variable {lua : LuaTexts} {entries : LuaEntries} {jsonType : Option LuaValue} {data : LuaData}
  {text : List UInt8 → List UInt8}

def IsKey : LuaValue → Prop
  | .string _ | .boolean _ => True
  | .integer k => 0 < k
  | _ => False

variable (lua) in
inductive Tidy : LuaData → Prop where
  | value (value : LuaValue) : Tidy (.value value)
  | table {jsonType : Option LuaValue} {entries : LuaEntries} (keys : ∀ entry ∈ entries, IsKey entry.1)
      (texts : (entries.map fun entry => keyText lua entry.1).Nodup)
      (forced : jsonType.any isArrayName = true → ∀ entry ∈ entries, ∃ k, entry.1 = .integer k)
      (inner : ∀ entry ∈ entries, Tidy entry.2) : Tidy (.table jsonType entries)

/-- The JSON value of what is no table, with its text as the function says. -/
def scalarJson (text : List UInt8 → List UInt8) : LuaValue → Json
  | .boolean value => .boolean value
  | .integer value => .int value
  | .number bits => .double bits
  | .string bytes => .string (text bytes)
  | .nil | .object _ => .null

def untilNul (bytes : List UInt8) : List UInt8 := bytes.takeWhile (· ≠ 0)

variable (lua text) in
/-- One entry for each entry of a table: at its index in an array, under its text in an object. -/
inductive Converted : LuaData → Json → Prop where
  | value (value : LuaValue) : Converted (.value value) (scalarJson text value)
  | array {jsonType : Option LuaValue} {entries : LuaEntries} {items : List Json}
      (there : ∀ entry ∈ entries, ∃ i : Nat, entry.1 = .integer (i + 1) ∧ i < items.length)
      (each : ∀ entry ∈ entries, ∀ (i : Nat) item, entry.1 = .integer (i + 1) → items[i]? = some item →
        Converted entry.2 item)
      (others : ∀ (i : Nat) item, items[i]? = some item → LuaValue.integer (i + 1) ∉ entries.map Prod.fst → item = .null) :
      Converted (.table jsonType entries) (.array items)
  | object {jsonType : Option LuaValue} {entries : LuaEntries} {fields : Fields}
      (count : fields.length = entries.length) (distinct : (fields.map Prod.fst).Nodup)
      (there : ∀ entry ∈ entries, ∃ field ∈ fields, field.1.bytes = keyText lua entry.1)
      (each : ∀ entry ∈ entries, ∀ field ∈ fields, field.1.bytes = keyText lua entry.1 → Converted entry.2 field.2) :
      Converted (.table jsonType entries) (.object fields)

variable (text) in
/-- The texts of the values are taken over up to a `\0`. -/
inductive Carried : LuaData → Prop where
  | value {value : LuaValue} (cut : ∀ bytes, value = .string bytes → text bytes = untilNul bytes) : Carried (.value value)
  | table {jsonType : Option LuaValue} {entries : LuaEntries} (inner : ∀ entry ∈ entries, Carried entry.2) :
      Carried (.table jsonType entries)

/-- No value is a string with `\0`. -/
inductive Clean : LuaData → Prop where
  | value {value : LuaValue} (clean : ∀ bytes, value = .string bytes → (0 : UInt8) ∉ bytes) : Clean (.value value)
  | table {jsonType : Option LuaValue} {entries : LuaEntries} (inner : ∀ entry ∈ entries, Clean entry.2) :
      Clean (.table jsonType entries)

/-- Each table has either small integers as keys, or strings without `\\0` and booleans
whose values are no strings. -/
inductive Regular : LuaData → Prop where
  | value (value : LuaValue) : Regular (.value value)
  | array {jsonType : Option LuaValue} {entries : LuaEntries}
      (keys : ∀ entry ∈ entries, ∃ k, entry.1 = .integer k ∧ k ≤ 2147483648)
      (inner : ∀ entry ∈ entries, Regular entry.2) : Regular (.table jsonType entries)
  | object {jsonType : Option LuaValue} {entries : LuaEntries}
      (keys : ∀ entry ∈ entries, (∃ bytes, entry.1 = .string bytes ∧ (0 : UInt8) ∉ bytes) ∨
        (∃ value, entry.1 = .boolean value) ∧ entry.2.isString = false)
      (inner : ∀ entry ∈ entries, Regular entry.2) : Regular (.table jsonType entries)

theorem distinct_of_texts (keys : ∀ entry ∈ entries, IsKey entry.1)
    (texts : (entries.map fun entry => keyText lua entry.1).Nodup) : Distinct entries where
  nodup := by
    have mapped : ((entries.map Prod.fst).map (keyText lua)).Nodup := by
      simpa only [List.map_map, Function.comp_def] using texts
    exact mapped.of_map
  named := by
    intro inside
    obtain ⟨entry, inside, empty⟩ := List.mem_map.mp inside
    have is := keys entry inside
    rw [empty] at is
    exact is

theorem Tidy.valid (tidy : Tidy lua data) : Valid data := by
  induction tidy with
  | value value => exact .value value
  | table keys texts forced inner ih => exact .table (distinct_of_texts keys texts) ih

theorem Tidy.clear (tidy : Tidy lua data) : Clear lua data := by
  induction tidy with
  | value value => exact .value value
  | @table jsonType entries keys texts forced inner ih =>
    refine .table ?_ ih
    intro entry inside text read other again
    obtain ⟨second, found, key⟩ := List.mem_map.mp again
    have same : keyText lua entry.1 = keyText lua second.1 := by
      rw [key, keyText, keyText, read]
      rfl
    exact other ((congrArg Prod.fst (List.inj_on_of_nodup_map texts inside found same)).trans key)

theorem scalar_iff (value : LuaValue) : scalarToJson value = scalarJson text value ↔
    ∀ bytes, value = .string bytes → text bytes = untilNul bytes := by
  cases value with
  | string bytes =>
    have cut : scalarToJson (.string bytes) = .string (untilNul bytes) := rfl
    rw [cut]
    simp [scalarJson, eq_comm]
  | _ => simp [scalarToJson, scalarJson]

def position : LuaValue → Nat
  | .integer k => (k - 1).toNat
  | _ => 0

theorem toInt32_small {k : Int} (positive : 0 < k) (small : k ≤ 2147483648) : toInt32 (k - 1) = k - 1 := by
  rw [toInt32, Int.emod_eq_of_lt (by omega) (by omega), toInt_of_lt (by omega)]
  omega

theorem toInt32_lt (value : Int) : toInt32 value < 2147483648 := by
  simp only [toInt32, toInt]
  split <;> omega

variable (lua) in
/-- No array gets longer than an `int` can say. -/
theorem array_length (children : List (LuaValue × Json)) {items : List Json} (small : items.length ≤ 2147483648) :
    ∃ after, children.foldl (addChild lua true) (.array items) = .array after ∧ after.length ≤ 2147483648 := by
  induction children generalizing items with
  | nil => exact ⟨items, rfl, small⟩
  | cons child children ih =>
    rw [List.foldl_cons]
    by_cases negative : toInt32 (lua.tointeger (.value child.1) - 1) < 0
    · have same : addChild lua true (.array items) child = .array items := by
        simp only [addChild, if_true, arrayPutIdx, negative]
      rw [same]
      exact ih small
    · have put : addChild lua true (.array items) child =
          .array (putAt items (toInt32 (lua.tointeger (.value child.1) - 1)).toNat child.2) := by
        simp only [addChild, if_true, arrayPutIdx, negative, if_false]
      have bound := toInt32_lt (lua.tointeger (.value child.1) - 1)
      rw [put]
      apply ih
      rw [length_putAt]
      omega

theorem array_fold (children : List (LuaValue × Json)) (items : List Json)
    (keys : ∀ child ∈ children, ∃ k, child.1 = .integer k ∧ 0 < k ∧ k ≤ 2147483648) :
    children.foldl (addChild lua true) (.array items) =
      .array ((children.map fun child => (position child.1, child.2)).foldl
        (fun items pair => putAt items pair.1 pair.2) items) := by
  induction children generalizing items with
  | nil => rfl
  | cons child children ih =>
    obtain ⟨k, key, positive, small⟩ := keys child (by simp)
    have put : addChild lua true (.array items) child = .array (putAt items (position child.1) child.2) := by
      simp only [addChild, if_true, key, LuaTexts.tointeger, toInt32_small positive small, arrayPutIdx, position]
      rw [if_neg (by omega)]
    rw [List.foldl_cons, put, ih _ fun other inside => keys other (by simp [inside])]
    rfl

theorem object_fold (children : List (LuaValue × Json)) (fields : Fields) :
    children.foldl (addChild lua false) (.object fields) =
      .object ((children.map fun child => (CStr.ofBytes (keyText lua child.1), child.2)).foldl Assoc.put fields) := by
  induction children generalizing fields with
  | nil => rfl
  | cons child children ih =>
    rw [List.foldl_cons, List.map_cons, List.foldl_cons]
    exact ih _

/-- An object or an array is made of each table. -/
theorem toJson_shape (lua : LuaTexts) (jsonType : Option LuaValue) (entries : LuaEntries) :
    (arrayMode jsonType entries = true ∧ ∃ items, toJson lua (.table jsonType entries) = .array items ∧
      items.length ≤ 2147483648) ∨
    arrayMode jsonType entries = false ∧ ∃ fields, toJson lua (.table jsonType entries) = .object fields := by
  rw [toJson]
  cases arrayMode jsonType entries with
  | true =>
    rw [start, if_pos rfl]
    exact .inl ⟨rfl, array_length lua _ (show ([] : List Json).length ≤ _ by simp)⟩
  | false =>
    rw [start, if_neg (by simp), object_fold]
    exact .inr ⟨rfl, _, rfl⟩

theorem toJson_distinct (lua : LuaTexts) (data : LuaData) : (toJson lua data).Distinct := by
  induction data using LuaData.induction with
  | value value =>
    rw [toJson]
    cases value with
    | nil => exact .null
    | boolean value => exact .boolean value
    | integer value => exact .int value
    | number bits => exact .double bits
    | string bytes => exact .string _
    | object reference => exact .null
  | table jsonType entries ih =>
    rw [toJson]
    have begins : (start (arrayMode jsonType entries)).Distinct := by
      rw [start]
      split
      · exact .array (by simp)
      · exact .object .nil (by simp)
    have fold : ∀ (children : List (LuaValue × Json)) (j : Json), (∀ child ∈ children, child.2.Distinct) → j.Distinct →
        (children.foldl (addChild lua (arrayMode jsonType entries)) j).Distinct := by
      intro children
      induction children with
      | nil => exact fun j _ distinct => distinct
      | cons child children ih =>
        intro j fine distinct
        apply ih _ fun other inside => fine other (by simp [inside])
        rw [addChild]
        split
        · exact distinct_arrayPutIdx distinct (fine child (by simp)) _
        · exact distinct_objectAdd distinct (fine child (by simp)) _
    apply fold _ _ _ begins
    intro child inside
    obtain ⟨entry, among, rfl⟩ := List.mem_map.mp inside
    exact ih entry among

/-- The keys of an array, distinct and small, are as many places. -/
theorem positions_nodup (distinct : Distinct entries)
    (keys : ∀ entry ∈ entries, ∃ k, entry.1 = .integer k ∧ 0 < k ∧ k ≤ 2147483648) :
    (entries.map fun entry => position entry.1).Nodup := by
  have nodup := distinct.nodup
  refine List.Nodup.map_on ?_ nodup.of_map
  intro first inside second found same
  obtain ⟨k, key, positive, -⟩ := keys first inside
  obtain ⟨m, other, more, -⟩ := keys second found
  rw [key, other, position, position] at same
  have equal : k = m := by omega
  exact List.inj_on_of_nodup_map nodup inside found (by rw [key, other, equal])

variable (lua) in
theorem toJson_array (mode : arrayMode jsonType entries = true) (distinct : Distinct entries)
    (keys : ∀ entry ∈ entries, ∃ k, entry.1 = .integer k ∧ 0 < k ∧ k ≤ 2147483648) :
    ∃ items, toJson lua (.table jsonType entries) = .array items ∧
      Filled (entries.map fun entry => (position entry.1, toJson lua entry.2)) items := by
  rw [toJson, mode, start, if_pos rfl, array_fold]
  · refine ⟨_, rfl, ?_⟩
    rw [List.map_map]
    refine Filled.foldl _ .nil ?_
    rw [List.nil_append, List.map_map]
    exact positions_nodup distinct keys
  · intro child inside
    obtain ⟨entry, among, rfl⟩ := List.mem_map.mp inside
    exact keys entry among

theorem toJson_object (mode : arrayMode jsonType entries = false)
    (texts : (entries.map fun entry => CStr.ofBytes (keyText lua entry.1)).Nodup) :
    toJson lua (.table jsonType entries) =
      .object (entries.map fun entry => (CStr.ofBytes (keyText lua entry.1), toJson lua entry.2)) := by
  rw [toJson, mode, start, if_neg (by simp), object_fold, List.map_map, Assoc.foldl_put_fresh]
  · rfl
  · simpa [Function.comp_def] using texts

/-! Converted exactly when regular -/

theorem text_clean {key : LuaValue}
    (is : (∃ bytes, key = .string bytes ∧ (0 : UInt8) ∉ bytes) ∨ ∃ value, key = .boolean value) :
    (CStr.ofBytes (keyText lua key)).bytes = keyText lua key := by
  apply CStr.ofBytes_eq
  rcases is with ⟨bytes, rfl, clean⟩ | ⟨value, rfl⟩
  · exact clean
  · exact (CStr.lit _).terminated

theorem clean_nodup (texts : (entries.map fun entry => keyText lua entry.1).Nodup)
    (clean : ∀ entry ∈ entries, (CStr.ofBytes (keyText lua entry.1)).bytes = keyText lua entry.1) :
    (entries.map fun entry => CStr.ofBytes (keyText lua entry.1)).Nodup := by
  refine List.Nodup.map_on ?_ texts.of_map
  intro first inside second found same
  apply List.inj_on_of_nodup_map texts inside found
  rw [← clean first inside, ← clean second found, same]

theorem arrayMode_keys (keys : ∀ entry ∈ entries, IsKey entry.1)
    (forced : jsonType.any isArrayName = true → ∀ entry ∈ entries, ∃ k, entry.1 = .integer k)
    (mode : arrayMode jsonType entries = true) : ∀ entry ∈ entries, ∃ k, entry.1 = .integer k ∧ 0 < k := by
  have integers : ∀ entry ∈ entries, ∃ k, entry.1 = .integer k := by
    rcases (Bool.or_eq_true ..).mp mode with is | sequence
    · exact forced is
    · exact ((isSequence_iff entries).mp sequence).1
  intro entry inside
  obtain ⟨k, key⟩ := integers entry inside
  have is := keys entry inside
  rw [key] at is
  exact ⟨k, key, is⟩

theorem arrayMode_of_integer (keys : ∀ entry ∈ entries, ∃ k, entry.1 = .integer k ∧ 0 < k) (some_ : entries ≠ []) :
    arrayMode jsonType entries = true := by
  obtain ⟨entry, entries, rfl⟩ := List.exists_cons_of_ne_nil some_
  rw [arrayMode, Bool.or_eq_true]
  right
  rw [isSequence_iff]
  refine ⟨fun entry inside => ?_, entry, by simp, keys entry (by simp)⟩
  obtain ⟨k, key, -⟩ := keys entry inside
  exact ⟨k, key⟩

theorem converted_array (mode : arrayMode jsonType entries = true) (distinct : Distinct entries)
    (keys : ∀ entry ∈ entries, ∃ k, entry.1 = .integer k ∧ 0 < k ∧ k ≤ 2147483648)
    (inner : ∀ entry ∈ entries, Converted lua text entry.2 (toJson lua entry.2)) :
    Converted lua text (.table jsonType entries) (toJson lua (.table jsonType entries)) := by
  obtain ⟨items, is, filled⟩ := toJson_array lua mode distinct keys
  have found : ∀ entry ∈ entries, ∀ i : Nat, entry.1 = .integer (i + 1) → items[i]? = some (toJson lua entry.2) := by
    intro entry inside i key
    have there := filled.there _ (List.mem_map_of_mem (f := fun entry => (position entry.1, toJson lua entry.2)) inside)
    have here : position entry.1 = i := by
      rw [key, position]
      omega
    rwa [here] at there
  rw [is]
  apply Converted.array
  · intro entry inside
    obtain ⟨k, key, positive, -⟩ := keys entry inside
    have index : entry.1 = .integer ((k - 1).toNat + 1) := by
      rw [key]
      congr 1
      omega
    exact ⟨(k - 1).toNat, index, (List.getElem?_eq_some_iff.mp (found entry inside _ index)).1⟩
  · intro entry inside i item key here
    rw [found entry inside i key] at here
    cases here
    exact inner entry inside
  · intro i item here absent
    rcases filled.hole i item here with old | ⟨empty, -⟩
    · obtain ⟨entry, inside, same⟩ := List.mem_map.mp old
      obtain ⟨k, key, positive, -⟩ := keys entry inside
      have index : position entry.1 = i := congrArg Prod.fst same
      rw [key, position] at index
      have equal : k = i + 1 := by omega
      exact absurd (List.mem_map.mpr ⟨entry, inside, by rw [key, equal]⟩) absent
    · exact empty

theorem converted_object (mode : arrayMode jsonType entries = false)
    (texts : (entries.map fun entry => keyText lua entry.1).Nodup)
    (clean : ∀ entry ∈ entries, (CStr.ofBytes (keyText lua entry.1)).bytes = keyText lua entry.1)
    (inner : ∀ entry ∈ entries, Converted lua text entry.2 (toJson lua entry.2)) :
    Converted lua text (.table jsonType entries) (toJson lua (.table jsonType entries)) := by
  rw [toJson_object mode (clean_nodup texts clean)]
  apply Converted.object
  · simp
  · simpa [Function.comp_def] using clean_nodup texts clean
  · intro entry inside
    exact ⟨_, List.mem_map_of_mem inside, clean entry inside⟩
  · intro entry inside field found same
    obtain ⟨other, among, rfl⟩ := List.mem_map.mp found
    dsimp only at same
    rw [clean other among] at same
    rw [List.inj_on_of_nodup_map texts among inside same]
    exact inner entry inside

theorem Regular.orderly (regular : Regular data) (tidy : Tidy lua data) : Orderly lua data := by
  induction regular with
  | value value => exact .value value
  | @array jsonType entries small inner ih =>
    cases tidy with
    | table keys texts forced tidy =>
      refine .table ?_ fun entry inside => ih entry inside (tidy entry inside)
      intro entry inside
      refine .inl (arrayMode_of_integer ?_ (List.ne_nil_of_mem inside))
      intro other found
      obtain ⟨k, key, -⟩ := small other found
      have is := keys other found
      rw [key] at is
      exact ⟨k, key, is⟩
  | @object jsonType entries fine inner ih =>
    cases tidy with
    | table keys texts forced tidy =>
      refine .table ?_ fun entry inside => ih entry inside (tidy entry inside)
      intro entry inside
      rcases fine entry inside with ⟨bytes, key, -⟩ | ⟨⟨value, key⟩, other⟩
      · exact .inr (.inl ⟨bytes, key⟩)
      · exact .inr (.inr ⟨by rw [key]; rfl, other⟩)

theorem Carried.inner (carried : Carried text (.table jsonType entries)) : ∀ entry ∈ entries, Carried text entry.2 := by
  cases carried with
  | table inner => exact inner

theorem Regular.converted (regular : Regular data) (tidy : Tidy lua data) (carried : Carried text data) :
    Converted lua text data (toJson lua data) := by
  induction regular with
  | value value =>
    cases carried with
    | value cut =>
      rw [toJson, (scalar_iff value).mpr cut]
      exact .value value
  | @array jsonType entries small inner ih =>
    cases tidy with
    | table keys texts forced tidy =>
      have inner : ∀ entry ∈ entries, Converted lua text entry.2 (toJson lua entry.2) :=
        fun entry inside => ih entry inside (tidy entry inside) (carried.inner entry inside)
      have bounds : ∀ entry ∈ entries, ∃ k, entry.1 = .integer k ∧ 0 < k ∧ k ≤ 2147483648 := by
        intro entry inside
        obtain ⟨k, key, bound⟩ := small entry inside
        have is := keys entry inside
        rw [key] at is
        exact ⟨k, key, is, bound⟩
      cases mode : arrayMode jsonType entries with
      | true => exact converted_array mode (distinct_of_texts keys texts) bounds inner
      | false =>
        have empty : entries = [] := by
          by_contra some_
          have integers : ∀ entry ∈ entries, ∃ k, entry.1 = .integer k ∧ 0 < k := by
            intro entry inside
            obtain ⟨k, key, positive, -⟩ := bounds entry inside
            exact ⟨k, key, positive⟩
          simp [arrayMode_of_integer integers some_] at mode
        subst empty
        exact converted_object mode texts (by simp) inner
  | @object jsonType entries fine inner ih =>
    cases tidy with
    | table keys texts forced tidy =>
      have inner : ∀ entry ∈ entries, Converted lua text entry.2 (toJson lua entry.2) :=
        fun entry inside => ih entry inside (tidy entry inside) (carried.inner entry inside)
      cases mode : arrayMode jsonType entries with
      | true =>
        refine converted_array mode (distinct_of_texts keys texts) ?_ inner
        intro entry inside
        obtain ⟨k, key, -⟩ := arrayMode_keys keys forced mode entry inside
        rcases fine entry inside with ⟨bytes, other, -⟩ | ⟨⟨value, other⟩, -⟩ <;> simp [key] at other
      | false =>
        refine converted_object mode texts ?_ inner
        intro entry inside
        apply text_clean
        rcases fine entry inside with ⟨bytes, key, clean⟩ | ⟨is, -⟩
        · exact .inl ⟨bytes, key, clean⟩
        · exact .inr is

end Ltf.Proofs.LuaTables
