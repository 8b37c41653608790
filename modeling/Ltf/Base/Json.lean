import Ltf.Base.Assoc
import Ltf.Base.CString
import Mathlib.Data.List.GetD

/-! JSON values as json-c holds them in memory. Objects keep the order in which
their keys were first added. A missing pointer and JSON `null` are one value. -/

namespace JsonC
open CString

inductive Json where
  | null
  | boolean (value : Bool)
  | int (value : Int)
  | double (bits : UInt64)
  | string (bytes : List UInt8)
  | array (items : List Json)
  | object (fields : List (CStr × Json))

abbrev Fields := List (CStr × Json)

/-- Conversions of json-c that are never taken on values of the right type. -/
structure Coercions where
  text : Json → List UInt8
  integer : Json → Int
deriving Inhabited

/-- No value lies more levels below the tree than this. -/
def within : Nat → Json → Bool
  | 0, .array items => items.isEmpty
  | 0, .object fields => fields.isEmpty
  | depth + 1, .array items => items.all (within depth)
  | depth + 1, .object fields => fields.all fun field => within depth field.2
  | _, _ => true

/-- `JSON_TOKENER_DEFAULT_DEPTH`: the text of a tree is read as long as its values are less deep. -/
def tokenerDepth : Nat := 32

/-- `json_object_from_file`, from the tree whose text is in the file to the one that is read. -/
abbrev FromFile := Json → Json

/-- What is known of it: the tree comes back, or `NULL` for one that goes too deep. -/
def ReadsBack (fromFile : FromFile) (root : Json) : Prop :=
  fromFile root = if within (tokenerDepth - 1) root then root else .null

/-- `json_object_object_add`: a known key keeps its place and takes the new value. -/
def add (fields : Fields) (key : CStr) (value : Json) : Fields := Assoc.put fields (key, value)

def addIf (fields : Fields) (key : CStr) : Option Json → Fields
  | none => fields
  | some value => add fields key value

/-- `json_object_object_get_ex`, which finds nothing in a value of another type. -/
def get (value : Json) (key : CStr) : Option Json :=
  match value with
  | .object fields => fields.lookup key
  | _ => none

def newString (text : CStr) : Json := .string text.bytes

/-- `json_object_new_string_len`: a negative length is refused and gives `NULL`. -/
def newStringLen (read : Nat → List UInt8) (length : Int) : Json :=
  if length < 0 then .null else .string (read length.toNat)

/-- `json_object_get_string`, before anyone looks for the terminator. -/
def getString (lib : Coercions) : Json → Option (List UInt8)
  | .null => none
  | .string bytes => some bytes
  | value => some (lib.text value)

/-- `json_object_get_int`, which saturates at the bounds of `int32_t`. -/
def getInt (lib : Coercions) : Json → Int
  | .null => 0
  | .boolean value => if value then 1 else 0
  | .int value => max (-2147483648) (min 2147483647 value)
  | value => lib.integer value

/-- The items a loop gets that asks for each one by `(int)i`. -/
def fetch {α : Type} (missing : α) (items : List α) : List α :=
  (List.range items.length).map fun i => items.getD (toSize (toInt i)) missing

/-- `json_object_array_get_idx`, for each `(int)i` below the length. -/
def elements (items : List Json) : List Json := fetch .null items

/-- `json_object_array_put_idx` on the items: the array grows as needed, with `NULL` in between. -/
def putAt (items : List Json) (index : Nat) (value : Json) : List Json :=
  (items ++ List.replicate (index + 1 - items.length) Json.null).set index value

/-- `json_object_array_put_idx`, for an `int`. A negative one is a `size_t` for which there is no memory. -/
def arrayPutIdx (j : Json) (index : Int) (value : Json) : Json :=
  match j with
  | .array items => if index < 0 then .array items else .array (putAt items index.toNat value)
  | j => j

/-- `json_object_object_add`, on an object. -/
def objectAdd (j : Json) (key : CStr) (value : Json) : Json :=
  match j with
  | .object fields => .object (add fields key value)
  | j => j

@[simp] theorem lookup_add (fields : Fields) (key other : CStr) (value : Json) :
    (add fields key value).lookup other = if other = key then some value else fields.lookup other :=
  Assoc.lookup_put ..

@[simp] theorem lookup_addIf (fields : Fields) (key other : CStr) (value : Option Json) :
    (addIf fields key value).lookup other =
      if other = key then value.or (fields.lookup other) else fields.lookup other := by
  cases value with
  | none => simp [addIf]
  | some value => simp [addIf]

@[simp] theorem get_object (fields : Fields) (key : CStr) : get (.object fields) key = fields.lookup key := rfl

theorem sizeOf_get {value found : Json} {key : CStr} (present : get value key = some found) :
    sizeOf found < sizeOf value := by
  cases value with
  | object fields =>
    simp only [get] at present
    obtain ⟨before, after, rfl, -⟩ := List.lookup_eq_some_iff.mp present
    have inside := List.sizeOf_lt_of_mem (show (key, found) ∈ before ++ (key, found) :: after by simp)
    simp only [Prod.mk.sizeOf_spec, Json.object.sizeOf_spec] at *
    omega
  | _ => cases present

theorem getD_mem {α : Type} (missing : α) (items : List α) (i : Nat) :
    items.getD i missing = missing ∨ items.getD i missing ∈ items := by
  rw [List.getD_eq_getElem?_getD]
  cases found : items[i]? with
  | none => exact .inl rfl
  | some item => exact .inr (List.mem_of_getElem? found)

theorem sizeOf_element {items : List Json} {item : Json} (inside : item ∈ elements items) :
    sizeOf item < sizeOf (Json.array items) := by
  simp only [elements, fetch, List.mem_map] at inside
  obtain ⟨i, -, rfl⟩ := inside
  rcases getD_mem Json.null items (toSize (toInt i)) with missing | inside
  · rw [missing]
    have positive : 0 < sizeOf items := by
      cases items with
      | nil => simp
      | cons item items => rw [List.cons.sizeOf_spec]; omega
    simp only [Json.null.sizeOf_spec, Json.array.sizeOf_spec]
    omega
  · have smaller := List.sizeOf_lt_of_mem inside
    rw [Json.array.sizeOf_spec]
    omega

section Fetch
variable {α β : Type}

@[simp] theorem fetch_length (missing : α) (items : List α) : (fetch missing items).length = items.length := by
  simp [fetch]

theorem fetch_map (f : α → β) (missing : α) (items : List α) :
    (fetch missing items).map f = fetch (f missing) (items.map f) := by
  simp [fetch, Function.comp_def]

theorem fetch_small (missing : α) {items : List α} (small : items.length ≤ 2147483648) :
    fetch missing items = items := by
  apply List.ext_getElem (by simp)
  intro i inside _
  have fits : i < 2147483648 := by simp at inside; omega
  simp only [fetch, List.getElem_map, List.getElem_range, toSize_toInt fits]
  exact List.getD_eq_getElem _ _ _

/-- The item that is found for each index of the second list is as good as the one there. -/
def Found (same : α → β → Prop) (missing : α) (items : List α) (own : List β) : Prop :=
  items.length = own.length ∧ ∀ i other, own[i]? = some other → same (items.getD (toSize (toInt i)) missing) other

theorem map_fetch_eq {γ : Type} (f : α → γ) (g : β → γ) (missing : α) (items : List α) (own : List β) :
    (fetch missing items).map f = own.map g ↔ Found (fun item other => f item = g other) missing items own := by
  constructor
  · intro same
    have lengths : items.length = own.length := by simpa using congrArg List.length same
    refine ⟨lengths, ?_⟩
    intro i other found
    obtain ⟨inside, rfl⟩ := List.getElem?_eq_some_iff.mp found
    have here := congrArg (·[i]?) same
    simpa [fetch, lengths, inside] using here
  · intro found
    obtain ⟨lengths, each⟩ := found
    apply List.ext_getElem (by simp [lengths])
    intro i _ inside
    have inside : i < own.length := by simpa using inside
    simpa [fetch] using each i own[i] (List.getElem?_eq_getElem inside)

theorem Found.congr {same other : α → β → Prop} {missing : α} {items : List α} {own : List β}
    (each : ∀ item own', (item = missing ∨ item ∈ items) → own' ∈ own → (same item own' ↔ other item own')) :
    Found same missing items own ↔ Found other missing items own := by
  have here : ∀ i own', own[i]? = some own' →
      (same (items.getD (toSize (toInt i)) missing) own' ↔ other (items.getD (toSize (toInt i)) missing) own') :=
    fun i own' here => each _ own' (getD_mem ..) (List.mem_of_getElem? here)
  exact and_congr_right fun _ => ⟨fun found i own' at' => (here i own' at').mp (found i own' at'),
    fun found i own' at' => (here i own' at').mpr (found i own' at')⟩

theorem found_small {same : α → α → Prop} (missing : α) {items : List α} (small : items.length ≤ 2147483648)
    (each : ∀ item ∈ items, same item item) : Found same missing items items := by
  refine ⟨rfl, ?_⟩
  intro i item here
  have inside : i < items.length := (List.getElem?_eq_some_iff.mp here).1
  rw [toSize_toInt (by omega), List.getD_eq_getElem?_getD, here]
  exact each item (List.mem_of_getElem? here)

end Fetch

theorem getInt_of_range (lib : Coercions) {value : Int} (low : -2147483648 ≤ value) (high : value ≤ 2147483647) :
    getInt lib (.int value) = value := by
  simp only [getInt]
  omega

/-! Arrays that are filled by index -/

theorem length_putAt (items : List Json) (index : Nat) (value : Json) :
    (putAt items index value).length = max items.length (index + 1) := by
  simp only [putAt, List.length_set, List.length_append, List.length_replicate]
  omega

theorem getElem?_putAt_self (items : List Json) (index : Nat) (value : Json) :
    (putAt items index value)[index]? = some value := by
  rw [putAt, List.getElem?_set_self]
  simp only [List.length_append, List.length_replicate]
  omega

theorem getElem?_putAt_of_ne (items : List Json) {index other : Nat} (different : other ≠ index) (value : Json) :
    (putAt items index value)[other]? =
      if other < items.length then items[other]? else if other < index then some .null else none := by
  rw [putAt, List.getElem?_set_ne (Ne.symm different)]
  split
  next inside => rw [List.getElem?_append_left inside]
  next outside =>
    rw [List.getElem?_append_right (Nat.le_of_not_lt outside), List.getElem?_replicate]
    split <;> split <;> first | rfl | omega

/-- Each of these is at its index, and there is nothing else. -/
structure Filled (pairs : List (Nat × Json)) (items : List Json) : Prop where
  there : ∀ pair ∈ pairs, items[pair.1]? = some pair.2
  hole : ∀ i item, items[i]? = some item → (i, item) ∈ pairs ∨ item = .null ∧ i ∉ pairs.map Prod.fst
  reach : ∀ i < items.length, ∃ pair ∈ pairs, i ≤ pair.1

theorem Filled.nil : Filled [] [] := ⟨by simp, by simp, by simp⟩

theorem Filled.putAt {pairs : List (Nat × Json)} {items : List Json} (filled : Filled pairs items) {index : Nat}
    (fresh : index ∉ pairs.map Prod.fst) (value : Json) : Filled (pairs ++ [(index, value)]) (putAt items index value) where
  there := by
    intro pair inside
    rcases List.mem_append.mp inside with old | new
    · have different : pair.1 ≠ index := by
        intro same
        exact fresh (same ▸ List.mem_map_of_mem old)
      have there := filled.there pair old
      rw [getElem?_putAt_of_ne items different, if_pos (List.getElem?_eq_some_iff.mp there).1, there]
    · cases List.mem_singleton.mp new
      exact getElem?_putAt_self ..
  hole := by
    intro i item found
    by_cases same : i = index
    · subst same
      rw [getElem?_putAt_self] at found
      cases found
      exact .inl (by simp)
    · rw [getElem?_putAt_of_ne items same] at found
      split at found
      · rcases filled.hole i item found with old | ⟨empty, absent⟩
        · exact .inl (by simp [old])
        · exact .inr ⟨empty, by simpa [same] using absent⟩
      next outside =>
        split at found
        · cases found
          refine .inr ⟨rfl, ?_⟩
          rw [List.map_append, List.mem_append, not_or]
          refine ⟨?_, by simpa using same⟩
          intro inside
          obtain ⟨pair, old, here⟩ := List.mem_map.mp inside
          have there := filled.there pair old
          rw [here] at there
          exact outside (List.getElem?_eq_some_iff.mp there).1
        · cases found
  reach := by
    intro i inside
    rw [length_putAt] at inside
    by_cases before : i ≤ index
    · exact ⟨(index, value), by simp, before⟩
    · obtain ⟨pair, old, reach⟩ := filled.reach i (by omega)
      exact ⟨pair, by simp [old], reach⟩

/-- Filling an array in any order of the indices. -/
theorem Filled.foldl (pairs : List (Nat × Json)) {before : List (Nat × Json)} {items : List Json}
    (filled : Filled before items) (distinct : ((before ++ pairs).map Prod.fst).Nodup) :
    Filled (before ++ pairs) (pairs.foldl (fun items pair => JsonC.putAt items pair.1 pair.2) items) := by
  induction pairs generalizing before items with
  | nil => simpa using filled
  | cons pair pairs ih =>
    have fresh : pair.1 ∉ before.map Prod.fst := by
      intro inside
      simp only [List.map_append, List.map_cons, List.nodup_append] at distinct
      exact distinct.2.2 _ inside _ (List.mem_cons_self ..) rfl
    simpa using ih (filled.putAt fresh pair.2) (by simpa using distinct)

/-! Values as a whole -/

theorem Json.induction {motive : Json → Prop} (null : motive .null) (boolean : ∀ value, motive (.boolean value))
    (int : ∀ value, motive (.int value)) (double : ∀ bits, motive (.double bits))
    (string : ∀ bytes, motive (.string bytes))
    (array : ∀ items : List Json, (∀ item ∈ items, motive item) → motive (.array items))
    (object : ∀ fields : Fields, (∀ field ∈ fields, motive field.2) → motive (.object fields)) (value : Json) :
    motive value := by
  cases value with
  | null => exact null
  | boolean value => exact boolean value
  | int value => exact int value
  | double bits => exact double bits
  | string bytes => exact string bytes
  | array items =>
    apply array
    intro item inside
    exact induction null boolean int double string array object item
  | object fields =>
    apply object
    intro field inside
    exact induction null boolean int double string array object field.2
termination_by sizeOf value
decreasing_by
  · have smaller := List.sizeOf_lt_of_mem inside
    rw [Json.array.sizeOf_spec]
    omega
  · have smaller := List.sizeOf_lt_of_mem inside
    have part : sizeOf field.2 < sizeOf field := by
      cases field
      simp only [Prod.mk.sizeOf_spec]
      omega
    rw [Json.object.sizeOf_spec]
    omega

/-- The fields of each object have pairwise distinct keys. -/
inductive Json.Distinct : Json → Prop where
  | null : Distinct .null
  | boolean (value : Bool) : Distinct (.boolean value)
  | int (value : Int) : Distinct (.int value)
  | double (bits : UInt64) : Distinct (.double bits)
  | string (bytes : List UInt8) : Distinct (.string bytes)
  | array {items : List Json} (inner : ∀ item ∈ items, Distinct item) : Distinct (.array items)
  | object {fields : Fields} (keys : (fields.map Prod.fst).Nodup) (inner : ∀ field ∈ fields, Distinct field.2) :
      Distinct (.object fields)

theorem distinct_arrayPutIdx {j child : Json} (distinct : j.Distinct) (fine : child.Distinct) (index : Int) :
    (arrayPutIdx j index child).Distinct := by
  cases distinct with
  | @array items inner =>
    simp only [arrayPutIdx]
    split
    · exact .array inner
    · refine .array ?_
      intro item inside
      rcases List.mem_or_eq_of_mem_set inside with old | rfl
      · rcases List.mem_append.mp old with old | new
        · exact inner item old
        · rw [List.eq_of_mem_replicate new]
          exact .null
      · exact fine
  | null => exact .null
  | boolean value => exact .boolean value
  | int value => exact .int value
  | double bits => exact .double bits
  | string bytes => exact .string bytes
  | object keys inner => exact .object keys inner

theorem distinct_objectAdd {j child : Json} (distinct : j.Distinct) (fine : child.Distinct) (key : CStr) :
    (objectAdd j key child).Distinct := by
  cases distinct with
  | @object fields keys inner =>
    refine .object (Assoc.nodup_put keys (key, child)) ?_
    intro field inside
    rcases Assoc.mem_of_put inside with rfl | old
    · exact fine
    · exact inner field old
  | null => exact .null
  | boolean value => exact .boolean value
  | int value => exact .int value
  | double bits => exact .double bits
  | string bytes => exact .string bytes
  | array inner => exact .array inner

/-- `json_object_equal`: fields may be in another order, and an integer is no double. -/
inductive Json.Equal : Json → Json → Prop where
  | null : Equal .null .null
  | boolean (value : Bool) : Equal (.boolean value) (.boolean value)
  | int (value : Int) : Equal (.int value) (.int value)
  | double (bits : UInt64) : Equal (.double bits) (.double bits)
  | string (bytes : List UInt8) : Equal (.string bytes) (.string bytes)
  | array {first second : List Json} (length : first.length = second.length)
      (each : ∀ (i : Nat) a b, first[i]? = some a → second[i]? = some b → Equal a b) : Equal (.array first) (.array second)
  | object {first second : Fields} (keys : ∀ key, key ∈ first.map Prod.fst ↔ key ∈ second.map Prod.fst)
      (each : ∀ key a b, (key, a) ∈ first → (key, b) ∈ second → Equal a b) : Equal (.object first) (.object second)

end JsonC
