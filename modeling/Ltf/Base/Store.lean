/-! A store of objects that are known by the order in which they were made. An object
that is dropped is gone for good, and its number is never used again. -/

structure Store (α : Type) where
  next : Nat
  get : Nat → Option α
  fresh : ∀ i, next ≤ i → get i = none

namespace Store
variable {α : Type}

def empty : Store α where
  next := 0
  get _ := none
  fresh _ _ := rfl

instance : EmptyCollection (Store α) := ⟨empty⟩

def add (store : Store α) (value : α) : Store α where
  next := store.next + 1
  get i := if i = store.next then some value else store.get i
  fresh i beyond := by
    rw [if_neg (by omega)]
    exact store.fresh i (by omega)

/-- A write to an object that is there. -/
def put (store : Store α) (i : Nat) (value : α) : Store α where
  next := store.next
  get j := if j = i then (store.get i).map fun _ => value else store.get j
  fresh j beyond := by
    split
    next same => rw [← same, store.fresh j beyond, Option.map_none]
    next => exact store.fresh j beyond

def drop (store : Store α) (i : Nat) : Store α where
  next := store.next
  get j := if j = i then none else store.get j
  fresh j beyond := by
    split
    · rfl
    · exact store.fresh j beyond

@[simp] theorem add_next (store : Store α) (value : α) : (store.add value).next = store.next + 1 := rfl
@[simp] theorem put_next (store : Store α) (i : Nat) (value : α) : (store.put i value).next = store.next := rfl

variable {store : Store α} {i j : Nat} {value : α}

theorem lt_next (found : store.get i = some value) : i < store.next := by
  apply Nat.lt_of_not_le
  intro beyond
  rw [store.fresh i beyond] at found
  cases found

theorem add_get : (store.add value).get j = if j = store.next then some value else store.get j := rfl

theorem drop_get : (store.drop i).get j = if j = i then none else store.get j := rfl

theorem put_get (live : (store.get i).isSome) :
    (store.put i value).get j = if j = i then some value else store.get j := by
  obtain ⟨old, found⟩ := Option.isSome_iff_exists.mp live
  simp [put, found]

/-- Objects other than the one written to are as they were. -/
theorem put_get_of_ne (other : j ≠ i) : (store.put i value).get j = store.get j := if_neg other

theorem drop_get_of_ne (other : j ≠ i) : (store.drop i).get j = store.get j := if_neg other

end Store
