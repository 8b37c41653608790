import Mathlib.Data.List.Count
import Mathlib.Data.List.Nodup
import Mathlib.Data.List.Range

/-! The descriptor table of a process. Opening takes the lowest free number; closing
frees a number, whoever asks for it. The table remembers who opened what and what each
close hit, so that every opened descriptor can be followed to the one close that ends it. -/

namespace Descriptors

/-- An open descriptor, told apart from every other one by its serial number. -/
structure Descriptor (ω : Type) where
  serial : Nat
  owner : ω
deriving DecidableEq

structure Close (ω : Type) where
  caller : ω
  number : Nat
  hit : Option (Descriptor ω)
deriving DecidableEq

structure Table (ω : Type) where
  slots : List (Option (Descriptor ω)) := []
  opened : List (Descriptor ω) := []
  closes : List (Close ω) := []

variable {ω : Type}

namespace Table

def get (t : Table ω) (number : Nat) : Option (Descriptor ω) := t.slots[number]?.join

def lowestFree (t : Table ω) : Nat := t.slots.findIdx Option.isNone

def fresh (t : Table ω) (owner : ω) : Descriptor ω := { serial := t.opened.length, owner }

/-- The number that is handed out, and the table after it. -/
def openLowest (owner : ω) (t : Table ω) : Nat × Table ω :=
  let number := t.lowestFree
  let slots := if number < t.slots.length then t.slots.set number (some (t.fresh owner))
    else t.slots ++ [some (t.fresh owner)]
  (number, { t with slots, opened := t.opened ++ [t.fresh owner] })

def close (caller : ω) (number : Nat) (t : Table ω) : Table ω :=
  { t with
    slots := t.slots.set number none
    closes := t.closes ++ [{ caller, number, hit := t.get number }] }

def closeAll (caller : ω) (numbers : List Nat) (t : Table ω) : Table ω :=
  numbers.foldl (fun t number => t.close caller number) t

def holding (t : Table ω) (p : Descriptor ω → Bool) : Nat := t.slots.countP (·.any p)

def hits (t : Table ω) (p : Descriptor ω → Bool) : Nat := t.closes.countP (·.hit.any p)

def owned [BEq ω] (t : Table ω) (owner : ω) : Nat := t.holding (·.owner == owner)

theorem lowestFree_free (t : Table ω) : t.get t.lowestFree = none := by
  by_cases inside : t.lowestFree < t.slots.length
  · have free : t.slots[t.lowestFree].isNone := List.findIdx_getElem
    rw [get, List.getElem?_eq_getElem inside]
    simpa using free
  · rw [get, List.getElem?_eq_none (by omega)]
    rfl

theorem get_openLowest (owner : ω) (t : Table ω) (number : Nat) :
    (t.openLowest owner).2.get number = if number = t.lowestFree then some (t.fresh owner) else t.get number := by
  have bound : t.lowestFree ≤ t.slots.length := List.findIdx_le_length
  by_cases inside : t.lowestFree < t.slots.length
  · by_cases same : number = t.lowestFree
    · simp [get, Table.openLowest, inside, same]
    · simp [get, Table.openLowest, inside, same, List.getElem?_set_ne (Ne.symm same)]
  · have last : t.lowestFree = t.slots.length := by omega
    by_cases same : number = t.lowestFree
    · simp [get, Table.openLowest, same, last]
    · have other : (t.slots ++ [some (t.fresh owner)])[number]? = t.slots[number]? := by
        rw [List.getElem?_append]
        split
        · rfl
        · rw [List.getElem?_eq_none (by simp; omega), List.getElem?_eq_none (by omega)]
      simp [get, Table.openLowest, inside, same, other]

theorem get_close (caller : ω) (number : Nat) (t : Table ω) (other : Nat) :
    (t.close caller number).get other = if other = number then none else t.get other := by
  by_cases same : other = number
  · by_cases inside : number < t.slots.length
    · simp [get, close, same, inside]
    · simp [get, close, same, inside]
  · simp [get, close, same, List.getElem?_set_ne (Ne.symm same)]

theorem holding_openLowest (owner : ω) (t : Table ω) (p : Descriptor ω → Bool) :
    (t.openLowest owner).2.holding p = t.holding p + if p (t.fresh owner) then 1 else 0 := by
  by_cases inside : t.lowestFree < t.slots.length
  · have free : t.slots[t.lowestFree] = none := Option.isNone_iff_eq_none.mp (List.findIdx_getElem (w := inside))
    simp [holding, Table.openLowest, inside, List.countP_set inside, free]
  · simp [holding, Table.openLowest, inside, List.countP_append, List.countP_singleton]

theorem holding_close (caller : ω) (number : Nat) (t : Table ω) (p : Descriptor ω → Bool) :
    (t.close caller number).holding p + (if (t.get number).any p then 1 else 0) = t.holding p := by
  by_cases inside : number < t.slots.length
  · have hit : t.get number = t.slots[number] := by simp [get, inside]
    have counted : (if t.slots[number].any p then 1 else 0) ≤ t.slots.countP (·.any p) := by
      split
      next found => exact List.countP_pos_iff.mpr ⟨_, List.getElem_mem inside, found⟩
      next => exact Nat.zero_le _
    simp only [holding, close, List.countP_set inside, hit]
    simp only [Option.any_none, Bool.false_eq_true, if_false, Nat.add_zero]
    omega
  · have miss : t.get number = none := by simp [get, List.getElem?_eq_none (Nat.le_of_not_lt inside)]
    simp [holding, close, miss, List.set_eq_of_length_le (Nat.le_of_not_lt inside)]

theorem hits_close (caller : ω) (number : Nat) (t : Table ω) (p : Descriptor ω → Bool) :
    (t.close caller number).hits p = t.hits p + if (t.get number).any p then 1 else 0 := by
  simp [hits, close, List.countP_append, List.countP_singleton]

/-- Nothing is lost: what was opened is held or was hit by a close, and serials do not repeat. -/
structure Conserved (t : Table ω) : Prop where
  balance : ∀ p, t.holding p + t.hits p = t.opened.countP p
  serials : t.opened.map Descriptor.serial = List.range t.opened.length

theorem conserved_empty : Conserved ({} : Table ω) := ⟨fun _ => rfl, rfl⟩

theorem Conserved.openLowest {t : Table ω} (conserved : Conserved t) (owner : ω) :
    Conserved (t.openLowest owner).2 := by
  constructor
  · intro p
    have balance := conserved.balance p
    have hits : (t.openLowest owner).2.hits p = t.hits p := rfl
    rw [holding_openLowest, hits, show (t.openLowest owner).2.opened = t.opened ++ [t.fresh owner] from rfl,
      List.countP_append, List.countP_singleton]
    omega
  · simp [Table.openLowest, conserved.serials, List.range_succ, fresh]

theorem Conserved.close {t : Table ω} (conserved : Conserved t) (caller : ω) (number : Nat) :
    Conserved (t.close caller number) := by
  refine ⟨?_, conserved.serials⟩
  intro p
  have balance := conserved.balance p
  have freed := holding_close caller number t p
  rw [hits_close, show (t.close caller number).opened = t.opened from rfl]
  omega

theorem Conserved.closeAll {t : Table ω} (conserved : Conserved t) (caller : ω) (numbers : List Nat) :
    Conserved (t.closeAll caller numbers) := by
  induction numbers generalizing t with
  | nil => exact conserved
  | cons number numbers ih => exact ih (conserved.close caller number)

variable [DecidableEq ω]

theorem Conserved.closed_once {t : Table ω} (conserved : Conserved t) {owner : ω} (none_left : t.owned owner = 0)
    {d : Descriptor ω} (was_opened : d ∈ t.opened) (own : d.owner = owner) : t.hits (· == d) = 1 := by
  have not_held : t.holding (· == d) = 0 := by
    apply Nat.le_zero.mp
    rw [← none_left]
    apply List.countP_mono_left
    intro slot _ found
    cases slot with
    | none => simp at found
    | some other =>
      have same : other = d := by simpa using found
      simp [same, own]
  have unique : t.opened.count d = 1 := by
    refine List.count_eq_one_of_mem (List.Nodup.of_map Descriptor.serial ?_) was_opened
    rw [conserved.serials]
    exact List.nodup_range
  have balance := conserved.balance (· == d)
  rw [not_held] at balance
  rw [Nat.zero_add] at balance
  exact balance.trans unique

/-- A close by the owner of what it hits. -/
def Rightful (c : Close ω) : Prop := ∃ d, c.hit = some d ∧ d.owner = c.caller

def Owns (t : Table ω) (owner : ω) (number : Nat) : Prop := ∃ d, t.get number = some d ∧ d.owner = owner

omit [DecidableEq ω] in
theorem closeAll_closes (caller : ω) (numbers : List Nat) (t : Table ω) :
    ∃ added, (t.closeAll caller numbers).closes = t.closes ++ added := by
  induction numbers generalizing t with
  | nil => exact ⟨[], (List.append_nil _).symm⟩
  | cons number numbers ih =>
    obtain ⟨added, grown⟩ := ih (t.close caller number)
    exact ⟨_, by rw [closeAll, List.foldl_cons]; exact grown.trans (by rw [close, List.append_assoc])⟩

theorem owned_close {caller : ω} {number : Nat} {t : Table ω} (own : t.Owns caller number) :
    (t.close caller number).owned caller + 1 = t.owned caller := by
  obtain ⟨d, hit, same⟩ := own
  have freed := holding_close caller number t (·.owner == caller)
  simpa [owned, hit, same] using freed

theorem closeAll_bound {caller : ω} {numbers : List Nat} {t : Table ω}
    (rightful : ∀ c ∈ (t.closeAll caller numbers).closes, c.caller = caller → Rightful c) :
    numbers.length ≤ t.owned caller := by
  induction numbers generalizing t with
  | nil => exact Nat.zero_le _
  | cons number numbers ih =>
    have rest : numbers.length ≤ (t.close caller number).owned caller := ih rightful
    have own : t.Owns caller number := by
      obtain ⟨added, grown⟩ := closeAll_closes caller numbers (t.close caller number)
      refine rightful { caller, number, hit := t.get number } ?_ rfl
      show _ ∈ ((t.close caller number).closeAll caller numbers).closes
      rw [grown]
      simp [close]
    have step := owned_close own
    rw [List.length_cons]
    omega

/-- What belongs to the other owners is left alone. -/
structure Spares (caller : ω) (t after : Table ω) : Prop where
  owns : ∀ owner number, owner ≠ caller → t.Owns owner number → after.Owns owner number
  owned : ∀ owner, owner ≠ caller → after.owned owner = t.owned owner

theorem Spares.refl (caller : ω) (t : Table ω) : Spares caller t t := ⟨fun _ _ _ own => own, fun _ _ => rfl⟩

theorem Spares.trans {caller : ω} {t middle after : Table ω} (one : Spares caller t middle)
    (two : Spares caller middle after) : Spares caller t after :=
  ⟨fun owner number apart own => two.owns owner number apart (one.owns owner number apart own),
    fun owner apart => (two.owned owner apart).trans (one.owned owner apart)⟩

omit [DecidableEq ω] in
theorem Owns.openLowest {owner : ω} {number : Nat} {t : Table ω} (own : t.Owns owner number) (opener : ω) :
    (t.openLowest opener).2.Owns owner number := by
  obtain ⟨d, found, same⟩ := own
  have apart : number ≠ t.lowestFree := by
    intro equal
    subst equal
    simp [lowestFree_free] at found
  exact ⟨d, by rw [get_openLowest, if_neg apart, found], same⟩

theorem openLowest_spares (owner : ω) (t : Table ω) : Spares owner t (t.openLowest owner).2 := by
  refine ⟨fun _ _ _ own => own.openLowest owner, ?_⟩
  intro other apart
  have missed : (owner == other) = false := by simpa using Ne.symm apart
  simp [Table.owned, holding_openLowest, fresh, missed]

theorem close_spares {caller : ω} {number : Nat} {t : Table ω} (own : t.Owns caller number) :
    Spares caller t (t.close caller number) := by
  obtain ⟨d, hit, same⟩ := own
  constructor
  · intro owner other apart owns
    obtain ⟨e, found, own⟩ := owns
    have elsewhere : other ≠ number := by
      intro equal
      subst equal
      rw [hit] at found
      cases found
      exact apart (own.symm.trans same)
    exact ⟨e, by rw [get_close, if_neg elsewhere, found], own⟩
  · intro owner apart
    have kept := holding_close caller number t (·.owner == owner)
    have missed : (d.owner == owner) = false := by simpa [same] using Ne.symm apart
    simpa [Table.owned, hit, missed] using kept

/-- These are the numbers an owner holds, and it holds no others. -/
structure Holds (t : Table ω) (owner : ω) (numbers : List Nat) : Prop where
  distinct : numbers.Nodup
  owns : ∀ number ∈ numbers, t.Owns owner number
  owned : t.owned owner = numbers.length

theorem Holds.perm {t : Table ω} {owner : ω} {numbers others : List Nat} (holds : Holds t owner numbers)
    (same : numbers.Perm others) : Holds t owner others :=
  ⟨same.nodup_iff.mp holds.distinct, fun number inside => holds.owns number (same.mem_iff.mpr inside),
    holds.owned.trans same.length_eq⟩

theorem Holds.spared {t after : Table ω} {owner caller : ω} {numbers : List Nat} (holds : Holds t owner numbers)
    (spares : Spares caller t after) (apart : owner ≠ caller) : Holds after owner numbers :=
  ⟨holds.distinct, fun number inside => spares.owns owner number apart (holds.owns number inside),
    (spares.owned owner apart).trans holds.owned⟩

theorem Holds.openLowest {t : Table ω} {owner : ω} {numbers : List Nat} (holds : Holds t owner numbers) :
    Holds (t.openLowest owner).2 owner (numbers ++ [(t.openLowest owner).1]) := by
  have new : ∀ number ∈ numbers, number ≠ t.lowestFree := by
    intro number inside equal
    subst equal
    obtain ⟨d, found, _⟩ := holds.owns _ inside
    simp [lowestFree_free] at found
  refine ⟨?_, ?_, ?_⟩
  · rw [List.nodup_append]
    exact ⟨holds.distinct, by simp, fun number inside other last => by
      rw [List.mem_singleton] at last
      exact last ▸ new number inside⟩
  · intro number inside
    rcases List.mem_append.mp inside with old | last
    · exact (holds.owns number old).openLowest owner
    · rw [List.mem_singleton] at last
      exact ⟨t.fresh owner, by rw [get_openLowest, last]; exact if_pos rfl, rfl⟩
  · simp [Table.owned, holding_openLowest, fresh, List.length_append]
    exact holds.owned

theorem Holds.close {t : Table ω} {owner : ω} {number : Nat} {numbers : List Nat}
    (holds : Holds t owner (number :: numbers)) : Holds (t.close owner number) owner numbers := by
  have distinct := List.nodup_cons.mp holds.distinct
  refine ⟨distinct.2, ?_, ?_⟩
  · intro other inside
    obtain ⟨d, found, same⟩ := holds.owns other (by simp [inside])
    have apart : other ≠ number := fun equal => distinct.1 (equal ▸ inside)
    exact ⟨d, by rw [get_close, if_neg apart, found], same⟩
  · have step := owned_close (holds.owns number (by simp))
    have before := holds.owned
    rw [List.length_cons] at before
    omega

/-- What closing some of one's own descriptors leaves. -/
structure ClosedOwn (t : Table ω) (owner : ω) (kept : List Nat) (after : Table ω) : Prop where
  holds : Holds after owner kept
  spares : Spares owner t after
  rightful : (∀ c ∈ t.closes, Rightful c) → ∀ c ∈ after.closes, Rightful c

theorem Holds.closeAll {t : Table ω} {owner : ω} {numbers kept : List Nat} (holds : Holds t owner (numbers ++ kept)) :
    ClosedOwn t owner kept (t.closeAll owner numbers) := by
  induction numbers generalizing t with
  | nil => exact ⟨holds, .refl owner t, id⟩
  | cons number numbers ih =>
    have own : t.Owns owner number := holds.owns number (by simp)
    obtain ⟨rest, spares, rightful⟩ := ih (Holds.close holds)
    refine ⟨rest, (close_spares own).trans spares, ?_⟩
    intro before
    apply rightful
    intro c told
    rcases List.mem_append.mp told with old | new
    · exact before c old
    · rw [List.mem_singleton] at new
      subst new
      exact own

end Table

end Descriptors
