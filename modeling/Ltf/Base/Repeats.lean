import Mathlib.Data.List.Count
import Mathlib.Data.List.Induction
import Mathlib.Data.List.Nodup

/-! The positions of a list that hold what an earlier position holds already: however they
are found, each item is found one time less than it occurs. -/

namespace Repeats

universe u
variable {α : Type u}

/-- Two positions that hold the same. -/
def Same (items : List α) (i k : Nat) : Prop := ∃ item, items[i]? = some item ∧ items[k]? = some item

def Repeated (items : List α) (k : Nat) : Prop := ∃ i < k, Same items i k

theorem Same.symm {items : List α} {i k : Nat} (same : Same items i k) : Same items k i := by
  obtain ⟨item, here, there⟩ := same
  exact ⟨item, there, here⟩

theorem Same.trans {items : List α} {i j k : Nat} (one : Same items i j) (two : Same items j k) : Same items i k := by
  obtain ⟨item, first, second⟩ := one
  obtain ⟨other, second', third⟩ := two
  obtain rfl : item = other := by simpa [second] using second'
  exact ⟨item, first, third⟩

variable [DecidableEq α]

def positions (items : List α) : List Nat :=
  (List.range items.length).filter fun k => (items[k]?).any (· ∈ items.take k)

theorem mem_positions (items : List α) (k : Nat) : k ∈ positions items ↔ Repeated items k := by
  rw [positions, List.mem_filter, List.mem_range]
  constructor
  · intro both
    obtain ⟨inside, earlier⟩ := both
    rw [List.getElem?_eq_getElem inside, Option.any_some, decide_eq_true_eq, List.mem_take_iff_getElem] at earlier
    obtain ⟨i, before, same⟩ := earlier
    exact ⟨i, by omega, items[k], List.getElem?_eq_some_iff.mpr ⟨by omega, same⟩, List.getElem?_eq_getElem inside⟩
  · intro repeated
    obtain ⟨i, before, item, first, second⟩ := repeated
    obtain ⟨inside, rfl⟩ := List.getElem?_eq_some_iff.mp second
    obtain ⟨within, same⟩ := List.getElem?_eq_some_iff.mp first
    refine ⟨inside, ?_⟩
    rw [second, Option.any_some, decide_eq_true_eq, List.mem_take_iff_getElem]
    exact ⟨i, by omega, same⟩

theorem positions_concat (items : List α) (item : α) :
    positions (items ++ [item]) = positions items ++ if item ∈ items then [items.length] else [] := by
  have before : ∀ k ∈ List.range items.length,
      ((items ++ [item])[k]?).any (· ∈ (items ++ [item]).take k) = (items[k]?).any (· ∈ items.take k) := by
    intro k inside
    rw [List.mem_range] at inside
    rw [List.getElem?_append_left inside, List.take_append_of_le_length (by omega)]
  rw [positions, List.length_append, List.length_singleton, List.range_succ, List.filter_append,
    List.filter_congr before, positions]
  simp only [List.filter_cons, List.filter_nil, List.getElem?_concat_length, Option.any_some, List.take_left',
    decide_eq_true_eq]

/-- What is at these positions. -/
def repeats (items : List α) : List α := (positions items).filterMap (items[·]?)

theorem repeats_concat (items : List α) (item : α) :
    repeats (items ++ [item]) = repeats items ++ if item ∈ items then [item] else [] := by
  have before : ∀ k ∈ positions items, (items ++ [item])[k]? = items[k]? := by
    intro k inside
    have inside : k < items.length := List.mem_range.mp (List.mem_filter.mp inside).1
    exact List.getElem?_append_left inside
  rw [repeats, positions_concat, List.filterMap_append, List.filterMap_congr before, repeats]
  split <;> simp

theorem count_repeats (items : List α) (name : α) : (repeats items).count name = items.count name - 1 := by
  induction items using List.reverseRecOn with
  | nil => rfl
  | append_singleton items item ih =>
    rw [repeats_concat, List.count_append, List.count_append, ih, List.count_singleton]
    by_cases same : item = name
    · subst same
      have known : item ∈ items ↔ 0 < items.count item := List.count_pos_iff.symm
      split
      next inside =>
        have positive := known.mp inside
        simp only [List.count_singleton_self, beq_self_eq_true, ite_true]
        omega
      next absent =>
        have none := List.count_eq_zero.mpr absent
        simp only [List.count_nil, beq_self_eq_true, ite_true]
        omega
    · split <;> simp [same]

/-- Any list of just these positions finds the same items. -/
theorem perm_repeats {items : List α} {found : List Nat} (once : found.Nodup)
    (exactly : ∀ k, k ∈ found ↔ Repeated items k) : (found.filterMap (items[·]?)).Perm (repeats items) := by
  have distinct : (positions items).Nodup := List.nodup_range.filter _
  have perm : found.Perm (positions items) := by
    rw [List.perm_ext_iff_of_nodup once distinct]
    intro k
    rw [exactly, mem_positions]
  exact perm.filterMap _

theorem repeats_nil (items : List α) : repeats items = [] ↔ items.Nodup := by
  rw [List.nodup_iff_count_le_one, List.eq_nil_iff_forall_not_mem]
  simp only [← List.count_eq_zero, count_repeats]
  exact forall_congr' fun name => by omega

end Repeats
