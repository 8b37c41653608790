import Ltf.Base.Assoc
import Mathlib.Data.List.Count

/-! Removal of names from a list or from the keys of a list of pairs, one occurrence for
each time a name is given, against removal of every occurrence. -/

namespace Removal

universe u v
variable {α : Type u} {β : Type v} [DecidableEq α]

theorem filter_erase {kept : α → Bool} {name : α} (dropped : kept name = false) (names : List α) :
    (names.erase name).filter kept = names.filter kept := by
  induction names with
  | nil => rfl
  | cons other names ih =>
    by_cases same : other = name
    · subst same
      rw [List.erase_cons_head, List.filter_cons_of_neg (by simp [dropped])]
    · rw [List.erase_cons_tail (by simpa using same), List.filter_cons, List.filter_cons, ih]

/-- What is kept either way is the same. -/
theorem filter_diff (names removed : List α) :
    (names.diff removed).filter (· ∉ removed) = names.filter (· ∉ removed) := by
  have each : ∀ (given : List α) (names : List α), given ⊆ removed →
      (names.diff given).filter (· ∉ removed) = names.filter (· ∉ removed) := by
    intro given
    induction given with
    | nil => intro names _; rw [List.diff_nil]
    | cons name given ih =>
      intro names inside
      obtain ⟨here, inside⟩ := List.cons_subset.mp inside
      rw [List.diff_cons, ih _ inside, filter_erase (by simp [here])]
  exact each removed names (List.Subset.refl _)

/-- Every occurrence is gone exactly when no name occurs more often than it is given. -/
theorem diff_eq_filter (names removed : List α) :
    names.diff removed = names.filter (· ∉ removed) ↔ ∀ name ∈ removed, names.count name ≤ removed.count name := by
  constructor
  · intro same name given
    have left := List.count_diff name names removed
    have none_left : (names.filter (· ∉ removed)).count name = 0 := List.count_eq_zero.mpr (by simp [given])
    rw [same, none_left] at left
    omega
  · intro enough
    rw [← filter_diff, eq_comm, List.filter_eq_self]
    intro name left
    have positive := List.count_pos_iff.mpr left
    rw [List.count_diff] at positive
    have absent : name ∉ removed := by
      intro given
      have less := enough name given
      omega
    simpa using absent

theorem diff_eq_nil (names removed : List α) :
    names.diff removed = [] ↔ ∀ name, names.count name ≤ removed.count name := by
  constructor
  · intro gone name
    have left := List.count_diff name names removed
    rw [gone, List.count_nil] at left
    omega
  · intro enough
    apply List.eq_nil_iff_forall_not_mem.mpr
    intro name inside
    have left := List.count_diff name names removed
    have positive := List.count_pos_iff.mpr inside
    have less := enough name
    omega

section Pairs
variable (entries : List (α × β)) (removed : List α)

/-- For each name the first pair with this key is removed. -/
def eraseKeys : List (α × β) := removed.foldl (fun entries name => entries.eraseP (·.1 = name)) entries

theorem map_eraseP (name : α) : (entries.eraseP (·.1 = name)).map Prod.fst = (entries.map Prod.fst).erase name := by
  induction entries with
  | nil => rfl
  | cons entry entries ih =>
    by_cases same : entry.1 = name
    · simp [same]
    · simp [same, List.erase_cons_tail, ih]

theorem map_eraseKeys : (eraseKeys entries removed).map Prod.fst = (entries.map Prod.fst).diff removed := by
  induction removed generalizing entries with
  | nil => rw [List.diff_nil]; rfl
  | cons name removed ih => rw [List.diff_cons, ← map_eraseP, ← ih]; rfl

theorem lookup_eraseP {name key : α} (other : key ≠ name) :
    (entries.eraseP (·.1 = name)).lookup key = entries.lookup key := by
  induction entries with
  | nil => rfl
  | cons entry entries ih =>
    by_cases same : entry.1 = name
    · rw [List.eraseP_cons_of_pos (by simpa using same), Assoc.lookup_cons, if_neg (by rwa [same])]
    · rw [List.eraseP_cons_of_neg (by simpa using same), Assoc.lookup_cons, Assoc.lookup_cons, ih]

theorem lookup_eraseKeys {key : α} (kept : key ∉ removed) :
    (eraseKeys entries removed).lookup key = entries.lookup key := by
  induction removed generalizing entries with
  | nil => rfl
  | cons name removed ih =>
    rw [List.mem_cons, not_or] at kept
    calc (eraseKeys entries (name :: removed)).lookup key
        = (eraseKeys (entries.eraseP (·.1 = name)) removed).lookup key := rfl
      _ = (entries.eraseP (·.1 = name)).lookup key := ih _ kept.2
      _ = entries.lookup key := lookup_eraseP entries kept.1

theorem lookup_eq_none_iff (key : α) : entries.lookup key = none ↔ key ∉ entries.map Prod.fst := by
  simp only [Assoc.lookup_eq_none, List.any_eq_false, List.mem_map, decide_eq_true_eq]
  constructor
  · rintro each ⟨entry, inside, same⟩
    exact each entry inside same
  · intro each entry inside same
    exact each ⟨entry, inside, same⟩

/-- A key is found no more exactly when it was given as often as it occurs. -/
theorem lookup_eraseKeys_none (key : α) :
    (eraseKeys entries removed).lookup key = none ↔ (entries.map Prod.fst).count key ≤ removed.count key := by
  rw [lookup_eq_none_iff, map_eraseKeys, ← List.count_eq_zero, List.count_diff]
  omega

end Pairs
end Removal
