import Mathlib.Data.List.Count
import Mathlib.Data.List.Nodup

/-! Items picked from a list by keys that no two of them share, in the order in which the
keys are asked for. -/

namespace Selection

universe u v
variable {α : Type u} {κ : Type v} [DecidableEq κ] (key : α → κ)

/-- For each name the items with this key. -/
def pick (names : List κ) (items : List α) : List α := names.flatMap fun name => items.filter (key · = name)

variable {key} {items : List α}

theorem filter_eq_find (distinct : (items.map key).Nodup) (name : κ) :
    items.filter (key · = name) = (items.find? (key · = name)).toList := by
  induction items with
  | nil => rfl
  | cons item items ih =>
    rw [List.map_cons, List.nodup_cons] at distinct
    by_cases same : key item = name
    · have others : items.filter (key · = name) = [] := by
        apply List.filter_eq_nil_iff.mpr
        intro other inside taken
        exact distinct.1 (List.mem_map.mpr ⟨other, inside, by simpa [same] using taken⟩)
      rw [List.filter_cons_of_pos (by simpa using same), List.find?_cons_of_pos (by simpa using same), others]
      rfl
    · rw [List.filter_cons_of_neg (by simpa using same), List.find?_cons_of_neg (by simpa using same), ih distinct.2]

theorem pick_eq (distinct : (items.map key).Nodup) (names : List κ) :
    pick key names items = names.filterMap fun name => items.find? (key · = name) := by
  rw [pick, List.filterMap_eq_flatMap_toList]
  simp only [filter_eq_find distinct]

theorem find_key (distinct : (items.map key).Nodup) {item : α} (inside : item ∈ items) :
    items.find? (key · = key item) = some item := by
  cases found : items.find? (key · = key item) with
  | none =>
    have none_there := List.find?_eq_none.mp found item inside
    simp at none_there
  | some other =>
    have same : key other = key item := by simpa using List.find?_some found
    rw [List.inj_on_of_nodup_map distinct (List.mem_of_find?_eq_some found) inside same]

/-- The keys of what is picked are the names that some item has. -/
theorem map_pick (distinct : (items.map key).Nodup) (names : List κ) :
    (pick key names items).map key = names.filter (· ∈ items.map key) := by
  rw [pick_eq distinct]
  induction names with
  | nil => rfl
  | cons name names ih =>
    rw [List.filterMap_cons]
    by_cases taken : name ∈ items.map key
    · obtain ⟨item, inside, rfl⟩ := List.mem_map.mp taken
      rw [find_key distinct inside, List.filter_cons_of_pos (by simpa using taken), List.map_cons, ih]
    · have missing : items.find? (key · = name) = none := by
        apply List.find?_eq_none.mpr
        intro item inside same
        exact taken (List.mem_map.mpr ⟨item, inside, by simpa using same⟩)
      rw [missing, List.filter_cons_of_neg (by simpa using taken), ih]

theorem mem_pick {names : List κ} {item : α} : item ∈ pick key names items ↔ item ∈ items ∧ key item ∈ names := by
  simp [pick, and_comm]

/-- When every item is picked once, what is picked is a permutation of the items. -/
theorem pick_perm (distinct : (items.map key).Nodup) {names : List κ}
    (once : ∀ item ∈ items, names.count (key item) = 1) :
    (pick key names items).Perm items := by
  have single : ((pick key names items).map key).Nodup := by
    rw [map_pick distinct, List.nodup_iff_count_le_one]
    intro name
    by_cases taken : name ∈ items.map key
    · obtain ⟨item, inside, rfl⟩ := List.mem_map.mp taken
      have bound := (List.filter_sublist (p := (· ∈ items.map key)) (l := names)).count_le (key item)
      rwa [once item inside] at bound
    · have absent : name ∉ names.filter (· ∈ items.map key) := by
        intro inside
        exact taken (by simpa using (List.mem_filter.mp inside).2)
      rw [List.count_eq_zero.mpr absent]
      exact Nat.zero_le _
  rw [List.perm_ext_iff_of_nodup (List.Nodup.of_map key single) (List.Nodup.of_map key distinct)]
  intro item
  rw [mem_pick, and_iff_left_iff_imp]
  intro inside
  exact List.count_pos_iff.mp (by rw [once item inside]; exact Nat.one_pos)

/-- A name that is asked for again picks nothing new if no item has it. -/
theorem filterMap_eraseDups {find : κ → Option α} (names : List κ)
    (once : ∀ name, (find name).isSome = true → names.count name ≤ 1) :
    names.eraseDups.filterMap find = names.filterMap find := by
  match names with
  | [] => rfl
  | name :: names =>
    have fewer : ∀ other, (find other).isSome = true → (names.filter fun other => !other == name).count other ≤ 1 := by
      intro other found
      have bound := once other found
      have less := (List.filter_sublist (p := fun other => !other == name) (l := names)).count_le other
      rw [List.count_cons] at bound
      omega
    rw [List.eraseDups_cons, List.filterMap_cons, List.filterMap_cons, filterMap_eraseDups _ fewer]
    cases found : find name with
    | none =>
      rw [List.filterMap_filter]
      apply List.filterMap_congr
      intro other _
      by_cases same : other = name
      · simp [same, found]
      · simp [same]
    | some item =>
      have bound := once name (by rw [found]; rfl)
      rw [List.count_cons_self] at bound
      have absent : name ∉ names := List.count_eq_zero.mp (by omega)
      rw [List.filter_eq_self.mpr]
      intro other inside
      have different : other ≠ name := ne_of_mem_of_not_mem inside absent
      simpa using different
termination_by names.length
decreasing_by
  exact Nat.lt_succ_of_le (List.length_filter_le _ _)

end Selection
