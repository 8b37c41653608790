import Ltf.Proofs.LuaTraversal

/-! Tables apart from the order of their entries, which `lua_next` chooses. -/

namespace Ltf.Proofs.LuaLayout
open LuaTraversal

variable {entries : LuaEntries} {jsonType : Option LuaValue} {data : LuaData}

/-- The keys of each table in a value are pairwise distinct. -/
inductive Valid : LuaData → Prop where
  | value (value : LuaValue) : Valid (.value value)
  | table {jsonType : Option LuaValue} {entries : LuaEntries} (distinct : Distinct entries)
      (inner : ∀ entry ∈ entries, Valid entry.2) : Valid (.table jsonType entries)

theorem length_lt_sizeOf (entries : LuaEntries) : entries.length < sizeOf entries := by
  induction entries with
  | nil => simp
  | cons entry entries ih =>
    rw [List.length_cons, List.cons.sizeOf_spec]
    omega

theorem length_lt (jsonType : Option LuaValue) (entries : LuaEntries) :
    entries.length < sizeOf (LuaData.table jsonType entries) := by
  have smaller := length_lt_sizeOf entries
  rw [LuaData.table.sizeOf_spec]
  omega

theorem sizeOf_child (jsonType : Option LuaValue) {entry : LuaValue × LuaData} (inside : entry ∈ entries) :
    sizeOf entry.2 < sizeOf (LuaData.table jsonType entries) := by
  have smaller := List.sizeOf_lt_of_mem inside
  have part : sizeOf entry.2 < sizeOf entry := by
    cases entry
    simp only [Prod.mk.sizeOf_spec]
    omega
  rw [LuaData.table.sizeOf_spec]
  omega

/-- The same value, with the entries of each table in any order. -/
inductive Layout : LuaData → LuaData → Prop where
  | value (value : LuaValue) : Layout (.value value) (.value value)
  | table {jsonType : Option LuaValue} {entries after : LuaEntries} (pairs : List (LuaValue × LuaData × LuaData))
      (before : entries = pairs.map fun pair => (pair.1, pair.2.1))
      (order : after.Perm (pairs.map fun pair => (pair.1, pair.2.2)))
      (inner : ∀ pair ∈ pairs, Layout pair.2.1 pair.2.2) : Layout (.table jsonType entries) (.table jsonType after)

theorem LuaData.induction {motive : LuaData → Prop} (value : ∀ value, motive (.value value))
    (table : ∀ jsonType (entries : LuaEntries), (∀ entry ∈ entries, motive entry.2) → motive (.table jsonType entries))
    (data : LuaData) : motive data := by
  cases data with
  | value v => exact value v
  | table jsonType entries =>
    apply table
    intro entry inside
    exact induction value table entry.2
termination_by sizeOf data
decreasing_by exact sizeOf_child jsonType inside

theorem Layout.refl (data : LuaData) : Layout data data := by
  induction data using LuaData.induction with
  | value value => exact .value value
  | table jsonType entries ih =>
    refine .table (entries.map fun entry => (entry.1, entry.2, entry.2)) (by simp [Function.comp_def])
      (by simp [Function.comp_def]) ?_
    intro pair inside
    obtain ⟨entry, among, rfl⟩ := List.mem_map.mp inside
    exact ih entry among

variable (jsonType) in
/-- One entry laid out in another way. -/
theorem Layout.replace (distinct : (entries.map Prod.fst).Nodup) {entry : LuaValue × LuaData} (inside : entry ∈ entries)
    {other : LuaData} (layout : Layout entry.2 other) :
    ∃ after, Layout (.table jsonType entries) (.table jsonType after) ∧ (entry.1, other) ∈ after := by
  let other_ := fun (old : LuaValue × LuaData) => if old.1 = entry.1 then other else old.2
  refine ⟨entries.map fun old => (old.1, other_ old),
    .table (entries.map fun old => (old.1, old.2, other_ old)) (by simp [Function.comp_def])
      (by simp [Function.comp_def]) ?_,
    List.mem_map.mpr ⟨entry, inside, by simp [other_]⟩⟩
  intro pair found
  obtain ⟨old, among, rfl⟩ := List.mem_map.mp found
  by_cases same : old.1 = entry.1
  · have is := List.inj_on_of_nodup_map distinct among inside same
    simpa [other_, is] using layout
  · simpa [other_, same] using Layout.refl old.2

/-- What two layouts of a table have in common. -/
structure Matched (entries after : LuaEntries) : Prop where
  keys : (after.map Prod.fst).Perm (entries.map Prod.fst)
  left : ∀ entry ∈ entries, ∃ other ∈ after, other.1 = entry.1 ∧ Layout entry.2 other.2
  right : ∀ other ∈ after, ∃ entry ∈ entries, entry.1 = other.1 ∧ Layout entry.2 other.2

theorem Layout.matched {after : LuaEntries} (layout : Layout (.table jsonType entries) (.table jsonType after)) :
    Matched entries after := by
  cases layout with
  | table pairs before order inner =>
    subst before
    refine ⟨?_, ?_, ?_⟩
    · simpa [Function.comp_def] using order.map Prod.fst
    · intro entry inside
      obtain ⟨pair, among, rfl⟩ := List.mem_map.mp inside
      exact ⟨(pair.1, pair.2.2), order.mem_iff.mpr (List.mem_map_of_mem among), rfl, inner pair among⟩
    · intro other inside
      obtain ⟨pair, among, rfl⟩ := List.mem_map.mp (order.mem_iff.mp inside)
      exact ⟨(pair.1, pair.2.1), List.mem_map_of_mem among, rfl, inner pair among⟩

theorem Matched.distinct {after : LuaEntries} (matched : Matched entries after) (distinct : Distinct entries) :
    Distinct after where
  nodup := matched.keys.nodup_iff.mpr distinct.nodup
  named inside := distinct.named (matched.keys.mem_iff.mp inside)

/-- A layout of a table is a table again. -/
theorem Layout.table_inv (valid : Valid (.table jsonType entries)) (layout : Layout (.table jsonType entries) data) :
    ∃ after, data = .table jsonType after ∧ Distinct after ∧ Matched entries after := by
  cases valid with
  | table keys _ =>
    cases layout with
    | @table _ _ after pairs before order inner =>
      have layout : Layout (.table jsonType entries) (.table jsonType after) := .table pairs before order inner
      exact ⟨after, rfl, layout.matched.distinct keys, layout.matched⟩

theorem Layout.valid {after : LuaData} (layout : Layout data after) (valid : Valid data) : Valid after := by
  induction layout with
  | value value => exact .value value
  | table pairs before order inner ih =>
    cases valid with
    | table distinct valid =>
      have layout : Layout (.table none _) (.table none _) := .table pairs before order inner
      have matched := layout.matched
      refine .table (matched.distinct distinct) ?_
      intro other inside
      obtain ⟨pair, among, rfl⟩ := List.mem_map.mp (order.mem_iff.mp inside)
      exact ih pair among (valid (pair.1, pair.2.1) (by rw [before]; exact List.mem_map_of_mem among))

end Ltf.Proofs.LuaLayout
