import Ltf.Base.Selection
import Ltf.Proofs.TestRegistry

/-! The order of a scenario: which tests are left when the registered ones are ordered, and
what becomes of their resources when all are freed. -/

namespace Ltf.TestCases
open CString CmdParser Ledger

/-- The order list of the scenario, if there is a scenario. -/
def orderList (opts : CmdTestOptions) : List CStr := if opts.scenarioParsed then opts.scenario.order else []

/-- The listed tests in the order of their first occurrence, and then the others. -/
def orderedTests (order : List CStr) (tests : List OwnedTest) : List OwnedTest :=
  (order.eraseDups.filterMap fun name => tests.find? (·.name.value = name)) ++ tests.filter (·.name.value ∉ order)

/-- Ordering neither drops nor doubles a test, and freeing them all afterwards releases what
each of them owns once. -/
structure Orders (opts : CmdTestOptions) (s : Tests) : Prop where
  perm : (testCaseOrderTests opts s).registry.Perm s.registry
  arranged : (testCaseOrderTests opts s).registry = orderedTests (orderList opts) s.registry
  released : ∀ tc ∈ s.registry, ∀ serial ∈ tc.serials,
    (testCaseFreeAll (testCaseOrderTests opts s)).book.released.count serial = 1

/-- There is no order, or it has the name of each registered test exactly once. -/
def Complete (opts : CmdTestOptions) (s : Tests) : Prop :=
  orderList opts = [] ∨ ∀ tc ∈ s.registry, (orderList opts).count tc.name.value = 1

theorem testCaseOrderTests_empty {opts : CmdTestOptions} (empty : orderList opts = []) (s : Tests) :
    testCaseOrderTests opts s = s := by
  unfold orderList at empty
  unfold testCaseOrderTests
  cases parsed : opts.scenarioParsed with
  | false => rfl
  | true => simp_all

theorem testCaseOrderTests_listed {opts : CmdTestOptions} (listed : orderList opts ≠ []) (s : Tests) :
    testCaseOrderTests opts s =
      { s with tests := some (Selection.pick (·.name.value) (orderList opts) s.registry) } := by
  unfold orderList at listed ⊢
  unfold testCaseOrderTests
  cases parsed : opts.scenarioParsed with
  | false => simp [parsed] at listed
  | true => simp_all [Selection.pick, Tests.registry]

theorem testCaseFreeAll_released (s : Tests) :
    (testCaseFreeAll s).book.released = s.book.released ++ s.registry.flatMap (·.serials) := by
  have freed : ∀ (tests : List OwnedTest) (book : Book),
      (tests.foldl (fun book tc => testCaseFree tc book) book).released =
        book.released ++ tests.flatMap (·.serials) := by
    intro tests
    induction tests with
    | nil => simp
    | cons tc tests ih => intro book; rw [List.foldl_cons, ih]; simp [testCaseFree, Book.release]
  unfold testCaseFreeAll Tests.registry
  cases s.tests with
  | none => simp
  | some tests => exact freed tests s.book

/-- Freeing a permutation of the tests releases everything they own once. -/
theorem released_once {s after : Tests} (balanced : Balanced (s.registry.flatMap (·.serials)) s.book)
    (same : after.book = s.book) (perm : after.registry.Perm s.registry) {tc : OwnedTest} (inside : tc ∈ s.registry)
    {serial : Nat} (owned : serial ∈ tc.serials) : (testCaseFreeAll after).book.released.count serial = 1 := by
  have held : serial ∈ s.registry.flatMap (·.serials) := List.mem_flatMap.mpr ⟨tc, inside, owned⟩
  have before := balanced.count_held held
  have distinct := (List.nodup_append.mp balanced.distinct).1
  rw [testCaseFreeAll_released, List.count_append, same, before, (perm.flatMap_right _).count_eq,
    List.count_eq_one_of_mem distinct held]

section Order
variable {opts : CmdTestOptions} {s : Tests}

theorem unlisted_empty (once : ∀ tc ∈ s.registry, (orderList opts).count tc.name.value = 1) :
    s.registry.filter (·.name.value ∉ orderList opts) = [] := by
  apply List.filter_eq_nil_iff.mpr
  intro tc inside
  have listed : tc.name.value ∈ orderList opts := List.count_pos_iff.mp (by rw [once tc inside]; exact Nat.one_pos)
  simpa using listed

/-- With every test listed once, the two ways to arrange the tests are the same. -/
theorem pick_arranged (distinct : (s.registry.map (·.name.value)).Nodup)
    (once : ∀ tc ∈ s.registry, (orderList opts).count tc.name.value = 1) :
    Selection.pick (·.name.value) (orderList opts) s.registry = orderedTests (orderList opts) s.registry := by
  rw [Selection.pick_eq distinct, orderedTests, unlisted_empty once, List.append_nil, Selection.filterMap_eraseDups]
  intro name found
  obtain ⟨tc, here⟩ := Option.isSome_iff_exists.mp found
  have named : tc.name.value = name := by simpa using List.find?_some here
  rw [← named, once tc (List.mem_of_find?_eq_some here)]

/-- Ordering does what the scenario asks for exactly when its list is complete. -/
theorem orders_iff (distinct : (s.registry.map (·.name.value)).Nodup)
    (balanced : Balanced (s.registry.flatMap (·.serials)) s.book) : Orders opts s ↔ Complete opts s := by
  by_cases empty : orderList opts = []
  · apply iff_of_true
    · have unchanged := testCaseOrderTests_empty empty s
      exact {
        perm := by rw [unchanged]
        arranged := by rw [unchanged, empty]; simp [orderedTests]
        released := fun tc inside serial owned =>
          released_once balanced (by rw [unchanged]) (by rw [unchanged]) inside owned }
    · exact .inl empty
  · have ordered := testCaseOrderTests_listed empty s
    constructor
    · intro orders
      refine .inr ?_
      intro tc inside
      have names := orders.perm.map (·.name.value)
      rw [ordered] at names
      have counts := names.count_eq tc.name.value
      have picked := Selection.map_pick distinct (orderList opts)
      have known : tc.name.value ∈ s.registry.map (·.name.value) := List.mem_map.mpr ⟨tc, inside, rfl⟩
      calc (orderList opts).count tc.name.value
          = ((orderList opts).filter (· ∈ s.registry.map (·.name.value))).count tc.name.value :=
            (List.count_filter (by simpa using known)).symm
        _ = (s.registry.map (·.name.value)).count tc.name.value := by rw [← picked]; exact counts
        _ = 1 := List.count_eq_one_of_mem distinct known
    · intro complete
      have once := complete.resolve_left empty
      have perm := Selection.pick_perm distinct once
      exact {
        perm := by rw [ordered]; exact perm
        arranged := by rw [ordered]; exact pick_arranged distinct once
        released := fun tc inside serial owned =>
          released_once balanced (by rw [ordered]) (by rw [ordered]; exact perm) inside owned }

def twoTables : List (Option TestTable) :=
  [some { name := .string [97], body := some (.mk [] .returned) },
    some { name := .string [98], body := some (.mk [] .returned) }]

/-- Two tests, registered without a filter. -/
def twoTests : Tests := (registerTests LuaChoices.first {} twoTables {}).2

theorem twoTests_sound :
    Sound ({} : CmdTestOptions).tags (registerTests LuaChoices.first {} twoTables {}).1 twoTests := by
  have start : Sound ({} : CmdTestOptions).tags [] {} := .start _
  exact start.registerTests LuaChoices.first twoTables

def listing (order : List CStr) : CmdTestOptions := { scenario := { order }, scenarioParsed := true }

/-- A list with one of two tests loses the other, one with a test twice frees it twice. -/
theorem twoTests_disordered :
    ¬ Orders (listing [.lit "a"]) twoTests ∧
      (testCaseOrderTests (listing [.lit "a"]) twoTests).registry.map (·.name.value) = [.lit "a"] ∧
      (testCaseFreeAll (testCaseOrderTests (listing [.lit "a", .lit "a", .lit "b"]) twoTests)).book.released =
        [0, 1, 0, 1, 2, 3] := by
  refine ⟨?_, by decide, by decide⟩
  intro orders
  have lengths := orders.perm.length_eq
  revert lengths
  decide

theorem twoTests_ordered : Orders (listing [.lit "b", .lit "a"]) twoTests :=
  (orders_iff twoTests_sound.distinct twoTests_sound.balanced).mpr (.inr (by decide))

end Order
end Ltf.TestCases
