import Mathlib.Data.Fintype.Pigeonhole
import Mathlib.Data.Set.Finite.List
import Mathlib.Logic.Relation

/-! Following pointers. A partial function names the next point; from each point the
walk either comes to an end or, when only finitely many points have a next one, runs
into a cycle. -/

namespace Orbit

universe u
variable {α : Type u} (next : α → Option α)

/-- The point after a number of steps, if the walk gets that far. -/
def walk : Nat → α → Option α
  | 0, point => some point
  | steps + 1, point => (next point).bind (walk steps)

def Leads (point other : α) : Prop := next point = some other

/-- The walk comes to a point without a next one. -/
def Ends (point : α) : Prop := ∃ steps, walk next steps point = none

/-- A point the walk comes back to. -/
def Recurs (point : α) : Prop := Relation.TransGen (Leads next) point point

/-- No point on the walk is one the walk comes back to. -/
def Acyclic (point : α) : Prop := ∀ later, Relation.ReflTransGen (Leads next) point later → ¬ Recurs next later

variable {next}

theorem walk_succ (steps : Nat) (point : α) : walk next (steps + 1) point = (walk next steps point).bind next := by
  induction steps generalizing point with
  | zero => cases found : next point <;> simp [walk, found]
  | succ steps ih =>
    cases found : next point with
    | none => simp [walk, found]
    | some other => simpa [walk, found] using ih other

theorem Recurs.leads {point : α} (recurs : Recurs next point) :
    ∃ other, next point = some other ∧ Relation.ReflTransGen (Leads next) other point := by
  obtain ⟨other, step, back⟩ := Relation.TransGen.head'_iff.mp recurs
  exact ⟨other, step, back⟩

/-- A walk that leads into a cycle goes on for any number of steps. -/
theorem walk_recurs {point later : α} (reached : Relation.ReflTransGen (Leads next) point later)
    (recurs : Recurs next later) (steps : Nat) : (walk next steps point).isSome = true := by
  induction steps generalizing point with
  | zero => rfl
  | succ steps ih =>
    rcases Relation.ReflTransGen.cases_head reached with rfl | ⟨other, step, rest⟩
    · obtain ⟨other, step, back⟩ := recurs.leads
      simpa [walk, step] using ih back
    · have found : next point = some other := step
      simpa [walk, found] using ih rest

theorem walk_leads {point : α} {steps : Nat} {middle : α} (here : walk next steps point = some middle) :
    Relation.ReflTransGen (Leads next) point middle := by
  induction steps generalizing middle with
  | zero =>
    obtain rfl : point = middle := by simpa [walk] using here
    exact .refl
  | succ steps ih =>
    rw [walk_succ, Option.bind_eq_some_iff] at here
    obtain ⟨before, earlier, step⟩ := here
    exact (ih earlier).tail step

theorem walk_add (steps more : Nat) (point : α) :
    walk next (steps + more) point = (walk next steps point).bind (walk next more) := by
  induction steps generalizing point with
  | zero => rw [Nat.zero_add]; rfl
  | succ steps ih =>
    rw [Nat.succ_add]
    cases found : next point with
    | none => simp [walk, found]
    | some other => simpa [walk, found] using ih other

/-- Between two visits of one point lies a cycle. -/
theorem recurs_of_visits {point middle : α} {first second : Nat} (before : first < second)
    (one : walk next first point = some middle) (two : walk next second point = some middle) : Recurs next middle := by
  obtain ⟨more, rfl⟩ := Nat.exists_eq_add_of_lt before
  rw [Nat.add_assoc, walk_add, one, Option.bind_some] at two
  cases found : next middle with
  | none => simp [walk, found] at two
  | some other =>
    have back : walk next more other = some middle := by simpa [walk, found] using two
    exact Relation.TransGen.head' found (walk_leads back)

/-- A walk in a finite domain ends exactly when it does not lead into a cycle. -/
theorem ends_iff_acyclic (domain : List α) (inside : ∀ point other, next point = some other → point ∈ domain)
    (point : α) : Ends next point ↔ Acyclic next point := by
  constructor
  · intro ends later reached recurs
    obtain ⟨steps, stopped⟩ := ends
    have further := walk_recurs reached recurs steps
    simp [stopped] at further
  · intro acyclic
    by_contra endless
    have visits : ∀ steps, ∃ middle, walk next steps point = some middle := by
      intro steps
      cases here : walk next steps point with
      | none => exact absurd ⟨steps, here⟩ endless
      | some middle => exact ⟨middle, rfl⟩
    choose visit visited using visits
    have known : ∀ steps, visit steps ∈ domain := by
      intro steps
      have further := visited (steps + 1)
      rw [walk_succ, visited steps, Option.bind_some] at further
      exact inside _ _ further
    have finite : Finite { middle // middle ∈ domain } := (List.finite_toSet domain).to_subtype
    obtain ⟨first, second, different, same⟩ :=
      Finite.exists_ne_map_eq_of_infinite fun steps => (⟨visit steps, known steps⟩ : { middle // middle ∈ domain })
    have same : visit first = visit second := congrArg Subtype.val same
    rcases Nat.lt_or_gt_of_ne different with before | before
    · exact acyclic _ (walk_leads (visited first)) (recurs_of_visits before (visited first) (same ▸ visited second))
    · exact acyclic _ (walk_leads (visited second)) (recurs_of_visits before (visited second) (same ▸ visited first))

end Orbit
