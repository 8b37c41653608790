import Mathlib.Data.List.Basic

/-! Programs with a state that an error leaves as it is. An assertion about the state that
every part of a program keeps is kept by the program, however it ends. -/

namespace Stateful

variable {ε σ α β : Type} {holds : σ → Prop}

theorem bind_apply (first : ExceptT ε (StateM σ) α) (next : α → ExceptT ε (StateM σ) β) (state : σ) :
    (first >>= next) state =
      match first state with
      | (.ok value, later) => next value later
      | (.error error, later) => (.error error, later) := by
  simp only [bind, ExceptT.bind, ExceptT.mk, StateT.bind, ExceptT.bindCont]
  cases first state with
  | mk result later => cases result <;> rfl

def Keeps (holds : σ → Prop) (program : ExceptT ε (StateM σ) α) : Prop := ∀ state, holds state → holds (program state).2

/-- What a program establishes if it returns, and keeps if it does not. -/
def Gives (holds : σ → Prop) (after : α → σ → Prop) (program : ExceptT ε (StateM σ) α) : Prop :=
  ∀ state, holds state →
    match program state with
    | (.ok value, later) => after value later
    | (.error _, later) => holds later

namespace Gives

theorem bind {after : α → σ → Prop} {program : ExceptT ε (StateM σ) α} {next : α → ExceptT ε (StateM σ) β}
    (begins : Gives holds after program)
    (ends : ∀ value state, after value state → holds ((next value) state).2) : Keeps holds (program >>= next) := by
  intro state start
  have outcome := begins state start
  rw [bind_apply]
  cases ran : program state with
  | mk result later =>
    rw [ran] at outcome
    cases result with
    | ok value => exact ends value later outcome
    | error error => exact outcome

end Gives

namespace Keeps

theorem pure (value : α) : Keeps holds (Pure.pure value : ExceptT ε (StateM σ) α) := fun _ start => start

theorem throw (error : ε) : Keeps holds (MonadExcept.throw error : ExceptT ε (StateM σ) α) := fun _ start => start

theorem bind {first : ExceptT ε (StateM σ) α} {next : α → ExceptT ε (StateM σ) β} (begins : Keeps holds first)
    (ends : ∀ value, Keeps holds (next value)) : Keeps holds (first >>= next) := by
  intro state start
  have kept := begins state start
  rw [bind_apply]
  cases ran : first state with
  | mk result later =>
    rw [ran] at kept
    cases result with
    | ok value => exact ends value later kept
    | error error => exact kept

theorem ite {condition : Prop} [Decidable condition] {first other : ExceptT ε (StateM σ) α} (one : Keeps holds first)
    (two : Keeps holds other) : Keeps holds (if condition then first else other) := by
  split
  · exact one
  · exact two

/-- What follows a check. -/
theorem guard {condition : Prop} [Decidable condition] (error : ε) {rest : Unit → ExceptT ε (StateM σ) α}
    (kept : Keeps holds (rest ())) :
    Keeps holds (if condition then MonadExcept.throw error >>= rest else rest ()) :=
  .ite (fun _ start => start) kept

theorem map {program : ExceptT ε (StateM σ) α} (kept : Keeps holds program) (f : α → β) : Keeps holds (f <$> program) := by
  rw [map_eq_pure_bind]
  exact kept.bind fun value => pure (f value)

end Keeps

/-- The program keeps the assertion and raises no error. -/
def Runs (holds : σ → Prop) (program : ExceptT ε (StateM σ) α) : Prop :=
  ∀ state, holds state → ∃ value later, program state = (.ok value, later) ∧ holds later

namespace Runs

theorem keeps {program : ExceptT ε (StateM σ) α} (runs : Runs holds program) : Keeps holds program := by
  intro state start
  obtain ⟨value, later, ran, kept⟩ := runs state start
  rw [ran]
  exact kept

theorem pure (value : α) : Runs holds (Pure.pure value : ExceptT ε (StateM σ) α) :=
  fun state start => ⟨value, state, rfl, start⟩

theorem bind {first : ExceptT ε (StateM σ) α} {next : α → ExceptT ε (StateM σ) β} (begins : Runs holds first)
    (ends : ∀ value, Runs holds (next value)) : Runs holds (first >>= next) := by
  intro state start
  obtain ⟨value, middle, ran, kept⟩ := begins state start
  obtain ⟨result, later, ran', kept'⟩ := ends value middle kept
  refine ⟨result, later, ?_, kept'⟩
  rw [bind_apply, ran]
  exact ran'

theorem mapM {γ : Type} {items : List γ} {body : γ → ExceptT ε (StateM σ) α}
    (each : ∀ item ∈ items, Runs holds (body item)) : Runs holds (items.mapM body) := by
  induction items with
  | nil => exact pure []
  | cons item items ih =>
    rw [List.mapM_cons]
    refine (each item (by simp)).bind fun value => ?_
    refine (ih fun other inside => each other (by simp [inside])).bind fun values => ?_
    exact pure (value :: values)

end Runs
end Stateful
