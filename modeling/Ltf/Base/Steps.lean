import Mathlib.Data.List.Basic
import Mathlib.Logic.Function.Iterate

/-! Rules for loops and runs. A loop whose body can stop the process is a fold in
`Except`; a run of a machine is a plain fold of its step function. Each induction
is done here once, with the part of the list already processed in the assertion. -/

namespace Steps

universe u v

theorem bind_ok {ε : Type u} {α β : Type v} {first : Except ε α} {next : α → Except ε β} {result : β} :
    first >>= next = .ok result ↔ ∃ value, first = .ok value ∧ next value = .ok result := by
  cases first with
  | error _ => simp [bind, Except.bind]
  | ok value => simp [bind, Except.bind]

theorem bind_of_ok {ε : Type u} {α β : Type v} {first : Except ε α} {next : α → Except ε β} {value : α}
    (ran : first = .ok value) : first >>= next = next value := by
  rw [ran]
  rfl

theorem bind_of_error {ε : Type u} {α β : Type v} {first : Except ε α} {next : α → Except ε β} {error : ε}
    (fails : first = .error error) : first >>= next = .error error := by
  rw [fails]
  rfl

/-- A loop whose body leaves the state alone at every item. -/
theorem foldlM_still {ε : Type u} {σ α : Type v} {body : σ → α → Except ε σ} {state : σ} {items : List α}
    (still : ∀ item ∈ items, body state item = .ok state) : items.foldlM body state = .ok state := by
  induction items with
  | nil => rfl
  | cons item items ih =>
    rw [List.foldlM_cons, bind_of_ok (still item (by simp))]
    apply ih
    intro other inside
    exact still other (by simp [inside])

/-- A loop seen through a function that the body goes along with. -/
theorem foldlM_map {ε : Type u} {σ τ α : Type v} {body : σ → α → Except ε σ} {other : τ → α → Except ε τ}
    {view : σ → τ} (same : ∀ state item, other (view state) item = (body state item).map view) (items : List α) (state : σ) :
    items.foldlM other (view state) = (items.foldlM body state).map view := by
  induction items generalizing state with
  | nil => rfl
  | cons item items ih =>
    rw [List.foldlM_cons, List.foldlM_cons, same]
    cases body state item with
    | error _ => rfl
    | ok next => exact ih next

section Ends
variable {ε α β σ : Type} {holds : α → Prop} {after : β → Prop}

/-- The assertion is true of the value of a program, if the program comes to an end. -/
def Ends (program : Except ε α) (holds : α → Prop) : Prop := ∀ value, program = .ok value → holds value

namespace Ends

theorem ok {value : α} (valid : holds value) : Ends (.ok value : Except ε α) holds := by
  intro _ found
  cases found
  exact valid

theorem stop {reason : ε} : Ends (.error reason : Except ε α) holds := by
  intro _ found
  cases found

theorem bind {first : Except ε α} {next : α → Except ε β} (start : Ends first holds)
    (rest : ∀ value, holds value → Ends (next value) after) : Ends (first >>= next) after := by
  intro result ran
  obtain ⟨value, begins, ends⟩ := bind_ok.mp ran
  exact rest value (start value begins) result ends

theorem foldlM {body : α → σ → Except ε α} (each : ∀ state item, holds state → Ends (body state item) holds)
    {items : List σ} {state : α} (start : holds state) : Ends (items.foldlM body state) holds := by
  induction items generalizing state with
  | nil => exact .ok start
  | cons item items ih =>
    rw [List.foldlM_cons]
    exact (each state item start).bind fun _ => ih

end Ends
end Ends

/-- What holds at every position of a list holds wherever it is cut. -/
theorem of_positions {α : Type} {items : List α} {motive : List α → α → Prop}
    (each : ∀ n item, items[n]? = some item → motive (items.take n) item) (before : List α) (item : α)
    (rest : List α) (split : items = before ++ item :: rest) : motive before item := by
  have taken : items.take before.length = before := by rw [split, List.take_left]
  rw [← taken]
  apply each
  rw [split, List.getElem?_append_right (Nat.le_refl _), Nat.sub_self, List.getElem?_cons_zero]

section Covers
variable {ε α β γ δ : Type} {full : ε} {forget : α → β} {forgetAfter : γ → δ}

/-- A program with bounds does what the one without them does, or they are too narrow for it. -/
def Covers (full : ε) (forget : α → β) (bounded : Except ε α) (free : Except ε β) : Prop :=
  bounded = .error full ∨ bounded.map forget = free

namespace Covers

theorem same {bounded : Except ε α} {free : Except ε β} (equal : bounded.map forget = free) :
    Covers full forget bounded free := .inr equal

theorem bind {bounded : Except ε α} {free : Except ε β} {next : α → Except ε γ} {nextFree : β → Except ε δ}
    (start : Covers full forget bounded free)
    (rest : ∀ value, Covers full forgetAfter (next value) (nextFree (forget value))) :
    Covers full forgetAfter (bounded >>= next) (free >>= nextFree) := by
  rcases start with overflows | rfl
  · exact .inl (bind_of_error overflows)
  · cases bounded with
    | error reason => exact .inr rfl
    | ok value => exact rest value

theorem of_ok {bounded : Except ε α} {free : Except ε β} {value : α} (covers : Covers full forget bounded free)
    (ran : bounded = .ok value) : free = .ok (forget value) := by
  rcases covers with overflows | rfl
  · rw [overflows] at ran
    cases ran
  · rw [ran]
    rfl

/-- What ends without bounds ends within them, if they are wide enough. -/
theorem back {bounded : Except ε α} {free : Except ε β} {result : β} (covers : Covers full forget bounded free)
    (ran : free = .ok result) (enough : bounded ≠ .error full) : ∃ value, bounded = .ok value ∧ forget value = result := by
  rcases covers with overflows | equal
  · exact absurd overflows enough
  · cases bounded with
    | error reason =>
      rw [ran] at equal
      cases equal
    | ok value =>
      rw [ran] at equal
      exact ⟨value, rfl, Except.ok.inj equal⟩

end Covers
end Covers

section Sound
variable {ε α β σ : Type} {holds : α → Prop} {after : β → Prop} {excused : ε → Prop}

/-- The assertion is true of the value of a program, or there is an excuse for its end. -/
def Sound (holds : α → Prop) (excused : ε → Prop) : Except ε α → Prop
  | .ok value => holds value
  | .error reason => excused reason

namespace Sound

theorem bind {first : Except ε α} {next : α → Except ε β} (start : Sound holds excused first)
    (rest : ∀ value, holds value → Sound after excused (next value)) : Sound after excused (first >>= next) := by
  cases first with
  | ok value => exact rest value start
  | error reason => exact start

theorem imp {weaker : α → Prop} {program : Except ε α} (sound : Sound holds excused program)
    (weaken : ∀ value, holds value → weaker value) : Sound weaker excused program := by
  cases program with
  | ok value => exact weaken value sound
  | error reason => exact sound

theorem excuse {weaker : ε → Prop} {program : Except ε α} (sound : Sound holds excused program)
    (weaken : ∀ reason, excused reason → weaker reason) : Sound holds weaker program := by
  cases program with
  | ok value => exact sound
  | error reason => exact weaken reason sound

theorem of_ok {program : Except ε α} {value : α} (sound : Sound holds excused program) (ran : program = .ok value) :
    holds value := by
  rw [ran] at sound
  exact sound

/-- A machine whose allowed steps are sound is sound, as long as all its steps are allowed. -/
theorem foldlM {step : α → σ → Except ε α} {allowed : α → σ → Prop}
    (kept : ∀ state action, holds state → allowed state action → Sound holds excused (step state action))
    {actions : List σ} {state : α} (start : holds state)
    (permitted : ∀ before action rest middle, actions = before ++ action :: rest →
      before.foldlM step state = .ok middle → allowed middle action) :
    Sound holds excused (actions.foldlM step state) := by
  induction actions generalizing state with
  | nil => exact start
  | cons action actions ih =>
    rw [List.foldlM_cons]
    have first := kept state action start (permitted [] action actions state rfl rfl)
    cases ran : step state action with
    | error reason =>
      rw [ran] at first
      exact first
    | ok middle =>
      apply ih (first.of_ok ran)
      intro before other rest last split run
      apply permitted (action :: before) other rest last (by rw [split, List.cons_append])
      rw [List.foldlM_cons, bind_of_ok ran]
      exact run

/-- A promise is kept by every start of a run exactly when all its steps are allowed, if
allowed steps keep an invariant that fulfils it and any other step breaks it. -/
theorem foldlM_iff {step : α → σ → Except ε α} {allowed : α → σ → Prop} {promise : α → Prop}
    (kept : ∀ state action, holds state → allowed state action → Sound holds excused (step state action))
    (needed : ∀ state action, holds state → Sound promise excused (step state action) → allowed state action)
    (fulfils : ∀ state, holds state → promise state) {actions : List σ} {state : α} (start : holds state) :
    (∀ done rest, actions = done ++ rest → Sound promise excused (done.foldlM step state)) ↔
      ∀ before action rest middle, actions = before ++ action :: rest →
        before.foldlM step state = .ok middle → allowed middle action := by
  constructor
  · intro sound before action rest middle split ran
    induction before generalizing actions state with
    | nil =>
      cases ran
      apply needed middle action start
      simpa using sound [action] rest (by simpa using split)
    | cons first before ih =>
      rw [List.foldlM_cons, bind_ok] at ran
      obtain ⟨next, taken, ran⟩ := ran
      have once := sound [first] (before ++ action :: rest) (by simpa using split)
      have permitted := needed state first start (by simpa using once)
      refine ih ((kept state first start permitted).of_ok taken) ?_ rfl ran
      intro done more same
      have longer := sound (first :: done) more (by rw [split, List.cons_append, same, List.cons_append])
      rwa [List.foldlM_cons, bind_of_ok taken] at longer
  · rintro permitted done rest rfl
    apply imp _ fulfils
    apply foldlM kept start
    intro before action more middle split ran
    exact permitted before action (more ++ rest) middle (by simp [split]) ran

/-- What holds at the end anyway holds too. -/
theorem ended {also : α → Prop} {program : Except ε α} (sound : Sound holds excused program)
    (ends : Ends program also) : Sound (fun value => also value ∧ holds value) excused program := by
  cases program with
  | ok value => exact ⟨ends value rfl, sound⟩
  | error reason => exact sound

end Sound
end Sound

section AtEach
variable {ε α σ : Type} {step : α → σ → Except ε α} {promise allowed : α → σ → Prop} {holds : α → Prop}

/-- The assertion is true of every action of a run and of the state it is taken in. -/
def AtEach (step : α → σ → Except ε α) (promise : α → σ → Prop) (state : α) (actions : List σ) : Prop :=
  ∀ before action rest middle, actions = before ++ action :: rest → before.foldlM step state = .ok middle →
    promise middle action

namespace AtEach

theorem nil {state : α} : AtEach step promise state [] := by
  intro before action rest middle split
  simp at split

theorem cons {state : α} {action : σ} {actions : List σ} : AtEach step promise state (action :: actions) ↔
    promise state action ∧ ∀ next, step state action = .ok next → AtEach step promise next actions := by
  constructor
  · intro each
    refine ⟨each [] action actions state rfl rfl, ?_⟩
    intro next taken before other rest middle split ran
    apply each (action :: before) other rest middle (by rw [split, List.cons_append])
    rw [List.foldlM_cons, bind_of_ok taken]
    exact ran
  · intro both before other rest middle split ran
    cases before with
    | nil =>
      cases split
      cases ran
      exact both.1
    | cons first before =>
      rw [List.cons_append, List.cons.injEq] at split
      obtain ⟨rfl, split⟩ := split
      rw [List.foldlM_cons, bind_ok] at ran
      obtain ⟨next, taken, ran⟩ := ran
      exact both.2 next taken before other rest middle split ran

/-- A promise and a condition on the actions that come to the same in every state with an
invariant, which an action that keeps the promise does not break, come to the same for runs. -/
theorem congr (same : ∀ state action, holds state → (promise state action ↔ allowed state action))
    (kept : ∀ state action next, holds state → promise state action → step state action = .ok next → holds next)
    {actions : List σ} {state : α} (start : holds state) :
    AtEach step promise state actions ↔ AtEach step allowed state actions := by
  induction actions generalizing state with
  | nil => exact iff_of_true nil nil
  | cons action actions ih =>
    rw [cons, cons, same state action start]
    apply and_congr_right
    intro permitted
    apply forall_congr'
    intro next
    apply imp_congr_right
    intro taken
    exact ih (kept state action next start ((same state action start).mpr permitted) taken)

end AtEach
end AtEach

section Returns
variable {ε α β : Type} {holds : Prop}

/-- The program comes to an end with a value. -/
def Returns (program : Except ε α) : Prop := ∃ value, program = .ok value

namespace Returns

theorem ok {value : α} : Returns (.ok value : Except ε α) := ⟨value, rfl⟩

/-- A second part whose end does not depend on the value of the first. -/
theorem bind {first : Except ε α} {next : α → Except ε β} (rest : ∀ value, Returns (next value) ↔ holds) :
    Returns (first >>= next) ↔ Returns first ∧ holds := by
  constructor
  · intro ends
    obtain ⟨result, ran⟩ := ends
    obtain ⟨value, begins, ends⟩ := bind_ok.mp ran
    exact ⟨⟨value, begins⟩, (rest value).mp ⟨result, ends⟩⟩
  · intro both
    obtain ⟨⟨value, begins⟩, holds⟩ := both
    rw [bind_of_ok begins]
    exact (rest value).mpr holds

theorem bind_pure {first : Except ε α} (value : α → β) :
    Returns (first >>= fun result => Pure.pure (value result)) ↔ Returns first := by
  rw [← and_true (Returns first)]
  exact bind fun _ => ⟨fun _ => trivial, fun _ => .ok⟩

theorem mapError {δ : Type} {error : ε → δ} {program : Except ε α} :
    Returns (program.mapError error) ↔ Returns program := by
  cases program <;> simp [Returns, Except.mapError]

theorem mapM {σ : Type} {body : σ → Except ε α} (items : List σ) :
    Returns (items.mapM body) ↔ ∀ item ∈ items, Returns (body item) := by
  induction items with
  | nil => simp [Returns, pure, Except.pure]
  | cons item items ih =>
    rw [List.mapM_cons, List.forall_mem_cons, ← ih]
    apply bind
    intro value
    exact bind_pure (value :: ·)

end Returns
end Returns

section Optional
variable {α β γ : Type}

/-- What is seen of the values in a list that is read one item at a time. -/
theorem mapM_view {read : α → Option β} (view : β → γ) (items : List α) :
    (items.mapM read).map (List.map view) = items.mapM fun item => (read item).map view := by
  induction items with
  | nil => rfl
  | cons item items ih =>
    rw [List.mapM_cons, List.mapM_cons, ← ih]
    cases read item with
    | none => rfl
    | some value => cases items.mapM read <;> rfl

theorem mapM_isSome {read : α → Option β} (items : List α) :
    (items.mapM read).isSome ↔ ∀ item ∈ items, (read item).isSome := by
  induction items with
  | nil => simp
  | cons item items ih =>
    rw [List.mapM_cons, List.forall_mem_cons, ← ih]
    cases read item with
    | none => simp
    | some value => cases items.mapM read <;> simp

/-- Each value that was read comes from an item. -/
theorem mapM_mem {read : α → Option β} {items : List α} {values : List β} (found : items.mapM read = some values)
    (value : β) : value ∈ values ↔ ∃ item ∈ items, read item = some value := by
  induction items generalizing values with
  | nil =>
    cases found
    simp
  | cons item items ih =>
    rw [List.mapM_cons] at found
    obtain ⟨first, here, found⟩ := Option.bind_eq_some_iff.mp found
    obtain ⟨rest, others, same⟩ := Option.bind_eq_some_iff.mp found
    cases same
    rw [List.mem_cons, List.exists_mem_cons_iff, ih others, here, Option.some.injEq, eq_comm]

/-- Items that are read part by part, and the parts in one list. -/
theorem mapM_flatMap {δ : Type} {read : α → Option β} {parts : α → List γ} {readPart : γ → Option δ} {view : β → List δ}
    (same : ∀ item, (read item).map view = (parts item).mapM readPart) (items : List α) :
    (items.mapM read).map (List.flatMap view) = (items.flatMap parts).mapM readPart := by
  induction items with
  | nil => rfl
  | cons item items ih =>
    rw [List.mapM_cons, List.flatMap_cons, List.mapM_append, ← ih, ← same]
    cases read item with
    | none => rfl
    | some value => cases items.mapM read <;> rfl

end Optional

section Loop
variable {ε : Type} {σ α : Type} {body : σ → α → Except ε σ}

/-- Whatever a finished loop did, it did one item at a time. -/
theorem loop_ok (holds : List α → σ → Prop)
    (next : ∀ done item before after, holds done before → body before item = .ok after → holds (done ++ [item]) after)
    {items done : List α} {before after : σ} (start : holds done before)
    (ran : items.foldlM body before = .ok after) : holds (done ++ items) after := by
  induction items generalizing done before with
  | nil =>
    simp only [List.foldlM_nil, pure, Except.pure, Except.ok.injEq] at ran
    subst ran
    simpa using start
  | cons item items ih =>
    rw [List.foldlM_cons, bind_ok] at ran
    obtain ⟨middle, first, rest⟩ := ran
    simpa using ih (next done item before middle start first) rest

end Loop

section Iterate
variable {σ : Type} {step : σ → σ} {first second third : σ}

/-- A machine without choices gets from one state to another. -/
def Reaches (step : σ → σ) (first second : σ) : Prop := ∃ n, step^[n] first = second

theorem Reaches.refl (state : σ) : Reaches step state state := ⟨0, rfl⟩

theorem Reaches.head (rest : Reaches step (step first) second) : Reaches step first second := by
  obtain ⟨n, ran⟩ := rest
  exact ⟨n + 1, ran⟩

theorem Reaches.trans (begins : Reaches step first second) (ends : Reaches step second third) :
    Reaches step first third := by
  obtain ⟨n, rfl⟩ := begins
  obtain ⟨m, rfl⟩ := ends
  exact ⟨m + n, Function.iterate_add_apply step m n first⟩

theorem iterate_always (invariant : σ → Prop) (kept : ∀ state, invariant state → invariant (step state))
    (start : invariant first) (n : Nat) : invariant (step^[n] first) := by
  induction n generalizing first with
  | zero => exact start
  | succ n ih => exact ih (kept first start)

end Iterate

section Rounds
variable {ε σ : Type} {step : σ → Except ε σ} {invariant done : σ → Prop} {measure : σ → Nat} {state : σ}

/-- A loop that goes so many times through its body. -/
def rounds (step : σ → Except ε σ) : Nat → σ → Except ε σ
  | 0, state => .ok state
  | n + 1, state => step state >>= rounds step n

theorem rounds_always (kept : ∀ state, invariant state → ∃ after, step state = .ok after ∧ invariant after)
    (start : invariant state) (n : Nat) : ∃ after, rounds step n state = .ok after ∧ invariant after := by
  induction n generalizing state with
  | zero => exact ⟨state, rfl, start⟩
  | succ n ih =>
    obtain ⟨middle, first, valid⟩ := kept state start
    obtain ⟨after, rest, ends⟩ := ih valid
    exact ⟨after, (bind_of_ok first).trans rest, ends⟩

theorem rounds_still (still : step state = .ok state) (n : Nat) : rounds step n state = .ok state := by
  induction n with
  | zero => rfl
  | succ n ih => exact (bind_of_ok still).trans ih

/-- What is left to do gets less with each round until the loop is over. -/
theorem rounds_over (still : ∀ state, done state → step state = .ok state)
    (turn : ∀ state, invariant state → ¬ done state →
      ∃ after, step state = .ok after ∧ invariant after ∧ (done after ∨ measure after < measure state))
    (start : invariant state) {n : Nat} (enough : measure state < n) :
    ∃ after, rounds step n state = .ok after ∧ invariant after ∧ done after := by
  induction n generalizing state with
  | zero => exact absurd enough (Nat.not_lt_zero _)
  | succ n ih =>
    by_cases ended : done state
    · exact ⟨state, rounds_still (still state ended) (n + 1), start, ended⟩
    · obtain ⟨middle, first, valid, next⟩ := turn state start ended
      obtain finished | less := next
      · have stays := rounds_still (still middle finished) n
        exact ⟨middle, (bind_of_ok first).trans stays, valid, finished⟩
      · obtain ⟨after, rest, ends⟩ := ih valid (by omega)
        exact ⟨after, (bind_of_ok first).trans rest, ends⟩

end Rounds

section Run
variable {σ α : Type} {step : σ → α → σ}

/-- An invariant kept by every allowed step holds at the end of every allowed run. -/
theorem run_invariant {invariant : σ → Prop} {allowed : σ → α → Prop}
    (kept : ∀ state action, invariant state → allowed state action → invariant (step state action))
    {actions : List α} {state : σ} (start : invariant state)
    (permitted : ∀ before action after, actions = before ++ action :: after →
      allowed (before.foldl step state) action) :
    invariant (actions.foldl step state) := by
  induction actions generalizing state with
  | nil => exact start
  | cons action actions ih =>
    have first : allowed state action := permitted [] action actions rfl
    apply ih (kept state action start first)
    intro before other after split
    simpa using permitted (action :: before) other after (by simp [split])

/-- An invariant kept by every step holds at the end of every run. -/
theorem run_always (invariant : σ → Prop) (kept : ∀ state action, invariant state → invariant (step state action))
    {state : σ} (start : invariant state) (actions : List α) : invariant (actions.foldl step state) := by
  induction actions generalizing state with
  | nil => exact start
  | cons action actions ih => exact ih (kept state action start)

end Run
end Steps
