import Mathlib.Data.List.Basic
import Mathlib.Data.List.Forall2

/-! The last-in first-out discipline: each entry that is served is the most recent
one still pending. Deferred functions and call stacks are both instances of it. -/

namespace Lifo

inductive Op (α β : Type) where
  | push (item : α)
  | pop (served : β)

variable {α β : Type} {serves : α → β → Prop}

/-- `Served serves pending ops rest`: the operations serve pending entries from the
top and leave `rest`. Stacks have their most recent entry first. -/
inductive Served (serves : α → β → Prop) : List α → List (Op α β) → List α → Prop where
  | done {pending} : Served serves pending [] pending
  | push {pending ops rest item} (later : Served serves (item :: pending) ops rest) :
      Served serves pending (.push item :: ops) rest
  | pop {pending ops rest item served} (fits : serves item served) (later : Served serves pending ops rest) :
      Served serves (item :: pending) (.pop served :: ops) rest

def pushes (ops : List (Op α β)) : List α :=
  ops.filterMap fun | .push item => some item | .pop _ => none

def pops (ops : List (Op α β)) : List β :=
  ops.filterMap fun | .push _ => none | .pop served => some served

@[simp] theorem pushes_push (item : α) (ops : List (Op α β)) : pushes (.push item :: ops) = item :: pushes ops := rfl

@[simp] theorem pushes_pop (served : β) (ops : List (Op α β)) : pushes (.pop served :: ops) = pushes ops := rfl

@[simp] theorem pops_push (item : α) (ops : List (Op α β)) : pops (.push item :: ops) = pops ops := rfl

@[simp] theorem pops_pop (served : β) (ops : List (Op α β)) : pops (.pop served :: ops) = served :: pops ops := rfl

@[simp] theorem pushes_append (first rest : List (Op α β)) : pushes (first ++ rest) = pushes first ++ pushes rest := by
  simp [pushes]

@[simp] theorem pops_append (first rest : List (Op α β)) : pops (first ++ rest) = pops first ++ pops rest := by
  simp [pops]

theorem Served.append {pending middle rest : List α} {first last : List (Op α β)}
    (start : Served serves pending first middle) (finish : Served serves middle last rest) :
    Served serves pending (first ++ last) rest := by
  induction start with
  | done => exact finish
  | push _ ih => exact .push (ih finish)
  | pop fits _ ih => exact .pop fits (ih finish)

theorem Served.split {pending rest : List α} {first last : List (Op α β)}
    (whole : Served serves pending (first ++ last) rest) :
    ∃ middle, Served serves pending first middle ∧ Served serves middle last rest := by
  induction first generalizing pending with
  | nil => exact ⟨pending, .done, whole⟩
  | cons op first ih =>
    cases whole with
    | push later =>
      obtain ⟨middle, start, finish⟩ := ih later
      exact ⟨middle, .push start, finish⟩
    | pop fits later =>
      obtain ⟨middle, start, finish⟩ := ih later
      exact ⟨middle, .pop fits start, finish⟩

/-- Entries are conserved: each is served once or still pending. -/
theorem Served.balance {pending rest : List α} {ops : List (Op α β)} (served : Served serves pending ops rest) :
    pending.length + (pushes ops).length = (pops ops).length + rest.length := by
  induction served with
  | done => simp [pushes, pops]
  | push _ ih =>
    simp only [pushes_push, pops_push, List.length_cons] at ih ⊢
    omega
  | pop _ _ ih =>
    simp only [pushes_pop, pops_pop, List.length_cons] at ih ⊢
    omega

theorem Served.pushAll (pending items : List α) :
    Served serves pending (items.map .push : List (Op α β)) (items.reverse ++ pending) := by
  induction items generalizing pending with
  | nil => exact .done
  | cons item items ih => exact .push (by simpa using ih (item :: pending))

theorem Served.popAll {items : List α} {served : List β} (fits : List.Forall₂ serves items served) (rest : List α) :
    Served serves (items ++ rest) (served.map .pop) rest := by
  induction fits with
  | nil => exact .done
  | cons fits _ ih => exact .pop fits ih

theorem Served.of_pushAll {pending items rest : List α}
    (served : Served serves pending (items.map .push : List (Op α β)) rest) : rest = items.reverse ++ pending := by
  induction items generalizing pending with
  | nil => cases served; rfl
  | cons item items ih =>
    cases served with
    | push later => simpa using ih later

theorem Served.of_popAll {items : List α} {served : List β}
    (all : Served serves items (served.map .pop) []) : List.Forall₂ serves items served := by
  induction served generalizing items with
  | nil => cases all; exact .nil
  | cons value served ih =>
    cases all with
    | pop fits later => exact .cons fits (ih later)

@[simp] theorem pushes_map_push (items : List α) : pushes (items.map .push : List (Op α β)) = items := by
  simp [pushes]

@[simp] theorem pops_map_push (items : List α) : pops (items.map .push : List (Op α β)) = [] := by
  simp [pops]

end Lifo
