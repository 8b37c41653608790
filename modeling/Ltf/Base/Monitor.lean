import Mathlib.Data.List.Induction

/-! Partial automata that watch a word from the outside. A machine keeps to an automaton
when the word it has written so far leads from the start to the place it is in. -/

namespace Monitor

variable {σ α : Type} {next : σ → α → Option σ} {start middle stop : σ} {word : List α}

/-- The automaton can read the word, and ends in the given place. -/
def Accepts (next : σ → α → Option σ) (start : σ) (word : List α) (stop : σ) : Prop := word.foldlM next start = some stop

namespace Accepts

theorem nil : Accepts next start [] start := rfl

theorem append {more : List α} (begins : Accepts next start word middle) (ends : Accepts next middle more stop) :
    Accepts next start (word ++ more) stop := by
  have first : word.foldlM next start = some middle := begins
  have rest : more.foldlM next middle = some stop := ends
  simp [Accepts, List.foldlM_append, first, rest]

theorem single {letter : α} (step : next start letter = some stop) : Accepts next start [letter] stop := by
  simp [Accepts, step]

theorem concat {letter : α} (begins : Accepts next start word middle) (step : next middle letter = some stop) :
    Accepts next start (word ++ [letter]) stop :=
  begins.append (single step)

/-- A relation between what was read and the place it led to, kept by every letter. -/
theorem related (holds : List α → σ → Prop) (begins : holds [] start)
    (kept : ∀ done place letter after, holds done place → next place letter = some after → holds (done ++ [letter]) after)
    (accepted : Accepts next start word stop) : holds word stop := by
  induction word using List.reverseRecOn generalizing stop with
  | nil =>
    cases accepted
    exact begins
  | append_singleton done letter ih =>
    have both : (done ++ [letter]).foldlM next start = some stop := accepted
    rw [List.foldlM_append] at both
    obtain ⟨middle, first, last⟩ := Option.bind_eq_some_iff.mp both
    have step : next middle letter = some stop := by simpa using last
    exact kept done middle letter stop (ih first) step

/-- A number that the place keeps, and the letters that have made it so. -/
theorem numbered (accepted : Accepts next start word stop) (count : σ → Nat) (number : α → Option Nat)
    (begins : count start = 0)
    (kept : ∀ place letter after, next place letter = some after →
      (number letter = none ∧ count after = count place) ∨
        (number letter = some (count place) ∧ count after = count place + 1)) :
    word.filterMap number = List.range (count stop) := by
  refine accepted.related (fun done place => done.filterMap number = List.range (count place)) ?_ ?_
  · rw [begins, List.filterMap_nil, List.range_zero]
  · intro done place letter after counts step
    rw [List.filterMap_append, counts]
    obtain ⟨silent, same⟩ | ⟨numbered, more⟩ := kept place letter after step
    · simp [silent, same]
    · simp [numbered, more, List.range_succ]

end Accepts
end Monitor
