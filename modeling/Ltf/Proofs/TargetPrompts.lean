import Ltf.Base.Steps
import Ltf.TargetProcess

/-! The questions of `ltf target` on any input: which of them are ever answered. -/

namespace Ltf.Proofs.TargetPrompts
open Ltf.TargetProcess Steps

/-- A line begins with a character that is an answer, or is empty. The input itself may
begin inside of a line. -/
def HasAnswer (skipping : Bool) (input : List UInt8) : Prop :=
  ∃ done ch rest, input = done ++ ch :: rest ∧ (done.getLast? = some 10 ∨ done = [] ∧ skipping = false) ∧
    ch ∈ ([89, 121, 78, 110, 10] : List UInt8)

/-- The question is over after so many characters. -/
def Answered (input : List UInt8) : Prop := ∃ n yes, (promptStep^[n] { input }).phase = .answered yes

variable {first : Option UInt8} {input rest : List UInt8} {ch : UInt8}

section Steps

theorem asking_cons (ch : UInt8) (rest : List UInt8) : promptStep { input := ch :: rest } =
    { phase := if ch = 10 then .answered true else .skipping (some ch), input := rest } := by
  by_cases newline : ch = 10
  · subst newline
    rfl
  · simp [promptStep, getchar, newline]

theorem skipping_cons (first : Option UInt8) (ch : UInt8) (rest : List UInt8) :
    promptStep { phase := .skipping first, input := ch :: rest } =
      { phase := if ch = 10 then decided first else .skipping first, input := rest } := by
  simp [promptStep, getchar]

/-- The rest of the line is read, or of the input. -/
theorem skipping_ends (first : Option UInt8) (input : List UInt8) :
    ∃ left, Reaches promptStep { phase := .skipping first, input } { phase := decided first, input := left } := by
  induction input with
  | nil => exact ⟨[], .head (.refl _)⟩
  | cons ch rest ih =>
    by_cases newline : ch = 10
    · refine ⟨rest, .head ?_⟩
      rw [skipping_cons, if_pos newline]
      exact .refl _
    · obtain ⟨left, reaches⟩ := ih
      refine ⟨left, .head ?_⟩
      rw [skipping_cons, if_neg newline]
      exact reaches

end Steps

section Answers
variable {yes : Bool}

theorem decided_answered (first : Option UInt8) : decided first = .asking ∨ ∃ yes, decided first = .answered yes := by
  unfold decided
  split
  · exact .inr ⟨false, rfl⟩
  · split
    · exact .inr ⟨true, rfl⟩
    · exact .inl rfl

/-- What is asked for again is what is no answer. -/
theorem askConvert_cons (ch : UInt8) (rest : List UInt8) : askConvert false (ch :: rest) =
    match decided (some ch) with
    | .answered yes => some yes
    | _ => askConvert true rest := by
  simp only [askConvert, decided, Bool.false_eq_true, if_false, Option.some.injEq]
  by_cases newline : ch = 10
  · subst newline
    rfl
  · simp only [newline, if_false, or_false]
    split
    · rfl
    · split <;> rfl

theorem askConvert_again {ch : UInt8} (again : decided (some ch) = .asking) (rest : List UInt8) :
    askConvert false (ch :: rest) = askConvert true rest := by
  rw [askConvert_cons, again]

theorem askConvert_answered {ch : UInt8} (answers : decided (some ch) = .answered yes) (rest : List UInt8) :
    askConvert false (ch :: rest) = some yes := by
  rw [askConvert_cons, answers]

theorem askConvert_line (ch : UInt8) (rest : List UInt8) : askConvert true (ch :: rest) = askConvert (ch ≠ 10) rest := rfl

/-- An answer is reached from the start of a line, and from behind a character that is none. -/
theorem reaches_answer (input : List UInt8) :
    (askConvert false input = some yes → ∃ left, Reaches promptStep { input } { phase := .answered yes, input := left }) ∧
      ∀ first, decided first = .asking → askConvert true input = some yes →
        ∃ left, Reaches promptStep { phase := .skipping first, input } { phase := .answered yes, input := left } := by
  induction input with
  | nil => exact ⟨nofun, fun _ _ found => nomatch found⟩
  | cons ch rest ih =>
    constructor
    · intro found
      by_cases newline : ch = 10
      · subst newline
        obtain rfl : true = yes := Option.some.inj found
        exact ⟨rest, .head (.refl _)⟩
      · obtain again | ⟨answer, answers⟩ := decided_answered (some ch)
        · rw [askConvert_again again] at found
          obtain ⟨left, reaches⟩ := ih.2 (some ch) again found
          refine ⟨left, .head ?_⟩
          rw [asking_cons, if_neg newline]
          exact reaches
        · rw [askConvert_answered answers] at found
          obtain rfl := Option.some.inj found
          obtain ⟨left, reaches⟩ := skipping_ends (some ch) rest
          rw [answers] at reaches
          refine ⟨left, .head ?_⟩
          rw [asking_cons, if_neg newline]
          exact reaches
    · intro first again found
      rw [askConvert_line] at found
      by_cases newline : ch = 10
      · rw [decide_eq_false (not_not.mpr newline)] at found
        obtain ⟨left, reaches⟩ := ih.1 found
        refine ⟨left, .head ?_⟩
        rw [skipping_cons, if_pos newline, again]
        exact reaches
      · rw [decide_eq_true newline] at found
        obtain ⟨left, reaches⟩ := ih.2 first again found
        refine ⟨left, .head ?_⟩
        rw [skipping_cons, if_neg newline]
        exact reaches

/-- There is no answer in what is left, and none that was read. -/
def Hopeless (prompt : Prompt) : Prop :=
  match prompt.phase with
  | .asking => askConvert false prompt.input = none
  | .skipping first => decided first = .asking ∧ askConvert true prompt.input = none
  | .answered _ => False

theorem step_hopeless {prompt : Prompt} (hopeless : Hopeless prompt) : Hopeless (promptStep prompt) := by
  obtain ⟨phase, input⟩ := prompt
  cases phase with
  | asking =>
    cases input with
    | nil => exact ⟨rfl, rfl⟩
    | cons ch rest =>
      have none : askConvert false (ch :: rest) = none := hopeless
      by_cases newline : ch = 10
      · subst newline
        cases none
      · rw [asking_cons, if_neg newline]
        obtain again | ⟨answer, answers⟩ := decided_answered (some ch)
        · rw [askConvert_again again] at none
          exact ⟨again, none⟩
        · rw [askConvert_answered answers] at none
          cases none
  | skipping first =>
    obtain ⟨again, none⟩ := hopeless
    cases input with
    | nil =>
      have ended : promptStep { phase := .skipping first, input := [] } = { phase := decided first, input := [] } := rfl
      rw [ended, again]
      rfl
    | cons ch rest =>
      have none : askConvert (ch ≠ 10) rest = .none := none
      rw [skipping_cons]
      by_cases newline : ch = 10
      · rw [decide_eq_false (not_not.mpr newline)] at none
        rw [if_pos newline, again]
        exact none
      · rw [decide_eq_true newline] at none
        rw [if_neg newline]
        exact ⟨again, none⟩
  | answered yes => exact hopeless

/-- The question ends with the answer that the commands go on with, or never. -/
theorem answered_iff (input : List UInt8) : Answered input ↔ (askConvert false input).isSome := by
  constructor
  · intro answered
    obtain ⟨n, yes, ended⟩ := answered
    rw [Option.isSome_iff_ne_none]
    intro none
    have start : Hopeless { input } := none
    have hopeless := iterate_always Hopeless (fun _ => step_hopeless) start n
    rw [Hopeless, ended] at hopeless
    exact hopeless
  · intro found
    obtain ⟨yes, found⟩ := Option.isSome_iff_exists.mp found
    obtain ⟨left, n, ran⟩ := (reaches_answer input).1 found
    exact ⟨n, yes, by rw [ran]⟩

end Answers

section Lines

theorem decided_iff (ch : UInt8) : decided (some ch) = .asking ↔ ch ∉ ([89, 121, 78, 110, 10] : List UInt8) := by
  simp only [decided, Option.some.injEq, List.mem_cons, List.not_mem_nil, or_false]
  split
  · simp
    tauto
  · split
    · simp
      tauto
    · simp
      tauto

theorem hasAnswer_cons (skipping : Bool) (ch : UInt8) (rest : List UInt8) : HasAnswer skipping (ch :: rest) ↔
    skipping = false ∧ ch ∈ ([89, 121, 78, 110, 10] : List UInt8) ∨ HasAnswer (ch ≠ 10) rest := by
  constructor
  · intro answered
    obtain ⟨done, answer, left, split, start, answers⟩ := answered
    cases done with
    | nil =>
      cases split
      exact .inl ⟨by simpa using start, answers⟩
    | cons first done =>
      obtain ⟨rfl, rfl⟩ := List.cons.inj split
      refine .inr ⟨done, answer, left, rfl, ?_, answers⟩
      have newline : (ch :: done).getLast? = some 10 := by simpa using start
      cases done with
      | nil => exact .inr ⟨rfl, by simpa using newline⟩
      | cons second done => exact .inl (by simpa using newline)
  · rintro (⟨rfl, answers⟩ | ⟨done, answer, left, rfl, start, answers⟩)
    · exact ⟨[], ch, rest, rfl, .inr ⟨rfl, rfl⟩, answers⟩
    · refine ⟨ch :: done, answer, left, rfl, .inl ?_, answers⟩
      obtain newline | ⟨rfl, newline⟩ := start
      · rw [List.getLast?_cons, newline]
        rfl
      · simpa using newline

theorem askConvert_iff (skipping : Bool) (input : List UInt8) :
    (askConvert skipping input).isSome ↔ HasAnswer skipping input := by
  induction input generalizing skipping with
  | nil =>
    refine iff_of_false (by cases skipping <;> exact Bool.false_ne_true) ?_
    intro answered
    obtain ⟨done, answer, left, split, -⟩ := answered
    simp at split
  | cons ch rest ih =>
    rw [hasAnswer_cons]
    cases skipping with
    | true =>
      rw [askConvert_line, ih]
      simp
    | false =>
      obtain again | ⟨yes, answers⟩ := decided_answered (some ch)
      · have other := (decided_iff ch).mp again
        have inside : ch ≠ 10 := by
          rintro rfl
          exact other (by decide)
        rw [askConvert_again again, ih, decide_eq_true inside]
        simp only [other, and_false, false_or]
      · have accepted : ch ∈ ([89, 121, 78, 110, 10] : List UInt8) := by
          by_contra other
          rw [(decided_iff ch).mpr other] at answers
          cases answers
        rw [askConvert_answered answers]
        exact iff_of_true rfl (.inl ⟨rfl, accepted⟩)

end Lines

/-- Reading the answer comes to an end exactly if there is one in front of the end of the input. -/
theorem prompt_ends_iff (input : List UInt8) : Answered input ↔ HasAnswer false input := by
  rw [answered_iff, askConvert_iff]

/-- With no input at all the same question is asked for ever. -/
theorem asked_forever : ¬ Answered [] := by
  rw [answered_iff]
  exact Bool.false_ne_true

end Ltf.Proofs.TargetPrompts
