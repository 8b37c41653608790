import Ltf.Base.Steps
import Ltf.ReadUntil
import Mathlib.Data.Nat.Find

/-! Reading up to a pattern, for any chunks and any clock: when the loop ends and with which
text, and when the two copies of it do the same. -/

namespace Ltf.Proofs.ReadUntil
open CString Ltf.ReadUntil Steps

variable {l : Loop} {n : Nat} {buftable : List (List UInt8)} {pattern : List UInt8}

/-- All that the first reads return. -/
def textOf (chunk : Nat → Option (List UInt8)) (n : Nat) : List UInt8 :=
  (List.range n).flatMap fun k => (chunk k).getD []

/-- The deadline has passed at the look in front of this read. -/
def Late (clock : Nat → Int) (deadline : Int) (n : Nat) : Prop := deadline ≤ clock (n + 1)

def Occurs (chunk : Nat → Option (List UInt8)) (pattern : List UInt8) (n : Nat) : Prop := pattern <:+: textOf chunk n

def Empty (l : Loop) (n : Nat) : Prop := (l.chunk n).getD [] = []

/-- There is another round behind this one. -/
def Goes (l : Loop) (n : Nat) : Prop :=
  ¬ Late l.clock l.deadline n ∧ (Empty l n ∨ ∃ pattern, l.pattern = some pattern ∧ ¬ Occurs l.chunk pattern (n + 1))

theorem textOf_succ (l : Loop) (n : Nat) : textOf l.chunk (n + 1) = textOf l.chunk n ++ (l.chunk n).getD [] := by
  rw [textOf, List.range_succ, List.flatMap_append]
  simp [textOf]

theorem textOf_empty (empty : Empty l n) : textOf l.chunk (n + 1) = textOf l.chunk n := by
  rw [textOf_succ, show (l.chunk n).getD [] = [] from empty, List.append_nil]

section Round

theorem round_late (late : Late l.clock l.deadline n) : l.round (.reading n buftable) = .returned n false buftable.flatten := by
  have none : max 0 (l.deadline - l.clock (n + 1)) = 0 := by
    unfold Late at late
    omega
  simp only [Loop.round, none, if_true]

theorem round_empty (early : ¬ Late l.clock l.deadline n) (empty : Empty l n) :
    l.round (.reading n buftable) = .reading (n + 1) buftable := by
  have more : max 0 (l.deadline - l.clock (n + 1)) ≠ 0 := by
    unfold Late at early
    omega
  simp only [Loop.round, more, if_false]
  cases read : l.chunk n with
  | none => rfl
  | some chunk =>
    obtain rfl : chunk = [] := by simpa [Empty, read] using empty
    rfl

theorem round_chunk (early : ¬ Late l.clock l.deadline n) (full : ¬ Empty l n) (filled : buftable.flatten = textOf l.chunk n) :
    ∃ next, l.round (.reading n buftable) = l.insert (n + 1) next ∧ next.flatten = textOf l.chunk (n + 1) := by
  have more : max 0 (l.deadline - l.clock (n + 1)) ≠ 0 := by
    unfold Late at early
    omega
  cases read : l.chunk n with
  | none => exact absurd (by rw [Empty, read]; rfl) full
  | some chunk =>
    have bytes : chunk.length > 0 := by
      rw [gt_iff_lt, List.length_pos_iff]
      simpa [Empty, read] using full
    refine ⟨buftable ++ [chunk], ?_, ?_⟩
    · simp only [Loop.round, more, if_false, read, bytes, if_true]
    · rw [textOf_succ, read, List.flatten_append, filled]
      simp

theorem insert_found (known : l.pattern = some pattern) (filled : buftable.flatten = textOf l.chunk n)
    (occurs : Occurs l.chunk pattern n) : l.insert n buftable = .returned n true (textOf l.chunk n) := by
  have here : strstr (textOf l.chunk n) pattern = true := decide_eq_true occurs
  simp only [Loop.insert, known, filled, here, if_true]

theorem insert_again (known : l.pattern = some pattern) (filled : buftable.flatten = textOf l.chunk n)
    (missing : ¬ Occurs l.chunk pattern n) : l.insert n buftable = .reading n buftable := by
  have none : strstr (textOf l.chunk n) pattern = false := decide_eq_false missing
  simp only [Loop.insert, known, filled, none, Bool.false_eq_true, if_false]

theorem goes_round (goes : Goes l n) (filled : buftable.flatten = textOf l.chunk n) :
    ∃ next, l.round (.reading n buftable) = .reading (n + 1) next ∧ next.flatten = textOf l.chunk (n + 1) := by
  obtain ⟨early, goes⟩ := goes
  by_cases empty : Empty l n
  · exact ⟨buftable, round_empty early empty, filled.trans (textOf_empty empty).symm⟩
  · obtain ⟨pattern, known, missing⟩ := goes.resolve_left empty
    obtain ⟨next, round, filled⟩ := round_chunk early empty filled
    exact ⟨next, round.trans (insert_again known filled missing), filled⟩

/-- How the round ends that is the last one. -/
inductive Last (l : Loop) (n : Nat) : Reading → Prop
  | late (late : Late l.clock l.deadline n) : Last l n (.returned n false (textOf l.chunk n))
  | found {pattern : List UInt8} (early : ¬ Late l.clock l.deadline n) (full : ¬ Empty l n) (known : l.pattern = some pattern)
      (occurs : Occurs l.chunk pattern (n + 1)) : Last l n (.returned (n + 1) true (textOf l.chunk (n + 1)))
  | raised (early : ¬ Late l.clock l.deadline n) (full : ¬ Empty l n) (missing : l.pattern = none) :
      Last l n (.raised (n + 1) (.lit "bad argument #1 to 'find' (string expected, got nil)"))

theorem last_round (stops : ¬ Goes l n) (filled : buftable.flatten = textOf l.chunk n) :
    Last l n (l.round (.reading n buftable)) := by
  by_cases late : Late l.clock l.deadline n
  · rw [round_late late, filled]
    exact .late late
  have full : ¬ Empty l n := fun empty => stops ⟨late, .inl empty⟩
  obtain ⟨next, round, filled⟩ := round_chunk late full filled
  rw [round]
  cases known : l.pattern with
  | none =>
    rw [Loop.insert, known]
    exact .raised late full known
  | some pattern =>
    have occurs : Occurs l.chunk pattern (n + 1) := by
      by_contra missing
      exact stops ⟨late, .inr ⟨pattern, known, missing⟩⟩
    rw [insert_found known filled occurs]
    exact .found late full known occurs

end Round

section Run

theorem goes_on (goes : ∀ k < n, Goes l k) :
    ∃ buftable, l.round^[n] (.reading 0 []) = .reading n buftable ∧ buftable.flatten = textOf l.chunk n := by
  induction n with
  | zero => exact ⟨[], rfl, rfl⟩
  | succ n ih =>
    obtain ⟨buftable, ran, filled⟩ := ih fun k before => goes k (by omega)
    obtain ⟨next, round, filled⟩ := goes_round (goes n (Nat.lt_succ_self n)) filled
    exact ⟨next, by rw [Function.iterate_succ_apply', ran, round], filled⟩

theorem Last.unique {first second : Reading} (one : Last l n first) (other : Last l n second) : first = second := by
  cases one with
  | late late =>
    cases other with
    | late => rfl
    | found early => exact absurd late early
    | raised early => exact absurd late early
  | found early full known occurs =>
    cases other with
    | late late => exact absurd late early
    | found => rfl
    | raised _ _ missing => cases known.symm.trans missing
  | raised early full missing =>
    cases other with
    | late late => exact absurd late early
    | found _ _ known => cases known.symm.trans missing
    | raised => rfl

theorem Last.still {ended : Reading} (last : Last l n ended) : l.round ended = ended := by
  cases last <;> rfl

theorem ends_after (goes : ∀ k < n, Goes l k) (stops : ¬ Goes l n) :
    ∃ ended, l.round^[n + 1] (.reading 0 []) = ended ∧ Last l n ended := by
  obtain ⟨buftable, ran, filled⟩ := goes_on goes
  exact ⟨_, by rw [Function.iterate_succ_apply', ran], last_round stops filled⟩

/-- The loop ends with the first round that has no other behind it. -/
theorem ends_iff {ended : Reading} (done : ∀ reads buftable, ended ≠ .reading reads buftable) :
    Reaches l.round (.reading 0 []) ended ↔ ∃ n, (∀ k < n, Goes l k) ∧ ¬ Goes l n ∧ Last l n ended := by
  classical
  constructor
  · intro reaches
    obtain ⟨m, ran⟩ := reaches
    have stops : ∃ k, k < m ∧ ¬ Goes l k := by
      by_contra all
      have goes : ∀ k < m, Goes l k := fun k before => by_contra fun stops => all ⟨k, before, stops⟩
      obtain ⟨buftable, still, -⟩ := goes_on goes
      exact done m buftable (ran.symm.trans still)
    obtain ⟨before, stop⟩ := Nat.find_spec stops
    have goes : ∀ k < Nat.find stops, Goes l k := by
      intro k earlier
      by_contra other
      exact Nat.find_min stops earlier ⟨by omega, other⟩
    obtain ⟨last, ends, is⟩ := ends_after goes stop
    refine ⟨Nat.find stops, goes, stop, ?_⟩
    obtain ⟨more, rest⟩ := Nat.exists_eq_add_of_le (Nat.succ_le_of_lt before)
    rw [rest, Nat.add_comm, Function.iterate_add_apply, ends, Function.iterate_fixed is.still] at ran
    exact ran ▸ is
  · intro ended
    obtain ⟨n, goes, stops, last⟩ := ended
    obtain ⟨other, ran, is⟩ := ends_after goes stops
    exact ⟨n + 1, ran.trans (is.unique last)⟩

end Run

section Serial

/-- A loop that looks for something goes on as long as it is not there and it is not late. -/
theorem goes_iff (known : l.pattern = some pattern) (some : pattern ≠ []) (n : Nat) :
    (∀ k < n, Goes l k) ↔ (∀ k < n, ¬ Late l.clock l.deadline k) ∧ ∀ k ≤ n, ¬ Occurs l.chunk pattern k := by
  induction n with
  | zero =>
    refine iff_of_true nofun ⟨nofun, ?_⟩
    intro k first
    obtain rfl := Nat.le_zero.mp first
    exact fun here => some (List.infix_nil.mp here)
  | succ n ih =>
    simp only [Nat.lt_succ_iff_lt_or_eq, Nat.le_succ_iff, or_imp, forall_and, forall_eq, ih]
    constructor
    · intro before
      obtain ⟨⟨early, missing⟩, on, goes⟩ := before
      refine ⟨⟨early, on⟩, missing, ?_⟩
      obtain empty | ⟨_, same, next⟩ := goes
      · rw [Occurs, textOf_empty empty]
        exact missing n (Nat.le_refl n)
      · obtain rfl := Option.some.inj (known.symm.trans same)
        exact next
    · intro all
      obtain ⟨⟨early, on⟩, missing, next⟩ := all
      exact ⟨⟨early, missing⟩, on, .inr ⟨pattern, known, next⟩⟩

/-- What is returned after so many reads: all that was read, once the pattern is there for
the first time, or without it as soon as it is late. -/
structure Found (clock : Nat → Int) (deadline : Int) (chunk : Nat → Option (List UInt8)) (pattern : List UInt8) (n : Nat)
    (found : Bool) (text : List UInt8) : Prop where
  whole : text = textOf chunk n
  early : ∀ k < n, ¬ Late clock deadline k ∧ ¬ Occurs chunk pattern k
  occurs : found = true ↔ Occurs chunk pattern n
  passed : found = false → Late clock deadline n

theorem returns_iff (known : l.pattern = some pattern) (some : pattern ≠ []) (n : Nat) (found : Bool)
    (text : List UInt8) :
    Reaches l.round (.reading 0 []) (.returned n found text) ↔ Found l.clock l.deadline l.chunk pattern n found text := by
  rw [ends_iff (by simp)]
  constructor
  · intro ended
    obtain ⟨k, goes, stops, last⟩ := ended
    obtain ⟨early, missing⟩ := (goes_iff known some k).mp goes
    cases last with
    | late late =>
      refine ⟨rfl, fun j before => ⟨early j before, missing j (Nat.le_of_lt before)⟩, ?_, fun _ => late⟩
      exact iff_of_false Bool.false_ne_true (missing n (Nat.le_refl n))
    | found in_time full same occurs =>
      obtain rfl := Option.some.inj (known.symm.trans same)
      refine ⟨rfl, ?_, iff_of_true rfl occurs, nofun⟩
      intro j before
      refine ⟨?_, missing j (Nat.le_of_lt_succ before)⟩
      obtain earlier | rfl := Nat.lt_succ_iff_lt_or_eq.mp before
      · exact early j earlier
      · exact in_time
  · intro found_here
    obtain ⟨rfl, early, occurs, passed⟩ := found_here
    cases found with
    | false =>
      have late := passed rfl
      have missing : ¬ Occurs l.chunk pattern n := fun here => Bool.false_ne_true (occurs.mpr here)
      have stops : ¬ Goes l n := fun goes => goes.1 late
      refine ⟨n, (goes_iff known some n).mpr ⟨fun k before => (early k before).1, ?_⟩, stops, .late late⟩
      intro k upto
      obtain before | rfl := Nat.lt_or_eq_of_le upto
      · exact (early k before).2
      · exact missing
    | true =>
      have here := occurs.mp rfl
      cases n with
      | zero => exact absurd (List.infix_nil.mp here) some
      | succ k =>
        obtain ⟨in_time, before⟩ := early k (Nat.lt_succ_self k)
        have full : ¬ Empty l k := by
          intro empty
          rw [Occurs, textOf_empty empty] at here
          exact before here
        have stops : ¬ Goes l k := by
          intro goes
          obtain ⟨-, empty | ⟨other, same, next⟩⟩ := goes
          · exact full empty
          · obtain rfl := Option.some.inj (known.symm.trans same)
            exact next here
        refine ⟨k, (goes_iff known some k).mpr ⟨?_, ?_⟩, stops, .found in_time full known here⟩
        · exact fun j earlier => (early j (Nat.lt_succ_of_lt earlier)).1
        · exact fun j upto => (early j (Nat.lt_succ_of_le upto)).2

/-- The loop returns as soon as there is a reason to. -/
theorem returns_sometime (known : l.pattern = some pattern) (some : pattern ≠ []) :
    (∃ n found text, Reaches l.round (.reading 0 []) (.returned n found text)) ↔
      ∃ n, Late l.clock l.deadline n ∨ Occurs l.chunk pattern n := by
  classical
  constructor
  · intro returned
    obtain ⟨n, found, text, reaches⟩ := returned
    obtain ⟨-, -, occurs, passed⟩ := (returns_iff known some n found text).mp reaches
    cases found with
    | false => exact ⟨n, .inl (passed rfl)⟩
    | true => exact ⟨n, .inr (occurs.mp rfl)⟩
  · intro reason
    have early : ∀ k < Nat.find reason, ¬ Late l.clock l.deadline k ∧ ¬ Occurs l.chunk pattern k := by
      intro k before
      exact not_or.mp (Nat.find_min reason before)
    by_cases here : Occurs l.chunk pattern (Nat.find reason)
    · exact ⟨_, true, _, (returns_iff known some _ _ _).mpr ⟨rfl, early, iff_of_true rfl here, nofun⟩⟩
    · have late := (Nat.find_spec reason).resolve_right here
      exact ⟨_, false, _, (returns_iff known some _ _ _).mpr
        ⟨rfl, early, iff_of_false Bool.false_ne_true here, fun _ => late⟩⟩

/-- On any port, with any clock and options: by the chunks that the port returns for the size
asked for, and the deadline that is set with the first look at the clock. -/
theorem serial_returns_iff {opts : SerialReadUntilOpts} (some : opts.pattern.getD [10] ≠ []) (clock : Nat → Int)
    (port : Int → Nat → Option (List UInt8)) :
    (∀ n found text, Reaches (serialReadUntil clock port opts).round (.reading 0 []) (.returned n found text) ↔
      Found clock (clock 0 + opts.timeout.getD 200) (port (opts.chunkSize.getD 64)) (opts.pattern.getD [10]) n found
        text) ∧
    ((∃ n found text, Reaches (serialReadUntil clock port opts).round (.reading 0 []) (.returned n found text)) ↔
      ∃ n, Late clock (clock 0 + opts.timeout.getD 200) n ∨
        Occurs (port (opts.chunkSize.getD 64)) (opts.pattern.getD [10]) n) :=
  ⟨returns_iff (l := serialReadUntil clock port opts) rfl some,
    returns_sometime (l := serialReadUntil clock port opts) rfl some⟩

instance (clock : Nat → Int) (deadline : Int) (n : Nat) : Decidable (Late clock deadline n) :=
  inferInstanceAs (Decidable (_ ≤ _))

instance (chunk : Nat → Option (List UInt8)) (n : Nat) : Decidable (Occurs chunk pattern n) :=
  inferInstanceAs (Decidable (_ <:+: _))

/-- A line that comes in two chunks with an empty read in between. -/
theorem line_found : Reaches (serialReadUntil (fun _ => 0) (fun _ k => [some [97], none, some [10]].getD k none) {}).round
    (.reading 0 []) (.returned 3 true [97, 10]) := by
  have both := @serial_returns_iff {} (List.cons_ne_nil _ _) (fun _ => 0)
    fun _ k => [some [97], none, some [10]].getD k none
  refine (both.1 3 true [97, 10]).mpr ⟨rfl, ?_, ?_, nofun⟩
  · decide
  · decide

end Serial

section Shell
variable {opts : SshReadUntilOpts} {size : Option Int}

/-- The two loops come to the same end, if to any. -/
def Agree (first second : Loop) : Prop :=
  ∀ ended, (∀ reads buftable, ended ≠ .reading reads buftable) →
    (Reaches first.round (.reading 0 []) ended ↔ Reaches second.round (.reading 0 []) ended)

/-- Every chunk that is read in time is empty. -/
def Silent (l : Loop) : Prop := ∀ n, (∀ k ≤ n, ¬ Late l.clock l.deadline k) → Empty l n

theorem never_raised (known : l.pattern = some pattern) (reads : Nat) (message : CStr) :
    ¬ Reaches l.round (.reading 0 []) (.raised reads message) := by
  rw [ends_iff (by simp)]
  intro ended
  obtain ⟨n, -, -, last⟩ := ended
  cases last with
  | raised _ _ missing => cases known.symm.trans missing

/-- Without a pattern the first chunk that has a byte is an error. -/
theorem raises_somewhere (missing : l.pattern = none) (loud : ¬ Silent l) :
    ∃ reads message, Reaches l.round (.reading 0 []) (.raised reads message) := by
  classical
  rw [Silent, not_forall] at loud
  obtain ⟨m, loud⟩ := loud
  obtain ⟨early, full⟩ := Classical.not_imp.mp loud
  have some : ∃ n, ¬ Empty l n := ⟨m, full⟩
  have upto : Nat.find some ≤ m := Nat.find_min' some full
  have goes : ∀ k < Nat.find some, Goes l k := by
    intro k before
    exact ⟨early k (by omega), .inl (not_not.mp (Nat.find_min some before))⟩
  have stops : ¬ Goes l (Nat.find some) := by
    intro goes
    obtain ⟨-, empty | ⟨pattern, known, -⟩⟩ := goes
    · exact Nat.find_spec some empty
    · cases known.symm.trans missing
  refine ⟨_, _, (ends_iff (by simp)).mpr ⟨_, goes, stops, .raised (early _ upto) (Nat.find_spec some) missing⟩⟩

/-- A loop that reads nothing only waits until it is late. -/
theorem silent_ends (silent : Silent l) {ended : Reading} (done : ∀ reads buftable, ended ≠ .reading reads buftable) :
    Reaches l.round (.reading 0 []) ended ↔
      ∃ n, (∀ k < n, ¬ Late l.clock l.deadline k) ∧ Late l.clock l.deadline n ∧
        ended = .returned n false (textOf l.chunk n) := by
  rw [ends_iff done]
  constructor
  · intro ended
    obtain ⟨n, goes, -, last⟩ := ended
    have early : ∀ k < n, ¬ Late l.clock l.deadline k := fun k before => (goes k before).1
    have full_never (in_time : ¬ Late l.clock l.deadline n) : Empty l n := by
      apply silent
      intro k upto
      obtain before | rfl := Nat.lt_or_eq_of_le upto
      · exact early k before
      · exact in_time
    cases last with
    | late late => exact ⟨n, early, late, rfl⟩
    | found in_time full => exact absurd (full_never in_time) full
    | raised in_time full => exact absurd (full_never in_time) full
  · intro ended_late
    obtain ⟨n, early, late, rfl⟩ := ended_late
    refine ⟨n, ?_, fun goes => goes.1 late, .late late⟩
    intro k before
    exact ⟨early k before, .inl (silent k fun j upto => early j (Nat.lt_of_le_of_lt upto before))⟩

/-- The two libraries do the same with the same options exactly if a pattern is among them,
or nothing is read. -/
theorem loops_agree_iff (same : size.getD 64 = opts.chunkSize) (clock : Nat → Int) (chan : Channel) :
    Agree
      (serialReadUntil clock (chan.selected opts) { pattern := opts.pattern, timeout := opts.timeout, chunkSize := size })
      (shellReadUntil clock chan (some opts)) ↔
    opts.pattern ≠ none ∨ Silent (shellReadUntil clock chan (some opts)) := by
  have loops (pattern : Option (List UInt8)) (given : opts.pattern = pattern) :
      serialReadUntil clock (chan.selected opts) { pattern := opts.pattern, timeout := opts.timeout, chunkSize := size } =
        { shellReadUntil clock chan (some opts) with pattern := some (pattern.getD [10]) } := by
    simp only [serialReadUntil, shellReadUntil, same, given, Option.getD_some]
  rw [loops _ rfl]
  cases given : opts.pattern with
  | some pattern =>
    refine iff_of_true ?_ (.inl (Option.some_ne_none pattern))
    have equal : ({ shellReadUntil clock chan (some opts) with pattern := some pattern } : Loop) =
        shellReadUntil clock chan (some opts) := by
      simp only [shellReadUntil, Option.getD_some, given]
    intro ended done
    rw [Option.getD_some, equal]
  | none =>
    rw [or_iff_right (by simp)]
    constructor
    · intro agree
      by_contra loud
      obtain ⟨reads, message, raises⟩ := raises_somewhere (l := shellReadUntil clock chan (some opts)) given loud
      exact never_raised rfl reads message ((agree _ (by simp)).mpr raises)
    · intro silent ended done
      have other : Silent { shellReadUntil clock chan (some opts) with pattern := some [10] } := silent
      exact (silent_ends other done).trans (silent_ends silent done).symm

/-- A pattern that was given. -/
theorem shells_agree : Agree
    (serialReadUntil (fun _ => 0) (fun _ _ => some [97]) { pattern := some [97], timeout := none, chunkSize := none })
    (shellReadUntil (fun _ => 0) ⟨fun _ _ => some [97], fun _ _ => none⟩ (some { pattern := some [97] })) :=
  (@loops_agree_iff { pattern := some [97] } none rfl (fun _ => 0) ⟨fun _ _ => some [97], fun _ _ => none⟩).mpr
    (.inl (Option.some_ne_none _))

/-- A shell that answers with a line, and no pattern in the options. -/
theorem default_missing : ¬ Agree (serialReadUntil (fun _ => 0) (fun _ _ => some [97, 10]) {})
    (shellReadUntil (fun _ => 0) ⟨fun _ _ => some [97, 10], fun _ _ => none⟩ (some {})) := by
  intro agree
  exact never_raised rfl 1 _ ((agree _ (by simp)).mpr ⟨1, rfl⟩)

end Shell

end Ltf.Proofs.ReadUntil
