import Ltf.Proofs.DaLists

/-! Arrays when the C library runs out of memory, and when sizes wrap around. -/

namespace Ltf.Proofs.DaMemory
open Da DaLists Steps

variable {da : Option DaT} {memory : Memory}

/-- A call that cannot allocate says so and leaves the array alone; whatever happens, an
array that is there is sound. -/
def Keeps (da : Option DaT) (action : Action) : Prop :=
  ∃ after answer, call action.1 da action.2 = .ok (after, answer) ∧ (∀ array, after = some array → Sound array) ∧
    (¬ Supplied da action → answer = .flag false ∧
      ((∀ initCapacity elemSize, action.2 ≠ .init initCapacity elemSize) → after = da))

/-- A block that is found for a new array has all its elements in it, and `da_resize` gets
the memory it asks for. -/
def Fits (da : Option DaT) (action : Action) : Prop :=
  match action.2 with
  | .init initCapacity elemSize =>
    action.1.calloc = true → action.1.block.isSome → initCapacity * elemSize < sizeLimit
  | .resize _ => Supplied da action
  | .on _ => True

section Init
variable {capacity e : Nat}

theorem init_made {array : DaT} (made : daInit memory capacity e = some array) :
    0 < e ∧ memory.calloc = true ∧ array.elemSize = e ∧ array.capacity = capacity ∧
      (capacity = 0 ∨ memory.block.isSome) := by
  unfold daInit at made
  split at made
  · cases made
  next positive =>
    split at made
    · cases made
    next struct =>
      have struct : memory.calloc = true := by simpa using struct
      split at made
      next none =>
        cases made
        exact ⟨by omega, struct, rfl, rfl, .inl none⟩
      next some =>
        split at made
        next missing => cases made
        next found =>
          cases made
          refine ⟨by omega, struct, rfl, rfl, .inr ?_⟩
          simpa [malloc] using congrArg Option.isSome found

theorem init_none (missing : daInit memory capacity e = none) (struct : memory.calloc = true)
    (found : memory.block.isSome) : capacity * e = 0 := by
  obtain ⟨fresh, found⟩ := Option.isSome_iff_exists.mp found
  by_contra some
  rw [Nat.mul_eq_zero, not_or] at some
  simp [daInit, struct, malloc, found, some] at missing

theorem init_keeps : Keeps da (memory, .init capacity e) ↔ Fits da (memory, .init capacity e) := by
  constructor
  · intro keeps struct found
    obtain ⟨after, answer, ran, sound, -⟩ := keeps
    cases Except.ok.inj ran
    cases made : daInit memory capacity e with
    | none =>
      have none := init_none made struct found
      rw [none]
      exact Nat.zero_lt_succ _
    | some array =>
      have counted := (sound array made).counted
      obtain ⟨-, -, width, size, -⟩ := init_made made
      rwa [size, width] at counted
  · intro fits
    have supplied {array : DaT} (made : daInit memory capacity e = some array) :
        Supplied none (memory, .init capacity e) := by
      obtain ⟨-, struct, -, -, some⟩ := init_made made
      rw [supplied_init]
      exact ⟨struct, some.imp_right fun found => ⟨fits struct found, found⟩⟩
    refine ⟨_, _, rfl, ?_, ?_⟩
    · intro array made
      obtain ⟨same, made', represents⟩ := init_represents (init_made made).1 (supplied made)
      cases made.symm.trans made'
      exact represents.toSound
    · intro refused
      cases made : daInit memory capacity e with
      | none => exact ⟨rfl, fun other => absurd rfl (other capacity e)⟩
      | some array =>
        rw [supplied_init, ← @supplied_init _ none] at refused
        exact absurd (supplied made) refused

end Init

section Resize
variable {n : Nat}

theorem supplied_resize {array : DaT} : Supplied array (memory, .resize n) ↔
    n ≤ array.size ∨ n ≤ array.capacity ∨ Granted memory (n * array.elemSize) := by
  rw [supplied_block (by simp)]
  simp only [needed, Option.bind_some]
  split
  next less => simp [less]
  next more => rw [supplied_room, or_iff_right more]

theorem resize_keeps (valid : ∀ array, da = some array → Sound array) :
    Keeps da (memory, .resize n) ↔ Supplied da (memory, .resize n) := by
  cases da with
  | none =>
    have supplied : Supplied none (memory, .resize n) := ⟨nofun, nofun⟩
    exact iff_of_true ⟨none, _, rfl, nofun, fun refused => absurd supplied refused⟩ supplied
  | some array =>
    have sound := valid array rfl
    constructor
    · intro keeps
      obtain ⟨after, answer, ran, -, refused⟩ := keeps
      by_contra short
      have longer : ¬ n ≤ array.size := fun less => short (supplied_resize.mpr (.inl less))
      cases Except.ok.inj ran
      have failed := (refused short).1
      simp [daResize, longer] at failed
    · intro supplied
      refine ⟨_, _, rfl, ?_, fun refused => absurd supplied refused⟩
      rw [supplied_resize] at supplied
      intro after made
      by_cases less : n ≤ array.size
      · simp only [daResize, if_pos less] at made
        exact valid after made
      · simp only [daResize, if_neg less] at made
        cases made
        by_cases enough : n ≤ array.capacity
        · rw [reserve_enough enough]
          exact ⟨sound.sized, enough, sound.counted, sound.owned⟩
        · obtain ⟨xs, same⟩ := sound.represents
          have granted := (supplied.resolve_left less).resolve_left enough
          obtain ⟨larger, ran, same, -, capacity⟩ := same.reserved (Nat.not_le.mp enough) granted
          rw [ran]
          exact ⟨same.sized, Nat.le_of_eq capacity.symm, same.counted, same.owned⟩

end Resize

theorem operate_keeps (valid : ∀ array, da = some array → Sound array) (operation : Operation) :
    Keeps da (memory, .on operation) := by
  cases da with
  | none =>
    have supplied : Supplied none (memory, .on operation) := by
      refine ⟨nofun, ?_⟩
      intro bytes asked
      cases operation with
      | append elem => cases elem <;> cases asked
      | _ => cases asked
    have ran : ∃ answer, operate memory none operation = .ok (none, answer) := by
      cases operation <;> exact ⟨_, rfl⟩
    obtain ⟨answer, ran⟩ := ran
    exact ⟨none, answer, ran, nofun, fun refused => absurd supplied refused⟩
  | some da =>
    have sound := valid da rfl
    by_cases supplied : Supplied da (memory, .on operation)
    · obtain ⟨xs, same⟩ := sound.represents
      obtain ⟨after, ran, same⟩ := operate_represents same supplied
      refine ⟨_, _, ran, ?_, fun refused => absurd supplied refused⟩
      intro array here
      cases here
      exact same.toSound
    · exact ⟨_, _, operate_refused sound supplied, valid, fun _ => ⟨rfl, fun _ => rfl⟩⟩

theorem keeps_iff (valid : ∀ array, da = some array → Sound array) (action : Action) :
    Keeps da action ↔ Fits da action := by
  obtain ⟨memory, call⟩ := action
  cases call with
  | init capacity e => exact init_keeps
  | resize n => exact resize_keeps valid
  | on operation => exact iff_of_true (operate_keeps valid operation) trivial

/-- At each call of a program, as long as it lasts. -/
def Safe (actions : List Action) : Prop := AtEach step (fun state => Keeps state.1) (none, []) actions

/-- Programs are safe exactly when all their arrays are made of blocks for all the elements
and no size is set without memory for it. -/
theorem safe_iff (actions : List Action) :
    Safe actions ↔ AtEach step (fun state => Fits state.1) (none, []) actions := by
  refine AtEach.congr (fun state action valid => keeps_iff valid action) ?_ nofun
  intro state action next valid keeps taken
  obtain ⟨after, answer, ran, sound, -⟩ := keeps
  rw [step, bind_of_ok ran] at taken
  cases Except.ok.inj taken
  exact sound

def generous : Memory := ⟨true, some fun _ => 0⟩

/-- A size that no memory was found for, and one more than `2 ^ 61` elements of eight bytes:
both arrays are used behind the ends of their blocks. -/
theorem sizes_unchecked :
    (¬ Safe [(generous, .init 1 1), (⟨true, none⟩, .resize 2)] ∧
      run [(generous, .init 1 1), (⟨true, none⟩, .resize 2), (generous, .on (.get 1))] = .error .outOfBlock) ∧
    (¬ Safe [(generous, .init 2305843009213693953 8)] ∧
      run [(generous, .init 2305843009213693953 8), (generous, .on (.append (some fun _ => 0))),
        (generous, .on (.append (some fun _ => 0)))] = .error .outOfBlock) := by
  refine ⟨⟨?_, rfl⟩, ?_, rfl⟩
  · intro safe
    obtain ⟨after, answer, ran, sound, -⟩ := (AtEach.cons.mp ((AtEach.cons.mp safe).2 _ rfl)).1
    cases Except.ok.inj ran
    exact absurd (sound _ rfl).fits (by decide)
  · intro safe
    obtain ⟨after, answer, ran, sound, -⟩ := (AtEach.cons.mp safe).1
    cases Except.ok.inj ran
    exact absurd (sound _ rfl).counted (by decide)

end Ltf.Proofs.DaMemory
