import Ltf.LuaJson

/-! Traversals of a table that leave alone what is below their key. A loop over `lua_next`
is a fold over the entries, as long as its body leaves the key it was given on the stack. -/

namespace Ltf.Proofs.LuaTraversal
open LuaStack

/-- There is room for so many slots. -/
def Fits (limit : Option Nat) (count : Nat) : Prop := ∀ most, limit = some most → count ≤ most

variable {limit : Option Nat} {slots below : List LuaData} {index : Nat} {entries rest : LuaEntries}
  {jsonType : Option LuaValue} {data : LuaData} {key : LuaValue}

theorem fits_none (count : Nat) : Fits none count := by
  intro most absurd
  cases absurd

theorem Fits.mono {count fewer : Nat} (fits : Fits limit count) (less : fewer ≤ count) : Fits limit fewer :=
  fun most is => less.trans (fits most is)

theorem push_fits (fits : Fits limit (slots.length + 1)) (data : LuaData) :
    push ⟨slots, limit⟩ data = .ok ⟨data :: slots, limit⟩ := by
  cases limit with
  | none => rfl
  | some most =>
    have room : slots.length < most := fits most rfl
    simp [push, top, room]

theorem push_full {most : Nat} (full : most ≤ slots.length) (data : LuaData) :
    push ⟨slots, some most⟩ data = .error .overflow := by
  simp [push, top, Nat.not_lt.mpr full]

theorem push_ok {L after : LuaStack} (ran : L.push data = .ok after) : after = { L with slots := data :: L.slots } := by
  unfold push at ran
  split at ran
  · cases ran
    rfl
  · split at ran
    · cases ran
      rfl
    · cases ran

theorem slot_push (found : slot ⟨slots, limit⟩ index = some data) (other : LuaData) :
    slot ⟨other :: slots, limit⟩ index = some data := by
  simp only [slot, List.reverse_cons] at found ⊢
  have inside : index - 1 < slots.reverse.length := (List.getElem?_eq_some_iff.mp found).1
  rw [List.getElem?_append_left inside]
  exact found

theorem slot_top (data : LuaData) (slots : List LuaData) (limit : Option Nat) :
    slot ⟨data :: slots, limit⟩ (slots.length + 1) = some data := by
  simp [slot]

/-! The keys of a table are pairwise distinct, and none of them is `nil`. -/

structure Distinct (entries : LuaEntries) : Prop where
  nodup : (entries.map Prod.fst).Nodup
  named : LuaValue.nil ∉ entries.map Prod.fst

theorem after_some (found : after key entries = some rest) :
    ∃ before data, entries = before ++ (key, data) :: rest := by
  induction entries with
  | nil => cases found
  | cons entry entries ih =>
    obtain ⟨other, data⟩ := entry
    rw [after] at found
    split at found
    next same =>
      cases found
      subst same
      exact ⟨[], data, rfl⟩
    next =>
      obtain ⟨before, here, split⟩ := ih found
      exact ⟨(other, data) :: before, here, by rw [split, List.cons_append]⟩

theorem after_append {before : LuaEntries} (fresh : key ∉ before.map Prod.fst) (data : LuaData) (rest : LuaEntries) :
    after key (before ++ (key, data) :: rest) = some rest := by
  induction before with
  | nil => simp [after]
  | cons entry before ih =>
    rw [List.map_cons, List.mem_cons, not_or] at fresh
    rw [List.cons_append, after, if_neg fresh.1, ih fresh.2]

theorem after_none (fresh : key ∉ entries.map Prod.fst) : after key entries = none := by
  induction entries with
  | nil => rfl
  | cons entry entries ih =>
    rw [List.map_cons, List.mem_cons, not_or] at fresh
    rw [after, if_neg fresh.1, ih fresh.2]

theorem remaining_suffix (left : remaining key entries = some rest) : rest <:+ entries := by
  unfold remaining at left
  split at left
  · cases left
    exact List.suffix_refl entries
  · obtain ⟨before, data, split⟩ := after_some left
    exact ⟨before ++ [(key, data)], by rw [split, List.append_assoc, List.singleton_append]⟩

/-- A key that was visited is found again, and with it what comes after. -/
theorem remaining_next (distinct : Distinct entries) {next : LuaValue}
    (left : remaining key entries = some ((next, data) :: rest)) : remaining next entries = some rest := by
  obtain ⟨before, split⟩ := remaining_suffix left
  subst split
  have named : next ≠ .nil := by
    intro empty
    exact distinct.named (by simp [empty])
  rw [remaining, if_neg named]
  apply after_append
  intro again
  have nodup := distinct.nodup
  rw [List.map_append, List.map_cons, List.nodup_append] at nodup
  exact nodup.2.2 _ again _ (List.mem_cons_self ..) rfl

/-! `lua_next` -/

theorem next_end (table : slot ⟨below, limit⟩ index = some (.table jsonType entries))
    (left : remaining key entries = some []) :
    next ⟨.value key :: below, limit⟩ index = .ok (false, ⟨below, limit⟩) := by
  simp only [next, slot_push table, left]

theorem next_entry (table : slot ⟨below, limit⟩ index = some (.table jsonType entries))
    (fits : Fits limit (below.length + 2)) {found : LuaValue} (left : remaining key entries = some ((found, data) :: rest)) :
    next ⟨.value key :: below, limit⟩ index = .ok (true, ⟨data :: .value found :: below, limit⟩) := by
  simp only [next, slot_push table, left]
  have room : Fits limit ((LuaData.value found :: below).length + 1) := fits
  rw [push_fits room]
  rfl

theorem next_lost (table : slot ⟨below, limit⟩ index = some (.table jsonType entries))
    (lost : remaining key entries = none) :
    next ⟨.value key :: below, limit⟩ index = .error (.raised (.lit "invalid key to 'next'")) := by
  simp only [next, slot_push table, lost]

/-- However it ends, `lua_next` takes the key away or puts a value on top of one. -/
theorem next_height {L after : LuaStack} {more : Bool} (ran : L.next index = .ok (more, after)) :
    if more then after.top = L.top + 1 else after.top + 1 = L.top := by
  unfold next at ran
  split at ran
  next shape =>
    split at ran
    · cases ran
    · cases ran
      simp [top, shape]
    · rw [Steps.bind_ok] at ran
      obtain ⟨pushed, grown, ran⟩ := ran
      cases ran
      rw [push_ok grown]
      simp [top, shape]
  next => cases ran

section Loop
variable {σ : Type} {body : σ → LuaStack → LuaRun (σ × LuaStack)} {step : σ → LuaValue × LuaData → σ}

theorem whileNext_end (table : slot ⟨below, limit⟩ index = some (.table jsonType entries))
    (left : remaining key entries = some []) (fuel : Nat) (state : σ) :
    whileNext index body (fuel + 1) state ⟨.value key :: below, limit⟩ = .ok (state, ⟨below, limit⟩) := by
  rw [whileNext, next_end table left]
  rfl

theorem whileNext_entry (table : slot ⟨below, limit⟩ index = some (.table jsonType entries))
    (fits : Fits limit (below.length + 2)) {found : LuaValue} (left : remaining key entries = some ((found, data) :: rest))
    (fuel : Nat) (state : σ) :
    whileNext index body (fuel + 1) state ⟨.value key :: below, limit⟩ =
      body state ⟨data :: .value found :: below, limit⟩ >>= fun next => whileNext index body fuel next.1 next.2 := by
  rw [whileNext, next_entry table fits left]
  rfl

variable (step) in
/-- A body that is done with each entry makes the loop a fold over the entries. -/
theorem whileNext_fold (distinct : Distinct entries) (table : slot ⟨below, limit⟩ index = some (.table jsonType entries))
    (fits : rest ≠ [] → Fits limit (below.length + 2))
    (each : ∀ entry ∈ rest, ∀ state, body state ⟨entry.2 :: .value entry.1 :: below, limit⟩ =
      .ok (step state entry, ⟨.value entry.1 :: below, limit⟩))
    (left : remaining key entries = some rest) (fuel : Nat) (state : σ) :
    whileNext index body fuel state ⟨.value key :: below, limit⟩ =
      if rest.length < fuel then .ok (rest.foldl step state, ⟨below, limit⟩) else .error .endless := by
  induction rest generalizing key state fuel with
  | nil =>
    cases fuel with
    | zero => rfl
    | succ fuel => rw [whileNext_end table left, if_pos (by simp), List.foldl_nil]
  | cons entry rest ih =>
    cases fuel with
    | zero => rfl
    | succ fuel =>
      have others : ∀ other ∈ rest, ∀ state, body state ⟨other.2 :: .value other.1 :: below, limit⟩ =
          .ok (step state other, ⟨.value other.1 :: below, limit⟩) := by
        intro other inside
        exact each other (by simp [inside])
      rw [whileNext_entry table (fits (by simp)) left, Steps.bind_of_ok (each entry (by simp) state),
        ih (fun _ => fits (by simp)) others (remaining_next distinct left)]
      simp

/-- A loop never ends with fewer slots than it began with, the key apart, if its body never
takes away more than the value. -/
theorem whileNext_grows (each : ∀ state L done, body state L = .ok done → L.top ≤ done.2.top + 1) {fuel : Nat}
    {state : σ} {L : LuaStack} {done : σ × LuaStack} (ran : whileNext index body fuel state L = .ok done) :
    L.top ≤ done.2.top + 1 := by
  induction fuel generalizing state L with
  | zero => cases ran
  | succ fuel ih =>
    rw [whileNext, Steps.bind_ok] at ran
    obtain ⟨⟨more, next⟩, stepped, ran⟩ := ran
    have height := next_height stepped
    cases more with
    | false =>
      cases ran
      simpa using height.ge
    | true =>
      simp only [if_true, Steps.bind_ok] at ran height
      obtain ⟨middle, first, ran⟩ := ran
      have before := each _ _ _ first
      have behind := ih ran
      omega

/-- A loop that ends with no slot more than it began with was done with each entry, and so
it was a fold. It does not end with a key that the table does not have. -/
theorem whileNext_back {good : LuaValue × LuaData → Prop} (distinct : Distinct entries)
    (table : slot ⟨below, limit⟩ index = some (.table jsonType entries))
    (grows : ∀ state L done, body state L = .ok done → L.top ≤ done.2.top + 1)
    (each : ∀ entry ∈ rest, ∀ state done, body state ⟨entry.2 :: .value entry.1 :: below, limit⟩ = .ok done →
      done.2.top ≤ below.length + 1 → done = (step state entry, ⟨.value entry.1 :: below, limit⟩) ∧ good entry ∨
        ∃ key, done.2 = ⟨.value key :: below, limit⟩ ∧ remaining key entries = none)
    (left : remaining key entries = some rest) {fuel : Nat} {state : σ} {done : σ × LuaStack}
    (ran : whileNext index body fuel state ⟨.value key :: below, limit⟩ = .ok done)
    (height : done.2.top ≤ below.length) :
    done = (rest.foldl step state, ⟨below, limit⟩) ∧ ∀ entry ∈ rest, good entry := by
  induction fuel generalizing key rest state with
  | zero => cases ran
  | succ fuel ih =>
    cases rest with
    | nil =>
      rw [whileNext_end table left] at ran
      cases ran
      exact ⟨rfl, by simp⟩
    | cons entry rest =>
      rw [whileNext, Steps.bind_ok] at ran
      obtain ⟨⟨more, next⟩, stepped, ran⟩ := ran
      have found : more = true ∧ next = ⟨entry.2 :: .value entry.1 :: below, limit⟩ := by
        simp only [LuaStack.next, slot_push table, left, Steps.bind_ok] at stepped
        obtain ⟨pushed, grown, stepped⟩ := stepped
        cases stepped
        exact ⟨rfl, push_ok grown⟩
      obtain ⟨rfl, rfl⟩ := found
      simp only [if_true, Steps.bind_ok] at ran
      obtain ⟨⟨after, middle⟩, first, ran⟩ := ran
      have behind : middle.top ≤ done.2.top + 1 := whileNext_grows grows ran
      rcases each entry (by simp) _ _ first (by dsimp only; omega) with ⟨same, fine⟩ | ⟨lost, same, none_left⟩
      · cases same
        obtain ⟨whole, all⟩ := ih (fun other inside => each other (by simp [inside])) (remaining_next distinct left) ran
        refine ⟨whole, ?_⟩
        intro other inside
        rcases List.mem_cons.mp inside with rfl | inside
        · exact fine
        · exact all other inside
      · dsimp only at same
        subst same
        cases fuel with
        | zero => cases ran
        | succ fuel =>
          rw [whileNext, next_lost table none_left] at ran
          cases ran

/-- A loop stays within its slots, whatever its body puts in the place of the key, if there
is nothing below a key that the table has. -/
theorem whileNext_sound (table : slot ⟨below, limit⟩ index = some (.table jsonType entries))
    (fits : entries ≠ [] → Fits limit (below.length + 2))
    (each : ∀ entry ∈ entries, ∀ state, Steps.Sound
      (fun done => ∃ key above, done.2 = ⟨.value key :: (above ++ below), limit⟩ ∧
        (above = [] ∨ remaining key entries = none))
      (· ≠ LuaStop.overflow) (body state ⟨entry.2 :: .value entry.1 :: below, limit⟩))
    (fuel : Nat) (state : σ) (key : LuaValue) :
    Steps.Sound (fun done => done.2 = ⟨below, limit⟩) (· ≠ LuaStop.overflow)
      (whileNext index body fuel state ⟨.value key :: below, limit⟩) := by
  induction fuel generalizing state key with
  | zero =>
    intro absurd
    cases absurd
  | succ fuel ih =>
    cases left : remaining key entries with
    | none =>
      rw [whileNext, next_lost table left]
      intro absurd
      cases absurd
    | some rest =>
      cases rest with
      | nil =>
        rw [whileNext_end table left]
        rfl
      | cons entry rest =>
        have inside : entry ∈ entries := (remaining_suffix left).subset (by simp)
        rw [whileNext_entry table (fits (List.ne_nil_of_mem inside)) left]
        apply (each entry inside state).bind
        rintro ⟨next, L⟩ ⟨key, above, rfl, rfl | lost⟩
        · exact ih next key
        · have deeper : slot ⟨above ++ below, limit⟩ index = some (.table jsonType entries) := by
            induction above with
            | nil => exact table
            | cons data above ih => exact slot_push ih data
          cases fuel with
          | zero =>
            intro absurd
            cases absurd
          | succ fuel =>
            rw [whileNext, next_lost deeper lost]
            intro absurd
            cases absurd

end Loop
end Ltf.Proofs.LuaTraversal
