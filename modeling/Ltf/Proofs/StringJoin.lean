import Ltf.Base.Steps
import Ltf.Strings

/-! `string_join` against the text it is for. The pass that adds up the lengths leaves out
the separators behind `NULL` entries, and the pass that copies does not. -/

namespace Ltf.Proofs.StringJoin
open CString Ltf.Strings Steps

variable {items rest : List (Option CStr)} {item : Option CStr} {fresh : Nat → UInt8}

section Text

/-- An entry, with `NULL` as the empty string. -/
def entry (item : Option CStr) : List UInt8 := (item.map (·.bytes)).getD []

def joined (items : List (Option CStr)) : List UInt8 := [44, 32].intercalate (items.map entry)

/-- The length of the entries alone. -/
def textLength : List (Option CStr) → Nat
  | [] => 0
  | item :: rest => (entry item).length + textLength rest

theorem joined_cons (item : Option CStr) (more : rest ≠ []) :
    joined (item :: rest) = entry item ++ ([44, 32] ++ joined rest) := by
  cases rest with
  | nil => exact absurd rfl more
  | cons second rest =>
    unfold joined
    rw [List.map_cons, List.map_cons, List.intercalate_cons_cons, List.append_assoc]

theorem length_joined (items : List (Option CStr)) :
    (joined items).length = textLength items + 2 * (items.length - 1) := by
  induction items with
  | nil => rfl
  | cons item rest ih =>
    by_cases more : rest = []
    · subst more
      simp [joined, textLength]
    · have := List.length_pos_iff.mpr more
      rw [joined_cons item more, List.length_append, List.length_append, ih, textLength]
      simp only [List.length_cons, List.length_nil]
      omega

theorem joined_clean (items : List (Option CStr)) : (0 : UInt8) ∉ joined items := by
  induction items with
  | nil => exact List.not_mem_nil
  | cons item rest ih =>
    have here : (0 : UInt8) ∉ entry item := by
      cases item with
      | none => exact List.not_mem_nil
      | some text => exact text.terminated
    by_cases more : rest = []
    · subst more
      simpa [joined] using here
    · rw [joined_cons item more]
      simp [here, ih]

end Text

section Copy
variable {out after part : List UInt8} {dst last : Nat}

theorem joinCopy_cons (more : rest ≠ []) : joinCopy out dst (item :: rest) = (do
    let out ← checked (Blocks.write out dst (entry item))
    let out ← checked (Blocks.write out (dst + (entry item).length) [44, 32])
    joinCopy out (dst + (entry item).length + 2) rest) := by
  simp only [joinCopy, more, ne_eq, not_false_eq_true, if_true]
  rfl

theorem joinCopy_singleton : joinCopy out dst [item] = (do
    let out ← checked (Blocks.write out dst (entry item))
    return (out, dst + (entry item).length)) := rfl

theorem checked_ok {α : Type} {value : Option α} {result : α} : checked value = .ok result ↔ value = some result := by
  cases value <;> simp [checked]

/-- In a block with enough room, the text is written behind what is already there. -/
theorem joinCopy_room (items : List (Option CStr)) (begins : part <+: out)
    (room : part.length + (joined items).length ≤ out.length) :
    ∃ after, joinCopy out part.length items = .ok (after, part.length + (joined items).length) ∧
      after.length = out.length ∧ part ++ joined items <+: after := by
  induction items generalizing out part with
  | nil => exact ⟨out, rfl, rfl, by simpa [joined] using begins⟩
  | cons item rest ih =>
    by_cases more : rest = []
    · subst more
      have whole : joined [item] = entry item := by simp [joined]
      rw [whole] at room ⊢
      obtain ⟨after, written, same, kept⟩ := Blocks.write_behind begins (entry item) room
      refine ⟨after, ?_, same, kept⟩
      rw [joinCopy_singleton, bind_of_ok (checked_ok.mpr written)]
      rfl
    · rw [joined_cons item more] at room ⊢
      simp only [List.length_append, List.length_cons, List.length_nil] at room
      obtain ⟨text, written, same, kept⟩ := Blocks.write_behind begins (entry item) (by omega)
      obtain ⟨next, separated, same', kept'⟩ := Blocks.write_behind kept [44, 32] (by
        rw [List.length_append, List.length_cons, List.length_singleton]
        omega)
      obtain ⟨after, copied, same'', kept''⟩ := ih kept' (by
        rw [List.length_append, List.length_append, List.length_cons, List.length_singleton]
        omega)
      refine ⟨after, ?_, by omega, ?_⟩
      · rw [List.length_append] at separated
        rw [joinCopy_cons more, bind_of_ok (checked_ok.mpr written), bind_of_ok (checked_ok.mpr separated)]
        simp only [List.length_append, List.length_cons, List.length_nil, ← Nat.add_assoc] at copied ⊢
        exact copied
      · simpa only [List.append_assoc] using kept''

theorem joinCopy_ran (items : List (Option CStr)) (ran : joinCopy out dst items = .ok (after, last)) :
    last = dst + (joined items).length ∧ after.length = out.length := by
  induction items generalizing out dst with
  | nil =>
    cases ran
    exact ⟨rfl, rfl⟩
  | cons item rest ih =>
    by_cases more : rest = []
    · subst more
      rw [joinCopy_singleton] at ran
      obtain ⟨text, written, same⟩ := bind_ok.mp ran
      cases same
      have whole : joined [item] = entry item := by simp [joined]
      rw [whole]
      exact ⟨rfl, (Blocks.write_room (checked_ok.mp written)).2⟩
    · rw [joinCopy_cons more] at ran
      obtain ⟨text, written, ran⟩ := bind_ok.mp ran
      obtain ⟨next, separated, ran⟩ := bind_ok.mp ran
      obtain ⟨reached, same⟩ := ih ran
      rw [joined_cons item more, List.length_append, List.length_append, List.length_cons, List.length_singleton]
      refine ⟨by omega, ?_⟩
      rw [same, (Blocks.write_room (checked_ok.mp separated)).2, (Blocks.write_room (checked_ok.mp written)).2]

end Copy

section Length
variable (len : Nat)

/-- How many `NULL` entries have an entry behind them. -/
def skipped (items : List (Option CStr)) : Nat := items.dropLast.count none

theorem skipped_cons (item : Option CStr) (more : rest ≠ []) :
    skipped (item :: rest) = skipped rest + if item = none then 1 else 0 := by
  rw [skipped, List.dropLast_cons_of_ne_nil more, List.count_cons]
  cases item <;> rfl

theorem joinLength_text (text : CStr) (more : rest ≠ []) :
    joinLength len (some text :: rest) = joinLength (sizeT (sizeT (len + text.bytes.length) + 2)) rest := by
  simp only [joinLength, more, ne_eq, not_false_eq_true, if_true]

theorem sizeT_le (n : Nat) : sizeT n ≤ n := Nat.mod_le _ _

theorem sizeT_eq {n : Nat} (small : n < UInt64.size) : sizeT n = n := Nat.mod_eq_of_lt small

theorem joinLength_small {len : Nat} (items : List (Option CStr)) (small : len < UInt64.size) :
    joinLength len items < UInt64.size := by
  induction items generalizing len with
  | nil => exact small
  | cons item rest ih =>
    cases item with
    | none => exact ih small
    | some text =>
      unfold joinLength
      apply ih
      split <;> exact Nat.mod_lt _ (by decide)

/-- Each `NULL` with an entry behind it takes away a separator, and a sum that wraps around takes away more. -/
theorem joinLength_le (items : List (Option CStr)) :
    joinLength len items + 2 * skipped items ≤ len + (joined items).length := by
  induction items generalizing len with
  | nil => exact Nat.le_refl _
  | cons item rest ih =>
    by_cases more : rest = []
    · subst more
      cases item with
      | none => exact Nat.le_add_right _ _
      | some text =>
        have whole : joined [some text] = text.bytes := by simp [joined, entry]
        rw [whole]
        exact sizeT_le _
    · rw [skipped_cons item more, joined_cons item more, List.length_append, List.length_append]
      simp only [List.length_cons, List.length_nil]
      cases item with
      | none =>
        have later := ih len
        simp only [if_true]
        unfold joinLength
        omega
      | some text =>
        rw [joinLength_text len text more]
        have later := ih (sizeT (sizeT (len + text.bytes.length) + 2))
        have first := sizeT_le (len + text.bytes.length)
        have second := sizeT_le (sizeT (len + text.bytes.length) + 2)
        have here : entry (some text) = text.bytes := rfl
        simp only [reduceCtorEq, if_false, here]
        omega

theorem joinLength_eq (items : List (Option CStr)) (small : len + (joined items).length < UInt64.size) :
    joinLength len items + 2 * skipped items = len + (joined items).length := by
  induction items generalizing len with
  | nil => rfl
  | cons item rest ih =>
    by_cases more : rest = []
    · subst more
      cases item with
      | none => rfl
      | some text =>
        have whole : joined [some text] = text.bytes := by simp [joined, entry]
        rw [whole] at small ⊢
        exact sizeT_eq small
    · rw [joined_cons item more, List.length_append, List.length_append] at small ⊢
      rw [skipped_cons item more]
      simp only [List.length_cons, List.length_nil] at small ⊢
      cases item with
      | none =>
        have later := ih len (by omega)
        simp only [if_true]
        unfold joinLength
        have here : entry none = [] := rfl
        rw [here, List.length_nil]
        omega
      | some text =>
        have here : entry (some text) = text.bytes := rfl
        rw [here] at small ⊢
        rw [joinLength_text len text more, sizeT_eq (n := len + text.bytes.length) (by omega), sizeT_eq (by omega)]
        have later := ih (len + text.bytes.length + 2) (by omega)
        simp only [reduceCtorEq, if_false]
        omega

end Length

/-- The text is returned exactly if no `NULL` has an entry behind it and the block is not
too large for its size. -/
theorem stringJoin_iff (fresh : Nat → UInt8) (items : List (Option CStr)) :
    (∃ out, stringJoin fresh items = .ok out ∧ (CStr.ofBytes out).bytes = joined items) ↔
      (∀ item ∈ items.dropLast, item ≠ none) ∧ textLength items + 2 * (items.length - 1) + 1 < UInt64.size := by
  rw [← length_joined]
  have most := joinLength_le 1 items
  constructor
  · intro returned
    obtain ⟨out, ran, _⟩ := returned
    obtain ⟨⟨copy, last⟩, copied, ends⟩ := bind_ok.mp ran
    obtain ⟨reached, same⟩ := joinCopy_ran items copied
    obtain ⟨room, _⟩ := Blocks.write_room (checked_ok.mp ends)
    rw [same, Blocks.length_resize, reached, List.length_singleton] at room
    have small := joinLength_small items (show 1 < UInt64.size by decide)
    have none : skipped items = 0 := by omega
    refine ⟨?_, by omega⟩
    rintro item inside rfl
    exact List.count_eq_zero.mp none inside
  · intro condition
    obtain ⟨filled, small⟩ := condition
    have none : skipped items = 0 := List.count_eq_zero.mpr fun inside => filled _ inside rfl
    have size := joinLength_eq 1 items (by omega)
    have start : [] <+: Blocks.resize [] (joinLength 1 items) fresh := List.nil_prefix
    obtain ⟨copy, copied, same, begins⟩ := joinCopy_room items start (by
      rw [Blocks.length_resize, List.length_nil]
      omega)
    rw [Blocks.length_resize] at same
    rw [List.length_nil, Nat.zero_add] at copied
    obtain ⟨out, written, _, whole⟩ := Blocks.write_behind begins [0] (by
      rw [List.nil_append, List.length_singleton]
      omega)
    rw [List.nil_append] at written whole
    refine ⟨out, (bind_of_ok copied).trans (checked_ok.mpr written), ?_⟩
    obtain ⟨spare, rfl⟩ := whole
    have stops : (joined items ++ [0] ++ spare).takeWhile (· ≠ 0) = joined items := by
      rw [List.append_assoc, List.takeWhile_append_of_pos]
      · simp
      · intro byte inside
        simpa using fun zero : byte = 0 => joined_clean items (zero ▸ inside)
    exact stops

/-- The separator behind the first entry has no room. -/
theorem join_null_first : ¬ ∃ out, stringJoin (fun _ => 0) [none, some (CStr.lit "a")] = .ok out ∧
    (CStr.ofBytes out).bytes = joined [none, some (CStr.lit "a")] := by
  intro returned
  obtain ⟨out, ran, _⟩ := returned
  have overrun : stringJoin (fun _ => 0) [none, some (CStr.lit "a")] = .error .outOfBlock := rfl
  rw [overrun] at ran
  cases ran

end Ltf.Proofs.StringJoin
