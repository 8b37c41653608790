import Ltf.Base.Steps
import Ltf.Strings

/-! The offsets that `string_wrapped_lines` returns, next to the lines of the text. -/

namespace Ltf.Proofs.WrappedLines
open CString Ltf.Strings Steps

/-- The lines from each offset to the next one. -/
def delimited (text : List UInt8) : List Nat → List (List UInt8)
  | [] => []
  | [offset] => [text.drop offset]
  | offset :: next :: rest => (text.drop offset).take (next - offset) :: delimited text (next :: rest)

/-- A line without the newline it ends with. -/
def bare (line : List UInt8) : List UInt8 := if line.getLast? = some 10 then line.dropLast else line

/-- The line that begins at some offset would get too long with the byte at `i`. -/
def Exceeds (text : List UInt8) (maxLen : Nat) (offsets : List Nat) (i : Nat) : Prop :=
  text[i]? ≠ some 10 ∧ ∃ start ∈ offsets, start + maxLen = i ∧ ∀ k ∈ offsets, start < k → i ≤ k

/-- What wrapping is for: lines of at most `maxLen` bytes, with a break behind each newline
and in front of each byte that is too much. -/
structure Wrapped (text : List UInt8) (maxLen : Nat) (offsets : List Nat) : Prop where
  first : offsets.head? = some 0
  increasing : offsets.Pairwise (· < ·)
  inside : text ≠ [] → ∀ offset ∈ offsets, offset < text.length
  short : ∀ line ∈ delimited text offsets, (bare line).length ≤ maxLen
  breaks : ∀ i < text.length, i ∈ offsets ↔ i = 0 ∨ text[i - 1]? = some 10 ∨ Exceeds text maxLen offsets i

variable {maxLen col index : Nat} {text bytes rest : List UInt8} {byte : UInt8}

section Pushes

/-- The offsets that are pushed while some bytes are read. -/
def pushes (maxLen col index : Nat) : List UInt8 → List Nat
  | [] => []
  | byte :: rest =>
    if byte = 10 ∨ col = maxLen then
      (if rest ≠ [] then [index + 1] else []) ++ pushes maxLen (if byte = 10 then 0 else 1) (index + 1) rest
    else pushes maxLen (col + 1) (index + 1) rest

theorem pushIndex_next {s : Wrapping} {offsets : List Nat} (begins : offsets.map some <+: s.indices)
    (count : s.i = offsets.length) (some : s.indices ≠ []) (offset : Nat) :
    ∃ indices, pushIndex s offset = .ok { s with indices, i := s.i + 1 } ∧
      (offsets ++ [offset]).map .some <+: indices ∧ indices ≠ [] := by
  have filled : (offsets.map Option.some).length = s.i := by rw [List.length_map, count]
  have within := begins.length_le
  have slots := List.length_pos_iff.mpr some
  obtain ⟨block, grown, kept, room⟩ : ∃ block, (if s.i = s.indices.length then
      Blocks.resize s.indices (s.indices.length * 2) fun _ => none else s.indices) = block ∧
        offsets.map .some <+: block ∧ s.i < block.length := by
    split
    next full =>
      refine ⟨_, rfl, Blocks.prefix_resize begins (by omega) _, ?_⟩
      rw [Blocks.length_resize]
      omega
    next free => exact ⟨_, rfl, begins, by omega⟩
  obtain ⟨after, written, same, kept⟩ := Blocks.write_behind kept [.some offset] (by
    rw [filled, List.length_singleton]
    omega)
  rw [filled] at written
  refine ⟨after, ?_, ?_, ?_⟩
  · simp only [pushIndex, grown, written, checked, bind_of_ok rfl]
    rfl
  · rw [List.map_append]
    exact kept
  · rintro rfl
    rw [List.length_nil] at same
    omega

/-- The loop pushes what it should on a block that is as large as it has to be. -/
theorem wrapLoop_pushes (bytes : List UInt8) {s : Wrapping} {offsets : List Nat}
    (begins : offsets.map some <+: s.indices) (count : s.i = offsets.length) (some : s.indices ≠ []) :
    ∃ after, wrapLoop maxLen s bytes = .ok after ∧ after.i = (offsets ++ pushes maxLen s.col s.index bytes).length ∧
      (offsets ++ pushes maxLen s.col s.index bytes).map .some <+: after.indices := by
  induction bytes generalizing s offsets with
  | nil => exact ⟨s, rfl, by simpa [pushes] using count, by simpa [pushes] using begins⟩
  | cons byte rest ih =>
    unfold wrapLoop wrapByte pushes
    by_cases breaks : byte = 10 ∨ s.col = maxLen
    · rw [if_pos breaks, if_pos breaks]
      by_cases more : rest ≠ []
      · obtain ⟨indices, pushed, begins, some⟩ := pushIndex_next begins count some (s.index + 1)
        have longer : s.i + 1 = (offsets ++ [s.index + 1]).length := by
          rw [count, List.length_append, List.length_singleton]
        rw [if_pos more, if_pos more, pushed, ← List.append_assoc]
        exact @ih { s with
          indices
          i := s.i + 1
          col := if byte = 10 then 0 else 1
          index := s.index + 1 } _ begins longer some
      · rw [if_neg more, if_neg more, List.nil_append]
        exact @ih { s with col := if byte = 10 then 0 else 1, index := s.index + 1 } _ begins count some
    · rw [if_neg breaks, if_neg breaks]
      exact @ih { s with col := s.col + 1, index := s.index + 1 } _ begins count some

/-- What is returned for any text. -/
theorem stringWrappedLines_pushes (text : CStr) (positive : 1 ≤ maxLen) :
    stringWrappedLines (some text) maxLen = .ok (some ((0 :: pushes maxLen 0 0 text.bytes).map some)) := by
  have first : checked (Blocks.write (List.replicate 8 none) 0 [some 0]) =
      .ok (some 0 :: List.replicate 7 (none : Option Nat)) := rfl
  obtain ⟨after, ran, count, begins⟩ := @wrapLoop_pushes maxLen text.bytes
    { indices := some 0 :: List.replicate 7 none, i := 1 } [0] ⟨List.replicate 7 none, rfl⟩ rfl (List.cons_ne_nil _ _)
  have nonzero : maxLen ≠ 0 := by omega
  simp only [stringWrappedLines, nonzero, if_false]
  rw [bind_of_ok first, bind_of_ok ran]
  have begins : (0 :: pushes maxLen 0 0 text.bytes).map some <+: after.indices := begins
  have filled : after.i = ((0 :: pushes maxLen 0 0 text.bytes).map some).length := by
    rw [List.length_map]
    exact count
  have whole : Blocks.resize after.indices after.i (fun _ => none) = (0 :: pushes maxLen 0 0 text.bytes).map some := by
    rw [Blocks.resize_fill, filled, ← List.prefix_iff_eq_take.mp begins, Nat.sub_eq_zero_of_le begins.length_le]
    exact List.append_nil _
  rw [whole]
  rfl

theorem pushes_behind (maxLen col index : Nat) (bytes : List UInt8) : ∀ k ∈ pushes maxLen col index bytes, index < k := by
  induction bytes generalizing col index with
  | nil => exact fun _ inside => absurd inside List.not_mem_nil
  | cons byte rest ih =>
    intro k inside
    unfold pushes at inside
    split at inside
    · obtain here | later := List.mem_append.mp inside
      · split at here
        · rw [List.mem_singleton.mp here]
          exact Nat.lt_succ_self _
        · exact absurd here List.not_mem_nil
      · exact Nat.lt_of_succ_lt (ih _ _ k later)
    · exact Nat.lt_of_succ_lt (ih _ _ k inside)

end Pushes

section Lines

theorem splitOn_newline (whole : (10 : UInt8) ∉ text) (rest : List UInt8) :
    (text ++ 10 :: rest).splitOn 10 = text :: rest.splitOn 10 :=
  List.splitOn_append_cons_self_of_not_mem whole _

theorem splitOn_front (whole : (10 : UInt8) ∉ text) (rest : List UInt8) :
    ∃ line lines, (text ++ rest).splitOn 10 = (text ++ line) :: lines := by
  induction text with
  | nil =>
    obtain ⟨line, lines, pieces⟩ := List.exists_cons_of_ne_nil (List.splitOn_ne_nil 10 rest)
    exact ⟨line, lines, pieces⟩
  | cons byte text ih =>
    rw [List.mem_cons, not_or] at whole
    obtain ⟨line, lines, pieces⟩ := ih whole.2
    refine ⟨line, lines, ?_⟩
    rw [List.cons_append, List.splitOn_cons_eq_if_modifyHead, pieces]
    simp [Ne.symm whole.1]

/-- Bytes without a newline are all in one line. -/
theorem run_in_line (before run behind : List UInt8) (whole : (10 : UInt8) ∉ run) :
    ∃ line ∈ (before ++ (run ++ behind)).splitOn 10, run.length ≤ line.length := by
  induction before with
  | nil =>
    obtain ⟨line, lines, pieces⟩ := splitOn_front whole behind
    refine ⟨run ++ line, ?_, ?_⟩
    · rw [List.nil_append, pieces]
      exact List.mem_cons_self
    · rw [List.length_append]
      exact Nat.le_add_right _ _
  | cons byte before ih =>
    obtain ⟨line, inside, long⟩ := ih
    rw [List.cons_append, List.splitOn_cons_eq_if_modifyHead]
    cases pieces : (before ++ (run ++ behind)).splitOn 10 with
    | nil => exact absurd pieces (List.splitOn_ne_nil _ _)
    | cons first lines =>
      rw [pieces] at inside
      split
      · exact ⟨line, List.mem_cons_of_mem _ inside, long⟩
      · obtain rfl | later := List.mem_cons.mp inside
        · exact ⟨byte :: line, List.mem_cons_self, Nat.le_succ_of_le long⟩
        · exact ⟨line, List.mem_cons_of_mem _ later, long⟩

end Lines

section Short

/-- The offsets behind the newlines, but for one at the end of the text. -/
def behindNewlines (index : Nat) : List UInt8 → List Nat
  | [] => []
  | byte :: rest => (if byte = 10 ∧ rest ≠ [] then [index + 1] else []) ++ behindNewlines (index + 1) rest

theorem mem_behindNewlines {k : Nat} (bytes : List UInt8) :
    k ∈ behindNewlines index bytes ↔ ∃ j, bytes[j]? = some 10 ∧ j + 1 < bytes.length ∧ k = index + j + 1 := by
  induction bytes generalizing index with
  | nil => simp [behindNewlines]
  | cons byte rest ih =>
    rw [behindNewlines, List.mem_append, ih]
    constructor
    · intro inside
      obtain here | ⟨j, newline, more, same⟩ := inside
      · split at here
        next breaks =>
          refine ⟨0, by rw [List.getElem?_cons_zero, breaks.1], ?_, List.mem_singleton.mp here⟩
          have := List.length_pos_iff.mpr breaks.2
          rw [List.length_cons]
          omega
        · exact absurd here List.not_mem_nil
      · exact ⟨j + 1, newline, by rw [List.length_cons]; omega, by omega⟩
    · intro inside
      obtain ⟨j, newline, more, same⟩ := inside
      rw [List.length_cons] at more
      cases j with
      | zero =>
        have breaks : byte = 10 ∧ rest ≠ [] := ⟨Option.some.inj newline, List.length_pos_iff.mp (by omega)⟩
        rw [if_pos breaks]
        exact .inl (List.mem_singleton.mpr same)
      | succ j => exact .inr ⟨j, newline, by omega, by omega⟩

theorem behindNewlines_increasing (index : Nat) (bytes : List UInt8) :
    (index :: behindNewlines index bytes).Pairwise (· < ·) := by
  induction bytes generalizing index with
  | nil => exact List.pairwise_singleton _ _
  | cons byte rest ih =>
    have later := ih (index + 1)
    unfold behindNewlines
    split
    · refine List.pairwise_cons.mpr ⟨fun k inside => ?_, later⟩
      obtain rfl | inside := List.mem_cons.mp inside
      · exact Nat.lt_succ_self _
      · exact Nat.lt_of_succ_lt (List.rel_of_pairwise_cons later inside)
    · refine List.pairwise_cons.mpr ⟨fun k inside => ?_, (List.pairwise_cons.mp later).2⟩
      exact Nat.lt_of_succ_lt (List.rel_of_pairwise_cons later inside)

/-- As long as no line is too long, lines only break at newlines. -/
theorem pushes_short (line : List UInt8) (index : Nat) (bytes : List UInt8) (whole : 10 ∉ line)
    (short : ∀ piece ∈ (line ++ bytes).splitOn 10, piece.length ≤ maxLen) :
    pushes maxLen line.length index bytes = behindNewlines index bytes := by
  induction bytes generalizing line index with
  | nil => rfl
  | cons byte rest ih =>
    unfold pushes behindNewlines
    by_cases newline : byte = 10
    · subst newline
      rw [splitOn_newline whole] at short
      have later := ih [] (index + 1) List.not_mem_nil fun piece inside => short piece (List.mem_cons_of_mem _ inside)
      simp only [true_or, if_true, true_and]
      exact congrArg _ later
    · have further : (10 : UInt8) ∉ line ++ [byte] := by simp [whole, Ne.symm newline]
      have joined : line ++ byte :: rest = (line ++ [byte]) ++ rest := by simp
      rw [joined] at short
      obtain ⟨piece, inside, long⟩ := run_in_line [] (line ++ [byte]) rest further
      have room := Nat.le_trans long (short piece inside)
      rw [List.length_append, List.length_singleton] at room
      have free : ¬ (byte = 10 ∨ line.length = maxLen) := not_or.mpr ⟨newline, by omega⟩
      have later := ih (line ++ [byte]) (index + 1) further short
      rw [List.length_append, List.length_singleton] at later
      rw [if_neg free, later]
      simp [newline]

theorem bare_line {line : List UInt8} (whole : 10 ∉ line) : bare line = line := by
  unfold bare
  split
  next last => exact absurd (List.mem_of_getLast? last) whole
  · rfl

theorem bare_newline (line : List UInt8) : bare (line ++ [10]) = line := by
  simp [bare]

/-- Between the newlines are the lines of the text. -/
theorem delimited_newlines (before line bytes : List UInt8) (whole : 10 ∉ line) :
    ∀ piece ∈ delimited (before ++ (line ++ bytes))
        (before.length :: behindNewlines (before.length + line.length) bytes),
      bare piece ∈ (line ++ bytes).splitOn 10 := by
  induction bytes generalizing before line with
  | nil =>
    intro piece inside
    have last := List.mem_singleton.mp inside
    rw [List.append_nil] at last ⊢
    rw [last, List.drop_left, bare_line whole, List.splitOn_eq_singleton whole]
    exact List.mem_singleton.mpr rfl
  | cons byte rest ih =>
    intro piece inside
    by_cases newline : byte = 10
    · subst newline
      rw [splitOn_newline whole]
      by_cases more : rest = []
      · subst more
        have last := List.mem_singleton.mp inside
        rw [last, List.drop_left, bare_newline]
        exact List.mem_cons_self
      · have shape : behindNewlines (before.length + line.length) (10 :: rest) =
            (before.length + line.length + 1) :: behindNewlines (before.length + line.length + 1) rest := by
          simp [behindNewlines, more]
        rw [shape, delimited, List.mem_cons] at inside
        obtain first | later := inside
        · have taken : before.length + line.length + 1 - before.length = (line ++ [10]).length := by
            rw [List.length_append, List.length_singleton]
            omega
          have joined : line ++ 10 :: rest = (line ++ [10]) ++ rest := by simp
          rw [first, List.drop_left, taken, joined, List.take_left, bare_newline]
          exact List.mem_cons_self
        · have further := ih (before ++ line ++ [10]) [] List.not_mem_nil piece
          simp only [List.append_assoc, List.cons_append, List.nil_append, List.length_append, List.length_cons,
            List.length_nil, Nat.add_zero, Nat.zero_add, ← Nat.add_assoc] at further
          exact List.mem_cons_of_mem _ (further later)
    · have further := ih before (line ++ [byte]) (by simp [whole, Ne.symm newline]) piece
      simp only [List.append_assoc, List.cons_append, List.nil_append, List.length_append, List.length_cons,
        List.length_nil, Nat.zero_add, ← Nat.add_assoc] at further
      apply further
      simpa [behindNewlines, newline] using inside

/-- Where lines only break at newlines, a byte too many is behind one if the lines are short. -/
theorem exceeds_newline {i : Nat} (short : ∀ line ∈ text.splitOn 10, line.length ≤ maxLen) (inside : i < text.length)
    (exceeds : Exceeds text maxLen (0 :: behindNewlines 0 text) i) : i ∈ behindNewlines 0 text := by
  obtain ⟨here, start, _, reached, next⟩ := exceeds
  rw [mem_behindNewlines]
  by_cases newline : (10 : UInt8) ∈ (text.drop start).take (maxLen + 1)
  · obtain ⟨j, found⟩ := List.mem_iff_getElem?.mp newline
    rw [List.getElem?_take] at found
    split at found
    next near =>
      rw [List.getElem?_drop] at found
      have before : j < maxLen := by
        refine Nat.lt_of_le_of_ne (Nat.le_of_lt_succ near) fun last => here ?_
        rw [← reached, ← last, found]
      have break_ : start + j + 1 ∈ 0 :: behindNewlines 0 text :=
        List.mem_cons_of_mem _ ((mem_behindNewlines text).mpr ⟨start + j, found, by omega, by omega⟩)
      have same : i = start + j + 1 := Nat.le_antisymm (next _ break_ (by omega)) (by omega)
      exact ⟨start + j, found, by omega, by omega⟩
    · cases found
  · -- the bytes from the start to this one are all in one line
    obtain ⟨line, among, long⟩ := run_in_line (text.take start) _ ((text.drop start).drop (maxLen + 1)) newline
    rw [List.take_append_drop, List.take_append_drop] at among
    have := short line among
    rw [List.length_take, List.length_drop] at long
    omega

/-- Texts whose lines are short are wrapped as they should be. -/
theorem wrapped_short (short : ∀ line ∈ text.splitOn 10, line.length ≤ maxLen) :
    Wrapped text maxLen (0 :: behindNewlines 0 text) := by
  refine ⟨rfl, behindNewlines_increasing 0 text, ?_, ?_, ?_⟩
  · intro nonempty offset inside
    obtain rfl | later := List.mem_cons.mp inside
    · exact List.length_pos_iff.mpr nonempty
    · obtain ⟨j, _, more, rfl⟩ := (mem_behindNewlines text).mp later
      omega
  · intro piece inside
    exact short _ (delimited_newlines [] [] text List.not_mem_nil piece inside)
  · intro i inside
    rw [List.mem_cons]
    constructor
    · intro offset
      obtain first | later := offset
      · exact .inl first
      · obtain ⟨j, newline, _, rfl⟩ := (mem_behindNewlines text).mp later
        refine .inr (.inl ?_)
        rwa [Nat.zero_add, Nat.add_sub_cancel]
    · intro breaks
      by_cases first : i = 0
      · exact .inl first
      · obtain zero | newline | exceeds := breaks
        · exact .inl zero
        · exact .inr ((mem_behindNewlines text).mpr ⟨i - 1, newline, by omega, by omega⟩)
        · exact .inr (exceeds_newline short inside exceeds)

end Short

section Long
variable {base : Nat} {offsets : List Nat}

/-- Some byte is too much for the line it is in, and no line begins there. -/
def Missed (maxLen base index : Nat) (bytes : List UInt8) (offsets : List Nat) : Prop :=
  ∃ i < index + bytes.length, index ≤ i ∧ bytes[i - index]? ≠ some 10 ∧ i ∉ offsets ∧
    ∃ start ∈ base :: offsets, start + maxLen = i ∧ ∀ k ∈ offsets, start < k → i ≤ k

theorem getElem?_behind {i : Nat} (behind : index + 1 ≤ i) : (byte :: rest)[i - index]? = rest[i - (index + 1)]? := by
  have shifted : i - index = i - (index + 1) + 1 := by omega
  rw [shifted, List.getElem?_cons_succ]

theorem Missed.cons (missed : Missed maxLen base (index + 1) rest offsets) (byte : UInt8) :
    Missed maxLen base index (byte :: rest) offsets := by
  obtain ⟨i, within, behind, here, further⟩ := missed
  refine ⟨i, by rw [List.length_cons]; omega, by omega, ?_, further⟩
  rwa [getElem?_behind behind]

theorem Missed.newline (missed : Missed maxLen (index + 1) (index + 1) rest offsets) (positive : 1 ≤ maxLen)
    (later : ∀ k ∈ offsets, index + 1 < k) (base : Nat) :
    Missed maxLen base index (10 :: rest) ((index + 1) :: offsets) := by
  obtain ⟨i, within, behind, here, skipped, start, among, away, next⟩ := missed
  have began : index + 1 ≤ start := by
    obtain rfl | inside := List.mem_cons.mp among
    · exact Nat.le_refl _
    · exact Nat.le_of_lt (later start inside)
  refine ⟨i, by rw [List.length_cons]; omega, by omega, ?_, ?_, start, List.mem_cons_of_mem _ among, away, ?_⟩
  · rwa [getElem?_behind behind]
  · rw [List.mem_cons, not_or]
    exact ⟨by omega, skipped⟩
  · intro k inside after
    obtain rfl | inside := List.mem_cons.mp inside
    · omega
    · exact next k inside after

/-- In a line that is too long, the first byte that is too much is no offset. -/
theorem pushes_long (line : List UInt8) (base : Nat) (bytes : List UInt8) (positive : 1 ≤ maxLen) (whole : 10 ∉ line)
    (room : line.length ≤ maxLen) (reached : base + line.length = index)
    (long : ∃ piece ∈ (line ++ bytes).splitOn 10, maxLen < piece.length) :
    Missed maxLen base index bytes (pushes maxLen line.length index bytes) := by
  induction bytes generalizing line index base with
  | nil =>
    obtain ⟨piece, inside, long⟩ := long
    rw [List.append_nil, List.splitOn_eq_singleton whole, List.mem_singleton] at inside
    rw [inside] at long
    omega
  | cons byte rest ih =>
    by_cases newline : byte = 10
    · subst newline
      rw [splitOn_newline whole] at long
      obtain ⟨piece, inside, long⟩ := long
      obtain rfl | inside := List.mem_cons.mp inside
      · omega
      · have more : rest ≠ [] := by
          rintro rfl
          rw [List.mem_singleton.mp inside] at long
          exact absurd long (Nat.not_lt_zero _)
        have shape : pushes maxLen line.length index (10 :: rest) = (index + 1) :: pushes maxLen 0 (index + 1) rest := by
          simp [pushes, more]
        have missed := @ih (index + 1) [] (index + 1) List.not_mem_nil (Nat.zero_le _) rfl ⟨piece, inside, long⟩
        rw [shape]
        exact missed.newline positive (pushes_behind _ _ _ rest) base
    · by_cases full : line.length = maxLen
      · have behind := pushes_behind maxLen line.length index (byte :: rest)
        refine ⟨index, ?_, Nat.le_refl _, ?_, fun inside => Nat.lt_irrefl _ (behind index inside), base,
          List.mem_cons_self, by omega, fun k inside _ => Nat.le_of_lt (behind k inside)⟩
        · rw [List.length_cons]
          omega
        · rw [Nat.sub_self, List.getElem?_cons_zero]
          exact fun same => newline (Option.some.inj same)
      · have free : ¬ (byte = 10 ∨ line.length = maxLen) := not_or.mpr ⟨newline, full⟩
        have joined : line ++ byte :: rest = (line ++ [byte]) ++ rest := by simp
        have longer : (line ++ [byte]).length = line.length + 1 := List.length_append
        have shape : pushes maxLen line.length index (byte :: rest) =
            pushes maxLen (line.length + 1) (index + 1) rest := by
          rw [pushes, if_neg free]
        rw [joined] at long
        have missed := @ih (index + 1) (line ++ [byte]) base (by simp [whole, Ne.symm newline]) (by omega) (by omega) long
        rw [longer] at missed
        rw [shape]
        exact missed.cons byte

theorem not_wrapped_long (positive : 1 ≤ maxLen) (long : ∃ line ∈ text.splitOn 10, maxLen < line.length) :
    ¬ Wrapped text maxLen (0 :: pushes maxLen 0 0 text) := by
  intro wrapped
  have reached : 0 + ([] : List UInt8).length = 0 := rfl
  obtain ⟨i, within, _, here, skipped, start, among, away, next⟩ :=
    pushes_long [] 0 text positive List.not_mem_nil (Nat.zero_le _) reached long
  have within : i < text.length := by rwa [Nat.zero_add] at within
  have exceeds : Exceeds text maxLen (0 :: pushes maxLen 0 0 text) i := by
    refine ⟨here, start, among, away, fun k inside after => ?_⟩
    obtain rfl | later := List.mem_cons.mp inside
    · exact absurd after (Nat.not_lt_zero _)
    · exact next k later after
  obtain first | later := List.mem_cons.mp ((wrapped.breaks i within).mpr (.inr (.inr exceeds)))
  · omega
  · exact skipped later

end Long

/-- A text is wrapped as it should be exactly if none of its lines has to be. -/
theorem wraps_iff (text : CStr) (positive : 1 ≤ maxLen) :
    (∃ offsets, stringWrappedLines (some text) maxLen = .ok (some (offsets.map some)) ∧
      Wrapped text.bytes maxLen offsets) ↔ ∀ line ∈ text.bytes.splitOn 10, line.length ≤ maxLen := by
  have returned := stringWrappedLines_pushes text positive
  constructor
  · intro wraps
    obtain ⟨offsets, same, wrapped⟩ := wraps
    rw [returned] at same
    injection same with same
    injection same with same
    rw [← List.map_injective_iff.mpr (fun _ _ => Option.some.inj) same] at wrapped
    by_contra long
    push Not at long
    exact not_wrapped_long positive long wrapped
  · intro short
    refine ⟨_, returned, ?_⟩
    have same := pushes_short [] 0 text.bytes List.not_mem_nil short
    rw [List.length_nil] at same
    rw [same]
    exact wrapped_short short

theorem wraps_two_lines : ∃ offsets, stringWrappedLines (some (CStr.lit "ab\ncd")) 2 =
    .ok (some (offsets.map some)) ∧ Wrapped (CStr.lit "ab\ncd").bytes 2 offsets := by
  refine (wraps_iff (CStr.lit "ab\ncd") (by decide)).mpr ?_
  decide

/-- The line that has to be wrapped gets a byte too many. -/
theorem wraps_too_late : ¬ ∃ offsets, stringWrappedLines (some (CStr.lit "abcdef")) 3 =
    .ok (some (offsets.map some)) ∧ Wrapped (CStr.lit "abcdef").bytes 3 offsets := by
  intro wraps
  obtain ⟨offsets, same, wrapped⟩ := wraps
  have returned : stringWrappedLines (some (CStr.lit "abcdef")) 3 = .ok (some ([0, 4].map some)) := rfl
  rw [returned] at same
  injection same with same
  injection same with same
  rw [← List.map_injective_iff.mpr (fun _ _ => Option.some.inj) same] at wrapped
  exact absurd (wrapped.short (CStr.lit "abcd").bytes List.mem_cons_self) (by decide)

end Ltf.Proofs.WrappedLines
