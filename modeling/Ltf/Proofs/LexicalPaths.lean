import Ltf.Base.Paths
import Ltf.Util

/-! The absolute path that `make_path_abs_lexical` makes of any path, on the two buffers
it works with. -/

namespace Ltf.Proofs.LexicalPaths
open CString Paths Steps Ltf.Util

/-- A string that ends inside a part of the buffer. -/
def Held (buffer : List UInt8) (q : Nat) (text : List UInt8) : Prop :=
  (0 : UInt8) ∉ text ∧ ∃ before after, buffer = before ++ (text ++ 0 :: after) ∧ before.length = q

/-- The segments that are kept are what the first slots point to. -/
structure Stored (s : Lexing) (buffer : List UInt8) (kept : List (List UInt8)) : Prop where
  count : s.sp = kept.length
  slots : ∀ (i : Nat) text, kept[i]? = some text → ∃ q, s.segs[i]? = some (some q) ∧ Held buffer q text

/-- In front of `rest`: the strings end in what is behind, unless nothing is in front any more. -/
structure Reading (text : List UInt8) (s : Lexing) (kept : List (List UInt8)) (filled rest : List UInt8) : Prop where
  running : s.complete = false
  tmp : s.tmp = filled ++ (rest ++ [0])
  p : s.p = filled.length
  clean : (0 : UInt8) ∉ rest
  fold : (strtok rest 47).foldl climb kept = resolve text
  room : kept.length + (strtok rest 47).length ≤ s.segs.length
  stored : Stored s (if rest = [] then s.tmp else filled) kept

inductive Lexed (text : List UInt8) (s : Lexing) : Prop where
  | reading {kept : List (List UInt8)} {filled rest : List UInt8} (part : Reading text s kept filled rest)
  | finished (complete : s.complete = true) (stored : Stored s s.tmp (resolve text))

variable {text filled rest segment more : List UInt8} {s : Lexing} {kept : List (List UInt8)}

section Buffer

theorem Held.longer {buffer : List UInt8} {q : Nat} (held : Held buffer q segment) (more : List UInt8) :
    Held (buffer ++ more) q segment := by
  obtain ⟨clean, before, after, rfl, place⟩ := held
  exact ⟨clean, before, after ++ more, by simp, place⟩

theorem Held.string {buffer : List UInt8} {q : Nat} (held : Held buffer q segment) : strAt buffer q = some segment := by
  obtain ⟨clean, before, after, rfl, rfl⟩ := held
  exact strAt_middle clean

theorem Stored.longer {buffer : List UInt8} (stored : Stored s buffer kept) (more : List UInt8) :
    Stored s (buffer ++ more) kept := by
  refine ⟨stored.count, ?_⟩
  intro i text found
  obtain ⟨q, slot, held⟩ := stored.slots i text found
  exact ⟨q, slot, held.longer more⟩

/-- Nothing is lost if the buffer ends right behind `rest`. -/
theorem Reading.whole (part : Reading text s kept filled rest) : Stored s s.tmp kept := by
  have stored := part.stored
  split at stored
  next => exact stored
  next =>
    rw [part.tmp]
    exact stored.longer _

end Buffer

section Round

/-- What a round does with the end of a segment, which then ends inside the buffer. -/
theorem cut_segment (before segment rest : List UInt8) (ends : rest = [] ∨ ∃ more, rest = 47 :: more)
    (clean : (0 : UInt8) ∉ segment ++ rest) :
    ∃ tmp filled left after, cut (before ++ (segment ++ (rest ++ [0]))) (before ++ segment).length =
        .ok (tmp, filled.length) ∧ tmp = filled ++ (left ++ [0]) ∧ (0 : UInt8) ∉ left ∧ strtok left 47 = strtok rest 47 ∧
      (before ++ segment).length ≤ filled.length ∧
      tmp.length = (before ++ (segment ++ (rest ++ [0]))).length ∧
      (if left = [] then tmp else filled) = before ++ (segment ++ 0 :: after) := by
  obtain rfl | ⟨more, rfl⟩ := ends
  · refine ⟨before ++ (segment ++ [0]), before ++ segment, [], [], ?_, by simp, by simp, rfl, Nat.le_refl _, by simp,
      by simp⟩
    have stop := byte_behind (before ++ segment) [] 0
    rw [List.append_assoc] at stop
    simp only [cut, List.nil_append, stop, checked, bind_of_ok rfl, if_true]
    rfl
  · have stop := byte_behind (before ++ segment) (more ++ [0]) 47
    have written : Blocks.write (before ++ segment ++ ([47] ++ (more ++ [0]))) (before ++ segment).length [0] =
        some (before ++ segment ++ ([0] ++ (more ++ [0]))) := Blocks.write_middle rfl
    rw [List.append_assoc] at stop
    simp only [List.append_assoc, List.singleton_append] at written
    refine ⟨before ++ (segment ++ 0 :: (more ++ [0])), before ++ (segment ++ [0]), more, ?_⟩
    have left : (0 : UInt8) ∉ more := fun inside => clean (by simp [inside])
    refine ⟨if more = [] then [0] else [], ?_, by simp, left, (strtok_slash more).symm, by simp, by simp, ?_⟩
    · simp only [cut, List.cons_append, stop, checked, bind_of_ok rfl, written]
      simp [pure, Except.pure, Nat.add_assoc]
    · split <;> simp_all

/-- The fields that keeping a segment leaves alone. -/
structure SamePlace (s after : Lexing) : Prop where
  tmp : after.tmp = s.tmp
  p : after.p = s.p
  complete : after.complete = s.complete
  segs : after.segs.length = s.segs.length

theorem keep_segment {buffer : List UInt8} {q : Nat} (stored : Stored s buffer kept) (room : kept.length < s.segs.length)
    (held : Held buffer q segment) (found : strAt s.tmp q = some segment) (nonempty : segment ≠ []) :
    ∃ after, keepSegment s q = .ok after ∧ SamePlace s after ∧ Stored after buffer (climb kept segment) := by
  have count := stored.count
  simp only [keepSegment, found, checked, bind_of_ok rfl, nonempty, or_false, climb]
  by_cases here : segment = [46]
  · simp only [here, if_true]
    exact ⟨s, rfl, ⟨rfl, rfl, rfl, rfl⟩, stored⟩
  by_cases up : segment = [46, 46]
  · subst up
    simp only [here, if_true, if_false]
    have last : (if s.sp > 0 then { s with sp := s.sp - 1 } else s) = { s with sp := s.sp - 1 } := by
      split
      · rfl
      next none =>
        have zero : s.sp - 1 = s.sp := by omega
        rw [zero]
    refine ⟨{ s with sp := s.sp - 1 }, by rw [last]; rfl, ⟨rfl, rfl, rfl, rfl⟩, ?_, ?_⟩
    · simp [count]
    · intro i text inside
      apply stored.slots i text
      rw [List.getElem?_dropLast] at inside
      split at inside
      · exact inside
      · cases inside
  · simp only [here, up, if_false, count, Blocks.write_one room, bind_of_ok rfl]
    refine ⟨_, rfl, ⟨rfl, rfl, rfl, by simp⟩, by simp, ?_⟩
    intro i text inside
    by_cases new : i = kept.length
    · subst new
      obtain rfl : segment = text := by simpa using inside
      exact ⟨q, by simp [room], held⟩
    · have before : i < kept.length := by
        have bound := (List.getElem?_eq_some_iff.mp inside).1
        simp only [List.length_append, List.length_singleton] at bound
        omega
      rw [List.getElem?_append_left before] at inside
      obtain ⟨q', slot, held'⟩ := stored.slots i text inside
      exact ⟨q', by simp [Ne.symm new, slot], held'⟩

/-- Only slashes are left. -/
theorem round_ends (part : Reading text s kept filled rest) (only : ∀ byte ∈ rest, byte = 47) :
    ∃ after, lexRound s = .ok after ∧ Lexed text after ∧ after.complete = true ∧ after.segs.length = s.segs.length := by
  have all : kept = resolve text := by
    simpa [strtok_only only] using part.fold
  have stored := all ▸ part.whole
  have ended := @scan_slashes rest filled only
  rw [← part.tmp, ← part.p] at ended
  by_cases empty : rest = []
  · subst empty
    have stop : s.tmp[s.p]? = some 0 := by simpa [part.p] using ended.2
    simp only [lexRound, part.running, stop, checked, bind_of_ok rfl, if_true, Bool.false_eq_true, if_false]
    exact ⟨_, rfl, .finished rfl ⟨stored.count, stored.slots⟩, rfl, rfl⟩
  · obtain ⟨byte, more, rfl⟩ := List.exists_cons_of_ne_nil empty
    obtain rfl := only byte List.mem_cons_self
    have here : s.tmp[s.p]? = some 47 := by rw [part.tmp, part.p]; exact byte_behind filled _ 47
    have different : (47 : UInt8) ≠ 0 := by decide
    simp only [lexRound, part.running, here, ended.1, ended.2, checked, bind_of_ok rfl, if_true, different, if_false,
      Bool.false_eq_true]
    exact ⟨_, rfl, .finished rfl ⟨stored.count, stored.slots⟩, rfl, rfl⟩

/-- There is a segment left. -/
theorem round_continues {slashes : List UInt8} (part : Reading text s kept filled (slashes ++ (segment ++ rest)))
    (only : ∀ byte ∈ slashes, byte = 47) (nonempty : segment ≠ []) (whole : (47 : UInt8) ∉ segment)
    (ends : rest = [] ∨ ∃ more, rest = 47 :: more) :
    ∃ after, lexRound s = .ok after ∧ Lexed text after ∧ after.tmp.length = s.tmp.length ∧ s.p < after.p ∧
      after.segs.length = s.segs.length := by
  have clean := part.clean
  have inner : (0 : UInt8) ∉ segment ++ rest := fun inside => clean (List.mem_append_right _ inside)
  have tokens := strtok_next only nonempty whole ends
  have at_segment := @scan_segment segment rest slashes filled only nonempty whole ends clean
  rw [← part.tmp, ← part.p] at at_segment
  obtain ⟨⟨byte, here, more⟩, start, ⟨first, found, begins⟩, stop⟩ := at_segment
  obtain ⟨tmp, filled', left, behind, cuts, shape, clean', same, further, length, closed⟩ :=
    cut_segment (filled ++ slashes) segment rest ends inner
  have around : filled ++ slashes ++ (segment ++ (rest ++ [0])) = s.tmp := by
    rw [part.tmp]
    simp
  rw [around] at cuts length
  let middle : Lexing := { tmp, segs := s.segs, p := filled'.length, sp := s.sp }
  have stored : Stored middle (if left = [] then tmp else filled') kept := by
    have before := part.stored
    rw [if_neg (by simp [nonempty])] at before
    rw [closed, List.append_assoc]
    have longer := before.longer (slashes ++ (segment ++ 0 :: behind))
    exact ⟨longer.count, longer.slots⟩
  have held : Held (if left = [] then tmp else filled') (filled ++ slashes).length segment :=
    ⟨fun inside => inner (List.mem_append_left _ inside), _, behind, closed, rfl⟩
  have string : strAt tmp (filled ++ slashes).length = some segment := by
    by_cases last : left = []
    · rw [if_pos last] at held
      exact held.string
    · rw [if_neg last] at held
      rw [shape]
      exact (held.longer _).string
  have room := part.room
  rw [tokens, List.length_cons] at room
  have free : kept.length < s.segs.length := by omega
  obtain ⟨after, keeps, place, stored⟩ := keep_segment stored free held string nonempty
  have reading : Reading text after (climb kept segment) filled' left := by
    refine ⟨place.complete, place.tmp.trans shape, place.p, clean', ?_, ?_, ?_⟩
    · rw [same, ← part.fold, tokens, List.foldl_cons]
    · have grows := length_climb kept segment
      rw [same, place.segs]
      show _ ≤ s.segs.length
      omega
    · rw [place.tmp]
      exact stored
  refine ⟨after, ?_, .reading reading, ?_, ?_, place.segs⟩
  · simp only [lexRound, part.running, here, more, start, found, begins, stop, checked, bind_of_ok rfl, if_false,
      Bool.false_eq_true, cuts]
    exact keeps
  · rw [place.tmp]
    exact length
  · rw [place.p, part.p]
    have segments := List.length_pos_iff.mpr nonempty
    simp only [List.length_append] at further
    show filled.length < filled'.length
    omega

theorem lexRound_lexed (lexed : Lexed text s) : ∃ after, lexRound s = .ok after ∧ Lexed text after ∧
    after.segs.length = s.segs.length ∧ (s.complete = false → after.complete = true ∨
      after.tmp.length = s.tmp.length ∧ s.p < after.p ∧ s.p + 1 < s.tmp.length) := by
  cases lexed with
  | finished complete stored =>
    refine ⟨s, ?_, .finished complete stored, rfl, fun running => nomatch complete.symm.trans running⟩
    simp only [lexRound, complete, if_true]
    rfl
  | @reading kept filled rest part =>
    obtain only | ⟨slashes, segment, more, rfl, only, nonempty, whole, ends⟩ := next_segment rest
    · obtain ⟨after, ran, lexed, complete, same⟩ := round_ends part only
      exact ⟨after, ran, lexed, same, fun _ => .inl complete⟩
    · obtain ⟨after, ran, lexed, length, further, same⟩ := round_continues part only nonempty whole ends
      refine ⟨after, ran, lexed, same, fun _ => .inr ⟨length, further, ?_⟩⟩
      have some := List.length_pos_iff.mpr nonempty
      simp only [part.tmp, part.p, List.length_append, List.length_singleton]
      omega

end Round

section Whole

/-- Before the first round. -/
theorem lexed_start (text : List UInt8) (clean : (0 : UInt8) ∉ text) :
    Lexed text { tmp := text ++ [0], segs := List.replicate (countSegs (text ++ [0])) none } := by
  have counted : countSegs (text ++ [0]) = 1 + text.count 47 := by
    rw [countSegs, takeWhile_text clean]
  refine .reading (⟨rfl, rfl, rfl, clean, rfl, ?_, rfl, ?_⟩ : Reading text _ [] [] text)
  · have tokens := length_strtok text
    rw [List.length_replicate, counted]
    show 0 + _ ≤ _
    omega
  · intro i text inside
    simp at inside

/-- The rounds end, with the segments that are kept of the whole text. -/
theorem lexSegments_stored {text : List UInt8} (clean : (0 : UInt8) ∉ text) :
    ∃ s, lexSegments (text ++ [0]) = .ok s ∧ Stored s s.tmp (resolve text) := by
  have turn : ∀ s, Lexed text s → ¬ s.complete = true → ∃ after, lexRound s = .ok after ∧ Lexed text after ∧
      (after.complete = true ∨ after.tmp.length - after.p - 1 < s.tmp.length - s.p - 1) := by
    intro s lexed running
    obtain ⟨after, ran, lexed, -, progress⟩ := lexRound_lexed lexed
    refine ⟨after, ran, lexed, ?_⟩
    obtain complete | ⟨length, further, inside⟩ := progress (Bool.eq_false_iff.mpr running)
    · exact .inl complete
    · right
      omega
  have still : ∀ s : Lexing, s.complete = true → lexRound s = .ok s := by
    intro s complete
    simp only [lexRound, complete, if_true]
    rfl
  obtain ⟨s, ran, lexed, complete⟩ :=
    rounds_over (n := (text ++ [0]).length) still turn (lexed_start text clean) (by simp)
  refine ⟨s, ?_, ?_⟩
  · rw [lexSegments, bind_of_ok ran, complete]
    rfl
  · cases lexed with
    | finished _ stored => exact stored
    | reading part => cases complete.symm.trans part.running

theorem Stored.bound {buffer : List UInt8} (stored : Stored s buffer kept) : s.sp ≤ s.segs.length := by
  by_contra more
  rw [stored.count] at more
  have last : s.segs.length < kept.length := by omega
  obtain ⟨q, slot, -⟩ := stored.slots s.segs.length _ (List.getElem?_eq_getElem last)
  simp at slot

/-- After any number of rounds there are no more segments than were counted. -/
theorem rounds_counted {text : List UInt8} (clean : (0 : UInt8) ∉ text) (n : Nat) :
    ∃ s, rounds lexRound n { tmp := text ++ [0], segs := List.replicate (countSegs (text ++ [0])) none } = .ok s ∧
      s.sp ≤ countSegs (text ++ [0]) := by
  have kept : ∀ s, Lexed text s ∧ s.segs.length = countSegs (text ++ [0]) → ∃ after, lexRound s = .ok after ∧
      Lexed text after ∧ after.segs.length = countSegs (text ++ [0]) := by
    rintro s ⟨lexed, counted⟩
    obtain ⟨after, ran, lexed, same, -⟩ := lexRound_lexed lexed
    exact ⟨after, ran, lexed, same.trans counted⟩
  obtain ⟨s, ran, lexed, counted⟩ := rounds_always kept ⟨lexed_start text clean, List.length_replicate⟩ n
  refine ⟨s, ran, counted ▸ ?_⟩
  cases lexed with
  | finished _ stored => exact stored.bound
  | reading part => exact part.stored.bound

end Whole

section Rebuild

/-- What is written before the segment of an index: a slash behind each of those that have one. -/
def written (kept : List (List UInt8)) (i : Nat) : List UInt8 :=
  if i < kept.length then 47 :: (kept.take i).flatMap (· ++ [47]) else render kept

theorem length_written (kept : List (List UInt8)) (i : Nat) : (written kept i).length ≤ (render kept).length := by
  unfold written
  split
  next inside =>
    have parts := weight_append (kept.take i) (kept.drop i)
    rw [List.take_append_drop, List.drop_eq_getElem_cons inside, weight_cons] at parts
    rw [List.length_cons, length_flatMap, length_render]
    omega
  next => exact Nat.le_refl _

theorem written_next {i : Nat} (inside : i < kept.length) :
    written kept (i + 1) = written kept i ++ (kept[i] ++ if i + 1 < kept.length then [47] else []) := by
  have before : written kept i = 47 :: (kept.take i).flatMap (· ++ [47]) := if_pos inside
  have taken : kept.take (i + 1) = kept.take i ++ [kept[i]] := List.take_succ_eq_append_getElem inside
  rw [before, written]
  split
  next more =>
    rw [taken, List.flatMap_append]
    simp
  next last =>
    have whole : kept = kept.take i ++ [kept[i]] := by
      rw [← taken, List.take_of_length_le (by omega)]
    conv_lhs => rw [whole]
    rw [render_concat]
    simp

theorem rebuild_round {raw : List UInt8} {i : Nat} (stored : Stored s s.tmp kept) (inside : i < kept.length)
    (begins : written kept i <+: raw) (room : (render kept).length ≤ raw.length) :
    ∃ after, rebuildRound s (raw, (written kept i).length) i = .ok (after, (written kept (i + 1)).length) ∧
      written kept (i + 1) <+: after ∧ after.length = raw.length := by
  obtain ⟨q, slot, held⟩ := stored.slots i kept[i] (List.getElem?_eq_getElem inside)
  have read : readSlot s.segs i = .ok q := by
    simp only [readSlot, slot, checked, bind_of_ok rfl]
    rfl
  have next := written_next inside
  have fits := Nat.le_trans (length_written kept (i + 1)) room
  rw [next, List.length_append, List.length_append] at fits
  obtain ⟨middle, copied, same, begins⟩ := Blocks.write_behind begins kept[i] (by omega)
  simp only [rebuildRound, read, held.string, checked, copied, bind_of_ok rfl, stored.count]
  by_cases more : i + 1 < kept.length
  · rw [if_pos more] at next fits
    obtain ⟨after, slash, same', begins⟩ := Blocks.write_behind begins [47] (by
      rw [List.length_append, same]
      omega)
    rw [List.length_append] at slash
    simp only [more, if_true, slash, bind_of_ok rfl]
    refine ⟨after, ?_, ?_, same'.trans same⟩
    · rw [next, List.length_append, List.length_append]
      rfl
    · rw [next, ← List.append_assoc]
      exact begins
  · rw [if_neg more, List.append_nil] at next
    simp only [more, if_false]
    refine ⟨middle, ?_, ?_, same⟩
    · rw [next, List.length_append]
      rfl
    · rw [next]
      exact begins

/-- The rebuilt path ends inside the block of the path that was joined. -/
theorem rebuild_render {raw : List UInt8} (stored : Stored s s.tmp kept) (room : (render kept).length < raw.length) :
    ∃ after, rebuild s raw = .ok (after, (render kept).length) ∧ render kept ++ [0] <+: after := by
  obtain ⟨first, opens, same, begins⟩ := Blocks.write_behind (List.nil_prefix (l := raw)) [47] (by
    rw [List.length_singleton]
    exact Nat.lt_of_le_of_lt (Nat.zero_le _) room)
  have loop (i : Nat) (inside : i ≤ kept.length) : ∃ after,
      (List.range i).foldlM (rebuildRound s) (first, 1) = .ok (after, (written kept i).length) ∧
        written kept i <+: after ∧ after.length = raw.length := by
    induction i with
    | zero =>
      have root : written kept 0 = [47] := by
        unfold written
        split
        · rfl
        next none =>
          rw [List.eq_nil_of_length_eq_zero (by omega : kept.length = 0)]
          rfl
      rw [root]
      exact ⟨first, rfl, begins, same⟩
    | succ i ih =>
      obtain ⟨middle, ran, begins, same⟩ := ih (by omega)
      obtain ⟨after, round, begins, same'⟩ := rebuild_round stored inside begins (by omega)
      refine ⟨after, ?_, begins, same'.trans same⟩
      rw [List.range_succ, List.foldlM_append, bind_of_ok ran, List.foldlM_cons, bind_of_ok round]
      rfl
  obtain ⟨middle, ran, begins, same⟩ := loop kept.length (Nat.le_refl _)
  have whole : written kept kept.length = render kept := if_neg (Nat.lt_irrefl _)
  rw [whole] at ran begins
  obtain ⟨after, ends, -, begins⟩ := Blocks.write_behind begins [0] (by
    rw [List.length_singleton, same]
    exact room)
  refine ⟨after, ?_, begins⟩
  rw [List.length_nil] at opens
  simp only [rebuild, opens, checked, bind_of_ok rfl, stored.count]
  rw [bind_of_ok ran]
  simp only [ends, bind_of_ok rfl]
  rfl

end Rebuild

section Path

/-- A path that is relative is one from the current directory. -/
def joined (cwd path : CStr) : List UInt8 :=
  if path.bytes.head? = some 47 then path.bytes else cwd.bytes ++ 47 :: path.bytes

structure AbsolutePath (path : List UInt8) : Prop where
  root : path.head? = some 47
  segments : path = [47] ∨ ∀ piece ∈ path.tail.splitOn 47, piece ≠ [] ∧ piece ≠ [46] ∧ piece ≠ [46, 46]
  trailing : path ≠ [47] → path.getLast? ≠ some 47

/-- At any time there are no more segments than slots for them, and no more is written than
the joined path had. -/
structure Bounded (text : List UInt8) : Prop where
  segments : ∀ n, ∃ s, s.sp ≤ countSegs (text ++ [0]) ∧
    rounds lexRound n { tmp := text ++ [0], segs := List.replicate (countSegs (text ++ [0])) none } = .ok s
  bytes : ∃ s raw w, lexSegments (text ++ [0]) = .ok s ∧ rebuild s (text ++ [0]) = .ok (raw, w) ∧ w ≤ text.length

theorem joined_root {cwd : CStr} (absolute : cwd.bytes.head? = some 47) (path : CStr) :
    ∃ rest, joined cwd path = 47 :: rest := by
  have start : (joined cwd path).head? = some 47 := by
    unfold joined
    split
    next own => exact own
    next => rw [List.head?_append, absolute, Option.some_or]
  obtain ⟨rest, same⟩ := List.head?_eq_some_iff.mp start
  exact ⟨rest, same⟩

theorem joined_clean (cwd path : CStr) : (0 : UInt8) ∉ joined cwd path := by
  unfold joined
  split
  · exact path.terminated
  · simp [cwd.terminated, path.terminated]

theorem strdup_text (clean : (0 : UInt8) ∉ text) : strdup (text ++ [0]) = text ++ [0] := by
  rw [strdup, takeWhile_text clean]

theorem rawPath_joined (cwd path : CStr) : rawPath (some cwd) path = some (joined cwd path ++ [0]) := by
  unfold rawPath joined
  split
  · rw [strdup_text path.terminated]
  · rw [Option.map_some, snprintfText, List.take_of_length_le]
    simp
    omega

theorem render_absolute {names : List (List UInt8)} (all : ∀ name ∈ names, Name name) : AbsolutePath (render names) := by
  refine ⟨rfl, ?_, ?_⟩
  · by_cases none : names = []
    · exact .inl (by rw [none]; rfl)
    · right
      rw [render, List.tail_cons, List.splitOn_intercalate _ (fun name inside => (all name inside).whole) none]
      exact fun piece inside => ⟨(all piece inside).nonempty, (all piece inside).here, (all piece inside).up⟩
  · intro more last
    obtain rfl | ⟨before, name, rfl⟩ := List.eq_nil_or_concat' names
    · exact more rfl
    · have last_name := all name (by simp)
      obtain none | ⟨front, byte, rfl⟩ := List.eq_nil_or_concat' name
      · exact last_name.nonempty none
      · rw [render_concat, ← List.append_assoc, ← List.cons_append, List.getLast?_concat] at last
        exact last_name.whole (by simp [Option.some.inj last])

theorem lexed_rebuilt {rest : List UInt8} (clean : (0 : UInt8) ∉ 47 :: rest) :
    ∃ s after, lexSegments (47 :: rest ++ [0]) = .ok s ∧
      rebuild s (47 :: rest ++ [0]) = .ok (after, (lexical (47 :: rest)).length) ∧
      (CStr.ofBytes after).bytes = lexical (47 :: rest) := by
  obtain ⟨s, lexed, stored⟩ := lexSegments_stored clean
  have room : (render (resolve (47 :: rest))).length < (47 :: rest ++ [0]).length := by
    rw [List.length_append, List.length_cons, List.length_singleton]
    exact Nat.lt_succ_of_le (length_lexical rest)
  obtain ⟨after, rebuilt, spare, rfl⟩ := rebuild_render stored room
  refine ⟨s, _, lexed, rebuilt, ?_⟩
  rw [List.append_assoc]
  exact takeWhile_text (lexical_clean clean)

theorem makePath_normalize {getcwd : Option CStr} {path : CStr} {rest : List UInt8}
    (raw : rawPath getcwd path = some (47 :: rest ++ [0])) (clean : (0 : UInt8) ∉ 47 :: rest) :
    ∃ result : CStr, makePathAbsLexical getcwd path = .ok (some result) ∧ result.bytes = lexical (47 :: rest) := by
  obtain ⟨s, after, lexed, rebuilt, same⟩ := lexed_rebuilt clean
  refine ⟨.ofBytes after, ?_, same⟩
  simp only [makePathAbsLexical, raw]
  rw [strdup_text clean, bind_of_ok lexed, bind_of_ok rebuilt]
  rfl

/-- A path that is a normal form already is returned as it is. -/
theorem makePath_again {result : CStr} {path : List UInt8} (same : result.bytes = lexical path) (getcwd : Option CStr) :
    makePathAbsLexical getcwd result = .ok (some result) := by
  have root : result.bytes = 47 :: [47].intercalate (resolve path) := same
  have clean := result.terminated
  have raw : rawPath getcwd result = some (47 :: [47].intercalate (resolve path) ++ [0]) := by
    rw [rawPath, root, List.head?_cons, if_pos rfl, strdup_text (root ▸ clean)]
  obtain ⟨again, made, normal⟩ := makePath_normalize raw (root ▸ clean)
  rw [made]
  congr 2
  apply CStr.ext
  rw [normal, same]
  exact lexical_lexical path

theorem joined_bounded {cwd : CStr} (absolute : cwd.bytes.head? = some 47) (path : CStr) : Bounded (joined cwd path) := by
  have clean := joined_clean cwd path
  refine ⟨?_, ?_⟩
  · intro n
    obtain ⟨s, ran, counted⟩ := rounds_counted clean n
    exact ⟨s, counted, ran⟩
  · obtain ⟨rest, root⟩ := joined_root absolute path
    rw [root] at clean ⊢
    obtain ⟨s, after, lexed, rebuilt, -⟩ := lexed_rebuilt clean
    exact ⟨s, after, _, lexed, rebuilt, length_lexical rest⟩

end Path

/-- The fold of the segments of the joined path, within the bounds of all buffers. -/
theorem makes_absolute {cwd : CStr} (absolute : cwd.bytes.head? = some 47) (path : CStr) :
    ∃ result, makePathAbsLexical (some cwd) path = .ok (some result) ∧ AbsolutePath result.bytes ∧
      result.bytes = lexical (joined cwd path) ∧
      (∀ getcwd, makePathAbsLexical getcwd result = .ok (some result)) ∧ Bounded (joined cwd path) := by
  obtain ⟨rest, root⟩ := joined_root absolute path
  have raw := rawPath_joined cwd path
  have clean := joined_clean cwd path
  rw [root] at raw clean
  obtain ⟨result, made, same⟩ := makePath_normalize raw clean
  refine ⟨result, made, ?_, by rw [root, same], makePath_again same, joined_bounded absolute path⟩
  rw [same]
  exact render_absolute (resolve_names _)

/-- A path with each kind of segment. -/
theorem dotted_absolute :
    makePathAbsLexical (some (.lit "/home/ltf")) (.lit "..//tests/./a.lua") = .ok (some (.lit "/home/tests/a.lua")) := by
  obtain ⟨result, made, -, same, -⟩ := @makes_absolute (.lit "/home/ltf") rfl (.lit "..//tests/./a.lua")
  rw [made]
  congr 2
  exact CStr.ext same

end Ltf.Proofs.LexicalPaths
