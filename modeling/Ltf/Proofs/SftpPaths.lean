import Ltf.Proofs.LexicalPaths
import Ltf.SftpPaths

/-! The path that `normalize_abs_path_inplace` leaves in its buffer is the one that the
local `make_path_abs_lexical` builds next to its own. -/

namespace Ltf.Proofs.SftpPaths
open CString Paths Steps Ltf.Util Ltf.SftpPaths
open LexicalPaths (joined joined_clean joined_root makePath_normalize rawPath_joined render_absolute strdup_text)

/-- The buffer begins with the path of the segments that are kept, and each slot in use
has the length of the path in front of its segment. -/
structure Kept (text : List UInt8) (st : Normalizing) (kept : List (List UInt8)) : Prop where
  names : ∀ name ∈ kept, Name name
  w : st.w = (render kept).length
  behind : st.w ≤ st.r
  inside : st.r ≤ text.length
  block : st.s.length = text.length + 1
  written : render kept <+: st.s
  count : st.segStartsLen = kept.length
  starts : ∀ i < kept.length, st.segStarts[i]? = some (some (render (kept.take i)).length)
  slots : 0 < st.segStarts.length

/-- In front of `left`. Behind a segment there is room for a slash. -/
structure Reading (text : List UInt8) (st : Normalizing) (kept : List (List UInt8)) (front left : List UInt8) : Prop where
  running : st.complete = false
  input : text = front ++ left
  r : st.r = front.length
  fold : (strtok left 47).foldl climb kept = resolve text
  apart : kept = [] ∨ left = [] ∨ ∃ more, left = 47 :: more
  stored : Kept text st kept

inductive Normalized (text : List UInt8) (st : Normalizing) : Prop
  | reading {kept : List (List UInt8)} {front left : List UInt8} (part : Reading text st kept front left)
  | finished (complete : st.complete = true) (stored : Kept text st (resolve text))

variable {text front left rest segment : List UInt8} {st : Normalizing} {kept : List (List UInt8)}

section Stack

theorem Kept.starts_bound (stored : Kept text st kept) : kept.length ≤ st.segStarts.length := by
  by_contra more
  have last := stored.starts st.segStarts.length (by omega)
  simp at last

/-- Nothing that is in use gets lost, and there is one more slot. -/
theorem growStarts_room (stored : Kept text st kept) : kept.length < (growStarts st).length ∧
    ∀ i < kept.length, (growStarts st)[i]? = st.segStarts[i]? := by
  have bound := stored.starts_bound
  have slots := stored.slots
  unfold growStarts
  split
  next full =>
    rw [stored.count] at full
    refine ⟨by rw [Blocks.length_resize]; omega, ?_⟩
    intro i used
    have longer : st.segStarts <+: Blocks.resize st.segStarts (st.segStarts.length * 2) fun _ => none :=
      Blocks.prefix_resize (List.prefix_refl _) (by omega) _
    obtain ⟨more, longer⟩ := longer
    rw [← longer, List.getElem?_append_left (by omega)]
  next free =>
    rw [stored.count] at free
    exact ⟨by omega, fun i used => rfl⟩

/-- What stands in front of the next segment. -/
def opened (kept : List (List UInt8)) : List UInt8 := render kept ++ if kept = [] then [] else [47]

theorem render_opened (kept : List (List UInt8)) (segment : List UInt8) :
    render (kept ++ [segment]) = opened kept ++ segment := by
  rw [render_push, opened, List.append_assoc]

theorem length_opened (kept : List (List UInt8)) :
    (if (opened kept).length > 1 then (opened kept).length - 1 else 1) = (render kept).length := by
  obtain rfl | ⟨before, name, rfl⟩ := List.eq_nil_or_concat' kept
  · rfl
  · simp [opened, render]

theorem root_or_longer (names : ∀ name ∈ kept, Name name) : 1 < (render kept).length ↔ kept ≠ [] := by
  cases kept with
  | nil => simp [render]
  | cons first kept =>
    have some := List.length_pos_iff.mpr (names first List.mem_cons_self).nonempty
    rw [length_render, weight_cons]
    simp
    omega

theorem separate_opened (stored : Kept text st kept) (room : (opened kept).length ≤ st.s.length) :
    ∃ s, separate st = .ok (s, (opened kept).length) ∧ s.length = st.s.length ∧ opened kept <+: s := by
  unfold separate
  by_cases root : kept = []
  · subst root
    rw [if_neg (by rw [stored.w]; simp [render])]
    exact ⟨st.s, by rw [stored.w]; rfl, rfl, stored.written⟩
  · have longer := (root_or_longer stored.names).mpr root
    have shape : opened kept = render kept ++ [47] := by rw [opened, if_neg root]
    rw [shape, List.length_append] at room ⊢
    obtain ⟨s, slash, same, begins⟩ := Blocks.write_behind stored.written [47] room
    rw [← stored.w] at slash
    rw [if_pos (stored.w ▸ longer), slash, stored.w]
    exact ⟨s, rfl, same, begins⟩

theorem push_kept (stored : Kept text st kept) (name : Name segment)
    (room : (opened kept).length + segment.length ≤ st.r) :
    ∃ after, pushSegment segment st = .ok after ∧ Kept text after (kept ++ [segment]) ∧ after.r = st.r ∧
      after.complete = st.complete := by
  have inside := stored.inside
  have block := stored.block
  obtain ⟨middle, separates, same, begins⟩ := separate_opened stored (by omega)
  obtain ⟨free, old⟩ := growStarts_room stored
  obtain ⟨s, copied, same', begins'⟩ := Blocks.write_behind begins segment (by omega)
  rw [← render_opened] at begins'
  have start := length_opened kept
  simp only [pushSegment, bind_of_ok separates, start, stored.count, Blocks.write_one free, copied, checked,
    bind_of_ok rfl]
  have longer : (render (kept ++ [segment])).length = (opened kept).length + segment.length := by
    rw [render_opened, List.length_append]
  refine ⟨_, rfl, ⟨?_, longer.symm, room, inside, (same'.trans same).trans block, begins', by simp, ?_, ?_⟩, rfl, rfl⟩
  · intro other among
    obtain among | among := List.mem_append.mp among
    · exact stored.names other among
    · rwa [List.mem_singleton.mp among]
  · intro i used
    rw [List.length_append, List.length_singleton] at used
    by_cases new : i = kept.length
    · subst new
      simp [free]
    · have before : i < kept.length := by omega
      rw [List.getElem?_set_ne (Ne.symm new), old i before, stored.starts i before,
        List.take_append_of_le_length (Nat.le_of_lt before)]
  · rw [List.length_set]
    omega

theorem render_dropLast (kept : List (List UInt8)) : render kept.dropLast <+: render kept := by
  obtain rfl | ⟨before, name, rfl⟩ := List.eq_nil_or_concat' kept
  · exact List.prefix_refl _
  · rw [List.dropLast_concat, render_push]
    exact List.prefix_append _ _

theorem pop_kept (stored : Kept text st kept) :
    ∃ after, popSegment st = .ok after ∧ Kept text after kept.dropLast ∧ after.r = st.r ∧
      after.complete = st.complete := by
  have w := stored.w
  have shorter := render_dropLast kept
  have behind := Nat.le_trans (w ▸ shorter.length_le) stored.behind
  unfold popSegment
  by_cases root : kept = []
  · subst root
    rw [if_neg (by simp [stored.count])]
    exact ⟨_, rfl, { stored with w := rfl, behind }, rfl, rfl⟩
  · have some := List.length_pos_iff.mpr root
    have last : readSlot st.segStarts (kept.length - 1) = .ok (render kept.dropLast).length := by
      rw [readSlot, stored.starts _ (by omega), List.dropLast_eq_take]
      rfl
    rw [if_pos (by rw [stored.count]; exact some), stored.count, bind_of_ok last]
    refine ⟨_, rfl, { stored with
      names := fun name inside => stored.names name (List.mem_of_mem_dropLast inside)
      w := rfl
      behind
      written := shorter.trans stored.written
      count := by simp
      starts := ?_ }, rfl, rfl⟩
    intro i used
    rw [List.length_dropLast] at used
    rw [stored.starts i (by omega), List.dropLast_eq_take, List.take_take, Nat.min_eq_left (by omega)]

end Stack

section Round

/-- The state goes on behind a segment that was read. -/
theorem Kept.further {r : Nat} (stored : Kept text st kept) (more : st.r ≤ r) (inside : r ≤ text.length) :
    Kept text { st with r } kept :=
  { stored with behind := Nat.le_trans stored.behind more, inside }

theorem keep_segment (stored : Kept text st kept) (nonempty : segment ≠ []) (whole : (47 : UInt8) ∉ segment)
    (room : (opened kept).length + segment.length ≤ st.r) :
    ∃ after, (if segment = [46] then .ok st else if segment = [46, 46] then popSegment st else pushSegment segment st) =
        .ok after ∧ Kept text after (climb kept segment) ∧ after.r = st.r ∧ after.complete = st.complete := by
  unfold climb
  split
  next => exact ⟨st, rfl, stored, rfl, rfl⟩
  next here =>
    split
    next => exact pop_kept stored
    next up => exact push_kept stored ⟨nonempty, whole, here, up⟩ room

/-- Only slashes are left. -/
theorem round_ends (part : Reading text st kept front left) (only : ∀ byte ∈ left, byte = 47) :
    ∃ after, normalizeRound (text ++ [0]) st = .ok after ∧ Normalized text after ∧ after.complete = true := by
  have all : kept = resolve text := by
    simpa [strtok_only only] using part.fold
  have stored := all ▸ part.stored
  have ended := @scan_slashes left front only
  have input : text ++ [0] = front ++ (left ++ [0]) := by rw [part.input, List.append_assoc]
  rw [← input, ← part.r, ← part.input] at ended
  by_cases empty : left = []
  · subst empty
    have stop : (text ++ [0])[st.r]? = some 0 := by simp [part.r, part.input]
    simp only [normalizeRound, part.running, stop, checked, bind_of_ok rfl, if_true, Bool.false_eq_true, if_false]
    exact ⟨_, rfl, .finished rfl { stored with }, rfl⟩
  · obtain ⟨byte, more, rfl⟩ := List.exists_cons_of_ne_nil empty
    obtain rfl := only byte List.mem_cons_self
    have here : (text ++ [0])[st.r]? = some 47 := by rw [input, part.r]; exact byte_behind front _ 47
    have different : (47 : UInt8) ≠ 0 := by decide
    simp only [normalizeRound, part.running, here, ended.1, ended.2, checked, bind_of_ok rfl, if_true, different,
      if_false, Bool.false_eq_true]
    refine ⟨_, rfl, .finished rfl { stored.further (r := text.length) part.stored.inside (Nat.le_refl _) with }, rfl⟩

/-- There is a segment left. -/
theorem round_continues {slashes : List UInt8} (clean : (0 : UInt8) ∉ text)
    (part : Reading text st kept front (slashes ++ (segment ++ rest))) (only : ∀ byte ∈ slashes, byte = 47)
    (nonempty : segment ≠ []) (whole : (47 : UInt8) ∉ segment) (ends : rest = [] ∨ ∃ more, rest = 47 :: more) :
    ∃ after, normalizeRound (text ++ [0]) st = .ok after ∧ Normalized text after ∧ st.r < after.r ∧
      after.r ≤ text.length := by
  have input : text ++ [0] = front ++ (slashes ++ (segment ++ rest) ++ [0]) := by rw [part.input, List.append_assoc]
  have tokens := strtok_next only nonempty whole ends
  have at_segment := @scan_segment segment rest slashes front only nonempty whole ends
    fun zero => clean (part.input ▸ List.mem_append_right front zero)
  rw [← input, ← part.r] at at_segment
  obtain ⟨⟨byte, here, more⟩, start, ⟨first, found, begins⟩, stop⟩ := at_segment
  have segments := List.length_pos_iff.mpr nonempty
  have copied := Blocks.read_middle (front ++ slashes) segment (rest ++ [0])
  have shape : text ++ [0] = front ++ slashes ++ (segment ++ (rest ++ [0])) := by
    rw [input]
    simp
  have total : text.length = front.length + (slashes.length + (segment.length + rest.length)) := by
    rw [part.input]
    simp
  have taken : (front ++ slashes ++ segment).length - (front ++ slashes).length = segment.length := by
    rw [List.length_append, Nat.add_sub_cancel_left]
  have place : (front ++ slashes ++ segment).length = front.length + slashes.length + segment.length := by
    rw [List.length_append, List.length_append]
  have r := part.r
  rw [← shape, ← taken] at copied
  have stored := part.stored.further (r := (front ++ slashes ++ segment).length) (by omega) (by omega)
  -- Behind the root there is no slash in front of the segment, else one was read.
  have room : (opened kept).length + segment.length ≤ (front ++ slashes ++ segment).length := by
    have behind := part.stored.behind
    rw [part.stored.w] at behind
    rw [opened, List.length_append]
    split
    next => simp; omega
    next deeper =>
      have slash : slashes ≠ [] := by
        rintro rfl
        obtain ⟨first, others, rfl⟩ := List.exists_cons_of_ne_nil nonempty
        obtain root | none | ⟨more, next⟩ := part.apart
        · exact deeper root
        · cases none
        · exact whole (by simp [(List.cons.inj next).1])
      have some := List.length_pos_iff.mpr slash
      simp
      omega
  obtain ⟨after, keeps, stored, same, complete⟩ := keep_segment stored nonempty whole room
  have reading : Reading text after (climb kept segment) (front ++ slashes ++ segment) rest := by
    refine ⟨complete.trans part.running, by rw [part.input]; simp, same, ?_, .inr ends, stored⟩
    rw [← part.fold, tokens, List.foldl_cons]
  refine ⟨after, ?_, .reading reading, ?_, ?_⟩
  · simp only [normalizeRound, part.running, here, more, start, found, begins, stop, copied, checked, bind_of_ok rfl,
      if_false, Bool.false_eq_true]
    rw [part.running] at keeps
    exact keeps
  · rw [same]
    show _ < (front ++ slashes ++ segment).length
    omega
  · exact stored.inside

end Round

section Whole

theorem terminate_render (stored : Kept text st kept) :
    ∃ out, terminate st = .ok out ∧ out.length = text.length + 1 ∧ render kept ++ [0] <+: out := by
  have inside := Nat.le_trans stored.behind stored.inside
  have block := stored.block
  have root : st.w ≠ 0 := by
    rw [stored.w]
    exact Nat.succ_ne_zero _
  obtain ⟨out, ends, same, begins⟩ := Blocks.write_behind stored.written [0] (by
    rw [← stored.w, block]
    exact Nat.succ_le_succ inside)
  rw [← stored.w] at ends
  refine ⟨out, ?_, same.trans block, begins⟩
  have written : checked (Blocks.write st.s st.w [0]) = .ok out := congrArg checked ends
  rw [terminate, if_neg root]
  refine (bind_of_ok written).trans ?_
  split
  next longer =>
    obtain ⟨spare, rfl⟩ := begins
    have last : (render kept ++ [0] ++ spare)[st.w - 1]? = (render kept).getLast? := by
      rw [stored.w] at longer ⊢
      rw [List.append_assoc, List.getElem?_append_left (by omega), List.getLast?_eq_getElem?]
    cases found : (render kept).getLast? with
    | none => cases List.getLast?_eq_none_iff.mp found
    | some byte =>
      have other : byte ≠ 47 := by
        rintro rfl
        apply (render_absolute stored.names).trailing _ found
        intro single
        rw [stored.w, single] at longer
        exact absurd longer (Nat.lt_irrefl 1)
      rw [last, found]
      exact if_neg other
  next => rfl

theorem normalized_start (rest : List UInt8) :
    Normalized (47 :: rest) { s := 47 :: rest ++ [0], segStarts := List.replicate 64 none } := by
  have stored : Kept (47 :: rest) { s := 47 :: rest ++ [0], segStarts := List.replicate 64 none } [] :=
    { names := fun name inside => absurd inside List.not_mem_nil
      w := rfl
      behind := Nat.le_refl 1
      inside := by simp
      block := by simp
      written := ⟨rest ++ [0], rfl⟩
      count := rfl
      starts := fun i used => absurd used (Nat.not_lt_zero i)
      slots := by rw [List.length_replicate]; omega }
  have root : Reading (47 :: rest) { s := 47 :: rest ++ [0], segStarts := List.replicate 64 none } [] [47] rest :=
    ⟨rfl, rfl, rfl, by rw [resolve, strtok_slash], .inl rfl, stored⟩
  exact .reading root

theorem normalizeRound_normalized (clean : (0 : UInt8) ∉ text) (part : Normalized text st) :
    ∃ after, normalizeRound (text ++ [0]) st = .ok after ∧ Normalized text after ∧
      (st.complete = false → after.complete = true ∨ st.r < after.r ∧ after.r ≤ text.length) := by
  cases part with
  | finished complete stored =>
    refine ⟨st, ?_, .finished complete stored, fun running => nomatch complete.symm.trans running⟩
    simp only [normalizeRound, complete, if_true]
    rfl
  | @reading kept front left part =>
    obtain only | ⟨slashes, segment, more, rfl, only, nonempty, whole, ends⟩ := next_segment left
    · obtain ⟨after, ran, normalized, complete⟩ := round_ends part only
      exact ⟨after, ran, normalized, fun _ => .inl complete⟩
    · obtain ⟨after, ran, normalized, further⟩ := round_continues clean part only nonempty whole ends
      exact ⟨after, ran, normalized, fun _ => .inr further⟩

theorem rounds_behind {rest : List UInt8} (clean : (0 : UInt8) ∉ 47 :: rest) (n : Nat) :
    ∃ st, rounds (normalizeRound (47 :: rest ++ [0])) n { s := 47 :: rest ++ [0], segStarts := List.replicate 64 none } =
      .ok st ∧ st.w ≤ st.r ∧ st.r ≤ (47 :: rest).length := by
  obtain ⟨st, ran, normalized⟩ := rounds_always (fun st part => by
    obtain ⟨after, ran, normalized, -⟩ := normalizeRound_normalized clean part
    exact ⟨after, ran, normalized⟩) (normalized_start rest) n
  refine ⟨st, ran, ?_⟩
  cases normalized with
  | finished _ stored => exact ⟨stored.behind, stored.inside⟩
  | reading part => exact ⟨part.stored.behind, part.stored.inside⟩

theorem normalizeAbsPathInplace_text {rest : List UInt8} (clean : (0 : UInt8) ∉ 47 :: rest) :
    ∃ out, normalizeAbsPathInplace (47 :: rest ++ [0]) = .ok out ∧ out.length = (47 :: rest ++ [0]).length ∧
      (CStr.ofBytes out).bytes = lexical (47 :: rest) := by
  let start : Normalizing := { s := 47 :: rest ++ [0], segStarts := List.replicate 64 none }
  have turn : ∀ st, Normalized (47 :: rest) st → ¬ st.complete = true →
      ∃ after, normalizeRound (47 :: rest ++ [0]) st = .ok after ∧ Normalized (47 :: rest) after ∧
        (after.complete = true ∨ (47 :: rest).length - after.r < (47 :: rest).length - st.r) := by
    intro st part running
    obtain ⟨after, ran, normalized, progress⟩ := normalizeRound_normalized clean part
    refine ⟨after, ran, normalized, ?_⟩
    obtain complete | further := progress (Bool.eq_false_iff.mpr running)
    · exact .inl complete
    · right
      omega
  have still : ∀ st : Normalizing, st.complete = true → normalizeRound (47 :: rest ++ [0]) st = .ok st := by
    intro st complete
    simp only [normalizeRound, complete, if_true]
    rfl
  have enough : (47 :: rest).length - start.r < (47 :: rest ++ [0]).length := by
    rw [List.length_append]
    exact Nat.lt_succ_of_le (Nat.sub_le ..)
  obtain ⟨st, ran, normalized, complete⟩ := rounds_over still turn (normalized_start rest) enough
  have stored : Kept (47 :: rest) st (resolve (47 :: rest)) := by
    cases normalized with
    | finished _ stored => exact stored
    | reading part => cases complete.symm.trans part.running
  obtain ⟨out, ends, same, begins⟩ := terminate_render stored
  refine ⟨out, ?_, by rw [same]; simp, ?_⟩
  · have root : checked (47 :: rest ++ [0])[0]? = .ok 47 := rfl
    have written : checked (Blocks.write (47 :: rest ++ [0]) 0 [47]) = .ok (47 :: rest ++ [0]) := rfl
    rw [normalizeAbsPathInplace, strdup_text clean, bind_of_ok root, if_neg (fun other => other rfl)]
    rw [bind_of_ok written, bind_of_ok ran, complete]
    exact ends
  · obtain ⟨spare, rfl⟩ := begins
    rw [List.append_assoc]
    exact takeWhile_text (lexical_clean clean)

end Whole

/-- `w` never gets ahead of `r`, and both sides make the same of an absolute path. -/
theorem normalizes_as_local {path : CStr} (absolute : path.bytes.head? = some 47) (getcwd : Option CStr) :
    ∃ out, normalizeAbsPathInplace (path.bytes ++ [0]) = .ok out ∧ out.length = (path.bytes ++ [0]).length ∧
      makePathAbsLexical getcwd path = .ok (some (.ofBytes out)) ∧
      ∀ n, ∃ st, rounds (normalizeRound (path.bytes ++ [0])) n
          { s := path.bytes ++ [0], segStarts := List.replicate 64 none } = .ok st ∧
        st.w ≤ st.r ∧ st.r ≤ path.bytes.length := by
  obtain ⟨rest, root⟩ := List.head?_eq_some_iff.mp absolute
  have clean := path.terminated
  have raw : rawPath getcwd path = some (path.bytes ++ [0]) := by
    rw [rawPath, if_pos absolute, strdup_text clean]
  rw [root] at raw clean ⊢
  obtain ⟨out, ran, length, same⟩ := normalizeAbsPathInplace_text clean
  obtain ⟨result, made, normal⟩ := makePath_normalize raw clean
  obtain rfl : CStr.ofBytes out = result := CStr.ext (same.trans normal.symm)
  exact ⟨out, ran, length, made, rounds_behind clean⟩

/-- With more than one way back to the root. -/
theorem dotted_as_local :
    ∃ out, normalizeAbsPathInplace ((CStr.lit "/a/..//../b/./c").bytes ++ [0]) = .ok out ∧
      CStr.ofBytes out = .lit "/b/c" := by
  obtain ⟨out, ran, -, made, -⟩ := @normalizes_as_local (.lit "/a/..//../b/./c") rfl none
  refine ⟨out, ran, ?_⟩
  have same : makePathAbsLexical none (.lit "/a/..//../b/./c") = .ok (some (.lit "/b/c")) := by decide
  rw [same] at made
  injection made with made
  exact (Option.some.inj made).symm

section FileInfo

/-- What the server says is the current directory of the session, from the root on. -/
def workingDirectory (reported : List UInt8) : CStr :=
  if (CStr.ofBytes reported).bytes.head? = some 47 then .ofBytes reported else .ofBytes (47 :: reported)

/-- The path needs no change behind the current directory. -/
def Plain (reported : List UInt8) (path : CStr) : Prop :=
  path.bytes.head? = some 47 ∨ (∀ piece ∈ path.bytes.splitOn 47, Name piece) ∨
    path.bytes = [] ∧ resolve (workingDirectory reported).bytes = []

variable {reported : List UInt8} {path : CStr}

theorem workingDirectory_root (reported : List UInt8) : ∃ rest, (workingDirectory reported).bytes = 47 :: rest := by
  unfold workingDirectory
  split
  next absolute => exact List.head?_eq_some_iff.mp absolute
  next => exact ⟨_, rfl⟩

theorem absPath_absolute (absolute : path.bytes.head? = some 47) (realpath : Option (List UInt8)) :
    ∃ result, absPath realpath path = .ok (.ok result) ∧ result.bytes = lexical path.bytes := by
  obtain ⟨rest, root⟩ := List.head?_eq_some_iff.mp absolute
  have clean := path.terminated
  rw [absPath, if_pos absolute, strdup_text clean]
  rw [root] at clean ⊢
  obtain ⟨out, ran, -, same⟩ := normalizeAbsPathInplace_text clean
  exact ⟨.ofBytes out, bind_of_ok ran, same⟩

theorem sftpGetCwdAbs_normalize (reported : List UInt8) :
    ∃ cwd, sftpGetCwdAbs (some reported) = .ok (some cwd) ∧ cwd.bytes = lexical (workingDirectory reported).bytes := by
  have written : (if (CStr.ofBytes reported).bytes.head? ≠ some 47 then
        snprintfText ((CStr.ofBytes reported).bytes.length + 2) (47 :: (CStr.ofBytes reported).bytes)
      else strdup ((CStr.ofBytes reported).bytes ++ [0])) = (workingDirectory reported).bytes ++ [0] := by
    unfold workingDirectory
    by_cases absolute : (CStr.ofBytes reported).bytes.head? = some 47
    · rw [if_neg (fun other => other absolute), if_pos absolute, strdup_text (CStr.terminated _)]
    · rw [if_pos absolute, if_neg absolute, snprintfText, List.take_of_length_le (by simp)]
      rfl
  obtain ⟨rest, root⟩ := workingDirectory_root reported
  have clean := (workingDirectory reported).terminated
  rw [root] at clean written ⊢
  obtain ⟨out, ran, -, same⟩ := normalizeAbsPathInplace_text clean
  refine ⟨.ofBytes out, ?_, same⟩
  simp only [sftpGetCwdAbs, written]
  exact bind_of_ok ran

/-- The separator is missing only at the root. -/
theorem joinAbsLexical_opened {names : List (List UInt8)} {cwd : CStr} (all : ∀ name ∈ names, Name name)
    (same : cwd.bytes = render names) (relative : path.bytes.head? ≠ some 47) :
    ∃ result, joinAbsLexical cwd path = .ok (some result) ∧ result.bytes = opened names ++ path.bytes := by
  have root : ¬ cwd.bytes.head? ≠ some 47 := by
    rw [same]
    exact fun other => other rfl
  have slash : (if cwd.bytes.length > 1 ∧ cwd.bytes.getLast? ≠ some 47 then [47] else []) =
      if names = [] then [] else ([47] : List UInt8) := by
    rw [same]
    by_cases empty : names = []
    · rw [empty]
      rfl
    · have longer := (root_or_longer all).mpr empty
      have single : render names ≠ [47] := by
        intro single
        rw [single] at longer
        exact absurd longer (Nat.lt_irrefl 1)
      rw [if_neg empty, if_pos ⟨longer, (render_absolute all).trailing single⟩]
  have clean : (0 : UInt8) ∉ opened names ++ path.bytes := by
    have first := cwd.terminated
    rw [same] at first
    have second := path.terminated
    rw [opened]
    split <;> simp [first, second]
  refine ⟨.ofBytes (opened names ++ path.bytes ++ [0]), ?_, takeWhile_text clean⟩
  simp only [joinAbsLexical, root, relative, if_false, slash]
  rw [snprintfText, List.take_of_length_le (by simp; omega), same]
  rfl

theorem absPath_relative (relative : path.bytes.head? ≠ some 47) (reported : List UInt8) :
    ∃ result, absPath (some reported) path = .ok (.ok result) ∧
      result.bytes = opened (resolve (workingDirectory reported).bytes) ++ path.bytes := by
  obtain ⟨cwd, ran, same⟩ := sftpGetCwdAbs_normalize reported
  obtain ⟨result, joins, bytes⟩ := joinAbsLexical_opened (resolve_names _) same relative
  refine ⟨result, ?_, bytes⟩
  rw [absPath, if_neg relative, bind_of_ok ran]
  exact bind_of_ok joins

/-- A relative path that is only put behind the kept segments has to consist of names. -/
theorem opened_iff {names : List (List UInt8)} (all : ∀ name ∈ names, Name name) (path : List UInt8) :
    opened names ++ path = render ((strtok path 47).foldl climb names) ↔
      (∀ piece ∈ path.splitOn 47, Name piece) ∨ path = [] ∧ names = [] := by
  by_cases root : names = []
  · subst root
    have own := lexical_iff path
    rw [lexical, resolve, strtok_slash] at own
    show 47 :: path = _ ↔ _
    rw [eq_comm, own]
    tauto
  · have shape : opened names ++ path = 47 :: ([47].intercalate names ++ 47 :: path) := by
      rw [opened, if_neg root, render]
      simp
    have folded : lexical (47 :: ([47].intercalate names ++ 47 :: path)) =
        render ((strtok path 47).foldl climb names) := by
      rw [lexical, resolve, strtok_slash, strtok_append, List.foldl_append]
      have again := resolve_render all
      rw [resolve, render, strtok_slash] at again
      rw [again]
    have own := lexical_iff ([47].intercalate names ++ 47 :: path)
    rw [folded] at own
    have whole := fun name inside => (all name inside).whole
    rw [shape, eq_comm, own, List.splitOn_append_cons_self, List.splitOn_intercalate _ whole root,
      List.forall_mem_append]
    have full : [47].intercalate names ++ 47 :: path ≠ [] := by simp
    simp only [full, root, and_false, or_false, false_or]
    exact and_iff_right all

theorem makePath_joined (reported : List UInt8) (path : CStr) :
    ∃ result, makePathAbsLexical (some (workingDirectory reported)) path = .ok (some result) ∧
      result.bytes = lexical (joined (workingDirectory reported) path) := by
  obtain ⟨before, start⟩ := workingDirectory_root reported
  have absolute : (workingDirectory reported).bytes.head? = some 47 := by rw [start]; rfl
  obtain ⟨rest, root⟩ := joined_root absolute path
  have raw := rawPath_joined (workingDirectory reported) path
  have clean := joined_clean (workingDirectory reported) path
  rw [root] at raw clean ⊢
  exact makePath_normalize raw clean

theorem absPath_iff (reported : List UInt8) (path : CStr) :
    ∃ result, absPath (some reported) path = .ok (.ok result) ∧
      (result.bytes = lexical (joined (workingDirectory reported) path) ↔ Plain reported path) := by
  by_cases absolute : path.bytes.head? = some 47
  · obtain ⟨result, ran, same⟩ := absPath_absolute absolute (some reported)
    refine ⟨result, ran, iff_of_true ?_ (.inl absolute)⟩
    rw [same, joined, if_pos absolute]
  · obtain ⟨result, ran, same⟩ := absPath_relative absolute reported
    have folded : lexical (joined (workingDirectory reported) path) =
        render ((strtok path.bytes 47).foldl climb (resolve (workingDirectory reported).bytes)) := by
      rw [joined, if_neg absolute, lexical, resolve, strtok_append, List.foldl_append]
      rfl
    refine ⟨result, ran, ?_⟩
    rw [same, folded, opened_iff (resolve_names _), Plain]
    exact (or_iff_right absolute).symm

/-- For a file of the same kind on both sides, the two paths are the same as long as there
is nothing to be normalised in a relative one. -/
theorem file_info_iff {u : Ssh.LSftpSession} {a : Attributes} {sb : Stat} {type : CStr} {permissions : Nat}
    (session : u.sftpSession ≠ none) (given : a.permissions = some permissions)
    (known : modeToType permissions = some type) (kind : modeToType sb.mode = some type) (reported : List UInt8)
    (path : CStr) :
    ∃ remote here, lModuleSshSftpFileInfo u (.found a) (some reported) path = .ok (.ok (some remote)) ∧
      lModuleUtilFileInfo (.found sb) (some (workingDirectory reported)) path = .ok (.ok (some here)) ∧
      here.path.bytes = lexical (joined (workingDirectory reported) path) ∧
      (remote.path = here.path ↔ Plain reported path) := by
  obtain ⟨abs, remote, same⟩ := absPath_iff reported path
  obtain ⟨result, here, normal⟩ := makePath_joined reported path
  have running : ¬ u.sftpSession.isNone = true := by simpa using session
  refine ⟨⟨type, abs, (a.filesize.getD 0).toInt64.toInt, permissions⟩, ⟨type, result, sb.size, sb.mode⟩, ?_, ?_,
    normal, ?_⟩
  · simp only [lModuleSshSftpFileInfo, running, given, known]
    exact bind_of_ok remote
  · simp only [lModuleUtilFileInfo, kind]
    exact bind_of_ok here
  · rw [← same, ← normal]
    exact CStr.ext_iff

/-- A name that needs no change. -/
theorem name_agrees :
    ∃ remote here, lModuleSshSftpFileInfo { sftpSession := some 0 } (.found ⟨some 33188, some 5⟩)
        (some (CStr.lit "/home/ltf").bytes) (.lit "a.lua") = .ok (.ok (some remote)) ∧
      lModuleUtilFileInfo (.found ⟨33188, 5⟩) (some (.lit "/home/ltf")) (.lit "a.lua") = .ok (.ok (some here)) ∧
      remote.path = here.path := by
  obtain ⟨remote, here, first, second, -, same⟩ := @file_info_iff { sftpSession := some 0 } ⟨some 33188, some 5⟩
    ⟨33188, 5⟩ (.lit "file") 33188 (Option.some_ne_none 0) rfl rfl rfl (CStr.lit "/home/ltf").bytes (.lit "a.lua")
  have names : ∀ piece ∈ (CStr.lit "a.lua").bytes.splitOn 47, Name piece := by
    have single : (CStr.lit "a.lua").bytes.splitOn 47 = [(CStr.lit "a.lua").bytes] := rfl
    rw [single, List.forall_mem_singleton]
    constructor <;> decide
  exact ⟨remote, here, first, second, same.mpr (.inr (.inl names))⟩

/-- A dot that the server's side keeps. -/
theorem dot_kept :
    ∃ remote here, lModuleSshSftpFileInfo { sftpSession := some 0 } (.found ⟨some 33188, some 5⟩)
        (some (CStr.lit "/home/ltf").bytes) (.lit "./a.lua") = .ok (.ok (some remote)) ∧
      lModuleUtilFileInfo (.found ⟨33188, 5⟩) (some (.lit "/home/ltf")) (.lit "./a.lua") = .ok (.ok (some here)) ∧
      remote.path = .lit "/home/ltf/./a.lua" ∧ here.path = .lit "/home/ltf/a.lua" ∧ remote.path ≠ here.path := by
  refine ⟨_, _, rfl, rfl, ?_⟩
  decide

end FileInfo

end Ltf.Proofs.SftpPaths
