import Ltf.Base.Steps
import Ltf.LineCache

/-! The answers of the line cache over whole runs, next to the lines of the files. -/

namespace Ltf.Proofs.LineCache
open CString Ltf.LineCache Steps

/-- The text of a line, if the file has it. -/
def lineOf (files : Files) (path : CStr) (lineno : Int) : Option CStr :=
  (files path).bind fun content =>
    if 1 ≤ lineno then ((getlines content)[(lineno - 1).toNat]?).map .ofBytes else none

def texts (lines : List (List UInt8)) : List Slot := lines.map fun line => some (some (.ofBytes line))

/-- The array of all lines of a file, with `NULL` behind them. -/
def Stored (lines : List (List UInt8)) (block : List Slot) : Prop :=
  ∃ spare, block = texts lines ++ some none :: List.replicate spare none

def CacheKept (files : Files) (cache : List CachedLines) : Prop :=
  ∀ c ∈ cache, ∃ content, files c.path = some content ∧ Stored (getlines content) c.lines

/-- A query is answered by the line of the file. -/
def Answered (files : Files) (cache : List CachedLines) (query : Query) : Prop :=
  ∃ after, getLineText files cache query.path query.lineno = .ok (lineOf files query.path query.lineno, after)

/-- A first query is for a file that has lines, and not for one beyond those that an `int`
counts. Later ones are for a line of the file, or the one behind the last. -/
def Answerable (files : Files) (cache : List CachedLines) (query : Query) : Prop :=
  ∀ content, files query.path = some content →
    if cache.any (·.path = query.path) then 1 ≤ query.lineno ∧ query.lineno ≤ (getlines content).length + 1
    else content ≠ [] ∧ (1 ≤ query.lineno → query.lineno ≤ (getlines content).length →
      query.lineno ≤ toInt (getlines content).length)

variable {files : Files} {cache : List CachedLines} {lines done : List (List UInt8)} {block : List Slot} {s : Filling}

section Fill

/-- There is a block of `cap + 1` slots that begins with the lines read so far, or nothing at all. -/
structure Filled (lines : List (List UInt8)) (s : Filling) : Prop where
  n : s.n = lines.length
  room : lines.length ≤ s.cap
  block : s.lines = some (texts lines ++ List.replicate (s.cap + 1 - lines.length) none) ∨ s.cap = 0 ∧ s.lines = none

theorem setLine_next {spare : Nat} (some : 0 < spare) (text : Option CStr) :
    setLine (.some (texts lines ++ List.replicate spare none)) lines.length text =
      .ok (texts lines ++ .some text :: List.replicate (spare - 1) none) := by
  obtain ⟨spare, rfl⟩ : ∃ n, spare = n + 1 := ⟨spare - 1, by omega⟩
  have written : Blocks.write (texts lines ++ ([none] ++ List.replicate spare none)) (texts lines).length [.some text] =
      .some (texts lines ++ ([.some text] ++ List.replicate spare none)) := Blocks.write_middle rfl
  rw [texts, List.length_map] at written
  rw [setLine, List.replicate_succ]
  simp only [texts, List.singleton_append] at written ⊢
  rw [written]
  rfl

theorem resize_texts {spare cap : Nat} (room : lines.length + spare ≤ cap) :
    Blocks.resize (texts lines ++ List.replicate spare none) cap (fun _ => none) =
      texts lines ++ List.replicate (cap - lines.length) none := by
  have length : (texts lines ++ List.replicate spare none).length = lines.length + spare := by
    simp [texts]
  rw [Blocks.resize_fill, List.take_of_length_le (by omega), length, List.append_assoc, List.replicate_append_replicate]
  congr 2
  omega

theorem grow_filled (part : Filled lines s) : (grow s).n = lines.length ∧ lines.length < (grow s).cap ∧
    (grow s).lines = some (texts lines ++ List.replicate ((grow s).cap + 1 - lines.length) none) := by
  have n := part.n
  have room := part.room
  unfold grow
  split
  next full =>
    have larger : s.cap < if s.cap = 0 then 128 else s.cap * 2 := by split <;> omega
    refine ⟨n, Nat.lt_of_le_of_lt room larger, congrArg some ?_⟩
    obtain block | ⟨empty, none⟩ := part.block
    · rw [block]
      exact resize_texts (by omega)
    · obtain rfl : lines = [] := List.eq_nil_of_length_eq_zero (by omega)
      rw [none]
      exact @resize_texts [] 0 _ (Nat.zero_le _)
  next free =>
    have less : lines.length < s.cap := by omega
    refine ⟨n, less, ?_⟩
    obtain block | ⟨none, -⟩ := part.block
    · exact block
    · omega

theorem addLine_filled (part : Filled lines s) (line : List UInt8) :
    ∃ after, addLine s line = .ok after ∧ Filled (lines ++ [line]) after ∧ after.lines ≠ none := by
  obtain ⟨n, room, block⟩ := grow_filled part
  have stores : setLine (grow s).lines (grow s).n (some (.ofBytes line)) =
      .ok (texts (lines ++ [line]) ++ List.replicate ((grow s).cap + 1 - (lines ++ [line]).length) none) := by
    rw [block, n, setLine_next (by omega)]
    simp [texts, Nat.sub_sub]
  refine ⟨_, (bind_of_ok stores).trans rfl, ⟨?_, ?_, .inl rfl⟩, Option.some_ne_none _⟩
  · simp [n]
  · rw [List.length_append]
    exact room

theorem foldlM_filled (more : List (List UInt8)) (part : Filled lines s) :
    ∃ after, more.foldlM addLine s = .ok after ∧ Filled (lines ++ more) after ∧ (more ≠ [] → after.lines ≠ none) := by
  induction more generalizing lines s with
  | nil => exact ⟨s, rfl, by rwa [List.append_nil], fun some => absurd rfl some⟩
  | cons line more ih =>
    obtain ⟨middle, adds, part, block⟩ := addLine_filled part line
    obtain ⟨after, ran, part, later⟩ := ih part
    refine ⟨after, ?_, by simpa using part, ?_⟩
    · rw [List.foldlM_cons, bind_of_ok adds, ran]
    · intro _
      by_cases last : more = []
      · subst last
        cases ran
        exact block
      · exact later last

/-- A file that has any line is read into an array. -/
theorem readLines_stored {content : List UInt8} (some : getlines content ≠ []) :
    ∃ block, readLines content = .ok (block, (getlines content).length) ∧ Stored (getlines content) block := by
  have start : Filled [] {} := ⟨rfl, Nat.le_refl 0, .inr ⟨rfl, rfl⟩⟩
  obtain ⟨s, ran, part, block⟩ := foldlM_filled (getlines content) start
  have n := part.n
  have room := part.room
  rw [List.nil_append] at n room
  obtain block | ⟨-, none⟩ := part.block
  · rw [List.nil_append] at block
    refine ⟨_, ?_, s.cap + 1 - (getlines content).length - 1, rfl⟩
    rw [readLines, bind_of_ok ran, block, n, setLine_next (by omega)]
    rfl
  · exact absurd none (block some)

end Fill

section Lookup
variable {query : Query}

theorem texts_text {i : Nat} (inside : i < lines.length) (rest : List Slot) :
    (texts lines ++ rest)[i]? = some (some (some (.ofBytes lines[i]))) := by
  rw [List.getElem?_append_left (by simpa [texts] using inside), texts, List.getElem?_map,
    List.getElem?_eq_getElem inside]
  rfl

theorem texts_behind (k : Nat) (rest : List Slot) : (texts lines ++ rest)[lines.length + k]? = rest[k]? := by
  rw [List.getElem?_append_right (by simp [texts])]
  simp [texts]

theorem lineAt_stored {lineno : Int} (stored : Stored lines block) (first : 1 ≤ lineno)
    (last : lineno ≤ lines.length + 1) :
    lineAt block lineno = .ok ((lines[(lineno - 1).toNat]?).map .ofBytes) := by
  obtain ⟨spare, rfl⟩ := stored
  rw [lineAt, if_neg (by omega)]
  generalize place : (lineno - 1).toNat = i
  by_cases inside : i < lines.length
  · rw [texts_text inside, List.getElem?_eq_getElem inside]
    rfl
  · obtain rfl : i = lines.length := by omega
    have behind := @texts_behind lines 0 (some none :: List.replicate spare none)
    rw [Nat.add_zero] at behind
    rw [behind, List.getElem?_eq_none (Nat.le_refl _)]
    rfl

theorem lineAt_beyond {lineno : Int} (stored : Stored lines block)
    (outside : ¬ (1 ≤ lineno ∧ lineno ≤ lines.length + 1)) :
    ∃ fault, lineAt block lineno = .error fault := by
  obtain ⟨spare, rfl⟩ := stored
  by_cases first : lineno < 1
  · exact ⟨.outOfBlock, if_pos first⟩
  · obtain ⟨k, behind⟩ : ∃ k, (lineno - 1).toNat = lines.length + (k + 1) :=
      ⟨(lineno - 1).toNat - lines.length - 1, by omega⟩
    rw [lineAt, if_neg first, behind, texts_behind, List.getElem?_cons_succ, List.getElem?_replicate]
    by_cases spared : k < spare
    · rw [if_pos spared]
      exact ⟨.uninitialised, rfl⟩
    · rw [if_neg spared]
      exact ⟨.outOfBlock, rfl⟩

theorem lineOf_found {content : List UInt8} (found : files query.path = some content) (first : 1 ≤ query.lineno) :
    lineOf files query.path query.lineno = ((getlines content)[(query.lineno - 1).toNat]?).map .ofBytes := by
  rw [lineOf, found, Option.bind_some, if_pos first]

theorem lineOf_none {content : List UInt8} (found : files query.path = some content) :
    lineOf files query.path query.lineno = none ↔
      ¬ (1 ≤ query.lineno ∧ query.lineno ≤ (getlines content).length) := by
  by_cases first : 1 ≤ query.lineno
  · rw [lineOf_found found first, Option.map_eq_none_iff, List.getElem?_eq_none_iff]
    omega
  · rw [lineOf, found, Option.bind_some, if_neg first]
    simp [first]

theorem getlines_some {content : List UInt8} (some : content ≠ []) : getlines content ≠ [] := by
  obtain ⟨byte, rest, rfl⟩ := List.exists_cons_of_ne_nil some
  rw [getlines]
  split
  · exact List.cons_ne_nil _ _
  · split <;> exact List.cons_ne_nil _ _

/-- A file that is in the cache. -/
theorem cached_iff {c : CachedLines} (kept : CacheKept files cache)
    (cached : cache.find? (·.path = query.path) = some c) :
    Answered files cache query ↔ Answerable files cache query := by
  have same : c.path = query.path := by simpa using List.find?_some cached
  have inside := List.mem_of_find?_eq_some cached
  obtain ⟨content, found, stored⟩ := kept c inside
  rw [same] at found
  have any : cache.any (·.path = query.path) = true := List.any_eq_true.mpr ⟨c, inside, by simpa using same⟩
  have condition : Answerable files cache query ↔ 1 ≤ query.lineno ∧ query.lineno ≤ (getlines content).length + 1 := by
    simp [Answerable, found, any]
  have answer : getLineText files cache query.path query.lineno =
      lineAt c.lines query.lineno >>= fun text => pure (text, cache) := by
    rw [getLineText, cached]
  rw [condition, Answered, answer]
  constructor
  · intro answered
    obtain ⟨after, ran⟩ := answered
    by_contra outside
    obtain ⟨fault, fails⟩ := lineAt_beyond stored outside
    rw [bind_of_error fails] at ran
    cases ran
  · intro inside
    obtain ⟨first, last⟩ := inside
    refine ⟨cache, ?_⟩
    rw [lineOf_found found first]
    exact bind_of_ok (lineAt_stored stored first last)

/-- What a first query of a file that can be opened comes to. -/
theorem first_query {content : List UInt8} (missing : cache.find? (·.path = query.path) = none)
    (found : files query.path = some content) (some : getlines content ≠ []) :
    ∃ block, Stored (getlines content) block ∧ getLineText files cache query.path query.lineno =
      .ok (if query.lineno > 0 ∧ query.lineno ≤ toInt (getlines content).length then
        lineOf files query.path query.lineno else none, { path := query.path, lines := block } :: cache) := by
  obtain ⟨block, ran, stored⟩ := readLines_stored some
  refine ⟨block, stored, ?_⟩
  simp only [getLineText, missing, found, bind_of_ok ran]
  split
  next within =>
    have counted := toInt_le (getlines content).length
    rw [lineOf_found found (by omega), bind_of_ok (lineAt_stored stored (by omega) (by omega))]
    rfl
  next => rfl

/-- A file that is not in the cache yet. -/
theorem first_iff (missing : cache.find? (·.path = query.path) = none) :
    Answered files cache query ↔ Answerable files cache query := by
  have fresh : cache.any (·.path = query.path) = false := by
    rw [List.any_eq_false]
    exact List.find?_eq_none.mp missing
  cases found : files query.path with
  | none =>
    refine iff_of_true ⟨cache, ?_⟩ (fun content opened => nomatch found.symm.trans opened)
    simp only [getLineText, missing, found, lineOf]
    rfl
  | some content =>
    have condition : Answerable files cache query ↔ content ≠ [] ∧ (1 ≤ query.lineno →
        query.lineno ≤ (getlines content).length → query.lineno ≤ toInt (getlines content).length) := by
      simp [Answerable, found, fresh]
    rw [condition]
    by_cases empty : content = []
    · subst empty
      refine iff_of_false ?_ (fun both => both.1 rfl)
      intro answered
      obtain ⟨after, ran⟩ := answered
      simp only [getLineText, missing, found] at ran
      cases ran
    · obtain ⟨block, -, ran⟩ := first_query missing found (getlines_some empty)
      rw [and_iff_right empty]
      by_cases within : query.lineno > 0 ∧ query.lineno ≤ toInt (getlines content).length
      · rw [if_pos within] at ran
        exact iff_of_true ⟨_, ran⟩ fun _ _ => within.2
      · rw [if_neg within] at ran
        have other : Answered files cache query ↔ lineOf files query.path query.lineno = none := by
          rw [Answered, ran]
          simp [eq_comm]
        rw [other, lineOf_none found]
        omega

/-- A query that was answered leaves whole files in the cache. -/
theorem answered_kept {next : List CachedLines} (kept : CacheKept files cache) (answered : Answered files cache query)
    (ran : lineQuery files cache query = .ok next) : CacheKept files next := by
  obtain ⟨after, answers⟩ := answered
  rw [lineQuery, bind_of_ok answers] at ran
  cases ran
  cases missing : cache.find? (·.path = query.path) with
  | some c =>
    simp only [getLineText, missing] at answers
    obtain ⟨text, -, same⟩ := bind_ok.mp answers
    cases same
    exact kept
  | none =>
    cases found : files query.path with
    | none =>
      simp only [getLineText, missing, found] at answers
      obtain ⟨-, rfl⟩ := Prod.mk.inj (Except.ok.inj answers)
      exact kept
    | some content =>
      by_cases empty : content = []
      · subst empty
        simp only [getLineText, missing, found] at answers
        cases answers
      · obtain ⟨block, stored, same⟩ := first_query missing found (getlines_some empty)
        obtain ⟨-, rfl⟩ := Prod.mk.inj (Except.ok.inj (answers.symm.trans same))
        intro c inside
        obtain rfl | old := List.mem_cons.mp inside
        · exact ⟨content, found, stored⟩
        · exact kept c old

end Lookup

/-- In a run each query is answered by the line of its file as long as it is one that can be. -/
theorem answers_iff (files : Files) (queries : List Query) :
    AtEach (lineQuery files) (Answered files) [] queries ↔ AtEach (lineQuery files) (Answerable files) [] queries := by
  refine AtEach.congr (?_ : ∀ cache query, CacheKept files cache → _) ?_ ?_
  · intro cache query kept
    cases cached : cache.find? (·.path = query.path) with
    | none => exact first_iff cached
    | some c => exact cached_iff kept cached
  · intro cache query next kept answered ran
    exact answered_kept kept answered ran
  · intro c inside
    cases inside

/-- A line that a file does not have, asked for again. -/
theorem asked_again : ¬ AtEach (lineQuery fun _ => some (CStr.lit "print()\n").bytes)
    (Answered fun _ => some (CStr.lit "print()\n").bytes) [] [⟨.lit "a.lua", 3⟩, ⟨.lit "a.lua", 3⟩] := by
  intro each
  have single : getlines (CStr.lit "print()\n").bytes = [(CStr.lit "print()\n").bytes] := rfl
  let files : Files := fun _ => some (CStr.lit "print()\n").bytes
  let query : Query := ⟨.lit "a.lua", 3⟩
  obtain ⟨block, stored, ran⟩ := @first_query files [] query _ rfl rfl (single ▸ List.cons_ne_nil _ _)
  have taken : lineQuery files [] query = .ok [⟨query.path, block⟩] := by
    rw [lineQuery, bind_of_ok ran]
    rfl
  have once : [query].foldlM (lineQuery files) [] = .ok [⟨query.path, block⟩] := by
    rw [List.foldlM_cons, bind_of_ok taken]
    rfl
  have second := each [query] query [] _ rfl once
  have kept : CacheKept files [⟨query.path, block⟩] := by
    intro c inside
    obtain rfl := List.mem_singleton.mp inside
    exact ⟨_, rfl, stored⟩
  have bounds := (cached_iff kept (List.find?_cons_of_pos (by simp))).mp second _ rfl
  rw [single] at bounds
  simp [query] at bounds

end Ltf.Proofs.LineCache
