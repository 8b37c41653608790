import Ltf.TestCase
import Mathlib.Data.List.Forall2

/-! Every sequence of registrations under any filter: which tests are registered, in which
order, with which content, and what has been released. -/

namespace Ltf.TestCases
open CString CmdParser Ledger

variable (lua : LuaChoices)

def describedText (value : LuaValue) : Option CStr := (lua.toString value).map .ofBytes

def describedDesc (value : LuaValue) : Option (Option CStr) :=
  if value = .nil then some none else (describedText lua value).map some

def describedTags (field : ArrayField) : Option (DaPtr CStr) :=
  match field with
  | .nil => some none
  | .other => none
  | .table items =>
    ((List.range (lua.length.length items)).mapM fun i => describedText lua (items.getD i .nil)).map some

/-- The test a table describes, if no check of `register_test` fails. -/
def describedTest (table : TestTable) : Option TestCase := do
  let name ← describedText lua table.name
  let body ← table.body
  let desc ← describedDesc lua table.description
  let tags ← describedTags lua table.tags
  return { name, desc := desc, tags, body }

section Reading
variable {lua} {left held : List Nat}

theorem luaLCheckstring_keeps (fewer : left.Sublist held) (arg : Int) (value : LuaValue) :
    Keeps left held (luaLCheckstring lua arg value) fun _ => held := by
  unfold luaLCheckstring
  cases lua.toString value with
  | none => exact .throw fewer
  | some bytes => exact .pure (List.Perm.refl _)

theorem readStringArray_keeps (fewer : left.Sublist held) (items : List LuaValue) :
    Keeps left held (readStringArray lua items) fun array =>
      array.value.map (·.serial) ++ [array.serial] ++ held := by
  unfold readStringArray
  apply (Keeps.acquire ()).bind
  intro out
  have each : ∀ i held, left.Sublist held → Keeps left held (do
      let s ← luaLCheckstring lua (-1) (items.getD i .nil)
      acquire s) fun s : Owned CStr => [s.serial] ++ held :=
    fun i held fewer => (luaLCheckstring_keeps fewer _ _).bind fun s => .acquire s
  apply (Keeps.mapM each (fewer.cons _)).bind
  intro strings
  apply Keeps.pure
  simp [List.map_eq_flatMap]

theorem readDescription_keeps (fewer : left.Sublist held) (value : LuaValue) :
    Keeps left held (readDescription lua value) fun desc => desc.toList.map (·.serial) ++ held := by
  unfold readDescription
  split
  next => exact .pure (List.Perm.refl _)
  next =>
    cases lua.toString value with
    | none => exact .throw fewer
    | some bytes => exact (Keeps.acquire _).bind fun desc => .pure (List.Perm.refl _)

theorem readTags_keeps (fewer : left.Sublist held) (field : ArrayField) :
    Keeps left held (readTags lua field) fun tags =>
      tags.toList.flatMap (fun tags => tags.value.map (·.serial) ++ [tags.serial]) ++ held := by
  unfold readTags
  split
  next => exact .pure (List.Perm.refl _)
  next => exact .throw fewer
  next items =>
    apply (readStringArray_keeps fewer items).bind
    intro tags
    apply Keeps.pure
    simp

/-- What has been read is what the test owns. -/
theorem readTest_keeps (table : TestTable) (held : List Nat) :
    Keeps held held (readTest lua table) fun tc => tc.serials ++ held := by
  unfold readTest
  have same := List.Sublist.refl held
  apply (luaLCheckstring_keeps same _ _).bind
  intro text
  apply (Keeps.acquire text).bind
  intro name
  cases table.body with
  | none => exact .throw (same.cons _)
  | some body =>
    apply (Keeps.acquire body).bind
    intro ref
    apply (readDescription_keeps ((same.cons _).cons _) _).bind
    intro desc
    apply (readTags_keeps (((same.cons _).cons _).trans (List.sublist_append_right ..)) _).bind
    intro tags
    apply Keeps.pure
    rw [List.perm_iff_count]
    intro serial
    simp only [OwnedTest.serials, List.count_append, List.count_cons, List.count_nil]
    omega

theorem luaLCheckstring_means (arg : Int) (value : LuaValue) :
    Means (luaLCheckstring lua arg value) id (describedText lua value) := by
  unfold luaLCheckstring describedText
  cases lua.toString value with
  | none => exact .throw _ _
  | some bytes => exact .pure _ id

theorem readDescription_means (value : LuaValue) :
    Means (readDescription lua value) (Option.map (·.value)) (describedDesc lua value) := by
  unfold readDescription describedDesc describedText
  split
  next => exact .pure none _
  next =>
    cases lua.toString value with
    | none => exact .throw _ _
    | some bytes => exact (Means.acquire (CStr.ofBytes bytes)).map

theorem readStringArray_means (items : List LuaValue) :
    Means (readStringArray lua items) (fun tags => tags.value.map (·.value))
      ((List.range (lua.length.length items)).mapM fun i => describedText lua (items.getD i .nil)) := by
  have each : ∀ i, Means (do
      let s ← luaLCheckstring lua (-1) (items.getD i .nil)
      acquire s) (·.value) (describedText lua (items.getD i .nil)) := by
    intro i
    have text := @luaLCheckstring_means lua (-1) (items.getD i .nil)
    simpa using text.bind fun text _ => Means.acquire text
  apply (Means.acquire ()).after
  intro out _
  have strings := Means.mapM each (List.range (lua.length.length items))
  simpa using strings.bind fun strings _ =>
    Means.pure (Owned.mk strings out.serial) fun tags => tags.value.map (·.value)

theorem readTags_means (field : ArrayField) :
    Means (readTags lua field) (Option.map fun tags => tags.value.map (·.value)) (describedTags lua field) := by
  cases field with
  | nil => exact .pure none _
  | other => exact .throw _ _
  | table items => exact (readStringArray_means items).map

theorem readTest_means (table : TestTable) :
    Means (readTest lua table) OwnedTest.testCase (describedTest lua table) := by
  apply (luaLCheckstring_means (-1) table.name).bind
  intro text _
  apply (Means.acquire text).after
  rintro name rfl
  cases table.body with
  | none => exact .throw _ _
  | some body =>
    apply (Means.acquire body).after
    rintro ref rfl
    apply (readDescription_means table.description).bind
    intro desc _
    apply (readTags_means table.tags).bind
    intro tags _
    exact .pure (OwnedTest.mk name desc tags ref) _

end Reading

def Tests.registry (s : Tests) : List OwnedTest := s.tests.getD []

/-- The filter is empty or has a tag of the test. -/
def Passes (filter : List CStr) (tc : OwnedTest) : Prop := filter = [] ∨ ∃ tag ∈ filter, tag ∈ tc.tagTexts

theorem overwriteTest_some {tc old : OwnedTest} {tests after : List OwnedTest}
    (found : overwriteTest tc tests = some (old, after)) :
    ∃ before rest, tests = before ++ old :: rest ∧ old.name.value = tc.name.value ∧ after = before ++ tc :: rest := by
  induction tests generalizing after with
  | nil => cases found
  | cons registered tests ih =>
    unfold overwriteTest at found
    split at found
    next same =>
      cases found
      exact ⟨[], tests, rfl, same.symm, rfl⟩
    next =>
      obtain ⟨⟨_, later⟩, inner, pair⟩ := Option.map_eq_some_iff.mp found
      cases pair
      obtain ⟨before, rest, rfl, same, rfl⟩ := ih inner
      exact ⟨registered :: before, rest, rfl, same, rfl⟩

theorem overwriteTest_none {tc : OwnedTest} {tests : List OwnedTest} (missing : overwriteTest tc tests = none) :
    tc.name.value ∉ tests.map (·.name.value) := by
  induction tests with
  | nil => simp
  | cons registered tests ih =>
    unfold overwriteTest at missing
    split at missing
    next => cases missing
    next other =>
      rw [List.map_cons, List.mem_cons, not_or]
      exact ⟨other, ih (Option.map_eq_none_iff.mp missing)⟩

/-- All that `test_case_enqueue` can do. -/
theorem testCaseEnqueue_cases (opts : CmdTestOptions) (tc : OwnedTest) (s : Tests) :
    ¬ Passes opts.tags tc ∧ testCaseEnqueue opts tc s = (1, { s with book := testCaseFree tc s.book }) ∨
    Passes opts.tags tc ∧
      ((∃ before old rest, s.registry = before ++ old :: rest ∧ old.name.value = tc.name.value ∧
          testCaseEnqueue opts tc s = (0, { tests := some (before ++ tc :: rest), book := testCaseFree old s.book })) ∨
        tc.name.value ∉ s.registry.map (·.name.value) ∧
          testCaseEnqueue opts tc s = (0, { s with tests := some (s.registry ++ [tc]) })) := by
  have filtered : opts.tags.length > 0 ∧ hasTag opts.tags tc = false ↔ ¬ Passes opts.tags tc := by
    unfold Passes hasTag
    rw [not_or, ← List.length_eq_zero_iff, gt_iff_lt, Nat.pos_iff_ne_zero]
    simp
  unfold testCaseEnqueue
  by_cases passes : Passes opts.tags tc
  · rw [if_neg (by rw [filtered]; exact not_not.mpr passes)]
    refine .inr ⟨passes, ?_⟩
    dsimp only
    cases found : overwriteTest tc (s.tests.getD []) with
    | none => exact .inr ⟨overwriteTest_none found, rfl⟩
    | some replaced =>
      obtain ⟨before, rest, split, same, after⟩ := overwriteTest_some found
      exact .inl ⟨before, replaced.1, rest, split, same, by rw [← after]⟩
  · rw [if_pos (filtered.mpr passes)]
    exact .inl ⟨passes, rfl⟩

/-- A registration that has come to its end: the test it read and the result, or an error. -/
abbrev Registration := Except LuaError (OwnedTest × Int)

def accepted (results : List Registration) : List OwnedTest :=
  results.filterMap fun | .ok (tc, res) => if res = 0 then some tc else none | .error _ => none

/-- What a sequence of registrations leaves. -/
structure Registered (filter : List CStr) (results : List Registration) (s : Tests) : Prop where
  distinct : (s.registry.map (·.name.value)).Nodup
  verdict : ∀ tc res, .ok (tc, res) ∈ results → (res = 0 ↔ Passes filter tc)
  order : s.registry.map (·.name.value) = ((accepted results).map (·.name.value)).eraseDups
  last : ∀ tc ∈ s.registry, (accepted results).reverse.find? (·.name.value = tc.name.value) = some tc
  live : ∀ tc ∈ s.registry, ∀ serial ∈ tc.serials, s.book.released.count serial = 0
  gone : ∀ tc res, .ok (tc, res) ∈ results → tc ∉ s.registry → ∀ serial ∈ tc.serials,
    s.book.released.count serial = 1

/-- The invariant of the registry: it owns what its tests own, and every other test that was
read has been released. -/
structure Sound (filter : List CStr) (results : List Registration) (s : Tests) : Prop where
  balanced : Balanced (s.registry.flatMap (·.serials)) s.book
  distinct : (s.registry.map (·.name.value)).Nodup
  verdict : ∀ tc res, .ok (tc, res) ∈ results → (res = 0 ↔ Passes filter tc)
  order : s.registry.map (·.name.value) = ((accepted results).map (·.name.value)).eraseDups
  last : ∀ tc ∈ s.registry, (accepted results).reverse.find? (·.name.value = tc.name.value) = some tc
  settled : ∀ tc res, .ok (tc, res) ∈ results → tc ∈ s.registry ∨ ∀ serial ∈ tc.serials, serial ∈ s.book.released

section Invariant
variable {filter : List CStr} {results : List Registration} {s : Tests}

theorem Sound.registered (sound : Sound filter results s) : Registered filter results s where
  distinct := sound.distinct
  verdict := sound.verdict
  order := sound.order
  last := sound.last
  live := fun tc inside serial owned => sound.balanced.count_held (List.mem_flatMap.mpr ⟨tc, inside, owned⟩)
  gone := by
    intro tc res registered missing serial owned
    rcases sound.settled tc res registered with inside | released
    · exact absurd inside missing
    · exact sound.balanced.count_released (released serial owned)

theorem Sound.start (filter : List CStr) : Sound filter [] {} where
  balanced := .start
  distinct := List.nodup_nil
  verdict := by simp
  order := rfl
  last := by simp [Tests.registry]
  settled := by simp

/-- One more result for a test that may pass the filter. -/
theorem Sound.verdict_append (sound : Sound filter results s) {tc : OwnedTest} {res : Int}
    (here : res = 0 ↔ Passes filter tc) :
    ∀ other code, .ok (other, code) ∈ results ++ [.ok (tc, res)] → (code = 0 ↔ Passes filter other) := by
  intro other code inside
  rcases List.mem_append.mp inside with earlier | now
  · exact sound.verdict other code earlier
  · cases List.mem_singleton.mp now
    exact here

/-- A registration that fails loses what it had read so far. -/
theorem Sound.failed (sound : Sound filter results s) (err : LuaError) {book : Book}
    (same : book.released = s.book.released) (balanced : Balanced (s.registry.flatMap (·.serials)) book) :
    Sound filter (results ++ [.error err]) { s with book } := by
  have unchanged : accepted (results ++ [.error err]) = accepted results := by simp [accepted]
  have earlier : ∀ tc res, .ok (tc, res) ∈ results ++ [.error err] → .ok (tc, res) ∈ results := by simp
  exact {
    balanced
    distinct := sound.distinct
    verdict := fun tc res inside => sound.verdict tc res (earlier tc res inside)
    order := by rw [unchanged]; exact sound.order
    last := by rw [unchanged]; exact sound.last
    settled := by
      intro tc res inside
      rw [same]
      exact sound.settled tc res (earlier tc res inside) }

theorem Sound.rejected (sound : Sound filter results s) {tc : OwnedTest} {book : Book}
    (refused : ¬ Passes filter tc) (same : book.released = s.book.released)
    (balanced : Balanced (tc.serials ++ s.registry.flatMap (·.serials)) book) :
    Sound filter (results ++ [.ok (tc, 1)]) { s with book := testCaseFree tc book } := by
  have unchanged : accepted (results ++ [.ok (tc, 1)]) = accepted results := by simp [accepted]
  exact {
    balanced := balanced.release
    distinct := sound.distinct
    verdict := sound.verdict_append (iff_of_false (by decide) refused)
    order := by rw [unchanged]; exact sound.order
    last := by rw [unchanged]; exact sound.last
    settled := by
      intro other code inside
      rcases List.mem_append.mp inside with earlier | now
      · rcases sound.settled other code earlier with kept | released
        · exact .inl kept
        · exact .inr fun serial owned => List.mem_append_left _ (same ▸ released serial owned)
      · cases List.mem_singleton.mp now
        exact .inr fun serial owned => List.mem_append_right _ owned }

/-- What was accepted last under a name when one more test has been. -/
theorem find_last (earlier : List OwnedTest) (tc : OwnedTest) (name : CStr) :
    (earlier ++ [tc]).reverse.find? (·.name.value = name) =
      if tc.name.value = name then some tc else earlier.reverse.find? (·.name.value = name) := by
  rw [List.reverse_append, List.reverse_singleton, List.singleton_append, List.find?_cons]
  split <;> simp_all

theorem eraseDups_concat (names : List CStr) (name : CStr) :
    (names ++ [name]).eraseDups = if name ∈ names then names.eraseDups else names.eraseDups ++ [name] := by
  rw [List.eraseDups_append]
  split <;> simp_all [List.removeAll, List.eraseDups_cons]

theorem Sound.name_mem (sound : Sound filter results s) (name : CStr) :
    name ∈ (accepted results).map (·.name.value) ↔ name ∈ s.registry.map (·.name.value) := by
  rw [sound.order, List.mem_eraseDups]

theorem Sound.overwritten (sound : Sound filter results s) {tc old : OwnedTest} {book : Book}
    {before rest : List OwnedTest} (passes : Passes filter tc) (split : s.registry = before ++ old :: rest)
    (named : old.name.value = tc.name.value) (same : book.released = s.book.released)
    (balanced : Balanced (tc.serials ++ s.registry.flatMap (·.serials)) book) :
    Sound filter (results ++ [.ok (tc, 0)])
      { tests := some (before ++ tc :: rest), book := testCaseFree old book } := by
  have longer : accepted (results ++ [.ok (tc, 0)]) = accepted results ++ [tc] := by simp [accepted]
  have names : (before ++ tc :: rest).map (·.name.value) = s.registry.map (·.name.value) := by simp [split, named]
  have known : tc.name.value ∈ (accepted results).map (·.name.value) := by
    rw [sound.name_mem, ← names]
    simp
  have others : ∀ other ∈ before ++ rest, other ∈ s.registry ∧ tc.name.value ≠ other.name.value := by
    intro other inside
    have distinct := sound.distinct
    rw [split, List.map_append, List.map_cons, List.nodup_middle, List.nodup_cons, ← List.map_append, named] at distinct
    refine ⟨by rw [split]; simp at inside ⊢; tauto, ?_⟩
    intro taken
    exact distinct.1 (List.mem_map.mpr ⟨other, inside, taken.symm⟩)
  exact {
    balanced := by
      have exchanged : (tc.serials ++ s.registry.flatMap (·.serials)).Perm
          (old.serials ++ (before ++ tc :: rest).flatMap (·.serials)) := by
        rw [split, List.perm_iff_count]
        intro serial
        simp only [List.flatMap_append, List.flatMap_cons, List.count_append]
        omega
      exact (balanced.perm exchanged).release
    distinct := by
      show ((before ++ tc :: rest).map (·.name.value)).Nodup
      rw [names]
      exact sound.distinct
    verdict := sound.verdict_append (iff_of_true rfl passes)
    order := by
      show (before ++ tc :: rest).map (·.name.value) = _
      rw [names, sound.order, longer, List.map_append, List.map_singleton, eraseDups_concat, if_pos known]
    last := by
      intro other inside
      rw [longer, find_last]
      rcases List.perm_middle.mem_iff.mp inside with _ | ⟨_, inside⟩
      · rw [if_pos rfl]
      · obtain ⟨registered, different⟩ := others other inside
        rw [if_neg different]
        exact sound.last other registered
    settled := by
      intro other code inside
      rcases List.mem_append.mp inside with earlier | now
      · rcases sound.settled other code earlier with kept | released
        · rw [split] at kept
          rcases List.perm_middle.mem_iff.mp kept with _ | ⟨_, kept⟩
          · exact .inr fun serial owned => List.mem_append_right _ owned
          · exact .inl (List.perm_middle.mem_iff.mpr (.tail _ kept))
        · exact .inr fun serial owned => List.mem_append_left _ (same ▸ released serial owned)
      · cases List.mem_singleton.mp now
        exact .inl (by simp [Tests.registry]) }

theorem Sound.added (sound : Sound filter results s) {tc : OwnedTest} {book : Book} (passes : Passes filter tc)
    (fresh : tc.name.value ∉ s.registry.map (·.name.value)) (same : book.released = s.book.released)
    (balanced : Balanced (tc.serials ++ s.registry.flatMap (·.serials)) book) :
    Sound filter (results ++ [.ok (tc, 0)]) { tests := some (s.registry ++ [tc]), book } := by
  have longer : accepted (results ++ [.ok (tc, 0)]) = accepted results ++ [tc] := by simp [accepted]
  have unknown : tc.name.value ∉ (accepted results).map (·.name.value) := by rwa [sound.name_mem]
  exact {
    balanced := by
      have appended :
          (tc.serials ++ s.registry.flatMap (·.serials)).Perm ((s.registry ++ [tc]).flatMap (·.serials)) := by
        rw [List.flatMap_append, List.flatMap_singleton]
        exact List.perm_append_comm
      exact balanced.perm appended
    distinct := by
      show ((s.registry ++ [tc]).map (·.name.value)).Nodup
      rw [List.map_append, List.map_singleton, ← List.concat_eq_append]
      exact sound.distinct.concat fresh
    verdict := sound.verdict_append (iff_of_true rfl passes)
    order := by
      show (s.registry ++ [tc]).map (·.name.value) = _
      rw [longer, List.map_append, List.map_append, List.map_singleton, eraseDups_concat, if_neg unknown, sound.order]
    last := by
      intro other inside
      rw [longer, find_last]
      rcases List.mem_append.mp inside with earlier | now
      · rw [if_neg fun taken => fresh (List.mem_map.mpr ⟨other, earlier, taken.symm⟩)]
        exact sound.last other earlier
      · rw [List.mem_singleton.mp now, if_pos rfl]
    settled := by
      intro other code inside
      rcases List.mem_append.mp inside with earlier | now
      · rcases sound.settled other code earlier with kept | released
        · exact .inl (List.mem_append_left _ kept)
        · exact .inr fun serial owned => same ▸ released serial owned
      · cases List.mem_singleton.mp now
        exact .inl (List.mem_append_right _ (List.mem_singleton_self _)) }

theorem registerTest_error {opts : CmdTestOptions} {table : TestTable} {err : LuaError} {book : Book}
    (read : readTest lua table s.book = (.error err, book)) :
    lModuleLtfRegisterTest lua opts (some table) s = (.error err, { s with book }) := by
  simp only [lModuleLtfRegisterTest, read]

theorem registerTest_ok {opts : CmdTestOptions} {table : TestTable} {tc : OwnedTest} {book : Book}
    (read : readTest lua table s.book = (.ok tc, book)) :
    lModuleLtfRegisterTest lua opts (some table) s =
      (.ok (tc, (testCaseEnqueue opts tc { s with book }).1), (testCaseEnqueue opts tc { s with book }).2) := by
  simp only [lModuleLtfRegisterTest, read]

/-- One registration, whatever its table holds. -/
theorem Sound.registerTest {opts : CmdTestOptions} (sound : Sound opts.tags results s) (arg : Option TestTable) :
    Sound opts.tags (results ++ [(lModuleLtfRegisterTest lua opts arg s).1])
      (lModuleLtfRegisterTest lua opts arg s).2 := by
  cases arg with
  | none => exact sound.failed _ rfl sound.balanced
  | some table =>
    have keeps := @readTest_keeps lua table (s.registry.flatMap (·.serials)) s.book sound.balanced
    cases read : readTest lua table s.book with
    | mk result book =>
      rw [read] at keeps
      cases result with
      | error err =>
        rw [registerTest_error lua read]
        exact sound.failed err keeps.1 keeps.2
      | ok tc =>
        obtain ⟨same, balanced⟩ := keeps
        rw [registerTest_ok lua read]
        rcases testCaseEnqueue_cases opts tc { s with book } with ⟨refused, done⟩ | ⟨passes, done⟩
        · rw [done]
          exact sound.rejected refused same balanced
        · rcases done with ⟨before, old, rest, split, named, done⟩ | ⟨fresh, done⟩
          · rw [done]
            exact sound.overwritten passes split named same balanced
          · rw [done]
            exact sound.added passes fresh same balanced

theorem Sound.registerTests {opts : CmdTestOptions} (sound : Sound opts.tags results s)
    (args : List (Option TestTable)) :
    Sound opts.tags (results ++ (registerTests lua opts args s).1) (registerTests lua opts args s).2 := by
  induction args generalizing results s with
  | nil => simpa [TestCases.registerTests] using sound
  | cons arg args ih =>
    have rest := ih (sound.registerTest lua arg)
    rwa [List.append_assoc] at rest

/-- The test that is read is the one the table describes. It fails if a check does. -/
def ReadsAs (arg : Option TestTable) (result : Registration) : Prop :=
  match result with
  | .ok (tc, _) => arg.bind (describedTest lua) = some tc.testCase
  | .error _ => arg.bind (describedTest lua) = none

theorem registerTest_reads (opts : CmdTestOptions) (arg : Option TestTable) (s : Tests) :
    ReadsAs lua arg (lModuleLtfRegisterTest lua opts arg s).1 := by
  cases arg with
  | none => rfl
  | some table =>
    have means := @readTest_means lua table s.book
    cases read : readTest lua table s.book with
    | mk result book =>
      rw [read] at means
      cases result with
      | error err => rw [registerTest_error lua read]; exact means
      | ok tc => rw [registerTest_ok lua read]; exact means

theorem registerTests_read (opts : CmdTestOptions) (args : List (Option TestTable)) (s : Tests) :
    List.Forall₂ (ReadsAs lua) args (registerTests lua opts args s).1 := by
  induction args generalizing s with
  | nil => exact .nil
  | cons arg args ih => exact .cons (registerTest_reads lua opts arg s) (ih _)

/-- A registration that is not accepted leaves the registered tests as they are. -/
theorem registerTest_unchanged (opts : CmdTestOptions) (arg : Option TestTable) (s : Tests)
    (refused : accepted [(lModuleLtfRegisterTest lua opts arg s).1] = []) :
    (lModuleLtfRegisterTest lua opts arg s).2.tests = s.tests := by
  cases arg with
  | none => rfl
  | some table =>
    cases read : readTest lua table s.book with
    | mk result book =>
      cases result with
      | error err => rw [registerTest_error lua read]
      | ok tc =>
        rw [registerTest_ok lua read] at refused ⊢
        rcases testCaseEnqueue_cases opts tc { s with book } with ⟨-, done⟩ | ⟨-, done⟩
        · rw [done]
        · rcases done with ⟨_, _, _, -, -, done⟩ | ⟨-, done⟩
          · rw [done] at refused
            cases refused
          · rw [done] at refused
            cases refused

/-- After any sequence of registrations under any filter, and for one more that is not accepted. -/
theorem registerTests_correct (opts : CmdTestOptions) (args : List (Option TestTable)) :
    List.Forall₂ (ReadsAs lua) args (registerTests lua opts args {}).1 ∧
      Registered opts.tags (registerTests lua opts args {}).1 (registerTests lua opts args {}).2 ∧
      ∀ arg, accepted [(lModuleLtfRegisterTest lua opts arg (registerTests lua opts args {}).2).1] = [] →
        (lModuleLtfRegisterTest lua opts arg (registerTests lua opts args {}).2).2.tests =
          (registerTests lua opts args {}).2.tests := by
  have sound := (Sound.start opts.tags).registerTests lua args
  refine ⟨registerTests_read lua opts args {}, sound.registered, ?_⟩
  intro arg refused
  exact registerTest_unchanged lua opts arg _ refused

end Invariant
end Ltf.TestCases
