import Ltf.ProcLua

/-! Tables of the caller that are handed to several calls. -/

namespace Ltf.Proofs.ProcLua
open Ltf.ProcLua CString

/-- The list of arguments that a call is given, if it does not end before it needs one. -/
def given (tables : Tables) : Call → Option Nat
  | .spawn ref | .run ref => (tables.runOpts[ref]?).bind (·.args)
  | .spawnWebdriver ref => (tables.wdSpawnOpts[ref]?).bind fun opts => if opts.port.isSome then opts.extraflags else none

def arguments (tables : Tables) (field : Option Nat) : List LuaString :=
  field.elim [] fun ref => tables.lists.getD ref []

/-- What a call should spawn: the executable with the arguments that the list has got,
and with the flag for the port of a webdriver, without which there is an error. -/
def expected (tables : Tables) : Call → Option (List CStr)
  | .spawn ref | .run ref =>
    (tables.runOpts[ref]?).map fun opts => (opts.exe :: arguments tables opts.args).map CStr.ofBytes
  | .spawnWebdriver ref => (tables.wdSpawnOpts[ref]?).bind fun opts => opts.port.map fun port =>
    (opts.webdriver.getD (CStr.lit "chromedriver").bytes ::
      (arguments tables opts.extraflags ++ [portFlag port])).map CStr.ofBytes

/-- The first tables are as they were; there may be more. -/
structure Untouched (before after : Tables) : Prop where
  lists : before.lists <+: after.lists
  runOpts : after.runOpts = before.runOpts
  wdSpawnOpts : after.wdSpawnOpts = before.wdSpawnOpts

/-- After each call the tables of the caller are as they were at first, and so is what is
spawned from them. -/
def Frames (script : Script) : Prop :=
  ∀ done rest, script.calls = done ++ rest →
    Untouched script.tables (runScript script.tables done).tables ∧
      (runScript script.tables done).spawned = done.filterMap fun action => expected script.tables action.1

theorem Untouched.refl (tables : Tables) : Untouched tables tables := ⟨List.prefix_rfl, rfl, rfl⟩

section Spawn
variable {tables : Tables} {lua : Lua} {choice : Proc.SpawnChoice} {items : List LuaString} {ref : Nat}

@[simp] theorem setList_lists : (lua.setList ref items).tables.lists = lua.tables.lists.set ref items := rfl

@[simp] theorem setList_runOpts : (lua.setList ref items).tables.runOpts = lua.tables.runOpts := rfl

@[simp] theorem setList_wdSpawnOpts : (lua.setList ref items).tables.wdSpawnOpts = lua.tables.wdSpawnOpts := rfl

@[simp] theorem setList_spawned : (lua.setList ref items).spawned = lua.spawned := rfl

theorem setList_list (inside : ref < lua.tables.lists.length) : (lua.setList ref items).list ref = items := by
  simp [Lua.list, inside]

theorem Untouched.list (same : Untouched tables lua.tables) (inside : ref < tables.lists.length) :
    lua.list ref = tables.lists.getD ref [] := by
  obtain ⟨more, same⟩ := same.lists
  simp [Lua.list, ← same, List.getElem?_append_left inside]

/-- A table that is made for a call is behind all others. -/
def fresh (lua : Lua) : Lua := { lua with tables := { lua.tables with lists := lua.tables.lists ++ [[]] } }

theorem Untouched.made (same : Untouched tables lua.tables) (items : List LuaString) :
    Untouched tables ((fresh lua).setList lua.tables.lists.length items).tables where
  lists := by
    obtain ⟨more, same⟩ := same.lists
    refine ⟨more ++ [items], ?_⟩
    simp [fresh, ← same, List.append_assoc]
  runOpts := same.runOpts
  wdSpawnOpts := same.wdSpawnOpts

theorem low_spawned (argv : Nat) :
    (lowSpawn choice argv lua).1.spawned = lua.spawned ++ [(lua.list argv).map .ofBytes] := rfl

theorem spawn_given {exe : LuaString} (inside : ref < lua.tables.lists.length) :
    (spawn choice { exe, args := some ref } lua).1.tables = (lua.setList ref (exe :: lua.list ref)).tables ∧
      (spawn choice { exe, args := some ref } lua).1.spawned = lua.spawned ++ [(exe :: lua.list ref).map .ofBytes] := by
  refine ⟨rfl, ?_⟩
  simp only [spawn, orNew, insertFirst, low_spawned, setList_list inside, setList_spawned]

theorem webdriver_given {webdriver : Option LuaString} {port : Int} (inside : ref < lua.tables.lists.length) :
    let argv := webdriver.getD (CStr.lit "chromedriver").bytes :: (lua.list ref ++ [portFlag port])
    (spawnWebdriver choice { webdriver, port := some port, extraflags := some ref } lua).1.tables =
        (lua.setList ref argv).tables ∧
      (spawnWebdriver choice { webdriver, port := some port, extraflags := some ref } lua).1.spawned =
        lua.spawned ++ [argv.map .ofBytes] := by
  intro argv
  have longer : ref < (insertLast ref (portFlag port) lua).tables.lists.length := by simpa [insertLast] using inside
  obtain ⟨tables, spawned⟩ := @spawn_given _ choice ref (webdriver.getD (CStr.lit "chromedriver").bytes) longer
  rw [insertLast, setList_list inside] at tables spawned
  refine ⟨?_, spawned⟩
  rw [spawnWebdriver]
  refine tables.trans ?_
  simp [Lua.setList, argv]

theorem fresh_list (lua : Lua) : (fresh lua).list lua.tables.lists.length = [] := by
  simp [fresh, Lua.list]

theorem fresh_inside (lua : Lua) : lua.tables.lists.length < (fresh lua).tables.lists.length := by
  simp [fresh]

end Spawn

section Steps
variable {tables : Tables} {lua : Lua} {choice : Proc.SpawnChoice} {call : Call} {ref : Nat}

/-- A call that makes the list of its arguments itself does what it should. -/
def Fresh (tables : Tables) (lua : Lua) (choice : Proc.SpawnChoice) (call : Call) : Prop :=
  Untouched tables (step lua (call, choice)).tables ∧
    (step lua (call, choice)).spawned = lua.spawned ++ (expected tables call).toList

theorem spawn_fresh (same : Untouched tables lua.tables) (free : given tables (.spawn ref) = none) :
    Fresh tables lua choice (.spawn ref) := by
  unfold Fresh
  cases found : tables.runOpts[ref]? with
  | none =>
    simp only [step, same.runOpts, found, expected]
    exact ⟨same, (List.append_nil _).symm⟩
  | some opts =>
    obtain ⟨exe, args⟩ := opts
    obtain rfl : args = none := by simpa [given, found] using free
    simp only [step, same.runOpts, found, expected]
    obtain ⟨made, spawned⟩ := @spawn_given _ choice _ exe (fresh_inside lua)
    rw [fresh_list] at made spawned
    have kept := same.made [exe]
    rw [← made] at kept
    exact ⟨kept, spawned⟩

theorem webdriver_fresh (same : Untouched tables lua.tables) (free : given tables (.spawnWebdriver ref) = none) :
    Fresh tables lua choice (.spawnWebdriver ref) := by
  unfold Fresh
  cases found : tables.wdSpawnOpts[ref]? with
  | none =>
    simp only [step, same.wdSpawnOpts, found, expected]
    exact ⟨same, (List.append_nil _).symm⟩
  | some opts =>
    obtain ⟨webdriver, port, extraflags⟩ := opts
    simp only [step, same.wdSpawnOpts, found, expected]
    cases port with
    | none =>
      refine ⟨?_, (List.append_nil _).symm.trans ?_⟩
      · cases extraflags with
        | none => exact ⟨same.lists.trans (List.prefix_append _ _), same.runOpts, same.wdSpawnOpts⟩
        | some ref => exact same
      · cases extraflags <;> rfl
    | some port =>
      obtain rfl : extraflags = none := by simpa [given, found] using free
      obtain ⟨made, spawned⟩ := @webdriver_given _ choice _ webdriver port (fresh_inside lua)
      rw [fresh_list, List.nil_append] at made spawned
      have kept := same.made (webdriver.getD (CStr.lit "chromedriver").bytes :: [portFlag port])
      rw [← made] at kept
      exact ⟨kept, spawned⟩

theorem step_fresh (same : Untouched tables lua.tables) (free : given tables call = none) :
    Fresh tables lua choice call := by
  cases call with
  | spawn ref => exact spawn_fresh same free
  | run ref => exact spawn_fresh same free
  | spawnWebdriver ref => exact webdriver_fresh same free

/-- Other calls insert into the list of the caller. -/
theorem step_given {list : Nat} (same : Untouched tables lua.tables) (found : given tables call = some list)
    (inside : list < tables.lists.length) : ¬ Untouched tables (step lua (call, choice)).tables := by
  have longer : list < lua.tables.lists.length := Nat.lt_of_lt_of_le inside same.lists.length_le
  have inserted : ∃ exe more,
      (step lua (call, choice)).tables = (lua.setList list (exe :: (lua.list list ++ more))).tables := by
    cases call with
    | spawn ref | run ref =>
      obtain ⟨opts, here, field⟩ := Option.bind_eq_some_iff.mp found
      obtain ⟨exe, args⟩ := opts
      subst field
      refine ⟨exe, [], ?_⟩
      simp only [step, same.runOpts, here, List.append_nil]
      exact (spawn_given longer).1
    | spawnWebdriver ref =>
      obtain ⟨opts, here, field⟩ := Option.bind_eq_some_iff.mp found
      obtain ⟨webdriver, port, extraflags⟩ := opts
      cases port with
      | none => cases field
      | some port =>
        cases field
        refine ⟨webdriver.getD (CStr.lit "chromedriver").bytes, [portFlag port], ?_⟩
        simp only [step, same.wdSpawnOpts, here]
        exact (webdriver_given longer).1
  obtain ⟨exe, more, inserted⟩ := inserted
  intro after
  rw [inserted] at after
  have content := after.list inside
  rw [setList_list longer, ← same.list inside] at content
  have lengths := congrArg List.length content
  simp only [List.length_cons, List.length_append] at lengths
  omega

theorem given_inside {script : Script} {list : Nat} (found : given script.tables call = some list) :
    list < script.tables.lists.length := by
  cases call with
  | spawn ref | run ref =>
    obtain ⟨opts, here, field⟩ := Option.bind_eq_some_iff.mp found
    exact script.runClosed opts (List.mem_of_getElem? here) list field
  | spawnWebdriver ref =>
    obtain ⟨opts, here, field⟩ := Option.bind_eq_some_iff.mp found
    split at field
    · exact script.wdClosed opts (List.mem_of_getElem? here) list field
    · cases field

theorem runScript_concat (tables : Tables) (done : List (Call × Proc.SpawnChoice)) (action : Call × Proc.SpawnChoice) :
    runScript tables (done ++ [action]) = step (runScript tables done) action := List.foldl_concat ..

theorem run_fresh {done : List (Call × Proc.SpawnChoice)} (free : ∀ action ∈ done, given tables action.1 = none) :
    Untouched tables (runScript tables done).tables ∧
      (runScript tables done).spawned = done.filterMap fun action => expected tables action.1 := by
  induction done using List.reverseRecOn with
  | nil => exact ⟨.refl tables, rfl⟩
  | append_singleton done action ih =>
    simp only [List.forall_mem_append, List.forall_mem_singleton] at free
    obtain ⟨same, spawned⟩ := ih free.1
    obtain ⟨after, more⟩ := step_fresh same free.2
    rw [runScript_concat]
    refine ⟨after, more.trans ?_⟩
    rw [spawned, List.filterMap_append, List.filterMap_cons]
    cases expected tables action.1 <;> rfl

end Steps

/-- Exactly when no call that reaches an insertion is given a list of arguments. -/
theorem frames_iff (script : Script) : Frames script ↔ ∀ action ∈ script.calls, given script.tables action.1 = none := by
  constructor
  · intro frames action inside
    obtain ⟨before, rest, split⟩ := List.append_of_mem inside
    have same := (frames before (action :: rest) split).1
    have after := (frames (before ++ [action]) rest (by rw [split, List.append_assoc]; rfl)).1
    rw [runScript_concat] at after
    cases found : given script.tables action.1 with
    | none => rfl
    | some list => exact absurd after (step_given same found (given_inside found))
  · intro free done rest split
    apply run_fresh
    intro action inside
    exact free action (split ▸ List.mem_append_left rest inside)

/-- Two runs of `git status` with one option table. -/
def twice : Script where
  tables := {
    lists := [[(CStr.lit "status").bytes]]
    runOpts := [{ exe := (CStr.lit "git").bytes, args := some 0 }]
    wdSpawnOpts := [] }
  calls := [(.run 0, works), (.run 0, works)]
  runClosed := by simp
  wdClosed := by simp
where
  works : Proc.SpawnChoice :=
    { pin := true, pout := true, perr := true, spawned := .ok 1, fdopenIn := true, fdopenOut := true, fdopenErr := true,
      pipeError := .lit "" }

/-- The second one is a run of `git git status`. -/
theorem git_git : ¬ Frames twice ∧ (runScript twice.tables twice.calls).spawned =
    [[.lit "git", .lit "status"], [.lit "git", .lit "git", .lit "status"]] := by
  refine ⟨?_, rfl⟩
  intro frames
  have spawned := (frames twice.calls [] rfl).2
  exact absurd spawned (by decide)

end Ltf.Proofs.ProcLua
