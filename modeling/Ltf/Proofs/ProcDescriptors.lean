import Ltf.Base.Steps
import Ltf.Proc

/-! Who closes what. A handle that is never killed, from a spawn that works or fails in
`posix_spawnp`, only closes its own descriptors; every other one closes more descriptors
than it has. -/

namespace Ltf.Proofs.ProcDescriptors
open CString Descriptors Table Ltf.Proc

/-- Every close by a handle hits one of its own descriptors, and a handle that is killed or
whose spawn has failed has seen each of its descriptors closed exactly once. -/
structure Proper (w : World) : Prop where
  own : ∀ c ∈ w.table.closes, ∀ index, c.caller = .handle index → ∃ d, c.hit = some d ∧ d.owner = .handle index
  ended : ∀ (index : Nat) (handle : Handle), w.handles[index]? = some handle →
    handle.killed = true ∨ handle.returned = false →
    ∀ d ∈ w.table.opened, d.owner = .handle index → w.table.hits (· == d) = 1

/-- The pipes of a spawn are opened and, when the child is started, so are its streams. -/
structure Opens (choice : SpawnChoice) : Prop where
  pipes : choice.pin = true ∧ choice.pout = true ∧ choice.perr = true
  streams : ∀ pid, choice.spawned = .ok pid → choice.fdopenIn = true ∧ choice.fdopenOut = true ∧ choice.fdopenErr = true

/-- A step that is no kill of a handle and no spawn in which `pipe` or `fdopen` fails. -/
def Avoids (w : World) : Op → Prop
  | .kill index _ => w.handle index = none
  | .spawn argv choice => argv.length = 0 ∨ Opens choice
  | _ => True

def openFiles (p : LModuleProc) : List Nat := [p.inFile, p.outFile, p.errFile].filterMap id

/-- What a handle is expected to hold. -/
def heldBy (w : World) (index : Nat) : List Nat :=
  match w.handles[index]? with
  | none => []
  | some handle => if handle.returned then openFiles handle.proc else []

structure Safe (w : World) : Prop where
  conserved : Conserved w.table
  rightful : ∀ c ∈ w.table.closes, Rightful c
  holds : ∀ index, Holds w.table (.handle index) (heldBy w index)
  alive : ∀ (index : Nat) (handle : Handle), w.handles[index]? = some handle → handle.killed = false

theorem safe_start : Safe {} := by
  refine ⟨conserved_empty, by simp, fun index => ⟨?_, ?_, rfl⟩, by simp⟩
  · simp [heldBy]
  · simp [heldBy]

theorem Safe.proper {w : World} (safe : Safe w) : Proper w := by
  constructor
  · intro c told index caller
    obtain ⟨d, hit, same⟩ := safe.rightful c told
    exact ⟨d, hit, same.trans caller⟩
  · intro index handle found ended d opened own
    have unreturned : handle.returned = false := ended.resolve_left (by simp [safe.alive index handle found])
    have nothing := (safe.holds index).owned
    rw [heldBy, found] at nothing
    exact safe.conserved.closed_once (by simpa [unreturned] using nothing) opened own

/-- `proc_close_streams` closes the streams and then all six descriptors of the pipes. -/
def streamNumbers (p : LModuleProc) : List Nat :=
  openFiles p ++ [p.pin.1, p.pout.1, p.perr.1, p.pin.2, p.pout.2, p.perr.2]

theorem procCloseStreams_table (owner : Owner) (p : LModuleProc) (t : Table Owner) :
    (procCloseStreams owner p t).2 = t.closeAll owner (streamNumbers p) := by
  obtain ⟨pid, inFile, outFile, errFile, pin, pout, perr⟩ := p
  cases inFile <;> cases outFile <;> cases errFile <;> rfl

/-- Closing the streams of a handle that holds fewer than six descriptors is not proper. -/
theorem closeStreams_improper {w : World} {index : Nat} {p : LModuleProc} {t : Table Owner}
    (few : t.owned (.handle index) < 6) (table : w.table = (procCloseStreams (.handle index) p t).2) : ¬ Proper w := by
  intro proper
  rw [procCloseStreams_table] at table
  have bound : (streamNumbers p).length ≤ t.owned (.handle index) := by
    apply closeAll_bound
    intro c told caller
    obtain ⟨d, hit, own⟩ := proper.own c (table ▸ told) index caller
    exact ⟨d, hit, own.trans caller.symm⟩
  have six : 6 ≤ (streamNumbers p).length := by simp [streamNumbers]
  omega

/-- What opening descriptors for an owner leaves. -/
structure Gained (t : Table Owner) (owner : Owner) (numbers : List Nat) (after : Table Owner) : Prop where
  holds : Holds after owner numbers
  spares : Spares owner t after
  closes : after.closes = t.closes
  conserved : Conserved t → Conserved after

variable {owner : Owner} {t u : Table Owner}

theorem pipe_gains {numbers : List Nat} (holds : Holds t owner numbers) (ends : Nat × Nat) :
    Gained t owner (numbers ++ [(pipe true owner ends t).1.1, (pipe true owner ends t).1.2])
      (pipe true owner ends t).2 := by
  have first := holds.openLowest
  have both := first.openLowest
  rw [List.append_assoc] at both
  exact ⟨both, (openLowest_spares owner t).trans (openLowest_spares owner _), rfl,
    fun conserved => (conserved.openLowest owner).openLowest owner⟩

theorem Gained.trans {first numbers : List Nat} {after : Table Owner} (one : Gained t owner first u)
    (two : Gained u owner numbers after) : Gained t owner numbers after :=
  ⟨two.holds, one.spares.trans two.spares, two.closes.trans one.closes,
    fun conserved => two.conserved (one.conserved conserved)⟩

/-- The descriptors of the pipes that could be opened before the first one that could not. -/
theorem openPipes_gains (choice : SpawnChoice) (nothing : Holds t owner []) :
    ∃ piped p after numbers, openPipes choice owner {} t = (piped, p, after) ∧ openFiles p = [] ∧
      Gained t owner numbers after ∧
      (piped = true → (choice.pin = true ∧ choice.pout = true ∧ choice.perr = true) ∧
        numbers = [p.pin.1, p.pin.2, p.pout.1, p.pout.2, p.perr.1, p.perr.2]) ∧
      (piped = false → ¬ (choice.pin = true ∧ choice.pout = true ∧ choice.perr = true) ∧ numbers.length < 6) := by
  have start : Gained t owner [] t := ⟨nothing, .refl owner t, rfl, id⟩
  let pinned := pipe true owner (0, 0) t
  let pouted := pipe true owner (0, 0) pinned.2
  let perred := pipe true owner (0, 0) pouted.2
  have one : Gained t owner _ pinned.2 := start.trans (pipe_gains start.holds (0, 0))
  have two : Gained t owner _ pouted.2 := one.trans (pipe_gains one.holds (0, 0))
  have three : Gained t owner _ perred.2 := two.trans (pipe_gains two.holds (0, 0))
  cases pin : choice.pin with
  | false => exact ⟨false, {}, t, [], by simp only [openPipes, pin]; rfl, rfl, start, by simp, by simp⟩
  | true =>
    cases pout : choice.pout with
    | false =>
      exact ⟨false, { pin := pinned.1 }, pinned.2, _, by simp only [openPipes, pin, pout]; rfl, rfl, one,
        by simp, by simp⟩
    | true =>
      cases perr : choice.perr with
      | false =>
        exact ⟨false, { pin := pinned.1, pout := pouted.1 }, pouted.2, _,
          by simp only [openPipes, pin, pout, perr]; rfl, rfl, two, by simp, by simp⟩
      | true =>
        exact ⟨true, { pin := pinned.1, pout := pouted.1, perr := perred.1 }, perred.2, _,
          by simp only [openPipes, pin, pout, perr]; rfl, rfl, three, by simp [pinned, pouted, perred], by simp⟩

structure Spawned (owner : Owner) (t : Table Owner) (spawned : LModuleProc × Table Owner × Option CStr) : Prop where
  holds : Holds spawned.2.1 owner (if spawned.2.2.isNone then openFiles spawned.1 else [])
  spares : Spares owner t spawned.2.1
  rightful : (∀ c ∈ t.closes, Rightful c) → ∀ c ∈ spawned.2.1.closes, Rightful c
  conserved : Conserved t → Conserved spawned.2.1

private theorem sides_perm (a b c d e f : Nat) : [a, b, c, d, e, f].Perm [a, c, e, b, d, f] := by
  rw [List.perm_iff_count]
  intro number
  simp only [List.count_cons, List.count_nil]
  omega

private theorem ends_perm (a b c d e f : Nat) : [a, b, c, d, e, f].Perm ([a, d, f] ++ [b, c, e]) := by
  rw [List.perm_iff_count]
  intro number
  simp only [List.cons_append, List.nil_append, List.count_cons, List.count_nil]
  omega

theorem spawn_opens {choice : SpawnChoice} (opens : Opens choice) (nothing : Holds t owner []) :
    Spawned owner t (spawnStreams choice owner t) := by
  obtain ⟨piped, p, after, numbers, result, unopened, gained, works, fails⟩ := openPipes_gains choice nothing
  cases piped with
  | false => exact absurd opens.pipes (fails rfl).1
  | true =>
    have before : ∀ {closes}, closes = t.closes → (∀ c ∈ t.closes, Rightful c) → ∀ c ∈ closes, Rightful c := by
      intro _ equal rightful
      subst equal
      exact rightful
    rw [(works rfl).2] at gained
    cases started : choice.spawned with
    | error err =>
      have all : Holds after owner (streamNumbers p ++ []) := by
        rw [streamNumbers, unopened]
        exact gained.holds.perm (sides_perm ..)
      obtain ⟨holds, spares, rightful⟩ := all.closeAll
      have same : spawnStreams choice owner t = ((procCloseStreams owner p after).1, (procCloseStreams owner p after).2,
          some (message (.lit "posix_spawnp(): ") err)) := by
        simp only [spawnStreams, result, started]
        rfl
      rw [same, procCloseStreams_table]
      exact ⟨holds, gained.spares.trans spares, fun old => rightful (before gained.closes old),
        fun conserved => (gained.conserved conserved).closeAll owner _⟩
    | ok pid =>
      obtain ⟨fdopenIn, fdopenOut, fdopenErr⟩ := opens.streams pid started
      have all : Holds after owner ([p.pin.1, p.pout.2, p.perr.2] ++ [p.pin.2, p.pout.1, p.perr.1]) :=
        gained.holds.perm (ends_perm ..)
      obtain ⟨holds, spares, rightful⟩ := all.closeAll
      have same : spawnStreams choice owner t = ({ p with
          pid
          inFile := some p.pin.2
          outFile := some p.pout.1
          errFile := some p.perr.1 }, after.closeAll owner [p.pin.1, p.pout.2, p.perr.2], none) := by
        simp only [spawnStreams, result, started, fdopenIn, fdopenOut, fdopenErr]
        rfl
      rw [same]
      exact ⟨holds, gained.spares.trans spares, fun old => rightful (before gained.closes old),
        fun conserved => (gained.conserved conserved).closeAll owner _⟩

theorem spawn_fails {choice : SpawnChoice} (fails : ¬ Opens choice) (nothing : Holds t owner []) :
    ∃ p before, (spawnStreams choice owner t).2.1 = (procCloseStreams owner p before).2 ∧ before.owned owner < 6 := by
  obtain ⟨piped, p, after, numbers, result, unopened, gained, works, broken⟩ := openPipes_gains choice nothing
  cases piped with
  | false =>
    refine ⟨p, after, ?_, ?_⟩
    · simp only [spawnStreams, result]
      rfl
    · rw [gained.holds.owned]
      exact (broken rfl).2
  | true =>
    rw [(works rfl).2] at gained
    cases started : choice.spawned with
    | error err => exact absurd ⟨(works rfl).1, fun pid other => by rw [started] at other; cases other⟩ fails
    | ok pid =>
      have unopened_stream : ¬ (choice.fdopenIn = true ∧ choice.fdopenOut = true ∧ choice.fdopenErr = true) :=
        fun streams =>
        fails ⟨(works rfl).1, fun _ _ => streams⟩
      have all : Holds after owner ([p.pin.1, p.pout.2, p.perr.2] ++ [p.pin.2, p.pout.1, p.perr.1]) :=
        gained.holds.perm (ends_perm ..)
      refine ⟨{ p with
        pid
        inFile := fdopen choice.fdopenIn p.pin.2
        outFile := fdopen choice.fdopenOut p.pout.1
        errFile := fdopen choice.fdopenErr p.perr.1 }, after.closeAll owner [p.pin.1, p.pout.2, p.perr.2], ?_, ?_⟩
      · simp only [spawnStreams, result, started]
        cases fdopenIn : choice.fdopenIn <;> cases fdopenOut : choice.fdopenOut <;>
          cases fdopenErr : choice.fdopenErr <;>
          first | rfl | exact absurd ⟨fdopenIn, fdopenOut, fdopenErr⟩ unopened_stream
      · rw [all.closeAll.holds.owned]
        simp

variable {w : World}

theorem World.handle_some {index : Nat} {handle : Handle} (found : w.handle index = some handle) :
    w.handles[index]? = some handle ∧ handle.returned = true := by
  simpa [World.handle, Option.filter_eq_some_iff] using found

theorem Safe.table (safe : Safe w) {after : Table Owner} (spares : Spares .other w.table after)
    (rightful : ∀ c ∈ after.closes, Rightful c) (conserved : Conserved after) : Safe { w with table := after } :=
  ⟨conserved, rightful, fun index => (safe.holds index).spared spares (by simp), safe.alive⟩

theorem Safe.put (safe : Safe w) {index : Nat} {handle : Handle} (found : w.handle index = some handle)
    {proc : LModuleProc}
    {after : Table Owner} (holds : Holds after (.handle index) (openFiles proc))
    (spares : Spares (.handle index) w.table after) (rightful : ∀ c ∈ after.closes, Rightful c)
    (conserved : Conserved after) : Safe (w.put index { handle with proc } after) := by
  obtain ⟨there, returned⟩ := World.handle_some found
  have inside : index < w.handles.length := (List.getElem?_eq_some_iff.mp there).1
  refine ⟨conserved, rightful, ?_, ?_⟩
  · intro other
    by_cases same : other = index
    · simpa [same, heldBy, World.put, inside, returned] using holds
    · have unchanged : heldBy (w.put index { handle with proc } after) other = heldBy w other := by
        simp [heldBy, World.put, List.getElem?_set_ne (Ne.symm same)]
      rw [unchanged]
      exact (safe.holds other).spared spares (by simpa using same)
  · intro other changed found'
    by_cases same : other = index
    · obtain rfl : { handle with proc } = changed := by simpa [World.put, same, inside] using found'
      exact safe.alive index handle there
    · exact safe.alive other changed (by simpa [World.put, List.getElem?_set_ne (Ne.symm same)] using found')

theorem Safe.held (safe : Safe w) {index : Nat} {handle : Handle} (found : w.handle index = some handle) :
    Holds w.table (.handle index) (openFiles handle.proc) := by
  obtain ⟨there, returned⟩ := World.handle_some found
  simpa [heldBy, there, returned] using safe.holds index

theorem openFiles_drop {p : LModuleProc} {stream : Stream} {number : Nat} (file : p.file stream = some number) :
    (openFiles p).Perm ([number] ++ openFiles (p.dropFile stream)) := by
  obtain ⟨pid, inFile, outFile, errFile, pin, pout, perr⟩ := p
  rw [List.perm_iff_count]
  intro other
  cases stream with
  | out =>
    obtain rfl : outFile = some number := file
    cases inFile <;> cases errFile <;> simp [openFiles, LModuleProc.dropFile, List.count_cons] <;> omega
  | err =>
    obtain rfl : errFile = some number := file
    cases inFile <;> cases outFile <;> simp [openFiles, LModuleProc.dropFile, List.count_cons] <;> omega

theorem read_step (safe : Safe w) {index : Nat} {handle : Handle} (found : w.handle index = some handle)
    (which : Option CStr) (got : List UInt8) : Safe (step w (.read index which got)) := by
  have held := safe.held found
  have same : Safe (w.put index { handle with proc := handle.proc } w.table) :=
    safe.put found held (.refl _ _) safe.rightful safe.conserved
  simp only [Proc.step, found, lModuleProcRead]
  cases streamOf which with
  | error err => exact same
  | ok stream =>
    cases file : handle.proc.file stream with
    | none => simpa only [file] using same
    | some number =>
      by_cases waited : handle.proc.pid = 0
      · obtain ⟨holds, spares, rightful⟩ := (held.perm (openFiles_drop file)).closeAll
        simp only [file, if_pos waited]
        exact safe.put found holds spares (rightful safe.rightful) (safe.conserved.close _ _)
      · simpa only [file, if_neg waited] using same

theorem wait_step (safe : Safe w) {index : Nat} {handle : Handle} (found : w.handle index = some handle)
    (result : WaitResult) : Safe (step w (.wait index result)) := by
  have files : openFiles (lModuleProcWait result handle.proc).1 = openFiles handle.proc := by
    unfold lModuleProcWait
    split
    · rfl
    · cases result <;> rfl
  simp only [Proc.step, found]
  exact safe.put found (files ▸ safe.held found) (.refl _ _) safe.rightful safe.conserved

theorem spawn_step (safe : Safe w) {argv : List CStr} {choice : SpawnChoice} (opens : argv.length = 0 ∨ Opens choice) :
    Safe (step w (.spawn argv choice)) := by
  by_cases empty : argv.length = 0
  · simpa [Proc.step, lModuleProcSpawn, empty] using safe
  have nothing : Holds w.table (.handle w.handles.length) [] := by
    simpa [heldBy] using safe.holds w.handles.length
  obtain ⟨holds, spares, rightful, conserved⟩ := spawn_opens (opens.resolve_left empty) nothing
  let spawned := spawnStreams choice (.handle w.handles.length) w.table
  let after : World := {
    table := spawned.2.1
    handles := w.handles ++ [{ proc := spawned.1, returned := spawned.2.2.isNone }] }
  have same : step w (.spawn argv choice) = after := by
    cases failed : spawned.2.2 <;> simp [Proc.step, lModuleProcSpawn, empty, after, spawned, failed]
  rw [same]
  refine ⟨conserved safe.conserved, rightful safe.rightful, ?_, ?_⟩
  · intro index
    by_cases last : index = w.handles.length
    · simpa [after, heldBy, last] using holds
    · have place : after.handles[index]? = w.handles[index]? := by
        rw [List.getElem?_append]
        split
        · rfl
        · rw [List.getElem?_eq_none (by simp; omega), List.getElem?_eq_none (by omega)]
      have unchanged : heldBy after index = heldBy w index := by rw [heldBy, heldBy, place]
      rw [unchanged]
      exact (safe.holds index).spared spares (by simpa using last)
  · intro index handle found
    rw [List.getElem?_append] at found
    split at found
    · exact safe.alive index handle found
    · obtain ⟨_, rfl⟩ := List.getElem?_eq_some_iff.mp found
      simp

theorem Safe.stepped (safe : Safe w) {op : Op} (avoids : Avoids w op) : Safe (step w op) := by
  cases op with
  | spawn argv choice => exact spawn_step safe avoids
  | write index written => exact safe
  | read index which got =>
    cases found : w.handle index with
    | none => simpa [Proc.step, found] using safe
    | some handle => exact read_step safe found which got
  | wait index result =>
    cases found : w.handle index with
    | none => simpa [Proc.step, found] using safe
    | some handle => exact wait_step safe found result
  | kill index result =>
    have absent : w.handle index = none := avoids
    simpa [Proc.step, absent] using safe
  | openOther =>
    exact safe.table (openLowest_spares .other w.table) safe.rightful (safe.conserved.openLowest .other)
  | closeOther number =>
    simp only [Proc.step]
    split
    next own =>
      obtain ⟨d, found, same⟩ := (Option.any_eq_true _ _).mp own
      have owns : w.table.Owns .other number := ⟨d, found, by simpa using same⟩
      refine safe.table (close_spares owns) ?_ (safe.conserved.close _ _)
      intro c told
      rcases List.mem_append.mp told with old | new
      · exact safe.rightful c old
      · rw [List.mem_singleton] at new
        subst new
        exact owns
    next => exact safe

/-- A step that is not avoided closes a descriptor its handle does not have. -/
theorem Safe.avoids (safe : Safe w) {op : Op} (proper : Proper (step w op)) : Avoids w op := by
  cases op with
  | spawn argv choice =>
    by_cases empty : argv.length = 0
    · exact .inl empty
    refine .inr ?_
    by_contra fails
    have nothing : Holds w.table (.handle w.handles.length) [] := by
      simpa [heldBy] using safe.holds w.handles.length
    obtain ⟨p, before, table, few⟩ := spawn_fails fails nothing
    refine closeStreams_improper (p := p) few ?_ proper
    rw [← table]
    simp only [Proc.step, lModuleProcSpawn, if_neg empty]
    cases (spawnStreams choice (.handle w.handles.length) w.table).2.2 <;> rfl
  | kill index result =>
    show w.handle index = none
    by_contra present
    obtain ⟨handle, found⟩ := Option.ne_none_iff_exists'.mp present
    have few : w.table.owned (.handle index) < 6 := by
      rw [(safe.held found).owned]
      have three : (openFiles handle.proc).length ≤ 3 := List.length_filterMap_le ..
      omega
    refine closeStreams_improper (p := handle.proc) few ?_ proper
    simp only [Proc.step, found, lModuleProcKill]
    cases lModuleProcWait result (procCloseStreams (.handle index) handle.proc w.table).1 with
    | mk proc reply => cases reply <;> rfl
  | _ => trivial

/-- In a run each descriptor is closed once and by its owner exactly when no handle is
killed and no spawn fails in pipe or fdopen. -/
theorem descriptors_proper_iff (ops : List Op) :
    (∀ done rest, ops = done ++ rest → Proper (run {} done)) ↔
      ∀ done op rest, ops = done ++ op :: rest → Avoids (run {} done) op := by
  constructor
  · intro proper
    have safe : ∀ done rest, ops = done ++ rest → Safe (run {} done) := by
      intro done
      induction done using List.reverseRecOn with
      | nil => exact fun _ _ => safe_start
      | append_singleton done op ih =>
        intro rest split
        have before := ih (op :: rest) (by simpa using split)
        have stepped : run {} (done ++ [op]) = step (run {} done) op := by simp [run]
        rw [stepped]
        exact before.stepped (before.avoids (stepped ▸ proper (done ++ [op]) rest split))
    intro done op rest split
    have stepped : run {} (done ++ [op]) = step (run {} done) op := by simp [run]
    exact (safe done (op :: rest) split).avoids (stepped ▸ proper (done ++ [op]) rest (by simpa using split))
  · intro avoids done rest equal
    subst equal
    have kept : ∀ world op, Safe world → Avoids world op → Safe (step world op) :=
      fun _ _ safe avoided => safe.stepped avoided
    have safe : Safe (run {} done) := Steps.run_invariant kept safe_start fun before op after split =>
      avoids before op (after ++ rest) (by simp [split])
    exact safe.proper

/-- A process is spawned and killed, another one is spawned, and the first is killed again. -/
def killedAgain : List Op :=
  let works : SpawnChoice := {
    pin := true, pout := true, perr := true, spawned := .ok 100
    fdopenIn := true, fdopenOut := true, fdopenErr := true, pipeError := .lit "" }
  [.openOther, .openOther, .openOther, .spawn [.lit "a"] works, .kill 0 (.signaled 15), .spawn [.lit "b"] works,
    .kill 0 .running]

theorem killed_again_closes_other : ¬ Proper (run {} killedAgain) := by
  intro proper
  have told : { caller := .handle 0, number := 4, hit := some { serial := 10, owner := .handle 1 } } ∈
      (run {} killedAgain).table.closes := by decide
  obtain ⟨d, hit, own⟩ := proper.own _ told 0 rfl
  cases hit
  cases own

end Ltf.Proofs.ProcDescriptors
