import Ltf.Base.Steps
import Ltf.LuaHooks

/-! The recorder pushes and pops by name. Its stack follows the live frames as long as no
frame it has an entry for goes without a return event. -/

namespace Ltf.Proofs.KeywordStack
open CString Ltf.Keywords Ltf.LuaHooks

/-- The frames the recorder is to have an entry for: named Lua functions of whitelisted files. -/
def tracked (whitelist : List (Option CStr)) (f : LuaFrame) : Bool :=
  f.what == .lua && f.name.isSome && whitelisted whitelist f.source

def entered (m : Machine) : List Nat := m.recorder.keywordStack.map (·.frame)

def live (whitelist : List (Option CStr)) (m : Machine) : List Nat := (m.frames.filter (tracked whitelist)).map (·.id)

/-- The stack has one entry for each live tracked frame, in their order, and no other. -/
def Mirrors (whitelist : List (Option CStr)) (m : Machine) : Prop := entered m = live whitelist m

/-- The pointer the recorder follows when it is told of a call in a source. -/
def followedByCall (r : Recorder) (src : CStr) : Option KeywordPtr :=
  if r.keywordStack.head?.any (·.inBlacklist) && inBlacklistDir r.blacklistDir src then none
  else r.keywordStack.head?.bind (·.kw)

def followedByRet (r : Recorder) : Option KeywordPtr :=
  r.keywordStack.head?.bind fun entry => if entry.ignored then none else entry.kw

/-- The pointer a step makes the recorder follow, if any. -/
def followed (whitelist : List (Option CStr)) (m : Machine) : LuaOp → Option KeywordPtr
  | .call what name source linedefined _ =>
    if tracked whitelist { id := m.nextFrame, what, name, source, linedefined }
    then followedByCall m.recorder (hookSource source) else none
  | .ret _ => if m.frames.head?.any (tracked whitelist) then followedByRet m.recorder else none
  | _ => none

/-- The pointer that is followed still leads into its array. -/
def PointerLive (whitelist : List (Option CStr)) (m : Machine) (op : LuaOp) : Prop :=
  ∀ p, followed whitelist m op = some p → (m.recorder.deref p).isSome

/-- A tracked frame goes without a return event. -/
def LosesFrame (whitelist : List (Option CStr)) (m : Machine) : LuaOp → Prop
  | .tailCall .. => m.frames.head?.any (tracked whitelist) = true
  | .unwind count => (m.frames.take count).any (tracked whitelist) = true
  | _ => False

variable {whitelist : List (Option CStr)}

section Recorder
variable {r after : Recorder} {ar : LuaDebug} {name : CStr}

theorem masterHook_untracked {f : LuaFrame} (untracked : tracked whitelist f = false) (kind : HookKind) (now : CStr)
    (r : Recorder) :
    masterHook whitelist kind now f.debug r = some r := by
  unfold masterHook
  cases listed : whitelisted whitelist f.source with
  | false => simp [LuaFrame.debug, listed]
  | true =>
    by_cases lua : f.what = .lua
    · have unnamed : f.name = none := by simpa [tracked, listed, lua] using untracked
      cases kind <;> simp [LuaFrame.debug, listed, callHook, retHook, unnamed]
    · cases kind <;> simp [LuaFrame.debug, listed, callHook, retHook, lua]

theorem call_recorded (running : r.testRunning = true) (lua : ar.what = .lua) (named : ar.name = some name)
    (now src : CStr) :
    ((callHook now ar src r).isSome ↔ ∀ p, followedByCall r src = some p → (r.deref p).isSome) ∧
      ∀ after, callHook now ar src r = some after → after.testRunning = true ∧
        after.keywordStack.map (·.frame) = ar.frame :: r.keywordStack.map (·.frame) := by
  simp only [callHook, running, lua, named, followedByCall]
  cases ignored : r.keywordStack.head?.any (·.inBlacklist) && inBlacklistDir r.blacklistDir src with
  | true =>
    refine ⟨by simp, ?_⟩
    intro after ran
    obtain rfl : _ = after := by simpa using ran
    exact ⟨running, rfl⟩
  | false =>
    cases parent : r.keywordStack.head?.bind (·.kw) with
    | none =>
      refine ⟨by simp, ?_⟩
      intro after ran
      obtain rfl : _ = after := by simpa using ran
      exact ⟨running, rfl⟩
    | some p =>
      cases node : r.deref p with
      | none => simp [node]
      | some tree =>
        refine ⟨by simp [node], ?_⟩
        intro after ran
        obtain rfl : _ = after := by simpa [node] using ran
        exact ⟨running, rfl⟩

theorem ret_recorded (running : r.testRunning = true) (lua : ar.what = .lua) (named : ar.name = some name)
    (now : CStr) :
    ((retHook now ar r).isSome ↔ ∀ p, followedByRet r = some p → (r.deref p).isSome) ∧
      ∀ after, retHook now ar r = some after → after.testRunning = true ∧
        after.keywordStack.map (·.frame) = (r.keywordStack.map (·.frame)).tail := by
  simp only [retHook, running, lua, named, followedByRet]
  cases stack : r.keywordStack with
  | nil =>
    refine ⟨by simp, ?_⟩
    intro after ran
    obtain rfl : r = after := by simpa using ran
    exact ⟨running, by simp [stack]⟩
  | cons entry rest =>
    cases kw : entry.kw with
    | none =>
      refine ⟨by simp [kw], ?_⟩
      intro after ran
      obtain rfl : _ = after := by simpa [kw] using ran
      exact ⟨rfl, rfl⟩
    | some p =>
      cases ignored : entry.ignored with
      | true =>
        refine ⟨by simp [kw, ignored], ?_⟩
        intro after ran
        obtain rfl : _ = after := by simpa [kw, ignored] using ran
        exact ⟨rfl, rfl⟩
      | false =>
        have popped : ∀ running, Recorder.deref { r with testRunning := running, keywordStack := rest } p = r.deref p :=
          fun _ => rfl
        cases node : r.deref p with
        | none => simp [kw, ignored, popped, node]
        | some tree =>
          refine ⟨by simp [kw, ignored, popped, node], ?_⟩
          intro after ran
          obtain rfl : _ = after := by simpa [kw, ignored, popped, node] using ran
          exact ⟨rfl, rfl⟩

end Recorder

section Step
variable {m after : Machine}

theorem masterHook_call {f : LuaFrame} (track : tracked whitelist f = true) (now : CStr) (r : Recorder) :
    masterHook whitelist .call now f.debug r = callHook now f.debug (hookSource f.source) r := by
  have listed : whitelisted whitelist f.source = true := by simp_all [tracked]
  simp [masterHook, LuaFrame.debug, listed]

theorem masterHook_ret {f : LuaFrame} (track : tracked whitelist f = true) (now : CStr) (r : Recorder) :
    masterHook whitelist .ret now f.debug r = retHook now f.debug r := by
  have listed : whitelisted whitelist f.source = true := by simp_all [tracked]
  simp [masterHook, LuaFrame.debug, listed]

theorem tracked_named {f : LuaFrame} (track : tracked whitelist f = true) :
    f.what = .lua ∧ ∃ name, f.name = some name := by
  simp only [tracked, Bool.and_eq_true, beq_iff_eq, Option.isSome_iff_exists] at track
  exact track.1

theorem tailCalled_untracked (id : Nat) (what : What) (source : CStr) (linedefined : Int) :
    tracked whitelist { id, what, name := none, source, linedefined } = false := by
  simp [tracked]

theorem isSome_bind_some {α β : Type} (value : Option α) (f : α → β) :
    (value.bind fun x => some (f x)).isSome = value.isSome := by
  cases value <;> rfl

theorem luaStep_isSome (running : m.recorder.testRunning = true) (op : LuaOp) :
    (luaStep whitelist m op).isSome ↔ PointerLive whitelist m op := by
  cases op with
  | call what name source linedefined now =>
    cases track : tracked whitelist { id := m.nextFrame, what, name, source, linedefined } with
    | true =>
      obtain ⟨lua, name, named⟩ := tracked_named track
      simp only [luaStep, masterHook_call track, PointerLive, followed, track, if_true, Option.bind_eq_bind,
        Option.pure_def, isSome_bind_some]
      exact (call_recorded running lua named now (hookSource source)).1
    | false => simp [luaStep, masterHook_untracked track, PointerLive, followed, track]
  | tailCall what source linedefined now =>
    cases frames : m.frames with
    | nil => simp [luaStep, frames, PointerLive, followed]
    | cons frame rest =>
      simp [luaStep, frames, PointerLive, followed, masterHook_untracked (tailCalled_untracked _ _ _ _)]
  | ret now =>
    cases frames : m.frames with
    | nil => simp [luaStep, frames, PointerLive, followed]
    | cons frame rest =>
      cases track : tracked whitelist frame with
      | true =>
        obtain ⟨lua, name, named⟩ := tracked_named track
        simp only [luaStep, frames, masterHook_ret track, PointerLive, followed, List.head?_cons, Option.any_some,
          track, if_true, Option.bind_eq_bind, Option.pure_def, isSome_bind_some]
        exact (ret_recorded running lua named now).1
      | false => simp [luaStep, frames, masterHook_untracked track, PointerLive, followed, track]
  | unwind count => simp [luaStep, PointerLive, followed]

/-- What a step does to the stack and to the live frames. -/
inductive Moved (whitelist : List (Option CStr)) (m after : Machine) : LuaOp → Prop where
  | pushed {what name source linedefined now} (entry : entered after = m.nextFrame :: entered m)
      (frame : live whitelist after = m.nextFrame :: live whitelist m) :
      Moved whitelist m after (.call what name source linedefined now)
  | passed {op} (entry : entered after = entered m) (frame : live whitelist after = live whitelist m)
      (keeps : ¬ LosesFrame whitelist m op) : Moved whitelist m after op
  | popped {now} (id : Nat) (entry : entered after = (entered m).tail)
      (frame : live whitelist m = id :: live whitelist after) :
      Moved whitelist m after (.ret now)
  | lost {op} (ids : List Nat) (some : ids ≠ []) (entry : entered after = entered m)
      (frame : live whitelist m = ids ++ live whitelist after) (loses : LosesFrame whitelist m op) :
      Moved whitelist m after op

theorem live_unwind (m : Machine) (count : Nat) : live whitelist m =
    ((m.frames.take count).filter (tracked whitelist)).map (·.id) ++
      live whitelist { m with frames := m.frames.drop count } := by
  unfold live
  rw [← List.map_append, ← List.filter_append, List.take_append_drop]

theorem luaStep_moved (running : m.recorder.testRunning = true) {op : LuaOp}
    (ran : luaStep whitelist m op = some after) :
    after.recorder.testRunning = true ∧ Moved whitelist m after op := by
  cases op with
  | call what name source linedefined now =>
    cases track : tracked whitelist { id := m.nextFrame, what, name, source, linedefined } with
    | true =>
      obtain ⟨lua, name, named⟩ := tracked_named track
      simp only [luaStep, masterHook_call track, Option.bind_eq_bind, Option.bind_eq_some_iff, Option.pure_def,
        Option.some.injEq] at ran
      obtain ⟨recorder, hook, rfl⟩ := ran
      obtain ⟨running, stack⟩ := (call_recorded running lua named now (hookSource source)).2 recorder hook
      exact ⟨running, .pushed stack (by simp [live, track])⟩
    | false =>
      obtain rfl : _ = after := by simpa [luaStep, masterHook_untracked track] using ran
      exact ⟨running, .passed rfl (by simp [live, track]) (by simp [LosesFrame])⟩
  | tailCall what source linedefined now =>
    cases frames : m.frames with
    | nil =>
      obtain rfl : m = after := by simpa [luaStep, frames] using ran
      exact ⟨running, .passed rfl rfl (by simp [LosesFrame, frames])⟩
    | cons frame rest =>
      have unnamed : tracked whitelist { id := m.nextFrame, what, name := none, source, linedefined } = false :=
        tailCalled_untracked _ _ _ _
      obtain rfl : _ = after := by simpa [luaStep, frames, masterHook_untracked unnamed] using ran
      refine ⟨running, ?_⟩
      cases track : tracked whitelist frame with
      | true =>
        exact .lost [frame.id] (by simp) rfl (by simp [live, frames, track, unnamed])
          (by simp [LosesFrame, frames, track])
      | false => exact .passed rfl (by simp [live, frames, track, unnamed]) (by simp [LosesFrame, frames, track])
  | ret now =>
    cases frames : m.frames with
    | nil =>
      obtain rfl : m = after := by simpa [luaStep, frames] using ran
      exact ⟨running, .passed rfl rfl (by simp [LosesFrame])⟩
    | cons frame rest =>
      cases track : tracked whitelist frame with
      | true =>
        obtain ⟨lua, name, named⟩ := tracked_named track
        simp only [luaStep, frames, masterHook_ret track, Option.bind_eq_bind, Option.bind_eq_some_iff, Option.pure_def,
          Option.some.injEq] at ran
        obtain ⟨recorder, hook, rfl⟩ := ran
        obtain ⟨running, stack⟩ := (ret_recorded running lua named now).2 recorder hook
        exact ⟨running, .popped frame.id stack (by simp [live, frames, track])⟩
      | false =>
        obtain rfl : _ = after := by simpa [luaStep, frames, masterHook_untracked track] using ran
        exact ⟨running, .passed rfl (by simp [live, frames, track]) (by simp [LosesFrame])⟩
  | unwind count =>
    obtain rfl : _ = after := by simpa [luaStep] using ran
    refine ⟨running, ?_⟩
    cases any : (m.frames.take count).any (tracked whitelist) with
    | true => exact .lost _ (by simpa using any) rfl (live_unwind m count) any
    | false =>
      have none : (m.frames.take count).filter (tracked whitelist) = [] := by simpa using any
      exact .passed rfl (by rw [live_unwind m count, none]; rfl) (by simp [LosesFrame, any])

theorem Moved.mirrors {op : LuaOp} (moved : Moved whitelist m after op) (keeps : ¬ LosesFrame whitelist m op)
    (mirrors : Mirrors whitelist m) : Mirrors whitelist after := by
  unfold Mirrors at *
  cases moved with
  | pushed entry frame => rw [entry, frame, mirrors]
  | passed entry frame => rw [entry, frame, mirrors]
  | popped id entry frame => rw [entry, mirrors, frame, List.tail_cons]
  | lost _ _ _ _ loses => exact absurd loses keeps

/-- A call that leaves the stack in line has found it so. -/
theorem Moved.mirrored {what : What} {name : Option CStr} {source now : CStr} {linedefined : Int}
    (moved : Moved whitelist m after (.call what name source linedefined now)) (mirrors : Mirrors whitelist after) :
    Mirrors whitelist m := by
  unfold Mirrors at *
  cases moved with
  | pushed entry frame =>
    rw [entry, frame] at mirrors
    exact (List.cons.inj mirrors).2
  | passed entry frame => rwa [entry, frame] at mirrors
  | lost _ _ _ _ loses => exact absurd loses (by simp [LosesFrame])

/-- Entries that are left over are never made up for, and a lost frame leaves another. -/
theorem Moved.behind {op : LuaOp} {spare : Nat} (moved : Moved whitelist m after op)
    (behind : (live whitelist m).length + spare ≤ (entered m).length) :
    (live whitelist after).length + spare ≤ (entered after).length ∧
      (LosesFrame whitelist m op → (live whitelist after).length < (entered after).length) := by
  cases moved with
  | pushed entry frame => simp [entry, frame, LosesFrame]; omega
  | passed entry frame keeps => exact ⟨by rwa [entry, frame], fun loses => absurd loses keeps⟩
  | popped id entry frame =>
    rw [frame, List.length_cons] at behind
    simp [entry, LosesFrame]
    omega
  | lost ids some entry frame loses =>
    have nonempty := List.length_pos_of_ne_nil some
    rw [frame, List.length_append] at behind
    rw [entry]
    omega

end Step

/-- Lua as it calls the body of a test that has just started. -/
def bodyCalled (r : Recorder) : Machine where
  recorder := keywordStatusTestStarted r

/-- The frame whose keyword has a function that is called now among its children. -/
def parentFrame (m : Machine) : Option Nat := m.recorder.keywordStack.head?.map (·.frame)

/-- The frame a call is recorded under is a live one. -/
def CalledByLive (whitelist : List (Option CStr)) (r : Recorder) (done : List LuaOp) : Prop :=
  ∀ before what name source linedefined now, done = before ++ [.call what name source linedefined now] →
    ∀ m, luaRun whitelist (bodyCalled r) before = some m → ∀ id, parentFrame m = some id → id ∈ live whitelist m

/-- The run gets as far as `done`, and if it ends in a hook event the stack is in line after
it, and a call that it ends in is not recorded under a frame that has ended. -/
def Balanced (whitelist : List (Option CStr)) (r : Recorder) (done : List LuaOp) : Prop :=
  ∃ after, luaRun whitelist (bodyCalled r) done = some after ∧
    (∀ op, done.getLast? = some op → op.isHook = true → Mirrors whitelist after) ∧ CalledByLive whitelist r done

section Run
variable {r : Recorder}

theorem luaRun_append {m after : Machine} {first second : List LuaOp} :
    luaRun whitelist m (first ++ second) = some after ↔
    ∃ middle, luaRun whitelist m first = some middle ∧ luaRun whitelist middle second = some after := by
  simp [luaRun, List.foldlM_append, Option.bind_eq_some_iff]

theorem luaRun_cons {m after : Machine} {op : LuaOp} {ops : List LuaOp} : luaRun whitelist m (op :: ops) = some after ↔
    ∃ middle, luaStep whitelist m op = some middle ∧ luaRun whitelist middle ops = some after := by
  simp [luaRun, List.foldlM_cons, Option.bind_eq_some_iff]

theorem luaRun_behind {ops : List LuaOp} {m after : Machine} {spare : Nat} (running : m.recorder.testRunning = true)
    (behind : (live whitelist m).length + spare ≤ (entered m).length) (ran : luaRun whitelist m ops = some after) :
    after.recorder.testRunning = true ∧ (live whitelist after).length + spare ≤ (entered after).length := by
  induction ops generalizing m with
  | nil =>
    obtain rfl : m = after := by simpa [luaRun] using ran
    exact ⟨running, behind⟩
  | cons op ops ih =>
    obtain ⟨middle, step, rest⟩ := luaRun_cons.mp ran
    obtain ⟨running, moved⟩ := luaStep_moved running step
    exact ih running (moved.behind behind).1 rest

theorem body_behind {done : List LuaOp} {after : Machine} (ran : luaRun whitelist (bodyCalled r) done = some after) :
    after.recorder.testRunning = true ∧ (live whitelist after).length + 0 ≤ (entered after).length := by
  apply luaRun_behind _ _ ran
  · rfl
  · simp [live, bodyCalled]

/-- While no frame is lost before a hook event, each step runs and keeps the stack in line. -/
theorem luaRun_balanced {done : List LuaOp} : ∀ {rest : List LuaOp},
    (∀ before op later, done = before ++ op :: later → ∀ m, luaRun whitelist (bodyCalled r) before = some m →
      PointerLive whitelist m op ∧ (LosesFrame whitelist m op →
        ∀ other ∈ op :: (later ++ rest), other.isHook = false)) →
    ∃ after, luaRun whitelist (bodyCalled r) done = some after ∧ after.recorder.testRunning = true ∧
      (Mirrors whitelist after ∨ ∀ other ∈ rest, other.isHook = false) ∧
      (∀ op, done.getLast? = some op → op.isHook = true → Mirrors whitelist after) := by
  induction done using List.reverseRecOn with
  | nil => exact fun _ => ⟨_, rfl, rfl, .inl rfl, by simp⟩
  | append_singleton done op ih =>
    intro rest keeps
    obtain ⟨m, ran, running, mirrors, -⟩ := @ih (op :: rest) fun before other later split => by
      simpa using keeps before other (later ++ [op]) (by simp [split])
    obtain ⟨pointer, loses⟩ := keeps done op [] rfl m ran
    obtain ⟨after, step⟩ := Option.isSome_iff_exists.mp ((luaStep_isSome running op).mpr pointer)
    obtain ⟨running, moved⟩ := luaStep_moved running step
    refine ⟨after, luaRun_append.mpr ⟨m, ran, luaRun_cons.mpr ⟨after, step, rfl⟩⟩, running, ?_, ?_⟩
    · rcases mirrors with mirrors | quiet
      · by_cases lost : LosesFrame whitelist m op
        · exact .inr fun other inside => loses lost other (by simp [inside])
        · exact .inl (moved.mirrors lost mirrors)
      · exact .inr fun other inside => quiet other (by simp [inside])
    · intro last ends hook
      obtain rfl : op = last := by simpa using ends
      have kept : ¬ LosesFrame whitelist m op := fun lost => by simp [loses lost op] at hook
      rcases mirrors with mirrors | quiet
      · exact moved.mirrors kept mirrors
      · simp [quiet op] at hook

/-- While the stack is in line after a call, the call is not recorded under an ended frame. -/
theorem calledByLive_of_mirrors {done : List LuaOp} {after : Machine}
    (ran : luaRun whitelist (bodyCalled r) done = some after)
    (mirrors : ∀ op, done.getLast? = some op → op.isHook = true → Mirrors whitelist after) :
    CalledByLive whitelist r done := by
  intro before what name source linedefined now split m reached id parent
  subst split
  obtain ⟨m', reached', called⟩ := luaRun_append.mp ran
  obtain rfl : m = m' := by simpa [reached] using reached'
  obtain ⟨last, step, rest⟩ := luaRun_cons.mp called
  obtain rfl : last = after := by simpa [luaRun] using rest
  obtain ⟨running, -⟩ := body_behind reached
  have found : Mirrors whitelist m := (luaStep_moved running step).2.mirrored (mirrors _ List.getLast?_concat rfl)
  have inside : id ∈ entered m := by
    obtain ⟨entry, top, rfl⟩ := Option.map_eq_some_iff.mp parent
    exact List.mem_map.mpr ⟨entry, List.mem_of_head? top, rfl⟩
  rwa [found] at inside

end Run

/-- The stack is in line after every hook event, and no call is recorded under an ended
frame, exactly when no step follows a pointer into an array that has moved and no tracked
frame is lost at or before a hook event. -/
theorem keyword_stack_iff (whitelist : List (Option CStr)) (r : Recorder) (ops : List LuaOp) :
    (∀ done rest, ops = done ++ rest → Balanced whitelist r done) ↔
      ∀ done op rest, ops = done ++ op :: rest → ∀ m, luaRun whitelist (bodyCalled r) done = some m →
        PointerLive whitelist m op ∧ (LosesFrame whitelist m op → ∀ later ∈ op :: rest, later.isHook = false) := by
  constructor
  · intro balanced done op rest split m ran
    obtain ⟨running, behind⟩ := body_behind ran
    constructor
    · obtain ⟨after, ran', -, -⟩ := balanced (done ++ [op]) rest (by simp [split])
      obtain ⟨m', ran', step⟩ := luaRun_append.mp ran'
      obtain rfl : m = m' := by simpa [ran] using ran'
      obtain ⟨after, step, -⟩ := luaRun_cons.mp step
      exact (luaStep_isSome running op).mp (by simp [step])
    · intro loses later inside
      by_contra hook
      -- up to that hook event the stack keeps the entry of the lost frame
      obtain ⟨between, remaining, ends⟩ : ∃ between remaining, op :: rest = op :: between ++ remaining ∧
          (op :: between).getLast? = some later := by
        obtain ⟨before, remaining, found⟩ := List.append_of_mem inside
        cases before with
        | nil =>
          obtain ⟨rfl, rfl⟩ : op = later ∧ rest = remaining := by simpa using found
          exact ⟨[], rest, rfl, rfl⟩
        | cons first before =>
          obtain ⟨rfl, rfl⟩ : op = first ∧ rest = before ++ later :: remaining := by simpa using found
          exact ⟨before ++ [later], remaining, by simp, by rw [← List.cons_append, List.getLast?_concat]⟩
      obtain ⟨after, ran', mirrors, -⟩ := balanced (done ++ op :: between) remaining (by rw [split, ends.1]; simp)
      obtain ⟨m', ran', ran''⟩ := luaRun_append.mp ran'
      obtain rfl : m = m' := by simpa [ran] using ran'
      obtain ⟨middle, step, ran''⟩ := luaRun_cons.mp ran''
      obtain ⟨running, moved⟩ := luaStep_moved running step
      have left : (live whitelist middle).length + 1 ≤ (entered middle).length := (moved.behind behind).2 loses
      obtain ⟨-, behind⟩ := luaRun_behind running left ran''
      have same := mirrors later (by simpa [List.getLast?_append] using ends.2) (by simpa using hook)
      rw [same] at behind
      omega
  · intro keeps done rest equal
    subst equal
    obtain ⟨after, ran, -, -, mirrors⟩ := @luaRun_balanced _ r done rest fun before op later split =>
      keeps before op (later ++ rest) (by simp [split])
    exact ⟨after, ran, mirrors, calledByLive_of_mirrors ran mirrors⟩

def tailCalled : List LuaOp :=
  [.call .lua (some (.lit "check")) (.lit "@/tests/a.lua") 3 (.lit "1"),
    .tailCall .lua (.lit "@/tests/a.lua") 9 (.lit "2"),
   .ret (.lit "3"), .call .lua (some (.lit "report")) (.lit "@/tests/a.lua") 12 (.lit "4")]

/-- The function called afterwards is recorded as its child, and the stack holds both. -/
theorem tail_called_left_behind : ¬ Balanced [some (.lit "/tests/")] { blacklistDir := none } tailCalled := by
  intro balanced
  obtain ⟨after, ran, mirrors, -⟩ := balanced
  have entries : (luaRun [some (.lit "/tests/")] (bodyCalled { blacklistDir := none }) tailCalled).map
      (fun m => (entered m, live [some (.lit "/tests/")] m, m.recorder.keywordStatuses.length)) =
        some ([2, 0], [2], 1) := by
    decide
  simp only [ran, Option.map_some, Option.some.injEq, Prod.mk.injEq] at entries
  have same : entered after = live [some (.lit "/tests/")] after := mirrors _ rfl rfl
  rw [entries.1, entries.2.1] at same
  cases same

end Ltf.Proofs.KeywordStack
