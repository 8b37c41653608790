import Ltf.Base.Paths
import Ltf.Base.Steps
import Ltf.KeywordStatus

/-! The recorded forest is the call tree without the calls inside the library, as long as the
texts of the paths say which files those are and no call that is left out calls back out of
the library. -/

namespace Ltf.Proofs.KeywordForest
open CString Forest Ltf.Keywords

/-- The directory of the library as it is given, and the one that relative paths begin in. -/
structure Library where
  dir : CStr
  cwd : CStr

namespace Library
variable (lib : Library)

/-- The names that lead to a path from the root. -/
def place (path : CStr) : List (List UInt8) :=
  if path.bytes.head? = some 47 then Paths.resolve path.bytes else Paths.resolve (lib.cwd.bytes ++ 47 :: path.bytes)

/-- The file is in the directory, or further down. -/
def within (file : CStr) : Bool := decide (lib.place lib.dir <+: (lib.place file).dropLast)

end Library

def inLib (lib : Library) (keyword : Keyword) : Bool := lib.within keyword.file

/-- Where the path of the directory occurs in that of the file. -/
def named (lib : Library) (keyword : Keyword) : Bool := inBlacklistDir (some lib.dir) keyword.file

/-- The call tree as the events draw it, every call a node. -/
def traceCall (z : Zipper Keyword) : HookEvent → Zipper Keyword
  | .call name file line now => z.enter { name, started := now, file, line }
  | .ret _ _ _ now => z.leave (finish now)

def callTree (events : List HookEvent) : Zipper Keyword := events.foldl traceCall {}

def startRecorder (r : Recorder) (lib : Library) : Recorder := keywordStatusTestStarted { r with blacklistDir := some lib.dir }

/-- The forest on record is the call tree without the calls from the library into itself,
their calls lifted to the nearest ancestor that is recorded. -/
def Recorded (r : Recorder) (lib : Library) (events : List HookEvent) : Prop :=
  ∃ after, run (startRecorder r lib) events = some after ∧
    after.keywordStatuses = pruneAll (inLib lib) false (callTree events).forest

/-- A call of a function outside the library, made by a call that is left out. -/
def Escapes (lib : Library) (z : Zipper Keyword) (file : CStr) : Prop :=
  dropped (inLib lib) z.context = true ∧ lib.within file = false

/-- The texts of the paths say something else of a call and its caller than where the files are. -/
def Mistaken (lib : Library) (z : Zipper Keyword) (file : CStr) : Prop :=
  (enteredBy (named lib) z.context && inBlacklistDir (some lib.dir) file) ≠
    (enteredBy (inLib lib) z.context && lib.within file)

/-- The pointer to an open call that is recorded, under the layout of the arrays. -/
def pointerTo (lib : Library) (layout : List Nat → Layout) (frame : Frame Keyword) (context : List (Frame Keyword)) :
    KeywordPtr where
  array := pathTo (pruneContext (inLib lib) context)
  index := (pruneAll (inLib lib) (enteredBy (inLib lib) context) frame.before).length
  moves := (layout (pathTo (pruneContext (inLib lib) context))).moves

/-- What the stack keeps for an open call: a pointer exactly when it is recorded. -/
structure EntryOf (lib : Library) (layout : List Nat → Layout) (frame : Frame Keyword) (context : List (Frame Keyword))
    (entry : KeywordStackEntry) : Prop where
  blacklist : entry.inBlacklist = named lib frame.label
  ignored : entry.ignored = drops (inLib lib) frame context
  kw : entry.kw = if drops (inLib lib) frame context then none else some (pointerTo lib layout frame context)
  label : frame.label.ignored = false

inductive StackOf (lib : Library) (layout : List Nat → Layout) : List KeywordStackEntry → List (Frame Keyword) → Prop where
  | nil : StackOf lib layout [] []
  | cons {entry stack frame context} (mirrors : EntryOf lib layout frame context entry)
      (rest : StackOf lib layout stack context) : StackOf lib layout (entry :: stack) (frame :: context)

structure Tracks (lib : Library) (r : Recorder) (z : Zipper Keyword) : Prop where
  library : r.blacklistDir = some lib.dir
  running : r.testRunning = true
  forest : r.keywordStatuses = pruneAll (inLib lib) false z.forest
  stack : StackOf lib r.layout r.keywordStack z.context
  closed : Sealed (inLib lib) z.here z.context

variable {lib : Library} {r : Recorder} {z : Zipper Keyword}

theorem tracks_start (r : Recorder) (lib : Library) : Tracks lib (startRecorder r lib) {} := ⟨rfl, rfl, rfl, .nil, trivial⟩

theorem StackOf.relayout {layout other : List Nat → Layout} {stack : List KeywordStackEntry}
    {context : List (Frame Keyword)}
    (mirrors : StackOf lib layout stack context)
    (same : ∀ address : List Nat, address.length < context.length → other address = layout address) :
    StackOf lib other stack context := by
  induction mirrors with
  | nil => exact .nil
  | cons entry rest ih =>
    obtain ⟨blacklist, ignored, kw, label⟩ := entry
    refine .cons ⟨blacklist, ignored, ?_, label⟩ (ih fun address short => same address (by simp; omega))
    rw [pointerTo, same _ (by simp)]
    exact kw

/-- Where the recorder appends a call that is kept. -/
def slot (lib : Library) (z : Zipper Keyword) : List Nat := pathTo (pruneContext (inLib lib) z.context)

theorem Tracks.plugged (tracks : Tracks lib r z) (stays : dropped (inLib lib) z.context = false) :
    r.keywordStatuses = plug (pruneAll (inLib lib) (enteredBy (inLib lib) z.context) z.here)
      (pruneContext (inLib lib) z.context) :=
  tracks.forest.trans (prune_plug (inLib lib) (tracks.closed.kept stays) z.here)

theorem Tracks.deref (tracks : Tracks lib r z) {frame : Frame Keyword} {context : List (Frame Keyword)}
    (opened : z.context = frame :: context) (stays : drops (inLib lib) frame context = false) :
    r.deref (pointerTo lib r.layout frame context) =
      some (.node frame.label (pruneAll (inLib lib) (inLib lib frame.label) z.here)) := by
  have forest := tracks.plugged (by rw [opened]; exact stays)
  rw [opened, pruneContext, plug] at forest
  simp only [Recorder.deref, pointerTo, if_true, Recorder.arrayAt, forest, forestAt_plug]
  simp [enteredBy]

theorem Tracks.bottom {here : List (RoseTree Keyword)} (tracks : Tracks lib r { here, context := [] }) :
    r.keywordStack = [] := by
  have mirrors := tracks.stack
  generalize r.keywordStack = entries at mirrors ⊢
  cases mirrors
  rfl

/-- While a call is open, its entry is on top. -/
theorem Tracks.top {here : List (RoseTree Keyword)} {frame : Frame Keyword} {context : List (Frame Keyword)}
    (tracks : Tracks lib r { here, context := frame :: context }) :
    ∃ entry entries, r.keywordStack = entry :: entries ∧ EntryOf lib r.layout frame context entry ∧
      StackOf lib r.layout entries context := by
  have mirrors := tracks.stack
  generalize r.keywordStack = entries at mirrors ⊢
  cases mirrors with
  | cons mirrors rest => exact ⟨_, _, rfl, mirrors, rest⟩

/-- The call that the code keeps goes where the pointer of its caller leads, if there is one. -/
theorem call_kept (tracks : Tracks lib r z) (name file : CStr) (line : Int) (now : CStr)
    (keeps : (enteredBy (named lib) z.context && inBlacklistDir (some lib.dir) file) = false) :
    let ks : Keyword := { name, started := now, file, line }
    let address := if dropped (inLib lib) z.context then [] else slot lib z
    step r (.call name file line now) = some { (r.append address ks).2 with
      keywordStack := {
        kw := some (r.append address ks).1
        ignored := false
        inBlacklist := inBlacklistDir (some lib.dir) file
        frame := 0 } :: r.keywordStack } := by
  intro ks address
  obtain ⟨here, context⟩ := z
  cases context with
  | nil =>
    have stack := tracks.bottom
    simp [step, callHook, tracks.running, tracks.library, stack, address, dropped, slot, pruneContext, pathTo, ks]
    exact stack
  | cons frame context =>
    obtain ⟨entry, entries, stack, mirrors, -⟩ := tracks.top
    have library : (entry.inBlacklist && inBlacklistDir (some lib.dir) file) = false := by
      rw [mirrors.blacklist]
      exact keeps
    cases drop : drops (inLib lib) frame context with
    | true =>
      have kw : entry.kw = none := by rw [mirrors.kw, drop]; rfl
      simp [step, callHook, tracks.running, tracks.library, stack, library, kw, address, dropped, drop, ks]
      exact stack
    | false =>
      have node := tracks.deref rfl drop
      have kw : entry.kw = some (pointerTo lib r.layout frame context) := by rw [mirrors.kw, drop]; rfl
      have slot_eq : slot lib { here, context := frame :: context } =
          (pointerTo lib r.layout frame context).array ++ [(pointerTo lib r.layout frame context).index] := by
        rw [slot, pruneContext, pathTo_cons]
        rfl
      simp [step, callHook, tracks.running, tracks.library, stack, library, kw, node, RoseTree.label, mirrors.label,
        slot_eq, address, dropped, drop, ks]
      exact stack

theorem call_dropped (tracks : Tracks lib r z) (name file : CStr) (line : Int) (now : CStr)
    (drop : (enteredBy (named lib) z.context && inBlacklistDir (some lib.dir) file) = true) :
    step r (.call name file line now) = some { r with
      keywordStack := { kw := none, ignored := true, inBlacklist := true, frame := 0 } :: r.keywordStack } := by
  obtain ⟨here, context⟩ := z
  cases context with
  | nil => cases drop
  | cons frame context =>
    obtain ⟨entry, entries, stack, mirrors, -⟩ := tracks.top
    have both : named lib frame.label = true ∧ inBlacklistDir (some lib.dir) file = true := by
      simpa [enteredBy] using drop
    simp [step, callHook, tracks.running, tracks.library, stack, mirrors.blacklist, both.1, both.2]

theorem Tracks.arrayAt_slot (tracks : Tracks lib r z) (stays : dropped (inLib lib) z.context = false) :
    r.arrayAt (slot lib z) = pruneAll (inLib lib) (enteredBy (inLib lib) z.context) z.here := by
  rw [Recorder.arrayAt, tracks.plugged stays, slot, forestAt_plug]
  rfl

/-- Appending there leaves the arrays of the open path where they are. -/
theorem layout_append (r : Recorder) (z : Zipper Keyword) (ks : Keyword) {address : List Nat}
    (short : address.length < z.context.length) :
    (r.append (slot lib z) ks).2.layout address = r.layout address := by
  have elsewhere : address ≠ slot lib z ∧ address ≠ slot lib z ++ [(r.arrayAt (slot lib z)).length] := by
    constructor
    · intro equal
      subst equal
      exact absurd short (by simp [slot])
    · intro equal
      subst equal
      exact absurd short (by simp [slot])
  simp [Recorder.append, elsewhere.1, elsewhere.2]

theorem Tracks.forest_append (tracks : Tracks lib r z) (ks : Keyword) (open_ : dropped (inLib lib) z.context = false)
    (stays : (enteredBy (inLib lib) z.context && inLib lib ks) = false) :
    (r.append (slot lib z) ks).2.keywordStatuses =
      pruneAll (inLib lib) false (plug (z.here ++ [.node ks []]) z.context) := by
  have same : pruneAll (inLib lib) (enteredBy (inLib lib) z.context) (z.here ++ [.node ks []]) =
      pruneAll (inLib lib) (enteredBy (inLib lib) z.context) z.here ++ [.node ks []] := by
    rw [pruneAll_concat, stays]
    rfl
  rw [prune_plug (inLib lib) (tracks.closed.kept open_), same, Recorder.append, tracks.plugged open_, slot,
    modifyAt_plug]

theorem Tracks.pointer_append (tracks : Tracks lib r z) (ks : Keyword) (open_ : dropped (inLib lib) z.context = false) :
    (r.append (slot lib z) ks).1 =
      pointerTo lib (r.append (slot lib z) ks).2.layout { label := ks, before := z.here } z.context := by
  have size := congrArg List.length (tracks.arrayAt_slot open_)
  rw [slot] at size
  simp [Recorder.append, pointerTo, size, slot]

theorem Tracks.call_step (tracks : Tracks lib r z) (name file : CStr) (line : Int) (now : CStr)
    (judged : ¬ Mistaken lib z file) (stays : ¬ Escapes lib z file) :
    ∃ after, step r (.call name file line now) = some after ∧
      Tracks lib after (traceCall z (.call name file line now)) := by
  let ks : Keyword := { name, started := now, file, line }
  let new : Frame Keyword := { label := ks, before := z.here }
  rw [Mistaken, not_not] at judged
  have inner : dropped (inLib lib) z.context = true → inLib lib ks = true := by
    intro drop
    by_contra outside
    exact stays ⟨drop, eq_false_of_ne_true outside⟩
  have closed := tracks.closed.enter inner
  cases drop : drops (inLib lib) new z.context with
  | true =>
    have both : (enteredBy (named lib) z.context && named lib ks) = true := judged.trans drop
    refine ⟨_, call_dropped tracks name file line now both, tracks.library, tracks.running, ?_, .cons ?_ tracks.stack,
      closed⟩
    · exact tracks.forest.trans (prune_enter_dropped drop).symm
    · exact ⟨((Bool.and_eq_true ..).mp both).2.symm, drop.symm, (if_pos drop).symm, rfl⟩
  | false =>
    have open_ : dropped (inLib lib) z.context = false := dropped_of_stays drop inner
    have kept : ¬ drops (inLib lib) new z.context = true := by simp [drop]
    have called := call_kept tracks name file line now (judged.trans drop)
    simp only [open_, Bool.false_eq_true, if_false] at called
    refine ⟨_, called, tracks.library, tracks.running, ?_, .cons ?_ ?_, closed⟩
    · exact tracks.forest_append ks open_ drop
    · exact ⟨rfl, drop.symm, (congrArg some (tracks.pointer_append ks open_)).trans (if_neg kept).symm, rfl⟩
    · exact tracks.stack.relayout fun address short => layout_append r z ks short

theorem Tracks.forest_finish {here : List (RoseTree Keyword)} {frame : Frame Keyword} {context : List (Frame Keyword)}
    (tracks : Tracks lib r { here, context := frame :: context }) (stays : drops (inLib lib) frame context = false)
    (now : CStr) :
    modifyAt (pointerTo lib r.layout frame context).array
        (·.modify (pointerTo lib r.layout frame context).index (RoseTree.mapLabel (finish now))) r.keywordStatuses =
      pruneAll (inLib lib) false (plug (frame.before ++ [.node (finish now frame.label) here]) context) := by
  have below := (tracks.closed.kept stays).2
  have outside : (enteredBy (inLib lib) context && inLib lib (finish now frame.label)) = false := stays
  rw [prune_plug (inLib lib) below, pruneAll_concat, outside, tracks.plugged stays, pruneContext, plug, pointerTo,
    modifyAt_plug]
  exact congrArg (plug · _) (modify_last _ _ _)

theorem Tracks.ret_step (tracks : Tracks lib r z) (name file : CStr) (line : Int) (now : CStr) :
    ∃ after, step r (.ret name file line now) = some after ∧
      Tracks lib after (traceCall z (.ret name file line now)) := by
  obtain ⟨here, context⟩ := z
  cases context with
  | nil => exact ⟨r, by simp [step, retHook, tracks.running, tracks.bottom], tracks⟩
  | cons frame context =>
    obtain ⟨entry, entries, stack, mirrors, rest⟩ := tracks.top
    have same : inLib lib (finish now frame.label) = inLib lib frame.label := rfl
    have closed := tracks.closed.leave same
    cases drop : drops (inLib lib) frame context with
    | true =>
      have kw : entry.kw = none := by rw [mirrors.kw, drop]; rfl
      refine ⟨{ r with keywordStack := entries }, by simp [step, retHook, tracks.running, stack, kw],
        tracks.library, tracks.running, ?_, rest, closed⟩
      exact tracks.forest.trans (prune_leave_dropped same drop).symm
    | false =>
      have kw : entry.kw = some (pointerTo lib r.layout frame context) := by rw [mirrors.kw, drop]; rfl
      have kept : entry.ignored = false := mirrors.ignored.trans drop
      have node := tracks.deref rfl drop
      refine ⟨{ r with
        keywordStack := entries
        keywordStatuses := modifyAt (pointerTo lib r.layout frame context).array
          (·.modify (pointerTo lib r.layout frame context).index (RoseTree.mapLabel (finish now)))
          r.keywordStatuses },
        ?_, tracks.library, tracks.running, ?_, rest, closed⟩
      · simp only [Recorder.deref, Recorder.arrayAt] at node
        simp [step, retHook, tracks.running, stack, kw, kept, Recorder.deref, Recorder.arrayAt, node]
      · exact tracks.forest_finish drop now

theorem append_root (r : Recorder) (ks : Keyword) :
    (r.append [] ks).2.keywordStatuses.length = r.keywordStatuses.length + 1 := by
  simp [Recorder.append, modifyAt]

theorem traceCall_roots (opened : z.context ≠ []) (name file : CStr) (line : Int) (now : CStr) :
    (traceCall z (.call name file line now)).forest.length = z.forest.length := by
  rw [traceCall, Zipper.enter, Zipper.forest, Zipper.forest, plug]
  exact plug_length _ _ opened

/-- A call that the code keeps changes the forest. -/
theorem Tracks.append_differs (tracks : Tracks lib r z) (ks : Keyword) :
    (r.append (if dropped (inLib lib) z.context then [] else slot lib z) ks).2.keywordStatuses ≠
      pruneAll (inLib lib) false z.forest := by
  rw [← tracks.forest]
  intro same
  split at same
  next => exact absurd (congrArg List.length same) (by rw [append_root]; omega)
  next open_ =>
    have plugged := tracks.plugged (eq_false_of_ne_true open_)
    rw [Recorder.append, plugged, slot, modifyAt_plug] at same
    have here := congrArg (forestAt (pathTo (pruneContext (inLib lib) z.context))) same
    rw [forestAt_plug, forestAt_plug] at here
    exact absurd (congrArg List.length (Option.some.inj here)) (by simp)

/-- A call that is taken for one inside the library, or is not taken for one, is left out where the
call tree has it, or recorded where the tree has nothing new. -/
theorem Tracks.mistaken_step (tracks : Tracks lib r z) (name file : CStr) (line : Int) (now : CStr)
    (mistaken : Mistaken lib z file) :
    ∃ after, step r (.call name file line now) = some after ∧
      after.keywordStatuses ≠ pruneAll (inLib lib) false (traceCall z (.call name file line now)).forest := by
  let ks : Keyword := { name, started := now, file, line }
  let new : Frame Keyword := { label := ks, before := z.here }
  cases judged : enteredBy (named lib) z.context && inBlacklistDir (some lib.dir) file with
  | true =>
    refine ⟨_, call_dropped tracks name file line now judged, ?_⟩
    intro same
    have stays : drops (inLib lib) new z.context = false := by
      by_contra drop
      exact mistaken (judged.trans (eq_true_of_ne_false drop).symm)
    have grown := prune_enter_kept stays
    have sizes := congrArg forestSize same
    have before : forestSize r.keywordStatuses = forestSize (pruneAll (inLib lib) false z.forest) :=
      congrArg forestSize tracks.forest
    have after : forestSize r.keywordStatuses = forestSize (pruneAll (inLib lib) false z.forest) + 1 := sizes.trans grown
    omega
  | false =>
    refine ⟨_, call_kept tracks name file line now judged, ?_⟩
    have drop : drops (inLib lib) new z.context = true := by
      by_contra stays
      exact mistaken (judged.trans (eq_false_of_ne_true stays).symm)
    have unchanged : pruneAll (inLib lib) false (traceCall z (.call name file line now)).forest =
        pruneAll (inLib lib) false z.forest := prune_enter_dropped drop
    rw [unchanged]
    exact tracks.append_differs ks

/-- A call that escapes is recorded at the root, where the call tree has nothing new. -/
theorem Tracks.escape_step (tracks : Tracks lib r z) (name file : CStr) (line : Int) (now : CStr)
    (judged : ¬ Mistaken lib z file) (escapes : Escapes lib z file) :
    ∃ after, step r (.call name file line now) = some after ∧
      after.keywordStatuses ≠ pruneAll (inLib lib) false (traceCall z (.call name file line now)).forest := by
  obtain ⟨drop, outside⟩ := escapes
  rw [Mistaken, not_not, outside, Bool.and_false] at judged
  have called := call_kept tracks name file line now judged
  simp only [drop, if_true] at called
  refine ⟨_, called, ?_⟩
  intro same
  have opened : z.context ≠ [] := by
    intro empty
    rw [empty] at drop
    cases drop
  have lengths := congrArg List.length same
  have before := congrArg List.length tracks.forest
  have roots := traceCall_roots opened name file line now
  dsimp only at lengths
  rw [pruneAll_outside_length] at before
  rw [pruneAll_outside_length, roots, append_root] at lengths
  omega

theorem callTree_concat (done : List HookEvent) (event : HookEvent) :
    callTree (done ++ [event]) = traceCall (callTree done) event := by
  simp [callTree]

theorem run_concat {done : List HookEvent} {event : HookEvent} {start after : Recorder} :
    run start (done ++ [event]) = some after ↔
    ∃ before, run start done = some before ∧ step before event = some after := by
  simp [run, List.foldlM_append, Option.bind_eq_some_iff]

/-- The calls for which the recorder does what it should. -/
structure Plain (lib : Library) (z : Zipper Keyword) (file : CStr) : Prop where
  judged : ¬ Mistaken lib z file
  stays : ¬ Escapes lib z file

/-- While the calls are plain, the recorder tracks the call tree. -/
theorem run_tracks (r : Recorder) (lib : Library) {done : List HookEvent}
    (plain : ∀ before name file line now rest, done = before ++ .call name file line now :: rest →
      Plain lib (callTree before) file) :
    ∃ after, run (startRecorder r lib) done = some after ∧ Tracks lib after (callTree done) := by
  induction done using List.reverseRecOn with
  | nil => exact ⟨_, rfl, tracks_start r lib⟩
  | append_singleton done event ih =>
    obtain ⟨before, ran, tracks⟩ := ih fun before name file line now rest split =>
      plain before name file line now (rest ++ [event]) (by simp [split])
    have next : ∃ after, step before event = some after ∧ Tracks lib after (traceCall (callTree done) event) := by
      cases event with
      | call name file line now =>
        obtain ⟨judged, stays⟩ := plain done name file line now [] rfl
        exact tracks.call_step name file line now judged stays
      | ret name file line now => exact tracks.ret_step name file line now
    obtain ⟨after, step, tracks⟩ := next
    rw [← callTree_concat] at tracks
    exact ⟨after, run_concat.mpr ⟨before, ran, step⟩, tracks⟩

/-- A run that follows the call tree leaves it with the first call that is not plain. -/
theorem plain_of_recorded {r : Recorder} {done : List HookEvent} {before : Recorder}
    (ran : run (startRecorder r lib) done = some before)
    (tracks : Tracks lib before (callTree done)) {name file : CStr} {line : Int} {now : CStr}
    (recorded : Recorded r lib (done ++ [.call name file line now])) : Plain lib (callTree done) file := by
  obtain ⟨after, ran', same⟩ := recorded
  obtain ⟨before', ran'', step'⟩ := run_concat.mp ran'
  obtain rfl : before = before' := by simpa [ran] using ran''
  have follows : ¬ ∃ after, step before (.call name file line now) = some after ∧
      after.keywordStatuses ≠ pruneAll (inLib lib) false (traceCall (callTree done) (.call name file line now)).forest := by
    rintro ⟨after', step, differs⟩
    obtain rfl : after' = after := by simpa [step] using step'
    rw [callTree_concat] at same
    exact differs same
  have judged : ¬ Mistaken lib (callTree done) file := fun mistaken =>
    follows (tracks.mistaken_step name file line now mistaken)
  exact ⟨judged, fun escapes => follows (tracks.escape_step name file line now judged escapes)⟩

/-- The forest on record is the pruned call tree after every event exactly when the texts of the
paths never mislead and no call that is left out calls a function outside the library. -/
theorem keyword_forest_iff (r : Recorder) (lib : Library) (events : List HookEvent) :
    (∀ done rest, events = done ++ rest → Recorded r lib done) ↔
      ∀ done name file line now rest, events = done ++ .call name file line now :: rest →
        Plain lib (callTree done) file := by
  constructor
  · intro recorded done
    -- by the length of what is done: up to the first call that is not plain the recorder tracks the call tree
    induction h : done.length using Nat.strongRecOn generalizing done with
    | ind size ih =>
      intro name file line now rest split
      obtain ⟨before, ran, tracks⟩ := @run_tracks r lib done fun earlier name' file' line' now' rest' split' =>
        ih earlier.length (by subst h; simp [split']) earlier rfl name' file' line' now'
          (rest' ++ .call name file line now :: rest)
          (by simp [split, split'])
      exact plain_of_recorded ran tracks (recorded (done ++ [.call name file line now]) rest (by simp [split]))
  · intro plain done rest equal
    subst equal
    obtain ⟨after, ran, tracks⟩ := @run_tracks r lib done fun before name file line now rest' split =>
      plain before name file line now (rest' ++ rest) (by simp [split])
    exact ⟨after, ran, tracks.forest⟩

/-- A library function calls another one, which calls back into the test file. -/
def calledBack : List HookEvent :=
  [.call (.lit "request") (.lit "/lib/http.lua") 10 (.lit "1"),
    .call (.lit "retry") (.lit "/lib/util.lua") 20 (.lit "2"),
   .call (.lit "attempt") (.lit "/tests/a.lua") 5 (.lit "3"),
   .ret (.lit "attempt") (.lit "/tests/a.lua") 5 (.lit "4"),
   .ret (.lit "retry") (.lit "/lib/util.lua") 20 (.lit "5"), .ret (.lit "request") (.lit "/lib/http.lua") 10 (.lit "6")]

theorem called_back_at_root : ¬ Recorded { blacklistDir := none } ⟨.lit "/lib/", .lit "/"⟩ calledBack := by
  intro recorded
  obtain ⟨after, ran, same⟩ := recorded
  have two : (run (startRecorder { blacklistDir := none } ⟨.lit "/lib/", .lit "/"⟩) calledBack).map (·.keywordStatuses.length) =
    some 2 := by
    decide
  rw [ran, Option.map_some, same, pruneAll_outside_length] at two
  cases two

end Ltf.Proofs.KeywordForest
