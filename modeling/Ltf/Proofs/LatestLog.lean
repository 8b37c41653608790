import Ltf.Proofs.LogsInfo
import Ltf.Proofs.RunLog
import Ltf.Proofs.TestLogs

/-! The links to the latest logs. In every state of the runs of a project they lead to the
logs of the run that was through last, and `ltf logs info latest` prints what it recorded. -/

namespace Ltf.Proofs.LatestLog
open CString JsonC TestLogs

def latestRawPath (dir : CStr) : CStr := .concat [dir, .lit "/test_run_latest_raw.json"]

def latestOutputPath (dir : CStr) : CStr := .concat [dir, .lit "/test_run_latest_output.log"]

/-- The directories in which a run for this target leaves links. -/
def linkedDirs (projectPath : CStr) (target : Option CStr) : List CStr :=
  logsDirectory projectPath target :: if target.isSome then [logsDirectory projectPath none] else []

/-- The run that an event brings to its end, if it leaves links in the directory. -/
def endsIn (projectPath dir : CStr) (world : LogWorld) : LogEvent → Option (Nat × Json)
  | .init .. => none
  | .finish i root =>
    (world.runs[i]?.filter fun run => dir ∈ linkedDirs projectPath run.target).map fun _ => (i, root)

/-- The run that was through last among those that leave links in the directory. -/
def lastIn (projectPath dir : CStr) (world : LogWorld) (events : List LogEvent) : Option (Nat × Json) :=
  (events.filterMap (endsIn projectPath dir world)).getLast?

section Lookup

theorem latestRawPath_injective {dir dir' : CStr} (same : latestRawPath dir = latestRawPath dir') : dir = dir' := by
  have bytes := congrArg CStr.bytes same
  simp only [latestRawPath, CStr.concat_bytes, List.flatMap_cons, List.flatMap_nil, List.append_cancel_right_eq] at bytes
  exact CStr.ext bytes

theorem latestOutputPath_injective {dir dir' : CStr} (same : latestOutputPath dir = latestOutputPath dir') :
    dir = dir' := by
  have bytes := congrArg CStr.bytes same
  simp only [latestOutputPath, CStr.concat_bytes, List.flatMap_cons, List.flatMap_nil, List.append_cancel_right_eq] at bytes
  exact CStr.ext bytes

theorem latest_apart (dir dir' : CStr) : latestRawPath dir ≠ latestOutputPath dir' := by
  intro same
  have last := congrArg (fun path : CStr => path.bytes.getLast?) same
  have raw : (CStr.lit "/test_run_latest_raw.json").bytes.getLast? = some 110 := by decide
  have output : (CStr.lit "/test_run_latest_output.log").bytes.getLast? = some 103 := by decide
  simp [latestRawPath, latestOutputPath, CStr.concat_bytes, raw, output] at last

theorem lookup_replaceSymlink (disk : Disk) (target linkname name : CStr) :
    (disk.replaceSymlink target linkname).lookup name = if name = linkname then some (.link target) else disk.lookup name := by
  rw [Disk.replaceSymlink, Assoc.lookup_put]
  split
  next => rfl
  next other => exact Assoc.lookup_filter_ne disk other

theorem lookup_write {disk : Disk} (linked : Linked disk) {path : CStr} (plain : ¬ LatestName path) (content : Content)
    (name : CStr) :
    (disk.write path content).lookup name = if name = path then some (.file content) else disk.lookup name := by
  rw [Disk.write, linked.resolve plain, Assoc.lookup_put]

/-- The links in one directory. -/
def Leads (disk : Disk) (dir : CStr) (paths : LogPaths) : Prop :=
  disk.lookup (latestRawPath dir) = some (.link paths.rawLogFilePath) ∧
    disk.lookup (latestOutputPath dir) = some (.link paths.outputLogFilePath)

/-- The links in a directory are the same on both disks. -/
def SameLinks (disk after : Disk) (dir : CStr) : Prop :=
  after.lookup (latestRawPath dir) = disk.lookup (latestRawPath dir) ∧
    after.lookup (latestOutputPath dir) = disk.lookup (latestOutputPath dir)

theorem linkLatest_leads (paths : LogPaths) (dir : CStr) (disk : Disk) : Leads (linkLatest paths dir disk) dir paths := by
  constructor
  · exact (lookup_replaceSymlink _ _ _ _).trans (if_pos rfl)
  · refine (lookup_replaceSymlink _ _ _ _).trans ((if_neg (latest_apart dir dir).symm).trans ?_)
    exact (lookup_replaceSymlink _ _ _ _).trans (if_pos rfl)

theorem linkLatest_same (paths : LogPaths) {dir other : CStr} (apart : other ≠ dir) (disk : Disk) :
    SameLinks disk (linkLatest paths dir disk) other := by
  constructor
  · refine (lookup_replaceSymlink _ _ _ _).trans ((if_neg fun same => apart (latestRawPath_injective same)).trans ?_)
    exact (lookup_replaceSymlink _ _ _ _).trans (if_neg (latest_apart other dir))
  · refine (lookup_replaceSymlink _ _ _ _).trans ((if_neg (latest_apart dir other).symm).trans ?_)
    exact (lookup_replaceSymlink _ _ _ _).trans (if_neg fun same => apart (latestOutputPath_injective same))

theorem SameLinks.trans {first second third : Disk} {dir : CStr} (one : SameLinks first second dir)
    (two : SameLinks second third dir) : SameLinks first third dir :=
  ⟨two.1.trans one.1, two.2.trans one.2⟩

theorem SameLinks.leads {disk after : Disk} {dir : CStr} {paths : LogPaths} (same : SameLinks disk after dir)
    (leads : Leads disk dir paths) : Leads after dir paths :=
  ⟨same.1.trans leads.1, same.2.trans leads.2⟩

theorem write_same {disk : Disk} (linked : Linked disk) {path : CStr} (plain : ¬ LatestName path) (content : Content)
    (dir : CStr) : SameLinks disk (disk.write path content) dir := by
  constructor
  · rw [lookup_write linked plain, if_neg]
    intro same
    exact plain (same ▸ latestRaw dir)
  · rw [lookup_write linked plain, if_neg]
    intro same
    exact plain (same ▸ latestOutput dir)

/-- The end of a run moves the links in its directories and in no other. -/
theorem finished_links {disk : Disk} (linked : Linked disk) (projectPath : CStr) {run : LogRun}
    (named : Named projectPath disk run) (root : Json) (dir : CStr) :
    let after := ltfLogTestRunFinished projectPath run.target.isSome run.paths root disk
    (dir ∈ linkedDirs projectPath run.target → Leads after dir run.paths) ∧
      (dir ∉ linkedDirs projectPath run.target → SameLinks disk after dir) := by
  have first := write_same linked named.raw_plain (.json root) dir
  have own := named.dir
  cases target : run.target with
  | none =>
    rw [target] at own
    simp only [linkedDirs, ltfLogTestRunFinished, Option.isSome_none, Bool.false_eq_true, if_false, List.mem_singleton]
    rw [← own]
    constructor
    · rintro rfl
      exact linkLatest_leads _ _ _
    · intro apart
      exact first.trans (linkLatest_same _ apart _)
  | some name =>
    rw [target] at own
    simp only [linkedDirs, ltfLogTestRunFinished, Option.isSome_some, if_true, List.mem_cons, List.not_mem_nil, or_false]
    rw [← own]
    constructor
    · intro among
      by_cases last : dir = logsDirectory projectPath none
      · subst last
        exact linkLatest_leads _ _ _
      · obtain rfl := among.resolve_right last
        exact (linkLatest_same _ last _).leads (linkLatest_leads _ _ _)
    · intro apart
      obtain ⟨one, two⟩ := not_or.mp apart
      exact (first.trans (linkLatest_same _ one _)).trans (linkLatest_same _ two _)

end Lookup

section Runs
variable {projectPath dir : CStr} {world after : LogWorld}

/-- The links lead to the logs of this run, and the raw log is the one it has saved. -/
structure Latest (world : LogWorld) (projectPath dir : CStr) (i : Nat) (root : Json) : Prop where
  run : ∃ run, world.runs[i]? = some run ∧ run.finished = some root ∧ dir ∈ linkedDirs projectPath run.target ∧
    Leads world.disk dir run.paths ∧ world.disk.lookup run.paths.rawLogFilePath = some (.file (.json root))

/-- What is known of the links in a directory after some events. -/
def Followed (projectPath dir : CStr) (start world : LogWorld) : Option (Nat × Json) → Prop
  | none => SameLinks start.disk world.disk dir
  | some (i, root) => Latest world projectPath dir i root

/-- The start of a run creates a file under a name that was free, and nothing else. -/
theorem init_disk {target : Option CStr} {now : Tm} (linked : Linked world.disk)
    (ran : logStep projectPath world (.init target now) = some after) :
    ∃ path, ¬ LatestName path ∧ ¬ Present world.disk path ∧ after.disk = world.disk.write path (.text []) := by
  simp only [logStep, Option.bind_eq_bind, Option.bind_eq_some_iff] at ran
  obtain ⟨⟨paths, disk⟩, found, ran⟩ := ran
  cases ran
  simp only [ltfLogInit, Option.bind_eq_bind, Option.bind_eq_some_iff] at found
  obtain ⟨raw, _, output, outputFound, same⟩ := found
  cases same
  have first := freePath_first outputFound
  have plain : ¬ LatestName output := by
    obtain ⟨k, name, _⟩ := first
    rw [name]
    exact (outputName_log _ now k).not_latest
  refine ⟨output, plain, ?_, rfl⟩
  rw [← linked.exists_iff plain, first.free]
  exact Bool.false_ne_true

theorem init_followed {start : LogWorld} {last : Option (Nat × Json)} {target : Option CStr} {now : Tm}
    (tidy : Tidy projectPath world) (followed : Followed projectPath dir start world last)
    (ran : logStep projectPath world (.init target now) = some after) : Followed projectPath dir start after last := by
  obtain ⟨path, plain, free, disk⟩ := init_disk tidy.linked ran
  obtain ⟨_, _, _, _, _, runs⟩ := init_spec tidy.linked ran
  have same : SameLinks world.disk after.disk dir := disk ▸ write_same tidy.linked plain (.text []) dir
  cases last with
  | none => exact SameLinks.trans followed same
  | some end' =>
    obtain ⟨run, found, finished, among, leads, saved⟩ := followed.run
    refine ⟨run, ?_, finished, among, same.leads leads, ?_⟩
    · rw [runs, List.getElem?_append_left (List.getElem?_eq_some_iff.mp found).1, found]
    · rw [disk, lookup_write tidy.linked plain, if_neg, saved]
      rintro rfl
      exact free ⟨_, saved⟩

/-- Two runs write to the same raw log only if they log to the same directory. -/
theorem same_dir {first second : LogRun} {disk : Disk} (named : Named projectPath disk first)
    (named' : Named projectPath disk second) (same : first.paths.rawLogFilePath = second.paths.rawLogFilePath) :
    first.target = second.target := by
  obtain ⟨k, name, _⟩ := named.raw
  obtain ⟨l, name', _⟩ := named'.raw
  have one := rawName_log first.paths.logsDir first.now k
  have two := rawName_log second.paths.logsDir second.now l
  rw [← name, same] at one
  rw [← name'] at two
  have dirs := (one.inj two).1
  rw [named.dir, named'.dir] at dirs
  exact logsDirectory_inj dirs

theorem finish_followed {start : LogWorld} {last : Option (Nat × Json)} {i : Nat} {root : Json}
    (tidy : Tidy projectPath world) (followed : Followed projectPath dir start world last)
    (ran : logStep projectPath world (.finish i root) = some after) :
    Followed projectPath dir start after ((endsIn projectPath dir world (.finish i root)).or last) := by
  obtain ⟨run, found, pending, disk, runs⟩ := finish_spec ran
  have named := tidy.named run (List.mem_of_getElem? found)
  have inside := (List.getElem?_eq_some_iff.mp found).1
  obtain ⟨moved, kept⟩ := finished_links tidy.linked projectPath named root dir
  rw [← disk] at moved kept
  have wrote : Wrote world.disk run.paths.rawLogFilePath (.json root) after.disk :=
    disk ▸ finished_wrote tidy.linked projectPath run.target.isSome named.raw_plain root
  by_cases among : dir ∈ linkedDirs projectPath run.target
  · have ends : endsIn projectPath dir world (.finish i root) = some (i, root) := by simp [endsIn, found, among]
    rw [ends, Option.some_or]
    refine ⟨{ run with finished := some root }, ?_, rfl, among, moved among, ?_⟩
    · rw [runs, List.getElem?_set_self inside]
    · rw [wrote.lookup _ named.raw_plain, if_pos rfl]
  · have ends : endsIn projectPath dir world (.finish i root) = none := by simp [endsIn, found, among]
    rw [ends, Option.none_or]
    cases last with
    | none => exact SameLinks.trans followed (kept among)
    | some end' =>
      obtain ⟨j, saved⟩ := end'
      obtain ⟨other, found', finished, among', leads, there⟩ := followed.run
      have known := tidy.named other (List.mem_of_getElem? found')
      have apart : other.paths.rawLogFilePath ≠ run.paths.rawLogFilePath := by
        intro same
        rw [same_dir known named same] at among'
        exact among among'
      have different : i ≠ j := by
        rintro rfl
        rw [found, Option.some.injEq] at found'
        rw [found'] at pending
        rw [pending] at finished
        cases finished
      refine ⟨other, ?_, finished, among', (kept among).leads leads, ?_⟩
      · rw [runs, List.getElem?_set_ne different, found']
      · rw [wrote.lookup _ known.raw_plain, if_neg apart, there]

/-- A run keeps its target, so later states agree on where it leaves links. -/
theorem endsIn_grows {middle : LogWorld} {event : LogEvent} (ran : logStep projectPath world event = some middle)
    (grows : Grows world after) : endsIn projectPath dir after event = endsIn projectPath dir world event := by
  cases event with
  | init => rfl
  | finish i root =>
    obtain ⟨run, found, _⟩ := finish_spec ran
    obtain ⟨later, found', same, _⟩ := grows i run found
    have target : later.target = run.target := by rw [← same]
    simp only [endsIn, found, found', Option.filter_some, target]
    split <;> rfl

theorem lastIn_cons (projectPath dir : CStr) (world : LogWorld) (event : LogEvent) (events : List LogEvent) :
    lastIn projectPath dir world (event :: events) =
      (lastIn projectPath dir world events).or (endsIn projectPath dir world event) := by
  rw [lastIn, lastIn, List.filterMap_cons]
  cases endsIn projectPath dir world event with
  | none => exact (Option.or_none).symm
  | some ends =>
    rw [List.getLast?_cons]
    cases (events.filterMap (endsIn projectPath dir world)).getLast? <;> rfl

theorem events_followed {start : LogWorld} {last : Option (Nat × Json)} {events : List LogEvent}
    (tidy : Tidy projectPath world) (followed : Followed projectPath dir start world last)
    (ran : logEvents projectPath events world = some after) :
    Followed projectPath dir start after ((lastIn projectPath dir after events).or last) := by
  induction events generalizing world last with
  | nil =>
    cases ran
    exact followed
  | cons event events ih =>
    obtain ⟨middle, step, rest⟩ := events_cons.mp ran
    have grows := (step_grows tidy step).trans ((tidy.step step).run rest).2
    rw [lastIn_cons, Option.or_assoc, endsIn_grows step grows]
    refine ih (tidy.step step) ?_ rest
    cases event with
    | init target now => exact init_followed tidy followed step
    | finish i root => exact finish_followed tidy followed step

end Runs

/-- Whatever the order of the steps of any number of runs, the links in a directory lead to the
logs of the run that was through last there, and its raw log is there with what it has
saved. Where no run was through the links are as they were. -/
theorem latest_links_lead (projectPath : CStr) (files : List (CStr × Content)) (events : List LogEvent)
    (world : LogWorld) (ran : logEvents projectPath events (newLogWorld files) = some world) (dir : CStr) :
    Followed projectPath dir (newLogWorld files) world (lastIn projectPath dir world events) := by
  have begins : Followed projectPath dir (newLogWorld files) (newLogWorld files) none := ⟨rfl, rfl⟩
  have followed := events_followed (new_tidy files) begins ran
  rwa [Option.or_none] at followed

theorem latest_links_lead_same_second :
    ∃ world, logEvents (.lit "/p") sameSecond (newLogWorld []) = some world ∧
      Followed (.lit "/p") (.lit "/p/logs") (newLogWorld []) world (some (1, .array [])) := by
  refine ⟨_, rfl, ?_⟩
  exact latest_links_lead (.lit "/p") [] sameSecond _ rfl (.lit "/p/logs")

end Ltf.Proofs.LatestLog
