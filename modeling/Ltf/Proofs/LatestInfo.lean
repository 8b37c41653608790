import Ltf.Proofs.LatestLog

/-! From the run to the terminal: what `ltf logs info latest` prints is what it would print
of the state of the run that was through last, had it never been written to a log. -/

namespace Ltf.Proofs.LatestInfo
open CString JsonC Steps RunnerSteps StateRoundTrip RawLogReread LogsInfo TestLogs TestRun LatestLog RunLog

section Printing

theorem keywords_printed {keywords : List KeywordStatus}
    (each : ∀ keyword ∈ keywords, ∀ more level last, ltfLogsInfoPrintKeywordRec more level last (recalledKeyword keyword) =
      ltfLogsInfoPrintKeywordRec more level last keyword) (more : List Bool) (level : Nat) :
    printKeywords more level (keywords.map recalledKeyword) = printKeywords more level keywords := by
  induction keywords generalizing more with
  | nil => rfl
  | cons keyword keywords ih =>
    have rest := ih fun other inside => each other (by simp [inside])
    rw [List.map_cons, printKeywords, printKeywords, each keyword (by simp), List.isEmpty_map]
    simp only [rest]

theorem keyword_printed {keyword : KeywordStatus} (exact : ExactKeyword keyword) (more : List Bool) (level : Nat)
    (last : Bool) : ltfLogsInfoPrintKeywordRec more level last (recalledKeyword keyword) =
      ltfLogsInfoPrintKeywordRec more level last keyword := by
  induction exact generalizing more level last with
  | @mk keyword line size kids ih =>
    have below := keywords_printed ih
    rw [recalledKeyword_eq]
    obtain ⟨children, name, started, finished, ignored, file, line⟩ := keyword
    cases children with
    | none => rfl
    | some children =>
      cases children with
      | nil => rfl
      | cons child rest =>
        have sizes : daSize (some (recalledKeyword child :: rest.map recalledKeyword)) = daSize (some (child :: rest)) := by
          simp [daSize]
        simp only [Option.getD_some, List.map_cons] at below ⊢
        rw [ltfLogsInfoPrintKeywordRec, ltfLogsInfoPrintKeywordRec, sizes]
        simp only [below]

theorem outputs_size (arr : DaPtr TestOutput) : daSize (recalledOutputs arr) = daSize arr := by
  simp [daSize, recalledOutputs]

theorem outputs_printed (arr : DaPtr TestOutput) (type : CStr) (hasNext : Bool) :
    ltfLogsInfoPrintTestOutputs (recalledOutputs arr) type hasNext = ltfLogsInfoPrintTestOutputs arr type hasNext := by
  rw [ltfLogsInfoPrintTestOutputs, ltfLogsInfoPrintTestOutputs, outputs_size, recalledOutputs, Option.getD_some,
    List.zipIdx_map, List.mapM_map]
  rfl

theorem test_printed (opts : CmdLogsInfoOptions) {t : StateTest} (exact : ExactTest t) :
    ltfLogsInfoPrintTest opts (recalledTest t) = ltfLogsInfoPrintTest opts t := by
  have keywords : daSize (some ((t.keywordStatuses.getD []).map recalledKeyword)) = daSize t.keywordStatuses := by
    simp [daSize]
  have tree : ltfLogsInfoPrintTestKeywordTree (recalledTest t) = ltfLogsInfoPrintTestKeywordTree t := by
    have same := keywords_printed (fun keyword inside => keyword_printed (exact.keywords.2 keyword inside)) [] 0
    rw [ltfLogsInfoPrintTestKeywordTree, ltfLogsInfoPrintTestKeywordTree, recalledTest, Option.getD_some, same]
  rw [ltfLogsInfoPrintTest, ltfLogsInfoPrintTest, tree]
  simp only [recalledTest, outputs_printed, outputs_size, keywords]
  rfl

theorem header_printed {s : LtfState} (total : s.totalAmount = daSize s.tests) :
    ltfLogsInfoPrintHeader (recalled s) = ltfLogsInfoPrintHeader s := by
  have vars : daSize (recalled s).vars = daSize s.vars := by simp [daSize, recalled]
  have lines : daForeach ((recalled s).vars.getD []) (.lit "│") (fun ch var =>
      [.lit "│   ", ch, .lit "── ", var.name, .lit " = ", orNull var.finalValue, .lit "\n"]) =
      daForeach (s.vars.getD []) (.lit "│") fun ch var =>
        [.lit "│   ", ch, .lit "── ", var.name, .lit " = ", orNull var.finalValue, .lit "\n"] := by
    simp only [daForeach, recalled, Option.getD_some, List.zipIdx_map, List.flatMap_map, List.length_map]
    rfl
  rw [ltfLogsInfoPrintHeader, ltfLogsInfoPrintHeader, vars, lines]
  simp only [recalled, total]
  rfl

end Printing

section Command
variable (lib : Coercions) {fromFile : FromFile} {opts : CmdLogsInfoOptions} {root : Json} {dir : CStr} {project : Json}
  {record : ProjectParsed} {s : LtfState}

theorem exact_levels {t : StateTest} (exact : ExactTest t) : none ∉ testLevels t := by
  obtain ⟨reasons, outputs, teardowns, errors⟩ := (forall_outputArrays _ t).mp exact.outputs
  have known : ∀ {arr : DaPtr TestOutput}, (∀ o ∈ arr.getD [], ExactOutput o) → none ∉ levels arr := by
    intro arr fine inside
    obtain ⟨o, there, unknown⟩ := List.mem_map.mp inside
    have level := (fine o there).level
    rw [unknown] at level
    cases level
  simp only [testLevels, List.mem_append, not_or]
  exact ⟨known reasons.2, known outputs.2, known teardowns.2, known errors.2⟩

theorem tests_print (opts : CmdLogsInfoOptions) {tests : List StateTest} (exact : ∀ t ∈ tests, ExactTest t) :
    ∃ printed, tests.mapM (ltfLogsInfoPrintTest opts) = .ok printed ∧
      (tests.map recalledTest).mapM (ltfLogsInfoPrintTest opts) = .ok printed := by
  have ends : Returns (tests.mapM (ltfLogsInfoPrintTest opts)) := by
    rw [Returns.mapM]
    intro t inside
    rw [printTest_returns]
    exact fun _ => exact_levels (exact t inside)
  obtain ⟨printed, own⟩ := ends
  refine ⟨printed, own, ?_⟩
  have each : tests.map (ltfLogsInfoPrintTest opts ∘ recalledTest) = tests.map (ltfLogsInfoPrintTest opts) :=
    List.map_congr_left fun t inside => test_printed opts (exact t inside)
  have through : ∀ print : StateTest → Logged (List CStr), tests.mapM print = (tests.map print).mapM id := by
    intro print
    rw [List.mapM_map]
    rfl
  rw [List.mapM_map, ← own, through (ltfLogsInfoPrintTest opts), ← each, ← through]

/-- The command, for the log of an exact state of a run on a known host. -/
theorem exact_informed (opts : CmdLogsInfoOptions) (exact : ExactState s) (total : s.totalAmount = daSize s.tests)
    (host : s.os.isSome ∧ s.osVersion.isSome) (read : ltfStateFromJson lib (fromFile root) = some (some (recalled s)))
    (parsed : projectParserParse lib dir project = .ok (some record)) :
    ∃ printed, (s.tests.getD []).mapM (ltfLogsInfoPrintTest opts) = .ok printed ∧
      ltfLogsInfo lib fromFile opts (.latest dir project) root =
        .ok { code := exitSuccess, out := ltfLogsInfoPrintHeader s ++ printed.flatten } := by
  obtain ⟨printed, own, again⟩ := tests_print opts exact.tests.2
  refine ⟨printed, own, ?_⟩
  have first : (projectParserParse lib dir project).mapError LogsFault.project = .ok (some record) := by rw [parsed]; rfl
  have known : (recalled s).os.isSome && (recalled s).osVersion.isSome := by
    rw [Bool.and_eq_true]
    exact host
  have loaded : ltfLogsInfoLoadLog lib fromFile (.latest dir project) root = .ok (some record, .ok (recalled s)) := by
    rw [ltfLogsInfoLoadLog, bind_of_ok first]
    simp only [ltfLogsInfoReadLog, read, Option.filter_some, known, if_true]
    rfl
  rw [ltfLogsInfo, bind_of_ok loaded]
  refine (bind_of_ok again).trans ((bind_of_ok (free_parsed parsed)).trans ?_)
  rw [header_printed total]
  rfl

/-- A log that cannot be read is no log. -/
theorem unread_refused (opts : CmdLogsInfoOptions) (unread : fromFile root = .null)
    (parsed : projectParserParse lib dir project = .ok (some record)) :
    ltfLogsInfo lib fromFile opts (.latest dir project) root = .ok { code := exitFailure, err := [.concat
      [.lit "Log file ", snprintf pathMax [dir, .lit "/logs/test_run_latest_raw.json"],
        .lit " is either incorrect or corrupt.\n"]] } := by
  have first : (projectParserParse lib dir project).mapError LogsFault.project = .ok (some record) := by rw [parsed]; rfl
  have loaded : ltfLogsInfoLoadLog lib fromFile (.latest dir project) root = .ok (some record, .error (.concat
      [.lit "Log file ", snprintf pathMax [dir, .lit "/logs/test_run_latest_raw.json"],
        .lit " is either incorrect or corrupt.\n"])) := by
    rw [ltfLogsInfoLoadLog, bind_of_ok first, unread]
    rfl
  exact command_refused loaded

/-- The path the command reads is that of the link in the logs directory of the project. -/
theorem latest_path (short : dir.bytes.length + 31 ≤ 4096) :
    snprintf pathMax [dir, .lit "/logs/test_run_latest_raw.json"] = latestRawPath (logsDirectory dir none) := by
  have parts : (CStr.lit "/logs/test_run_latest_raw.json").bytes =
      (CStr.lit "/logs").bytes ++ (CStr.lit "/test_run_latest_raw.json").bytes := by decide
  have length : (CStr.lit "/logs/test_run_latest_raw.json").bytes.length = 30 := by decide
  have whole : (dir.bytes ++ (CStr.lit "/logs/test_run_latest_raw.json").bytes).take (pathMax - 1) =
      dir.bytes ++ (CStr.lit "/logs/test_run_latest_raw.json").bytes := by
    apply List.take_of_length_le
    rw [List.length_append, length, pathMax]
    omega
  have clean : (0 : UInt8) ∉ dir.bytes ++ (CStr.lit "/logs/test_run_latest_raw.json").bytes := by
    rw [List.mem_append, not_or]
    exact ⟨dir.terminated, CStr.terminated _⟩
  apply CStr.ext
  simp only [snprintf, CStr.strndup, List.flatMap_cons, List.flatMap_nil, List.append_nil, whole, CStr.ofBytes_eq clean,
    latestRawPath, logsDirectory, CStr.concat_bytes]
  rw [parts, List.append_assoc]

end Command

/-- Any number of runs in any order, and the one that was through last in the project saved what
hooks, tests and deferred functions left in its state: then `ltf logs info latest` finds
that log and prints the state of that run, with one record for each of its tests. If the log
goes deeper than json-c reads, the command takes it for no log. -/
theorem latest_run_informed (lib : Coercions) (beyond : Nat → UInt8) (opts : CmdLogsInfoOptions) {env : Env} {r : Runner}
    (prepared : Prepared env r) {tests : List TestCase} (modest : ∀ tc ∈ tests, Modest env tc.body)
    (total : r.state.totalAmount = tests.length) (host : r.state.os.isSome ∧ r.state.osVersion.isSome) {s : LtfState}
    (ran : writtenState env tests r = .ok s) {forests : Nat → DaPtr KeywordStatus}
    (keywords : ∀ i, Indexable (forests i) ∧ ∀ keyword ∈ (forests i).getD [], ExactKeyword keyword) (sizes : Sizes s)
    {root : Json} (written : ltfStateToJson beyond (attach forests s) = some root)
    {dir : CStr} (short : dir.bytes.length + 31 ≤ 4096) {files : List (CStr × Content)} {events : List LogEvent}
    {world : LogWorld} (runs : logEvents dir events (newLogWorld files) = some world) {i : Nat}
    (last : lastIn dir (logsDirectory dir none) world events = some (i, root)) {project : Json} {record : ProjectParsed}
    (parsed : projectParserParse lib dir project = .ok (some record)) {fromFile : FromFile}
    (reads : ReadsBack fromFile root) :
    world.disk.lookup (world.disk.resolve (snprintf pathMax [dir, .lit "/logs/test_run_latest_raw.json"])) =
        some (.file (.json root)) ∧
      ((attach forests s).tests.getD []).length = tests.length ∧
      (within (tokenerDepth - 1) root = true →
        ∃ printed, ((attach forests s).tests.getD []).mapM (ltfLogsInfoPrintTest opts) = .ok printed ∧
          ltfLogsInfo lib fromFile opts (.latest dir project) root =
            .ok { code := exitSuccess, out := ltfLogsInfoPrintHeader (attach forests s) ++ printed.flatten }) ∧
      (within (tokenerDepth - 1) root = false →
        ltfLogsInfo lib fromFile opts (.latest dir project) root = .ok { code := exitFailure, err := [.concat
          [.lit "Log file ", snprintf pathMax [dir, .lit "/logs/test_run_latest_raw.json"],
            .lit " is either incorrect or corrupt.\n"]] }) := by
  obtain ⟨exact, size⟩ := written_exact prepared modest ran keywords sizes
  obtain ⟨root', written', read⟩ := state_recalled lib beyond exact
  obtain rfl : root = root' := by simpa [written] using written'
  obtain ⟨finished, rfl, logged⟩ := written_logged prepared modest s ran
  have same : ∀ {α : Type} (field : LtfState → α), field (header finished.state) = field (header r.state) := by
    intro α field
    rw [logged.header]
  have begins : Followed dir (logsDirectory dir none) (newLogWorld files) (newLogWorld files) none := ⟨rfl, rfl⟩
  have followed := events_followed (new_tidy files) begins runs
  rw [Option.or_none, last] at followed
  obtain ⟨run, _, _, _, leads, saved⟩ := followed.run
  refine ⟨?_, size, ?_, ?_⟩
  · rw [latest_path short, Disk.resolve, leads.1]
    exact saved
  · intro shallow
    have back : fromFile root = root := by rw [reads, if_pos shallow]
    refine exact_informed lib opts exact ?_ ?_ (by rw [back, read]) parsed
    · rw [size, ← total]
      exact same LtfState.totalAmount
    · have os : finished.state.os = r.state.os := same LtfState.os
      have version : finished.state.osVersion = r.state.osVersion := same LtfState.osVersion
      show finished.state.os.isSome ∧ finished.state.osVersion.isSome
      rw [os, version]
      exact host
  · intro deep
    exact unread_refused lib opts (by rw [reads, deep]; rfl) parsed

/-- The runner of the example, told how many tests there are. -/
def countedRunner : Runner := { newRunner with state.totalAmount := 2 }

theorem countedRunner_prepared : Prepared plainEnv countedRunner := by
  obtain ⟨tests, amounts, pending, vars, tags, _⟩ := newRunner_prepared
  refine ⟨tests, amounts, pending, vars, tags, ?_⟩
  intro fn hook inside
  cases fn <;> cases inside

/-- json-c, on the text of a tree. -/
def jsonFile (root : Json) : Json := if within (tokenerDepth - 1) root then root else .null

theorem latest_run_informed_two_tests : ∃ s root world printed, writtenState plainEnv twoTests countedRunner = .ok s ∧
    ltfStateToJson (fun _ => 0) (attach (fun _ => none) s) = some root ∧
    logEvents (.lit "/p") [.init none noon, .finish 0 root] (newLogWorld []) = some world ∧
    world.disk.lookup (world.disk.resolve (.lit "/p/logs/test_run_latest_raw.json")) = some (.file (.json root)) ∧
    ltfLogsInfo default jsonFile {} (.latest (.lit "/p") (TargetRuns.exampleFile false [])) root =
      .ok { code := exitSuccess, out := ltfLogsInfoPrintHeader (attach (fun _ => none) s) ++ printed } := by
  obtain ⟨s, ran⟩ : ∃ s, writtenState plainEnv twoTests countedRunner = .ok s := ⟨_, rfl⟩
  have sizes : Sizes s := by
    cases ran
    exact of_decide_eq_true rfl
  obtain ⟨root, written⟩ : ∃ root, ltfStateToJson (fun _ => 0) (attach (fun _ => none) s) = some root := by
    cases ran
    exact ⟨_, rfl⟩
  obtain ⟨record, parsed⟩ : ∃ record,
      projectParserParse default (.lit "/p") (TargetRuns.exampleFile false []) = .ok (some record) := ⟨_, rfl⟩
  have quiet : ∀ i : Nat, Indexable (none : DaPtr KeywordStatus) ∧
      ∀ keyword ∈ (none : DaPtr KeywordStatus).getD [], ExactKeyword keyword :=
    fun _ => ⟨Nat.zero_le _, fun _ inside => by cases inside⟩
  have short : (CStr.lit "/p").bytes.length + 31 ≤ 4096 := by decide
  obtain ⟨world, runs⟩ : ∃ world, logEvents (.lit "/p") [.init none noon, .finish 0 root] (newLogWorld []) = some world :=
    ⟨_, rfl⟩
  have last : lastIn (.lit "/p") (logsDirectory (.lit "/p") none) world [.init none noon, .finish 0 root] =
      some (0, root) := by
    cases runs
    rfl
  have shallow : within (tokenerDepth - 1) root = true := by
    have each : (ltfStateToJson (fun _ => 0) (attach (fun _ => none) s)).all (within (tokenerDepth - 1)) = true := by
      cases ran
      decide +kernel
    rwa [written, Option.all_some] at each
  have reads : ReadsBack jsonFile root := rfl
  obtain ⟨found, _, informed, _⟩ := latest_run_informed default (fun _ => 0) {} countedRunner_prepared
    twoTests_modest rfl ⟨rfl, rfl⟩ ran quiet sizes written short runs last parsed reads
  obtain ⟨printed, _, informed⟩ := informed shallow
  exact ⟨s, root, world, printed.flatten, ran, written, runs, found, informed⟩

end Ltf.Proofs.LatestInfo
