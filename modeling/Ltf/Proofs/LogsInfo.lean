import Ltf.LogsInfo
import Ltf.Proofs.TargetRuns

/-! When `ltf logs info` ends with an exit code, for every document and all options: which
levels the decoder and the printer can do with, and what is freed at the end. -/

namespace Ltf.Proofs.LogsInfo
open CString JsonC Steps

def outputKeys : List String := ["failure_reasons", "output", "teardown_output", "teardown_errors"]

/-- The output records under a key of a test. -/
def recordsUnder (jt : Json) (key : String) : List Json :=
  match get jt (.lit key) with
  | some (.array a) => elements a
  | _ => []

def testRecords (jt : Json) : List Json := outputKeys.flatMap (recordsUnder jt)

/-- The output records of a document. -/
def outputRecords (root : Json) : List Json :=
  match get root (.lit "tests") with
  | some (.array tests) => (elements tests).flatMap testRecords
  | _ => []

/-- No output record has the level `null`. -/
def LevelsPresent (root : Json) : Prop := ∀ jo ∈ outputRecords root, get jo (.lit "level") ≠ some .null

/-- Each level that an output record has is the name of one. -/
def LevelsKnown (lib : Coercions) (root : Json) : Prop :=
  ∀ jo ∈ outputRecords root, ∀ lvl text, get jo (.lit "level") = some lvl → getString lib lvl = some text →
    (ltfLogLevelFromStr (.ofBytes text)).isSome

/-- An object that names the host. -/
def Loads (root : Json) : Prop :=
  (∃ fields, root = .object fields) ∧
    ∀ key ∈ [CStr.lit "os", .lit "os_version"], ∃ value, get root key = some value ∧ value ≠ .null

/-- With the path of a file nothing but an error may come of it: there is no project to free. -/
def Ready (lib : Coercions) (opts : CmdLogsInfoOptions) (root : Json) : LogArg → Prop
  | .named _ => LevelsPresent root ∧ ¬ Loads root
  | .latest dir project => ∃ result, projectParserParse lib dir project = .ok result ∧
      (result.isSome → LevelsPresent root ∧ (opts.includeOutputs → Loads root → LevelsKnown lib root))

/-- A document that is accepted is no reason for the command not to end, and one that is not
accepted is reported. -/
structure Informs (lib : Coercions) (fromFile : FromFile) (opts : CmdLogsInfoOptions) (file : Json) (arg : LogArg) :
    Prop where
  accepted : (∃ state, ltfStateFromJson lib (fromFile file) = some (some state)) →
    ∃ ended, ltfLogsInfo lib fromFile opts arg file = .ok ended
  refused : (¬ ∃ state, ltfStateFromJson lib (fromFile file) = some (some state)) →
    ∃ ended, ltfLogsInfo lib fromFile opts arg file = .ok ended ∧ ended.code = exitFailure ∧ ended.err ≠ []

variable {lib : Coercions} {root : Json}

section Levels

/-- The level of an output record, which cannot be read where it is `null`. -/
def readLevel (lib : Coercions) (jo : Json) : Option (Option LogLevel) :=
  match get jo (.lit "level") with
  | none => some (some .critical)
  | some lvl => (getString lib lvl).map fun text => ltfLogLevelFromStr (.ofBytes text)

def levels (outputs : DaPtr TestOutput) : List (Option LogLevel) := (outputs.getD []).map (·.level)

def testLevels (test : StateTest) : List (Option LogLevel) :=
  levels test.failureReasons ++ (levels test.outputs ++ (levels test.teardownOutputs ++ levels test.teardownErrors))

def stateLevels (found : Option LtfState) : List (Option LogLevel) :=
  ((found.bind (·.tests)).getD []).flatMap testLevels

theorem output_level (lib : Coercions) (jo : Json) : (ltfStateTestOutputFromJson lib jo).map (·.level) = readLevel lib jo := by
  unfold ltfStateTestOutputFromJson readLevel
  cases get jo (.lit "level") with
  | none => rfl
  | some lvl => cases text : getString lib lvl <;> simp [text]

theorem outputs_levels (jt : Json) (key : String) :
    (jgetOutputs lib jt key).map levels = (recordsUnder jt key).mapM (readLevel lib) := by
  unfold jgetOutputs recordsUnder
  cases get jt (.lit key) with
  | none => rfl
  | some found =>
    cases found with
    | array a =>
      simp only [jsonArrayToDaOutputs, Option.map_map]
      rw [← funext (output_level lib), ← mapM_view]
      rfl
    | _ => rfl

theorem test_levels (jt : Json) :
    (ltfStateTestFromJson lib jt).map testLevels = (testRecords jt).mapM (readLevel lib) := by
  simp only [testRecords, outputKeys, List.flatMap_cons, List.flatMap_nil, List.append_nil, List.mapM_append,
    ← outputs_levels]
  unfold ltfStateTestFromJson
  cases jgetOutputs lib jt "failure_reasons" with
  | none => rfl
  | some failureReasons =>
    cases jgetOutputs lib jt "output" with
    | none => rfl
    | some outputs =>
      cases jgetOutputs lib jt "teardown_output" with
      | none => rfl
      | some teardownOutputs => cases jgetOutputs lib jt "teardown_errors" <;> rfl

theorem state_levels (lib : Coercions) (root : Json) :
    (ltfStateFromJson lib root).map stateLevels = (outputRecords root).mapM (readLevel lib) := by
  cases root with
  | object fields =>
    unfold ltfStateFromJson outputRecords
    cases found : get (.object fields) (.lit "tests") with
    | none => simp [found, stateLevels]
    | some value =>
      cases value with
      | array tests =>
        simp only [found, ← mapM_flatMap test_levels]
        cases (elements tests).mapM (ltfStateTestFromJson lib) <;> rfl
      | _ => simp [found, stateLevels]
  | _ => rfl

end Levels

section Decoding

theorem readLevel_isSome (jo : Json) : (readLevel lib jo).isSome ↔ get jo (.lit "level") ≠ some .null := by
  unfold readLevel
  cases get jo (.lit "level") with
  | none => simp
  | some lvl => cases lvl <;> simp [getString]

theorem readLevel_none (jo : Json) : readLevel lib jo = some none ↔
    ∃ lvl text, get jo (.lit "level") = some lvl ∧ getString lib lvl = some text ∧
      ltfLogLevelFromStr (.ofBytes text) = none := by
  unfold readLevel
  cases get jo (.lit "level") with
  | none => simp
  | some lvl => cases text : getString lib lvl <;> simp [text]

theorem levels_present (lib : Coercions) (root : Json) : LevelsPresent root ↔ (ltfStateFromJson lib root).isSome := by
  have decoded := congrArg Option.isSome (state_levels lib root)
  rw [Option.isSome_map] at decoded
  rw [decoded, mapM_isSome, LevelsPresent]
  simp only [readLevel_isSome]

theorem levels_known {found : Option LtfState} (decoded : ltfStateFromJson lib root = some found) :
    LevelsKnown lib root ↔ none ∉ stateLevels found := by
  have read := state_levels lib root
  rw [decoded, Option.map_some] at read
  rw [mapM_mem read.symm]
  simp only [readLevel_none, LevelsKnown, Option.isSome_iff_ne_none]
  constructor
  · intro known unknown
    obtain ⟨jo, inside, lvl, text, here, string, none⟩ := unknown
    exact known jo inside lvl text here string none
  · intro known jo inside lvl text here string none
    exact known ⟨jo, inside, lvl, text, here, string, none⟩

theorem jgetStrDup_isSome (obj : Json) (key : String) :
    (jgetStrDup lib obj key).isSome ↔ ∃ value, get obj (.lit key) = some value ∧ value ≠ .null := by
  unfold jgetStrDup jdupString
  cases get obj (.lit key) with
  | none => simp
  | some value => cases value <;> simp [getString]

theorem decoded_object {fields : Fields} {found : Option LtfState}
    (decoded : ltfStateFromJson lib (.object fields) = some found) : ∃ state, found = some state ∧
      state.os = jgetStrDup lib (.object fields) "os" ∧ state.osVersion = jgetStrDup lib (.object fields) "os_version" := by
  unfold ltfStateFromJson at decoded
  dsimp only at decoded
  split at decoded
  next tests array =>
    obtain ⟨read, -, same⟩ := Option.bind_eq_some_iff.mp decoded
    cases same
    exact ⟨_, rfl, rfl, rfl⟩
  next =>
    cases decoded
    exact ⟨_, rfl, rfl, rfl⟩

theorem decoded_other (other : ¬ ∃ fields, root = .object fields) : ltfStateFromJson lib root = some none := by
  cases root with
  | object fields => exact absurd ⟨fields, rfl⟩ other
  | _ => rfl

/-- What becomes of the document, with the three ways in which it is read. -/
theorem readLog_cases (lib : Coercions) (path : CStr) (root : Json) :
    (¬ LevelsPresent root ∧ ltfLogsInfoReadLog lib path root = .error .missingString) ∨
    (LevelsPresent root ∧ ¬ Loads root ∧ ∃ message, ltfLogsInfoReadLog lib path root = .ok (.error message)) ∨
    (LevelsPresent root ∧ Loads root ∧ ∃ state, ltfStateFromJson lib root = some (some state) ∧
      ltfLogsInfoReadLog lib path root = .ok (.ok state)) := by
  unfold ltfLogsInfoReadLog
  rw [levels_present lib]
  cases decoded : ltfStateFromJson lib root with
  | none => simp
  | some found =>
    by_cases object : ∃ fields, root = .object fields
    · obtain ⟨fields, rfl⟩ := object
      obtain ⟨state, rfl, os, version⟩ := decoded_object decoded
      have loads : Loads (.object fields) ↔ state.os.isSome ∧ state.osVersion.isSome := by
        rw [os, version, jgetStrDup_isSome, jgetStrDup_isSome, Loads]
        simp only [List.forall_mem_cons, List.not_mem_nil, false_implies, implies_true, and_true]
        exact ⟨And.right, fun both => ⟨⟨fields, rfl⟩, both⟩⟩
      rw [loads]
      by_cases both : state.os.isSome ∧ state.osVersion.isSome
      · simp [Option.filter, both, pure, Except.pure]
      · simp [Option.filter, both, pure, Except.pure]
    · rw [decoded_other object] at decoded
      cases decoded
      simp [Loads, object, pure, Except.pure]

end Decoding

section Printing

theorem levelColor_returns (level : Option LogLevel) : Returns (levelColor level) ↔ level.isSome := by
  cases level with
  | none => simp [Returns, levelColor, levelIndex, logLevelColorMap]
  | some level => cases level <;> exact ⟨fun _ => rfl, fun _ => .ok⟩

example : levelColor (ltfLogLevelFromStr (.lit "NOTICE")) = .error .outsideTable := rfl

theorem printOutput_returns (ch ch2 : CStr) (output : TestOutput) :
    Returns (printTestOutput ch ch2 output) ↔ output.level.isSome := by
  rw [← levelColor_returns]
  exact Returns.bind_pure _

theorem printOutputs_returns (outputs : DaPtr TestOutput) (type : CStr) (hasNext : Bool) :
    Returns (ltfLogsInfoPrintTestOutputs outputs type hasNext) ↔ none ∉ levels outputs := by
  unfold ltfLogsInfoPrintTestOutputs
  split
  next empty =>
    have empty : outputs.getD [] = [] := List.length_eq_zero_iff.mp empty
    simp [levels, empty, Returns, pure, Except.pure]
  next =>
    rw [Returns.bind_pure, Returns.mapM]
    simp only [printOutput_returns]
    have items := List.zipIdx_map_fst 0 (outputs.getD [])
    have same : (∀ item ∈ (outputs.getD []).zipIdx, item.1.level.isSome) ↔
        ∀ output ∈ outputs.getD [], output.level.isSome := by
      conv => rhs; rw [← items]
      rw [List.forall_mem_map]
    rw [same, levels, List.mem_map, not_exists]
    simp only [Option.isSome_iff_ne_none, not_and]

theorem printTest_returns (opts : CmdLogsInfoOptions) (test : StateTest) :
    Returns (ltfLogsInfoPrintTest opts test) ↔ (opts.includeOutputs → none ∉ testLevels test) := by
  unfold ltfLogsInfoPrintTest
  dsimp only
  split
  next included =>
    simp only [included, true_implies, testLevels, List.mem_append, not_or, pure_bind]
    rw [Returns.bind, printOutputs_returns]
    intro failureReasons
    rw [Returns.bind, printOutputs_returns]
    intro outputs
    rw [Returns.bind, printOutputs_returns]
    intro teardownOutputs
    rw [Returns.bind_pure, printOutputs_returns]
  next left_out => simp [left_out, Returns, pure, Except.pure, bind, Except.bind]

end Printing

section Command
variable {fromFile : FromFile} {file : Json} {opts : CmdLogsInfoOptions} {arg : LogArg} {proj : Option ProjectParsed} {state : LtfState}

theorem command_fault {fault : LogsFault} (loaded : ltfLogsInfoLoadLog lib fromFile arg file = .error fault) :
    ltfLogsInfo lib fromFile opts arg file = .error fault := by
  rw [ltfLogsInfo, bind_of_error loaded]

theorem command_refused {message : CStr} (loaded : ltfLogsInfoLoadLog lib fromFile arg file = .ok (proj, .error message)) :
    ltfLogsInfo lib fromFile opts arg file = .ok { code := exitFailure, err := [message] } := by
  rw [ltfLogsInfo, bind_of_ok loaded]
  rfl

theorem command_returns (loaded : ltfLogsInfoLoadLog lib fromFile arg file = .ok (proj, .ok state)) :
    Returns (ltfLogsInfo lib fromFile opts arg file) ↔
      (opts.includeOutputs → none ∉ stateLevels (some state)) ∧ Returns (projectParserFree proj) := by
  have levels : (∀ test ∈ state.tests.getD [], opts.includeOutputs → none ∉ testLevels test) ↔
      (opts.includeOutputs → none ∉ stateLevels (some state)) := by
    simp only [stateLevels, Option.bind_some, List.mem_flatMap, not_exists, not_and]
    exact ⟨fun each included test inside => each test inside included, fun all test inside included => all included test inside⟩
  rw [← levels, ltfLogsInfo, bind_of_ok loaded]
  simp only [← printTest_returns]
  rw [Returns.bind, Returns.mapM]
  intro texts
  exact Returns.bind_pure _

theorem Informs.returns (informs : Informs lib fromFile opts file arg) : Returns (ltfLogsInfo lib fromFile opts arg file) := by
  by_cases accepted : ∃ state, ltfStateFromJson lib (fromFile file) = some (some state)
  · exact informs.accepted accepted
  · obtain ⟨ended, ran, -⟩ := informs.refused accepted
    exact ⟨ended, ran⟩

theorem not_informs {fault : LogsFault} (loaded : ltfLogsInfoLoadLog lib fromFile arg file = .error fault) :
    ¬ Informs lib fromFile opts file arg := by
  intro informs
  obtain ⟨ended, ran⟩ := informs.returns
  rw [command_fault loaded] at ran
  cases ran

/-- An error message is all right for any document. -/
theorem informs_refused {message : CStr} (loaded : ltfLogsInfoLoadLog lib fromFile arg file = .ok (proj, .error message)) :
    Informs lib fromFile opts file arg :=
  ⟨fun _ => ⟨_, command_refused loaded⟩, fun _ => ⟨_, command_refused loaded, rfl, List.cons_ne_nil _ _⟩⟩

theorem informs_loaded (accepted : ltfStateFromJson lib (fromFile file) = some (some state))
    (loaded : ltfLogsInfoLoadLog lib fromFile arg file = .ok (proj, .ok state)) : Informs lib fromFile opts file arg ↔
      (opts.includeOutputs → LevelsKnown lib (fromFile file)) ∧ Returns (projectParserFree proj) := by
  rw [levels_known accepted, ← command_returns loaded]
  exact ⟨Informs.returns, fun ends => ⟨fun _ => ends, fun refused => absurd ⟨state, accepted⟩ refused⟩⟩

theorem free_parsed {dir : CStr} {project : Json} {record : ProjectParsed}
    (parsed : projectParserParse lib dir project = .ok (some record)) : projectParserFree (some record) = .ok () := by
  obtain ⟨header, parses⟩ := TargetRuns.Accepted.parses ⟨record, parsed⟩
  rw [TargetRuns.Parses, parsed, Except.ok.injEq, Option.some.injEq] at parses
  subst parses
  have targets := @TargetRuns.readTargets_eq (TargetRuns.loaded header dir (TargetRuns.isMultitarget project)
    (TargetRuns.targetNames lib project)) _ rfl (by simp only [TargetRuns.loaded]; split <;> simp_all)
  simp [projectParserFree, TargetRuns.loaded] at targets ⊢
  rw [targets]
  rfl

theorem named_informs (path : CStr) : Informs lib fromFile opts file (.named path) ↔ LevelsPresent (fromFile file) ∧ ¬ Loads (fromFile file) := by
  obtain ⟨absent, read⟩ | ⟨present, incomplete, message, read⟩ | ⟨present, loads, state, accepted, read⟩ :=
    readLog_cases lib (snprintf pathMax [path]) (fromFile file)
  · have loaded : ltfLogsInfoLoadLog lib fromFile (.named path) file = .error .missingString := by
      rw [ltfLogsInfoLoadLog, bind_of_error read]
    exact iff_of_false (not_informs loaded) fun ready => absent ready.1
  · have loaded : ltfLogsInfoLoadLog lib fromFile (.named path) file = .ok (none, .error message) := by
      rw [ltfLogsInfoLoadLog, bind_of_ok read]
      rfl
    exact iff_of_true (informs_refused loaded) ⟨present, incomplete⟩
  · have loaded : ltfLogsInfoLoadLog lib fromFile (.named path) file = .ok (none, .ok state) := by
      rw [ltfLogsInfoLoadLog, bind_of_ok read]
      rfl
    rw [informs_loaded accepted loaded]
    refine iff_of_false ?_ fun ready => ready.2 loads
    intro both
    obtain ⟨-, ended, ran⟩ := both
    cases ran

theorem latest_informs {dir : CStr} {project : Json} {record : ProjectParsed}
    (parsed : projectParserParse lib dir project = .ok (some record)) : Informs lib fromFile opts file (.latest dir project) ↔
      LevelsPresent (fromFile file) ∧ (opts.includeOutputs → Loads (fromFile file) → LevelsKnown lib (fromFile file)) := by
  have first : (projectParserParse lib dir project).mapError LogsFault.project = .ok (some record) := by rw [parsed]; rfl
  obtain ⟨absent, read⟩ | ⟨present, incomplete, message, read⟩ | ⟨present, loads, state, accepted, read⟩ :=
    readLog_cases lib (snprintf pathMax [dir, .lit "/logs/test_run_latest_raw.json"]) (fromFile file)
  · have loaded : ltfLogsInfoLoadLog lib fromFile (.latest dir project) file = .error .missingString := by
      rw [ltfLogsInfoLoadLog, bind_of_ok first]
      exact bind_of_error read
    exact iff_of_false (not_informs loaded) fun ready => absent ready.1
  · have loaded : ltfLogsInfoLoadLog lib fromFile (.latest dir project) file = .ok (some record, .error message) := by
      rw [ltfLogsInfoLoadLog, bind_of_ok first]
      exact bind_of_ok read
    exact iff_of_true (informs_refused loaded) ⟨present, fun _ loads => absurd loads incomplete⟩
  · have loaded : ltfLogsInfoLoadLog lib fromFile (.latest dir project) file = .ok (some record, .ok state) := by
      rw [ltfLogsInfoLoadLog, bind_of_ok first]
      exact bind_of_ok read
    rw [informs_loaded accepted loaded, free_parsed parsed]
    simp [present, loads, Returns]

end Command

/-- The command ends as it should for exactly these documents. -/
theorem informs_iff (lib : Coercions) (fromFile : FromFile) (opts : CmdLogsInfoOptions) (file : Json) (arg : LogArg) :
    Informs lib fromFile opts file arg ↔ Ready lib opts (fromFile file) arg := by
  cases arg with
  | named path => exact named_informs path
  | latest dir project =>
    cases parsed : projectParserParse lib dir project with
    | error fault =>
      have loaded : ltfLogsInfoLoadLog lib fromFile (.latest dir project) file = .error (.project fault) := by
        rw [ltfLogsInfoLoadLog, parsed]
        rfl
      apply iff_of_false (not_informs loaded)
      intro ready
      obtain ⟨result, returned, -⟩ := ready
      rw [parsed] at returned
      cases returned
    | ok result =>
      have ready (holds : Prop) : (∃ other, projectParserParse lib dir project = .ok other ∧ (other.isSome → holds)) ↔
          (result.isSome → holds) := by
        simp [parsed]
      rw [Ready, ready]
      cases result with
      | none =>
        have loaded : ltfLogsInfoLoadLog lib fromFile (.latest dir project) file = .ok (none, .error projectRefused) := by
          rw [ltfLogsInfoLoadLog, parsed]
          rfl
        exact iff_of_true (informs_refused loaded) fun absurd => nomatch absurd
      | some record =>
        rw [latest_informs parsed]
        exact ⟨fun both _ => both, fun both => both rfl⟩

/-- A document that names the host and has one test with these outputs. -/
def logWith (outputs : List Json) : Json := .object [(.lit "os", newString (.lit "Linux")),
  (.lit "os_version", newString (.lit "6.1")), (.lit "tests", .array [.object [(.lit "output", .array outputs)]])]

theorem logWith_loads (outputs : List Json) : Loads (logWith outputs) := by
  refine ⟨⟨_, rfl⟩, ?_⟩
  intro key inside
  simp only [List.mem_cons, List.not_mem_nil, or_false] at inside
  obtain rfl | rfl := inside <;> exact ⟨_, rfl, Json.noConfusion⟩

/-- A log that was given by its path is printed, and then there is no project to free. -/
theorem path_crashes : ¬ Informs default id {} (logWith []) (.named (.lit "run.json")) := by
  intro informs
  exact ((named_informs _).mp informs).2 (logWith_loads [])

end Ltf.Proofs.LogsInfo
