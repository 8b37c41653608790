import Ltf.ProjectParser
import Ltf.StateJson
import Ltf.TestLogs

/-! `ltf_logs.c`: `ltf logs info`, from the tree of a raw log to what is printed. Memory does
not run out, and `printf` prints a `NULL` string as `(null)`. -/

namespace Ltf
open CString JsonC

/-- How the command ends without an exit code: a `NULL` string is compared, the table of colours
is read outside, there is no project to free, or the project file was the end of it. -/
inductive LogsFault where
  | missingString
  | outsideTable
  | noProject
  | project (fault : ProjectFault)
deriving DecidableEq

abbrev Logged := Except LogsFault

/-- `cmd_logs_info_options`, without the argument. -/
structure CmdLogsInfoOptions where
  includeOutputs : Bool := false
  keywordTree : Bool := false

/-- The argument: `latest`, from a project whose file has this tree, or the path of a file. -/
inductive LogArg where
  | latest (dir : CStr) (project : Json)
  | named (path : CStr)

/-- The exit code and what went to `stdout` and to `stderr`. -/
structure LogsEnd where
  code : Nat
  out : List CStr := []
  err : List CStr := []

def pathMax : Nat := 4096

/-- `snprintf` into a buffer of this size. -/
def snprintf (size : Nat) (pieces : List CStr) : CStr := .strndup (pieces.flatMap (·.bytes)) (size - 1)

def orNull (text : Option CStr) : CStr := text.getD (.lit "(null)")

/-- `NULL` is an empty tree, as a file that holds no JSON gives it. -/
def ltfLogsInfoReadLog (lib : Coercions) (path : CStr) (root : Json) : Logged (Except CStr LtfState) :=
  match ltfStateFromJson lib root with
  | none => .error .missingString
  | some found =>
    match found.filter fun state => state.os.isSome && state.osVersion.isSome with
    | none => return .error (.concat [.lit "Log file ", path, .lit " is either incorrect or corrupt.\n"])
    | some state => return .ok state

def projectRefused : CStr := .lit
  "Unable to parse project file, it may be corrupt.\n Please delete it and regenerate the project with 'ltf init'\n"

/-- The record that was parsed on the way, and the state or a message. -/
def ltfLogsInfoLoadLog (lib : Coercions) (fromFile : FromFile) (arg : LogArg) (file : Json) :
    Logged (Option ProjectParsed × Except CStr LtfState) := do
  match arg with
  | .latest dir project =>
    match ← (projectParserParse lib dir project).mapError .project with
    | none => return (none, .error projectRefused)
    | some proj =>
      let path := snprintf pathMax [dir, .lit "/logs/test_run_latest_raw.json"]
      return (some proj, ← ltfLogsInfoReadLog lib path (fromFile file))
  | .named path => return (none, ← ltfLogsInfoReadLog lib (snprintf pathMax [path]) (fromFile file))

/-- `da_foreach`, with the branch that is drawn for each item. -/
def daForeach {α : Type} (items : List α) (other : CStr) (print : CStr → α → List CStr) : List CStr :=
  items.zipIdx.flatMap fun (item, i) => print (if i = items.length - 1 then .lit "└" else other) item

def ltfLogsInfoPrintHeader (state : LtfState) : List CStr :=
  [.lit "LTF Log Info for Project '", orNull state.projectName, .lit "':\n",
    .lit "├── LTF version: ", orNull state.ltfVersion, .lit "\n",
    .lit "├── Host OS: ", orNull state.osVersion, .lit "\n",
    .lit "├── Started: ", orNull state.started, .lit "\n",
    .lit "├── Finished: ", orNull state.finished, .lit "\n"] ++
  (match state.target.filter (·.bytes ≠ []) with
    | some target => [.lit "├── Target: ", target, .lit "\n"]
    | none => []) ++
  (if daSize state.tags ≠ 0 then
    .lit "├── Tags:\n" :: daForeach (state.tags.getD []) (.lit "│") fun ch tag =>
      [.lit "│   ", ch, .lit "── ", orNull tag, .lit "\n"]
  else []) ++
  (if daSize state.vars ≠ 0 then
    .lit "├── Variables:\n" :: daForeach (state.vars.getD []) (.lit "│") fun ch var =>
      [.lit "│   ", ch, .lit "── ", var.name, .lit " = ", orNull var.finalValue, .lit "\n"]
  else []) ++
  [.lit "└── Total Tests Performed: ", decimal state.totalAmount, .lit "\n\n"]

def colored (code : String) : CStr := .concat [.ofBytes [27], .lit code]

def logLevelColorMap : List CStr :=
  [colored "[31m", colored "[31m", colored "[33m", colored "[34m", colored "[32m", colored "[36m"]

/-- A level as an index. The one of an unknown name is `-1`. -/
def levelIndex : Option LogLevel → Nat
  | some .critical => 0
  | some .error => 1
  | some .warning => 2
  | some .info => 3
  | some .debug => 4
  | some .trace => 5
  | none => 4294967295

def levelColor (level : Option LogLevel) : Logged CStr :=
  match logLevelColorMap[levelIndex level]? with
  | none => .error .outsideTable
  | some color => return color

def printTestOutput (ch ch2 : CStr) (output : TestOutput) : Logged (List CStr) := do
  let color ← levelColor output.level
  return [ch, .lit "   ", ch2, .lit "── [", orNull output.dateTime, .lit "][", color,
    orNull (ltfLogLevelToStr output.level), colored "[0m", .lit "]: ", orNull output.msg, .lit "\n"]

def ltfLogsInfoPrintTestOutputs (outputs : DaPtr TestOutput) (type : CStr) (hasNext : Bool) : Logged (List CStr) := do
  if daSize outputs = 0 then return []
  let lines ← (outputs.getD []).zipIdx.mapM fun (output, i) =>
    printTestOutput (if hasNext then .lit "│" else .lit " ")
      (if i = daSize outputs - 1 then .lit "└" else .lit "├") output
  return [if hasNext then .lit "├" else .lit "└", .lit "── ", type, .lit ":\n"] ++ lines.flatten

def ensureDepth (v : List Bool) (needed : Nat) : List Bool := v ++ List.replicate (needed - v.length) false

def ltfLogsInfoPutPrefix (hasMoreAtLevel : List Bool) (level : Nat) : List CStr :=
  (List.range level).map fun i => if hasMoreAtLevel.getD i false then .lit "│       " else .lit "        "

def ltfLogsInfoPrintProp (hasMoreAtLevel : List Bool) (level : Nat) (underNodeContinues isLastProp : Bool)
    (label : CStr) (value : Option CStr) : List CStr :=
  ltfLogsInfoPutPrefix hasMoreAtLevel level ++
    [if underNodeContinues then .lit "│   " else .lit "    ", if isLastProp then .lit "└──" else .lit "├──",
      .lit " ", label] ++ value.toList ++ [.lit "\n"]

/-- `%d` -/
def signedDecimal (value : Int) : CStr :=
  if value < 0 then .concat [.lit "-", decimal value.natAbs] else decimal value.natAbs

mutual
/-- What is printed, and the levels that go on below. -/
def ltfLogsInfoPrintKeywordRec (hasMoreAtLevel : List Bool) (level : Nat) (isLastSibling : Bool) :
    KeywordStatus → List CStr × List Bool
  | .mk children name started finished _ file line =>
    let hasMoreAtLevel := (ensureDepth hasMoreAtLevel (level + 1)).set level (!isLastSibling)
    let haveChildren := daSize children ≠ 0
    let finished := finished.filter (·.bytes ≠ [])
    let propTotal := 2 + (if finished.isSome then 1 else 0) + (if haveChildren then 1 else 0)
    let prop := fun idx => ltfLogsInfoPrintProp hasMoreAtLevel level (!isLastSibling) (idx = propTotal)
    let idx := if finished.isSome then 2 else 1
    let text := ltfLogsInfoPutPrefix hasMoreAtLevel level ++
      [if isLastSibling then .lit "└──" else .lit "├──", .lit "[", orNull name, .lit "]\n"] ++
      prop 1 (.lit "Started: ") started ++
      (if finished.isSome then prop idx (.lit "Finished: ") finished else []) ++
      prop (idx + 1) (.lit "Declaration: ")
        (some (snprintf (pathMax + 32) [orNull file, .lit ":", signedDecimal line]))
    match children with
    | some (child :: rest) =>
      let (below, hasMoreAtLevel) := printKeywords hasMoreAtLevel (level + 1) (child :: rest)
      (text ++ prop (idx + 2) (.lit "Children:") none ++ below, hasMoreAtLevel)
    | _ => (text, hasMoreAtLevel)

/-- Siblings, the last of which is drawn as such. -/
def printKeywords (hasMoreAtLevel : List Bool) (level : Nat) : List KeywordStatus → List CStr × List Bool
  | [] => ([], hasMoreAtLevel)
  | child :: rest =>
    let (text, hasMoreAtLevel) := ltfLogsInfoPrintKeywordRec hasMoreAtLevel level rest.isEmpty child
    let (more, hasMoreAtLevel) := printKeywords hasMoreAtLevel level rest
    (text ++ more, hasMoreAtLevel)
end

def ltfLogsInfoPrintTestKeywordTree (test : StateTest) : List CStr :=
  (printKeywords [] 0 (test.keywordStatuses.getD [])).1

def ltfLogsInfoPrintTest (opts : CmdLogsInfoOptions) (test : StateTest) : Logged (List CStr) := do
  let head := [.lit "Test '", orNull test.name, .lit "':\n"] ++
    (if daSize test.tags ≠ 0 then
      .lit "├── Tags:\n" :: daForeach (test.tags.getD []) (.lit "├") fun ch tag =>
        [.lit "│   ", ch, .lit "── ", orNull tag, .lit "\n"]
    else []) ++
    [.lit "├── Started: ", orNull test.started, .lit "\n", .lit "├── Finished: ", orNull test.finished, .lit "\n"]
  let hasFailureReasons := daSize test.failureReasons ≠ 0
  let hasOutputs := daSize test.outputs ≠ 0
  let hasTeardownOutputs := daSize test.teardownOutputs ≠ 0
  let hasTeardownErrors := daSize test.teardownErrors ≠ 0
  let hasKeywords := opts.keywordTree ∧ daSize test.keywordStatuses ≠ 0
  let goesOn := (opts.includeOutputs ∧
    (hasFailureReasons ∨ hasOutputs ∨ hasTeardownOutputs ∨ hasTeardownErrors)) ∨ hasKeywords
  let status := [if goesOn then .lit "├" else .lit "└", .lit "── Status: ", orNull test.statusStr, .lit "\n"]
  let outputs ← if opts.includeOutputs then do
      let failureReasons ← ltfLogsInfoPrintTestOutputs test.failureReasons (.lit "Failure reasons")
        (hasOutputs ∨ hasTeardownOutputs ∨ hasTeardownErrors ∨ hasKeywords)
      let outputs ← ltfLogsInfoPrintTestOutputs test.outputs (.lit "Outputs")
        (hasTeardownOutputs ∨ hasTeardownErrors ∨ hasKeywords)
      let teardownOutputs ← ltfLogsInfoPrintTestOutputs test.teardownOutputs (.lit "Teardown Outputs") hasTeardownErrors
      let teardownErrors ← ltfLogsInfoPrintTestOutputs test.teardownErrors (.lit "Teardown Errors") hasKeywords
      pure (failureReasons ++ outputs ++ teardownOutputs ++ teardownErrors)
    else pure []
  let tree := if opts.keywordTree then ltfLogsInfoPrintTestKeywordTree test else []
  return head ++ status ++ outputs ++ [.lit "\n"] ++ tree ++ [.lit "\n"]

/-- `project_parser_free` goes through the record, whether or not one was parsed. -/
def projectParserFree (proj : Option ProjectParsed) : Logged Unit :=
  match proj with
  | none => .error .noProject
  | some proj => Except.mapError .project do
    let _ ← readField proj.projectPath
    let _ ← readField proj.minLtfVerStr
    let _ ← readField proj.projectName
    let _ ← readTargets proj
    return ()

def ltfLogsInfo (lib : Coercions) (fromFile : FromFile) (opts : CmdLogsInfoOptions) (arg : LogArg) (file : Json) :
    Logged LogsEnd := do
  match ← ltfLogsInfoLoadLog lib fromFile arg file with
  | (_, .error message) => return { code := exitFailure, err := [message] }
  | (proj, .ok state) =>
    let tests ← (state.tests.getD []).mapM (ltfLogsInfoPrintTest opts)
    projectParserFree proj
    return { code := exitSuccess, out := ltfLogsInfoPrintHeader state ++ tests.flatten }

end Ltf
