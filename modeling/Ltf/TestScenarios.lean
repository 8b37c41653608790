import Ltf.Base.Json
import Ltf.CmdParser

/-! `ltf_test_scenarios.c`: a scenario file is read, then the one it includes is parsed, and
what the file says is put over what the included one has left in `parsed`. -/

namespace Ltf.TestScenarios
open CString JsonC CmdParser

/-- `ltf_test_scenario_cmd_t`. A level of `-1` is `none`; the zeroed one is `CRITICAL`. -/
structure TestScenarioCmd where
  target : Option CStr := none
  tags : List CStr := []
  tagsAppend : List CStr := []
  tagsRemove : List CStr := []
  vars : List KvPair := []
  varsAppend : List KvPair := []
  varsRemove : List CStr := []
  logLevel : Option LogLevel := some .critical
  noLogs : Bool := false
  skipHooks : Bool := false
  headless : Bool := false
  ltfLibPath : Option CStr := none

/-- `ltf_test_scenario_t`, as `calloc` clears it. -/
structure TestScenario where
  included : Option CStr := none
  cmd : TestScenarioCmd := {}
  order : List CStr := []
  orderAppend : List CStr := []
  orderRemove : List CStr := []

/-- The paths that name a file, each with what json-c makes of its content, and the text of
its last error. Paths have a greatest length, so finitely many of them name a file. -/
structure Files where
  contents : List (CStr × Option Json)
  lastErr : CStr

/-- What is printed for a file and its error. -/
def ltfTestScenarioParseErr (filePath : CStr) (err : List CStr) : Except CStr α :=
  .error (.concat ([.lit "Error parsing test scenario '", filePath, .lit "':\n\t"] ++ err ++ [.lit "\n"]))

section Reading
variable (files : Files) (filePath : CStr) (name : CStr)

def jsonArrayToStrArray (o : Json) : Except CStr (List CStr) :=
  match o with
  | .array items => items.zipIdx.mapM fun (item, i) =>
    match item with
    | .null => ltfTestScenarioParseErr filePath [.lit "Unable to parse '", name, .lit "': ", files.lastErr]
    | .string bytes => .ok (.ofBytes bytes)
    | _ => ltfTestScenarioParseErr filePath
      [.lit "Unable to parse '", name, .lit "': '", name, .lit "' item with index ", .lit (toString i),
        .lit " is not a string."]
  | _ => ltfTestScenarioParseErr filePath [.lit "'", name, .lit "' should be an array of strings."]

def jsonObjectToKvPairsArr (o : Json) : Except CStr (List KvPair) :=
  match o with
  | .object fields => fields.mapM fun (key, value) =>
    match value with
    | .null => ltfTestScenarioParseErr filePath [.lit "Unable to parse '", name, .lit "'"]
    | .string bytes => .ok (key, .ofBytes bytes)
    | _ => ltfTestScenarioParseErr filePath
      [.lit "Unable to parse '", name, .lit "': '", name, .lit ".", key, .lit "' value should be a string"]
  | _ => ltfTestScenarioParseErr filePath [.lit "'", name, .lit "' should be an object."]

def jsonStringToString (o : Json) : Except CStr CStr :=
  match o with
  | .string bytes => .ok (.ofBytes bytes)
  | _ =>
    ltfTestScenarioParseErr filePath [.lit "Unable to parse '", name, .lit "': '", name, .lit "' should be a string."]

/-- The checks of the three flags, one of which has the name of another in its text. -/
def jsonBooleanToBool (o : Json) : Except CStr Bool :=
  match o with
  | .boolean value => .ok value
  | _ => ltfTestScenarioParseErr filePath [.lit "'", name, .lit "' should be a boolean."]

def jsonStringToLevel (o : Json) : Except CStr LogLevel := do
  let str ← jsonStringToString filePath name o
  match ltfLogLevelFromStr str with
  | none => ltfTestScenarioParseErr filePath [.lit "Unknown log level '", str, .lit "'"]
  | some level => return level

end Reading

/-- A field is read if it is there. Otherwise it stays as it was cleared. -/
def ifPresent (o : Json) (key : String) (absent : α) (read : Json → Except CStr α) : Except CStr α :=
  match get o (.lit key) with
  | none => .ok absent
  | some value => read value

/-- The part of `ltf_test_scenario_from_json` inside the object at `"cmd"`. -/
def cmdFromJson (files : Files) (filePath : CStr) (v : Json) : Except CStr TestScenarioCmd :=
  match v with
  | .object _ => do
    let strings := fun name => jsonArrayToStrArray files filePath (.lit name)
    let pairs := fun name => jsonObjectToKvPairsArr filePath (.lit name)
    let target ← ifPresent v "target" none fun o => some <$> jsonStringToString filePath (.lit "cmd.target") o
    let skipHooks ← ifPresent v "skip_hooks" false (jsonBooleanToBool filePath (.lit "cmd.no_logs"))
    let logLevel ← ifPresent v "log_level" none fun o => some <$> jsonStringToLevel filePath (.lit "cmd.log_level") o
    let noLogs ← ifPresent v "no_logs" false (jsonBooleanToBool filePath (.lit "cmd.no_logs"))
    let headless ← ifPresent v "headless" false (jsonBooleanToBool filePath (.lit "cmd.headless"))
    let ltfLibPath ← ifPresent v "ltf_lib_path" none fun o =>
      some <$> jsonStringToString filePath (.lit "cmd.ltf_lib_path") o
    let tags ← ifPresent v "tags" [] (strings "cmd.tags:")
    let tagsAppend ← ifPresent v "tags:append" [] (strings "cmd.tags:append")
    let tagsRemove ← ifPresent v "tags:remove" [] (strings "cmd.tags:remove")
    let vars ← ifPresent v "vars" [] (pairs "cmd.vars")
    let varsAppend ← ifPresent v "vars:append" [] (pairs "cmd.vars:append")
    let varsRemove ← ifPresent v "vars:remove" [] (strings "vars:remove")
    return {
      target := target, tags, tagsAppend, tagsRemove, vars, varsAppend, varsRemove
      logLevel, noLogs, skipHooks, headless, ltfLibPath }
  | _ => ltfTestScenarioParseErr filePath [.lit "'cmd' should be an object."]

/-- A file that json-c cannot read, or that has nothing but `null`, gives `NULL`. -/
def ltfTestScenarioFromJson (files : Files) (filePath : CStr) (content : Option Json) : Except CStr TestScenario :=
  match content with
  | none | some .null => ltfTestScenarioParseErr filePath [.lit "JSON parsing error: ", files.lastErr]
  | some o => do
    let strings := fun name => jsonArrayToStrArray files filePath (.lit name)
    let included ← ifPresent o "include" none fun v => some <$> jsonStringToString filePath (.lit "include") v
    let cmd ← ifPresent o "cmd" {} (cmdFromJson files filePath)
    let order ← ifPresent o "order" [] (strings "order")
    let orderAppend ← ifPresent o "order:append" [] (strings "order:append")
    let orderRemove ← ifPresent o "order:remove" [] (strings "order:remove")
    return { included := included, cmd, order, orderAppend, orderRemove }

/-- An included file is looked for in the directory of the one that includes it. -/
def includeFilePath (filePath included : CStr) : CStr :=
  match strrchr filePath.bytes 47 with
  | none => .concat [included, .lit ".json"]
  | some eq => .concat [.ofBytes (filePath.bytes.take (eq + 1)), included, .lit ".json"]

/-- For each name the first item that is equal to it. -/
def removeFromStringDa (da arr : List CStr) : List CStr := arr.foldl List.erase da

def appendToStringDa (da arr : List CStr) : List CStr := da ++ arr

/-- The array is emptied from its end and filled again. -/
def replaceStringDa (_ arr : List CStr) : List CStr := appendToStringDa [] arr

/-- For each name the first pair with this key. -/
def removeFromKvPairDa (da : List KvPair) (arr : List CStr) : List KvPair :=
  arr.foldl (fun da name => da.eraseP (·.1 = name)) da

def appendToKvPairDa (da arr : List KvPair) : List KvPair := da ++ arr

def replaceKvPairDa (_ arr : List KvPair) : List KvPair := appendToKvPairDa [] arr

/-- Append, remove and redeclare, each only when its array has items. -/
def mergeStringDa (append remove redeclare da : List CStr) : List CStr :=
  let da := if append.length ≠ 0 then appendToStringDa da append else da
  let da := if remove.length ≠ 0 then removeFromStringDa da remove else da
  if redeclare.length ≠ 0 then replaceStringDa da redeclare else da

def mergeKvPairDa (append : List KvPair) (remove : List CStr) (redeclare da : List KvPair) : List KvPair :=
  let da := if append.length ≠ 0 then appendToKvPairDa da append else da
  let da := if remove.length ≠ 0 then removeFromKvPairDa da remove else da
  if redeclare.length ≠ 0 then replaceKvPairDa da redeclare else da

/-- The end of `ltf_test_scenario_parse_file`: what a scenario does to `parsed`. -/
def mergeScenario (s : TestScenario) (parsed : TestScenarioParsed) : TestScenarioParsed where
  target := if s.cmd.target.isSome then s.cmd.target else parsed.target
  headless := s.cmd.headless
  noLogs := s.cmd.noLogs
  skipHooks := s.cmd.skipHooks
  ltfLibPath := if s.cmd.ltfLibPath.isSome then s.cmd.ltfLibPath else parsed.ltfLibPath
  logLevel := if s.cmd.logLevel ≠ none then s.cmd.logLevel else parsed.logLevel
  tags := mergeStringDa s.cmd.tagsAppend s.cmd.tagsRemove s.cmd.tags parsed.tags
  vars := mergeKvPairDa s.cmd.varsAppend s.cmd.varsRemove s.cmd.vars parsed.vars
  order := mergeStringDa s.orderAppend s.orderRemove s.order parsed.order

/-- The recursion follows the files. Without fuel there is no result yet. -/
def ltfTestScenarioParseFile (files : Files) :
    Nat → CStr → TestScenarioParsed → Option (Except CStr TestScenarioParsed)
  | 0, _, _ => none
  | fuel + 1, filePath, parsed =>
    match files.contents.lookup filePath with
    | none => some (ltfTestScenarioParseErr filePath [.lit "File does not exist"])
    | some content =>
      match ltfTestScenarioFromJson files filePath content with
      | .error err => some (.error err)
      | .ok s =>
        match s.included with
        | none => some (.ok (mergeScenario s parsed))
        | some included =>
          match ltfTestScenarioParseFile files fuel (includeFilePath filePath included) parsed with
          | none => none
          | some (.error err) => some (.error err)
          | some (.ok parsed) => some (.ok (mergeScenario s parsed))

/-- `parsed` is back at its defaults whenever a parse starts. -/
def ltfTestScenarioParse (files : Files) (fuel : Nat) (filePath : CStr) : Option (Except CStr TestScenarioParsed) :=
  ltfTestScenarioParseFile files fuel filePath {}

end Ltf.TestScenarios
