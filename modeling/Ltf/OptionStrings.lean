import Ltf.Base.Ledger
import Ltf.TestScenarios

/-! The strings on the heap behind the options of `ltf test`: what `cmd_parser.c` and
`ltf_test_scenarios.c` copy, share and free. The texts themselves are those of `CmdParser`
and `TestScenarios`. -/

namespace Ltf.OptionStrings
open CString JsonC CmdParser Ledger
open TestScenarios (Files ltfTestScenarioParseErr)

/-- A string that was allocated. -/
abbrev Str := Owned CStr

/-- `kv_pair_t` with its strings. -/
abbrev Pair := Str × Str

/-- `ltf_test_scenario_cmd_t` with its strings. -/
structure ScenarioCmd where
  target : Option Str := none
  tags : List Str := []
  tagsAppend : List Str := []
  tagsRemove : List Str := []
  vars : List Pair := []
  varsAppend : List Pair := []
  varsRemove : List Str := []
  logLevel : Option LogLevel := some .critical
  noLogs : Bool := false
  skipHooks : Bool := false
  headless : Bool := false
  ltfLibPath : Option Str := none

/-- `ltf_test_scenario_t` with its strings. The path of its file is kept beside it, and the
scenario it includes behind it in a list. -/
structure Scenario where
  included : Option Str := none
  cmd : ScenarioCmd := {}
  order : List Str := []
  orderAppend : List Str := []
  orderRemove : List Str := []

/-- `ltf_test_scenario_parsed_t` with its strings. A pair set to `NULL` is left out. -/
structure ScenarioParsed where
  target : Option Str := none
  tags : List Str := []
  vars : List Pair := []
  logLevel : Option LogLevel := some .info
  noLogs : Bool := false
  skipHooks : Bool := false
  headless : Bool := false
  ltfLibPath : Option Str := none
  order : List Str := []

/-- `cmd_test_options` with its strings. -/
structure TestOptions where
  tags : List Str := []
  vars : List Pair := []
  noLogs : Bool := false
  logLevel : Option LogLevel := some .info
  logLevelSet : Bool := false
  skipHooks : Bool := false
  target : Option Str := none
  internalLogging : Bool := false
  customLtfLibPath : Option Str := none
  headless : Bool := false
  scenario : ScenarioParsed := { logLevel := some .critical }
  scenarioParsed : Bool := false

section Scenarios
variable {ε : Type}

def strdup (s : CStr) : Acquiring ε Str := acquire s

section Reading
variable (files : Files) (filePath : CStr) (name : CStr)

/-- A reader that fails ends the process, so the copies are made once all has been read. -/
def jsonArrayToStrArray (o : Json) : Acquiring CStr (List Str) := do
  let items ← attempt (TestScenarios.jsonArrayToStrArray files filePath name o)
  items.mapM strdup

def strdupPair (pair : KvPair) : Acquiring ε Pair := do
  let key ← strdup pair.1
  let value ← strdup pair.2
  return (key, value)

def jsonObjectToKvPairsArr (o : Json) : Acquiring CStr (List Pair) := do
  let pairs ← attempt (TestScenarios.jsonObjectToKvPairsArr filePath name o)
  pairs.mapM strdupPair

def jsonStringToString (o : Json) : Acquiring CStr Str := do
  let text ← attempt (TestScenarios.jsonStringToString filePath name o)
  strdup text

def jsonBooleanToBool (o : Json) : Acquiring CStr Bool := attempt (TestScenarios.jsonBooleanToBool filePath name o)

def jsonStringToLevel (o : Json) : Acquiring CStr LogLevel := do
  let str ← jsonStringToString filePath name o
  match ltfLogLevelFromStr str.value with
  | none => attempt (ltfTestScenarioParseErr filePath [.lit "Unknown log level '", str.value, .lit "'"])
  | some level => do
    free str
    return level

end Reading

def ifPresent {α : Type} (o : Json) (key : String) (absent : α) (read : Json → Acquiring CStr α) : Acquiring CStr α :=
  match get o (.lit key) with
  | none => return absent
  | some value => read value

/-- The part of `ltf_test_scenario_from_json` inside the object at `"cmd"`. -/
def cmdFromJson (files : Files) (filePath : CStr) (v : Json) : Acquiring CStr ScenarioCmd :=
  match v with
  | .object _ => do
    let strings := fun name => jsonArrayToStrArray files filePath (.lit name)
    let pairs := fun name => jsonObjectToKvPairsArr filePath (.lit name)
    let target ← ifPresent v "target" none fun o => some <$> jsonStringToString filePath (.lit "cmd.target") o
    let skipHooks ← ifPresent v "skip_hooks" false (jsonBooleanToBool filePath (.lit "cmd.no_logs"))
    let logLevel ← ifPresent v "log_level" none fun o => some <$> jsonStringToLevel filePath (.lit "cmd.log_level") o
    let noLogs ← ifPresent v "no_logs" false (jsonBooleanToBool filePath (.lit "cmd.no_logs"))
    let headless ← ifPresent v "headless" false (jsonBooleanToBool filePath (.lit "cmd.headless"))
    let ltfLibPath ← ifPresent v "ltf_lib_path" none fun o =>
      some <$> jsonStringToString filePath (.lit "cmd.ltf_lib_path") o
    let tags ← ifPresent v "tags" [] (strings "cmd.tags:")
    let tagsAppend ← ifPresent v "tags:append" [] (strings "cmd.tags:append")
    let tagsRemove ← ifPresent v "tags:remove" [] (strings "cmd.tags:remove")
    let vars ← ifPresent v "vars" [] (pairs "cmd.vars")
    let varsAppend ← ifPresent v "vars:append" [] (pairs "cmd.vars:append")
    let varsRemove ← ifPresent v "vars:remove" [] (strings "vars:remove")
    return {
      target := target, tags, tagsAppend, tagsRemove, vars, varsAppend, varsRemove
      logLevel, noLogs, skipHooks, headless, ltfLibPath }
  | _ => attempt (ltfTestScenarioParseErr filePath [.lit "'cmd' should be an object."])

def ltfTestScenarioFromJson (files : Files) (filePath : CStr) (content : Option Json) : Acquiring CStr Scenario :=
  match content with
  | none | some .null => attempt (ltfTestScenarioParseErr filePath [.lit "JSON parsing error: ", files.lastErr])
  | some o => do
    let strings := fun name => jsonArrayToStrArray files filePath (.lit name)
    let included ← ifPresent o "include" none fun v => some <$> jsonStringToString filePath (.lit "include") v
    let cmd ← ifPresent o "cmd" {} (cmdFromJson files filePath)
    let order ← ifPresent o "order" [] (strings "order")
    let orderAppend ← ifPresent o "order:append" [] (strings "order:append")
    let orderRemove ← ifPresent o "order:remove" [] (strings "order:remove")
    return { included := included, cmd, order, orderAppend, orderRemove }

/-- The path of the directory is made on the way. -/
def includeFilePath (filePath included : CStr) : Acquiring ε Str :=
  match strrchr filePath.bytes 47 with
  | none => acquire (.concat [included, .lit ".json"])
  | some eq => do
    let dirPath ← acquire (CStr.ofBytes (filePath.bytes.take (eq + 1)))
    let ret ← acquire (.concat [dirPath.value, included, .lit ".json"])
    free dirPath
    return ret

section Lists
variable {α : Type} [Holding α] (copy : α → Acquiring ε α) (name : α → CStr)

/-- For each name the first item that has it is taken out and freed. -/
def removeItem (da : List α) (text : Str) : Acquiring ε (List α) :=
  match da.find? fun item => name item = text.value with
  | none => return da
  | some item => do
    free item
    return da.eraseP fun item => name item = text.value

def removeFromDa (da : List α) (arr : List Str) : Acquiring ε (List α) := arr.foldlM (removeItem name) da

def appendToDa (da arr : List α) : Acquiring ε (List α) := do
  let copies ← arr.mapM copy
  return da ++ copies

def replaceDa (da arr : List α) : Acquiring ε (List α) := do
  free da
  appendToDa copy [] arr

def mergeDa (append : List α) (remove : List Str) (redeclare da : List α) : Acquiring ε (List α) := do
  let da ← appendToDa copy da append
  let da ← removeFromDa name da remove
  if redeclare.length ≠ 0 then replaceDa copy da redeclare else return da

end Lists

/-- `append_to_string_da`, `remove_from_string_da` and `replace_string_da`. The first two do
nothing for an array without items. -/
def mergeStringDa (append remove redeclare da : List Str) : Acquiring ε (List Str) :=
  mergeDa (fun s => strdup s.value) (·.value) append remove redeclare da

/-- `append_to_kv_pair_da`, `remove_from_kv_pair_da` and `replace_kv_pair_da` -/
def mergeKvPairDa (append : List Pair) (remove : List Str) (redeclare da : List Pair) : Acquiring ε (List Pair) :=
  mergeDa (fun pair => strdupPair (pair.1.value, pair.2.value)) (·.1.value) append remove redeclare da

/-- A field is freed and copied if there is a new value. -/
def replaceString (field : Option Str) (value : Option CStr) : Acquiring ε (Option Str) :=
  match value with
  | none => return field
  | some text => do
    free field
    some <$> strdup text

/-- The end of `ltf_test_scenario_parse_file`. -/
def mergeScenario (s : Scenario) (parsed : ScenarioParsed) : Acquiring ε ScenarioParsed := do
  let target ← replaceString parsed.target (s.cmd.target.map (·.value))
  let ltfLibPath ← replaceString parsed.ltfLibPath (s.cmd.ltfLibPath.map (·.value))
  let tags ← mergeStringDa s.cmd.tagsAppend s.cmd.tagsRemove s.cmd.tags parsed.tags
  let vars ← mergeKvPairDa s.cmd.varsAppend s.cmd.varsRemove s.cmd.vars parsed.vars
  let order ← mergeStringDa s.orderAppend s.orderRemove s.order parsed.order
  return {
    target := target, ltfLibPath, tags, vars, order
    headless := s.cmd.headless
    noLogs := s.cmd.noLogs
    skipHooks := s.cmd.skipHooks
    logLevel := if s.cmd.logLevel ≠ none then s.cmd.logLevel else parsed.logLevel }

/-- The scenario with those it includes, and what they leave in `parsed`. An error without a
text says that the fuel is used up. -/
def ltfTestScenarioParseFile (files : Files) :
    Nat → CStr → ScenarioParsed → Acquiring (Option CStr) (List (Str × Scenario) × ScenarioParsed)
  | 0, _, _ => throw none
  | fuel + 1, filePath, parsed =>
    match files.contents.lookup filePath with
    | none => failing some (attempt (ltfTestScenarioParseErr filePath [.lit "File does not exist"]))
    | some content => do
      let s ← failing some (ltfTestScenarioFromJson files filePath content)
      let path ← strdup filePath
      match s.included with
      | none => do
        let parsed ← mergeScenario s parsed
        return ([(path, s)], parsed)
      | some included => do
        let incFilePath ← includeFilePath filePath included.value
        let (parents, parsed) ← ltfTestScenarioParseFile files fuel incFilePath.value parsed
        free incFilePath
        let parsed ← mergeScenario s parsed
        return ((path, s) :: parents, parsed)

def freeCmd (cmd : ScenarioCmd) : Acquiring ε Unit := do
  free cmd.target
  free cmd.tags
  free cmd.tagsAppend
  free cmd.tagsRemove
  free cmd.vars
  free cmd.varsAppend
  free cmd.varsRemove
  free cmd.ltfLibPath

def ltfTestScenarioFree : List (Str × Scenario) → Acquiring ε Unit
  | [] => return ()
  | (filePath, scenario) :: parents => do
    ltfTestScenarioFree parents
    free filePath
    free scenario.included
    freeCmd scenario.cmd
    free scenario.order
    free scenario.orderAppend
    free scenario.orderRemove

def ltfTestScenarioParse (files : Files) (fuel : Nat) (filePath : CStr) : Acquiring (Option CStr) ScenarioParsed := do
  let (scenarios, parsed) ← ltfTestScenarioParseFile files fuel filePath {}
  ltfTestScenarioFree scenarios
  return parsed

end Scenarios

def stringSplitByDelim (s : CStr) (delim : UInt8) : Acquiring Stop (List Str) := do
  let copy ← strdup s
  let out ← (strtok s.bytes delim).mapM fun tok => strdup (.ofBytes tok)
  free copy
  return out

def setTestTags (arg : CStr) (opts : TestOptions) : Acquiring Stop TestOptions := do
  let tags ← stringSplitByDelim arg 44
  free opts.tags
  return { opts with tags }

/-- The inner loop of `set_test_vars`: a pair with the key is freed and replaced. -/
def putVar (pair : Pair) : List Pair → Acquiring Stop (List Pair)
  | [] => return [pair]
  | var :: vars =>
    if pair.1.value = var.1.value then do
      free var.1
      free var.2
      return pair :: vars
    else do
      let vars ← putVar pair vars
      return var :: vars

/-- The loop body of `set_test_vars`, which changes nothing but the list of variables. -/
def setTestVar (vars : List Pair) (token : List UInt8) : Acquiring Stop (List Pair) :=
  match strchr token 61 with
  | none => throw (.exit exitFailure)
  | some eq =>
    if token.drop (eq + 1) = [] then throw (.exit exitFailure)
    else do
      let pair ← strdupPair (.ofBytes (token.take eq), .ofBytes (token.drop (eq + 1)))
      putVar pair vars

def setTestVars (arg : CStr) (opts : TestOptions) : Acquiring Stop TestOptions := do
  let copy ← strdup arg
  let vars ← (strtok arg.bytes 44).foldlM setTestVar opts.vars
  free copy
  return { opts with vars }

def setTestLtfLibPath (arg : CStr) (opts : TestOptions) : Acquiring Stop TestOptions := do
  free opts.customLtfLibPath
  let path ← strdup arg
  return { opts with customLtfLibPath := some path }

/-- The loop over the variables of a scenario, with the two lists it changes. A pair that is
not on the command line is in both of them afterwards, with the same pointers. -/
def mergeVar (lists : List Pair × List Pair) (var : Pair) : Acquiring Stop (List Pair × List Pair) :=
  if lists.1.any fun regVar => var.1.value = regVar.1.value then do
    free var.2
    free var.1
    return lists
  else return (lists.1 ++ [var], lists.2 ++ [var])

def setTestScenario (files : Files) (fuel : Nat) (arg : CStr) (opts : TestOptions) : Acquiring Stop TestOptions := do
  let sc ← failing (fun _ => .exit exitFailure) (ltfTestScenarioParse files fuel arg)
  let (vars, scVars) ← sc.vars.foldlM mergeVar (opts.vars, [])
  let target ← replaceString opts.target (sc.target.map (·.value))
  let customLtfLibPath ←
    replaceString opts.customLtfLibPath
      (if opts.customLtfLibPath.isNone then sc.ltfLibPath.map (·.value) else none)
  return { opts with
    scenario := { sc with vars := scVars }
    scenarioParsed := true
    vars, target, customLtfLibPath
    tags := if opts.tags.length ≠ 0 then opts.tags ++ sc.tags else opts.tags
    logLevel := if !opts.logLevelSet then sc.logLevel else opts.logLevel
    skipHooks := if !opts.skipHooks then sc.skipHooks else opts.skipHooks
    headless := if !opts.headless then sc.headless else opts.headless
    noLogs := if !opts.noLogs then sc.noLogs else opts.noLogs }

/-- The start of `parse_test_options`. -/
def initTestOptions (target : Option CStr) : Acquiring Stop TestOptions := do
  let target ← replaceString none target
  return { target }

def cmdParserFreeTestOptions (opts : TestOptions) : Acquiring Stop Unit := do
  free opts.tags
  free opts.vars
  free opts.target
  free opts.customLtfLibPath
  free opts.scenario.target
  free opts.scenario.tags
  free opts.scenario.vars
  free opts.scenario.ltfLibPath
  free opts.scenario.order

end Ltf.OptionStrings
