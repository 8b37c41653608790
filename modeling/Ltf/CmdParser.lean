import Ltf.Base.Assoc
import Ltf.State

/-! The options of `ltf test` of `cmd_parser.c`, which act on `test_opts` in the order in
which they are given. -/

namespace Ltf.CmdParser
open CString

/-- `kv_pair_t` -/
abbrev KvPair := CStr × CStr

/-- `ltf_test_scenario_parsed_t`, with the values a scenario starts from. -/
structure TestScenarioParsed where
  target : Option CStr := none
  tags : List CStr := []
  vars : List KvPair := []
  logLevel : Option LogLevel := some .info
  noLogs : Bool := false
  skipHooks : Bool := false
  headless : Bool := false
  ltfLibPath : Option CStr := none
  order : List CStr := []

/-- `cmd_test_options`, as `parse_test_options` resets it. -/
structure CmdTestOptions where
  tags : List CStr := []
  vars : List KvPair := []
  noLogs : Bool := false
  logLevel : Option LogLevel := some .info
  logLevelSet : Bool := false
  skipHooks : Bool := false
  target : Option CStr := none
  internalLogging : Bool := false
  customLtfLibPath : Option CStr := none
  headless : Bool := false
  scenario : TestScenarioParsed := { logLevel := some .critical }
  scenarioParsed : Bool := false

/-- What the command line is read against: the content of scenario files, as
`ltf_test_scenario_parse` finds it, and whether the enumeration of the levels has a sign. -/
structure Surroundings where
  testScenarioParse : CStr → Option TestScenarioParsed
  signedEnum : Bool

def stringSplitByDelim (s : CStr) (delim : UInt8) : List CStr := (strtok s.bytes delim).map .ofBytes

def setTestTags (arg : CStr) (opts : CmdTestOptions) : Process CmdTestOptions :=
  return { opts with tags := stringSplitByDelim arg 44 }

/-- The loop body of `set_test_vars`. A pair without a value is malformed. -/
def setTestVar (opts : CmdTestOptions) (token : List UInt8) : Process CmdTestOptions :=
  match strchr token 61 with
  | none => .error (.exit exitFailure)
  | some eq =>
    if token.drop (eq + 1) = [] then .error (.exit exitFailure)
    else .ok { opts with vars := Assoc.put opts.vars (.ofBytes (token.take eq), .ofBytes (token.drop (eq + 1))) }

def setTestVars (arg : CStr) (opts : CmdTestOptions) : Process CmdTestOptions :=
  (strtok arg.bytes 44).foldlM setTestVar opts

def setTestNoLogs (opts : CmdTestOptions) : Process CmdTestOptions := return { opts with noLogs := true }

/-- Without a sign no level is below zero, not even that of an unknown name. -/
def setLogLevel (env : Surroundings) (arg : CStr) (opts : CmdTestOptions) : Process CmdTestOptions :=
  let logLevel := ltfLogLevelFromStr arg
  if env.signedEnum && logLevel.isNone then .error (.exit exitFailure)
  else .ok { opts with logLevelSet := true, logLevel }

def getTestHelp (_ : CmdTestOptions) : Process CmdTestOptions := .error (.exit exitSuccess)

def setTestLtfLibPath (arg : CStr) (opts : CmdTestOptions) : Process CmdTestOptions :=
  return { opts with customLtfLibPath := some arg }

def setTestHeadless (opts : CmdTestOptions) : Process CmdTestOptions := return { opts with headless := true }

def setTestScenario (env : Surroundings) (arg : CStr) (opts : CmdTestOptions) : Process CmdTestOptions :=
  match env.testScenarioParse arg with
  | none => .error (.exit exitFailure)
  | some sc => return { opts with
      scenario := sc
      scenarioParsed := true
      vars := sc.vars.foldl Assoc.addMissing opts.vars
      tags := if opts.tags.length ≠ 0 then opts.tags ++ sc.tags else opts.tags
      target := if sc.target.isSome then sc.target else opts.target
      logLevel := if !opts.logLevelSet then sc.logLevel else opts.logLevel
      customLtfLibPath :=
        if opts.customLtfLibPath.isNone && sc.ltfLibPath.isSome then sc.ltfLibPath else opts.customLtfLibPath
      skipHooks := if !opts.skipHooks then sc.skipHooks else opts.skipHooks
      headless := if !opts.headless then sc.headless else opts.headless
      noLogs := if !opts.noLogs then sc.noLogs else opts.noLogs }

def setSkipHooks (opts : CmdTestOptions) : Process CmdTestOptions := return { opts with skipHooks := true }

/-- The part of `set_internal_logging` that concerns `test_opts`. -/
def setInternalLogging (opts : CmdTestOptions) : Process CmdTestOptions := return { opts with internalLogging := true }

/-- The callback of an option, which has an argument exactly when `has_argument` is set. -/
inductive Callback where
  | flag (set : CmdTestOptions → Process CmdTestOptions)
  | argument (set : CStr → CmdTestOptions → Process CmdTestOptions)

structure CmdOption where
  longOpt : Option CStr
  shortOpt : Option CStr
  callback : Callback

def CmdOption.isPresent (opt : CmdOption) (word : CStr) : Bool := opt.longOpt = some word || opt.shortOpt = some word

def allTestOptions (env : Surroundings) : List CmdOption :=
  [{ longOpt := some (.lit "--log-level"), shortOpt := some (.lit "-l"), callback := .argument (setLogLevel env) },
   { longOpt := some (.lit "--skip-hooks"), shortOpt := none, callback := .flag setSkipHooks },
   { longOpt := some (.lit "--no-logs"), shortOpt := some (.lit "-n"), callback := .flag setTestNoLogs },
   { longOpt := some (.lit "--ltf-lib-path"), shortOpt := some (.lit "-p"), callback := .argument setTestLtfLibPath },
   { longOpt := some (.lit "--tags"), shortOpt := some (.lit "-t"), callback := .argument setTestTags },
   { longOpt := some (.lit "--vars"), shortOpt := some (.lit "-v"), callback := .argument setTestVars },
   { longOpt := some (.lit "--scenario"), shortOpt := some (.lit "-s"), callback := .argument (setTestScenario env) },
   { longOpt := some (.lit "--internal-log"), shortOpt := some (.lit "-i"), callback := .flag setInternalLogging },
   { longOpt := some (.lit "--headless"), shortOpt := some (.lit "-e"), callback := .flag setTestHeadless },
   { longOpt := some (.lit "--help"), shortOpt := some (.lit "-h"), callback := .flag getTestHelp }]

/-- `argv[index][0] != '-'` -/
def isPlainWord (word : CStr) : Bool := word.bytes.head? ≠ some 45

def parseAdditionalOptions (options : List CmdOption) : List CStr → CmdTestOptions → Process CmdTestOptions
  | [], opts => return opts
  | word :: argv, opts =>
    if isPlainWord word then parseAdditionalOptions options argv opts
    else if word = .lit "--" then return opts
    else
      match options.find? (·.isPresent word) with
      | none => .error (.exit exitFailure)
      | some opt =>
        match opt.callback with
        | .flag set => do
          let opts ← set opts
          parseAdditionalOptions options argv opts
        | .argument set =>
          match argv with
          | [] => .error (.exit exitFailure)
          | arg :: argv => do
            let opts ← set arg opts
            parseAdditionalOptions options argv opts

/-- A first word that is no option is the target. -/
def parseTestOptions (env : Surroundings) (argv : List CStr) : Process CmdTestOptions :=
  match argv.drop 2 with
  | [] => return {}
  | word :: rest =>
    if isPlainWord word then parseAdditionalOptions (allTestOptions env) rest { target := some word }
    else parseAdditionalOptions (allTestOptions env) (word :: rest) {}

end Ltf.CmdParser
