import Ltf.FileTree
import Ltf.Version
import Mathlib.Data.List.DropRight

/-! `ltf_init.c`, and how `project_parser_parse` comes to the file of a project. -/

namespace Ltf.LtfInit
open CString JsonC DirTree FileTree Version

/-- `cmd_init_options` -/
structure CmdInitOptions where
  projectName : CStr
  multitarget : Bool := false
  internalLogging : Bool := false

def gitignoreContents : CStr := .lit "logs/\n.secrets\n\n\n.DS_Store"

def luarcContents : CStr := .concat [
  .lit "\x7b\n",
  .lit "  \"runtime\": \x7b\n",
  .lit "\n",
  .lit "    \"version\": \"Lua5.4\",\n",
  .lit "\n",
  .lit "    \"path\": [\n",
  .lit "      \"?.lua\",\n",
  .lit "      \"?/init.lua\",\n",
  .lit "      \"lib/?.lua\",\n",
  .lit "      \"lib/?/init.lua\"\n",
  .lit "    ]\n",
  .lit "\n",
  .lit "  \x7d,\n",
  .lit "\n",
  .lit "  \"workspace\": \x7b\n",
  .lit "\n",
  .lit "    \"checkThirdParty\": false,\n",
  .lit "\n",
  .lit "    \"library\": [\n",
  .lit "      \"~/.ltf/lib\",\n",
  .lit "      \"/home/linuxbrew/.linuxbrew/opt/ltf/share/ltf/lib\",\n",
  .lit "      \"/opt/homebrew/opt/ltf/share/ltf/lib\",\n",
  .lit "      \"/usr/local/opt/ltf/share/ltf/lib\"\n",
  .lit "    ]\n",
  .lit "\n",
  .lit "  \x7d\n",
  .lit "\n",
  .lit "\x7d"]

/-- How the command ends. -/
inductive InitResult where
  | noInternalLog
  | inProject
  | nameTaken
  | notCreated (ret : Int)
  /-- `exit(EXIT_FAILURE)` in `project_parser_save` -/
  | notSaved
  | created
deriving DecidableEq

def InitResult.exitCode : InitResult → Nat
  | .created => 0
  | _ => 1

/-- `snprintf(path, PATH_MAX, "%s/<name>", location)` -/
def pathIn (location : CStr) (name : String) : CStr := snprintf pathMax [location, .lit "/", .lit name]

section Create
variable (permits : Permits) (program : Program) (opts : CmdInitOptions)

/-- A directory that `create_project` needs, with what it returns when it cannot be made. -/
def needDirectory (path : CStr) (ret : Int) (s : Int × Host) : Int × Host :=
  if s.1 ≠ 0 then s
  else
    let (made, host) := createDirectory permits path s.2
    (if made then 0 else ret, host)

/-- A file is written, with what `create_project` returns when it is not. -/
def createFile (name : String) (contents : CStr) (ret : Int) (s : Int × Host) : Int × Host :=
  if s.1 ≠ 0 then s
  else
    match writeFile permits (pathIn opts.projectName name) (.text contents.bytes) s.2 with
    | some host => (0, host)
    | none => (ret, s.2)

def needDirectories (host : Host) : Int × Host :=
  let s := needDirectory permits opts.projectName (-1) (0, host)
  let s := needDirectory permits (pathIn opts.projectName "lib") (-2) s
  let s := needDirectory permits (pathIn opts.projectName "tests") (-3) s
  if opts.multitarget then needDirectory permits (pathIn opts.projectName "tests/common") (-4) s else s

/-- The object comes from `calloc`, so it has no targets. -/
def newProject : ProjectParsed where
  projectName := some opts.projectName
  minLtfVerStr := some program.version
  minLtfVerMajor := some program.major
  minLtfVerMinor := some program.minor
  minLtfVerPatch := some program.patch
  projectPath := some opts.projectName
  multitarget := some opts.multitarget
  targets := some []
  targetsAmount := some 0

/-- Once the project file was saved. -/
def createFiles (host : Host) : InitResult × Host :=
  let s := createFile permits opts ".gitignore" gitignoreContents (-5) (0, host)
  let (ret, host) := createFile permits opts ".luarc.json" luarcContents (-6) s
  (if ret ≠ 0 then .notCreated ret else .created, host)

def createProject (host : Host) : Managed (InitResult × Host) := do
  let (ret, host) := needDirectories permits opts host
  if ret ≠ 0 then return (.notCreated ret, host)
  else
    let root ← projectParserSave (newProject program opts)
    match writeFile permits (pathIn opts.projectName ".ltf.json") (.json root) host with
    | none => return (.notSaved, host)
    | some host => return createFiles permits opts host

/-- `ltf_init` once the internal log is open. -/
def initProject (host : Host) : Managed (InitResult × Host) :=
  if (fileFindUpwards host (.lit ".ltf.json")).isSome then return (.inProject, host)
  else if directoryExists host opts.projectName then return (.nameTaken, host)
  else createProject permits program opts host

/-- The file that `internal_logging_init` opens, in the current directory. -/
def internalLogFilePath (dateTimeNow : CStr) : CStr := snprintf pathMax [.lit "ltf_log_internal_", dateTimeNow, .lit ".log"]

/-- `ltf_init` at this time. Of the internal log there is only what it holds in the end. -/
def ltfInit (dateTimeNow : CStr) (internalLog : List UInt8) (host : Host) : Managed (InitResult × Host) :=
  if opts.internalLogging then
    match writeFile permits (internalLogFilePath dateTimeNow) (.text internalLog) host with
    | none => return (.noInternalLog, host)
    | some host => initProject permits program opts host
  else initProject permits program opts host

end Create

/-- `dirname` of a path that has a slash: what is in front of the last ones, or the root. -/
def dirname (path : CStr) : CStr :=
  let front := path.bytes.take ((strrchr path.bytes 47).getD 0)
  let above := front.rdropWhile (· = 47)
  if above ≠ [] then .ofBytes above else if front.length = 1 then .lit "//" else .lit "/"

/-- The directory of the project and the content of its file. -/
def findProject (host : Host) : Option (CStr × Content) :=
  match fileFindUpwards host (.lit ".ltf.json") with
  | none => none
  | some file =>
    match host.stat file with
    | some (.file content) => some (dirname file, content)
    | _ => none

/-- What `json_object_from_file` makes of a content. -/
def fromFile (parseText : List UInt8 → Option Json) : Content → Option Json
  | .json root => some root
  | .text bytes => parseText bytes

/-- `project_parser_parse` in the current directory -/
def parseHere (lib : Coercions) (parseText : List UInt8 → Option Json) (host : Host) : Managed (Option ProjectParsed) :=
  match findProject host with
  | none => return none
  | some (path, content) =>
    match fromFile parseText content with
    | none => return none
    | some file => projectParserParse lib path file

end Ltf.LtfInit
