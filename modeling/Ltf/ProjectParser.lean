import Ltf.Base.Json
import Ltf.Base.Steps

/-! `project_parser.c`: the project file and the record it is parsed into. The record
comes from `malloc`: a field that was not set holds nothing that may be read. -/

namespace Ltf
open CString JsonC

/-- How a command on a project ends without a result: it reads what was never set, it
copies a `NULL` string, or it repeats a question that nobody answers any more. -/
inductive ProjectFault where
  | uninitialised
  | crash
  | endless
deriving DecidableEq

abbrev Managed := Except ProjectFault

/-- `project_parsed_t` -/
structure ProjectParsed where
  projectName : Option CStr := none
  minLtfVerStr : Option CStr := none
  minLtfVerMajor : Option Int := none
  minLtfVerMinor : Option Int := none
  minLtfVerPatch : Option Int := none
  projectPath : Option CStr := none
  multitarget : Option Bool := none
  targets : Option (List CStr) := none
  targetsAmount : Option Nat := none

def readField {α : Type} : Option α → Managed α
  | some value => .ok value
  | none => .error .uninitialised

def jsonGetString (obj : Json) (key : CStr) : Option CStr :=
  match get obj key with
  | some (.string bytes) => some (.ofBytes bytes)
  | _ => none

def jsonGetBool (obj : Json) (key : CStr) : Option Bool :=
  match get obj key with
  | some (.boolean value) => some value
  | _ => none

def jsonGetInt (lib : Coercions) (obj : Json) (key : CStr) : Option Int :=
  match get obj key with
  | some (.int value) => some (getInt lib (.int value))
  | _ => none

/-- The fields in front of the targets, each of which has to be there. -/
def projectParseHeader (lib : Coercions) (obj : Json) (proj : ProjectParsed) : Option (ProjectParsed × Bool) := do
  let name ← jsonGetString obj (.lit "project_name")
  let version ← jsonGetString obj (.lit "min_ltf_version")
  let major ← jsonGetInt lib obj (.lit "min_ltf_version_major")
  let minor ← jsonGetInt lib obj (.lit "min_ltf_version_minor")
  let patch ← jsonGetInt lib obj (.lit "min_ltf_version_patch")
  let multitarget ← jsonGetBool obj (.lit "multitarget")
  return ({ proj with
    projectName := some name
    minLtfVerStr := some version
    minLtfVerMajor := some major
    minLtfVerMinor := some minor
    minLtfVerPatch := some patch
    multitarget := some multitarget }, multitarget)

/-- `strdup` of the text of an element -/
def projectTarget (lib : Coercions) (item : Json) : Managed CStr :=
  match getString lib item with
  | some bytes => .ok (.ofBytes bytes)
  | none => .error .crash

/-- An empty array leaves the pointer to the targets as it is. -/
def projectParseTargets (lib : Coercions) (obj : Json) (proj : ProjectParsed) : Managed (Option ProjectParsed) :=
  match get obj (.lit "targets") with
  | some (.array items) => do
    let names ← items.mapM (projectTarget lib)
    return some { proj with
      targets := if names.length = 0 then proj.targets else some names
      targetsAmount := some names.length }
  | _ => return none

def projectParseJson (lib : Coercions) (obj : Json) (proj : ProjectParsed) : Managed (Option ProjectParsed) :=
  match obj with
  | .object _ =>
    match projectParseHeader lib obj proj with
    | none => return none
    | some (proj, true) => projectParseTargets lib obj proj
    | some (proj, false) => return some { proj with targetsAmount := some 0 }
  | _ => return none

/-- Parsing the tree of the file in the directory `path`. -/
def projectParserParse (lib : Coercions) (path : CStr) (file : Json) : Managed (Option ProjectParsed) :=
  projectParseJson lib file { projectPath := some path }

def readTarget (proj : ProjectParsed) (i : Nat) : Managed CStr := do
  let targets ← readField proj.targets
  readField targets[i]?

/-- A loop over the targets: with none of them the pointer is not looked at. -/
def readTargets (proj : ProjectParsed) : Managed (List CStr) := do
  let amount ← readField proj.targetsAmount
  (List.range amount).mapM (readTarget proj)

/-- The tree that `project_parser_save` writes to the file. -/
def projectParserSave (proj : ProjectParsed) : Managed Json := do
  let obj := add [] (.lit "project_name") (newString (← readField proj.projectName))
  let obj := add obj (.lit "min_ltf_version") (newString (← readField proj.minLtfVerStr))
  let obj := add obj (.lit "min_ltf_version_major") (.int (← readField proj.minLtfVerMajor))
  let obj := add obj (.lit "min_ltf_version_minor") (.int (← readField proj.minLtfVerMinor))
  let obj := add obj (.lit "min_ltf_version_patch") (.int (← readField proj.minLtfVerPatch))
  let multitarget ← readField proj.multitarget
  let obj := add obj (.lit "multitarget") (.boolean multitarget)
  let _ ← readField proj.projectPath
  if multitarget then
    let names ← readTargets proj
    return .object (add obj (.lit "targets") (.array (names.map newString)))
  else
    return .object obj

end Ltf
