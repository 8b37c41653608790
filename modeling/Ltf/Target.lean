import Ltf.ProjectParser

/-! `ltf_target.c`: `ltf target add` and `ltf target remove`, each a process of its own
that parses the project file and may save it. -/

namespace Ltf
open CString JsonC

/-- A yes-or-no question on standard input, with the rest of each line skipped. An empty
line is a yes, other answers are asked for again, and after the end of the input there
are only those. -/
def askConvert (skipping : Bool) : List UInt8 → Option Bool
  | [] => none
  | ch :: rest =>
    if skipping then askConvert (ch ≠ 10) rest
    else if ch = 10 then some true
    else if ch = 78 ∨ ch = 110 then some false
    else if ch = 89 ∨ ch = 121 then some true
    else askConvert true rest

/-- The messages a command ends with. -/
inductive TargetResult where
  | parseFailed
  | aborted
  | notConverted
  | targetExists
  | added (directory : Bool)
  | notMultitarget
  | notFound
  | removed
deriving DecidableEq

def TargetResult.exitCode : TargetResult → Nat
  | .aborted | .added true | .removed => 0
  | _ => 1

/-- A command line, the answers to its questions, and whether the directories it needs
are there or can be made. -/
inductive TargetCommand where
  | add (target : CStr) (input : List UInt8) (commonMade targetMade : Bool)
  | remove (target : CStr) (input : List UInt8)

def TargetCommand.target : TargetCommand → CStr
  | .add target .. => target
  | .remove target _ => target

/-- The question to a single-target project: the command goes on with a project, or it is over. -/
def convertProject (input : List UInt8) (commonMade : Bool) (proj : ProjectParsed) :
    Managed (TargetResult ⊕ ProjectParsed) := do
  let multitarget ← readField proj.multitarget
  if multitarget then return .inr proj
  else
    match askConvert false input with
    | none => .error .endless
    | some false => return .inl .aborted
    | some true => do
      let _ ← readField proj.projectPath
      let _ ← readField proj.projectName
      if commonMade then return .inr { proj with multitarget := some true }
      else return .inl .notConverted

/-- `realloc` looks at the pointer whatever the number of targets. -/
def appendTarget (target : CStr) (proj : ProjectParsed) : Managed ProjectParsed := do
  let amount ← readField proj.targetsAmount
  let targets ← readField proj.targets
  return { proj with targets := some (targets ++ [target]), targetsAmount := some (amount + 1) }

def ltfTargetAdd (lib : Coercions) (path target : CStr) (input : List UInt8) (commonMade targetMade : Bool)
    (file : Json) : Managed (TargetResult × Json) := do
  match ← projectParserParse lib path file with
  | none => return (.parseFailed, file)
  | some proj =>
    match ← convertProject input commonMade proj with
    | .inl result => return (result, file)
    | .inr proj => do
      let names ← readTargets proj
      if target ∈ names then return (.targetExists, file)
      else
        let proj ← appendTarget target proj
        let saved ← projectParserSave proj
        return (.added targetMade, saved)

/-- The question after the last target. -/
def convertBack (input : List UInt8) (proj : ProjectParsed) : Managed ProjectParsed := do
  let amount ← readField proj.targetsAmount
  if amount = 0 then
    match askConvert false input with
    | none => .error .endless
    | some true => do
      let _ ← readField proj.projectName
      return { proj with multitarget := some false }
    | some false => return proj
  else return proj

/-- The first target of the name goes and the later ones move down; the slot that is left
over lies behind the new amount. -/
def ltfTargetRemove (lib : Coercions) (path target : CStr) (input : List UInt8) (file : Json) :
    Managed (TargetResult × Json) := do
  match ← projectParserParse lib path file with
  | none => return (.parseFailed, file)
  | some proj =>
    if ← readField proj.multitarget then
      let names ← readTargets proj
      if target ∈ names then
        let proj := { proj with targets := some (names.erase target), targetsAmount := some (names.length - 1) }
        let proj ← convertBack input proj
        let saved ← projectParserSave proj
        return (.removed, saved)
      else return (.notFound, file)
    else return (.notMultitarget, file)

def targetRun (lib : Coercions) (path : CStr) (file : Json) : TargetCommand → Managed (TargetResult × Json)
  | .add target input commonMade targetMade => ltfTargetAdd lib path target input commonMade targetMade file
  | .remove target input => ltfTargetRemove lib path target input file

/-- The file after a command, which is what the next one parses. -/
def targetStep (lib : Coercions) (path : CStr) (file : Json) (command : TargetCommand) : Managed Json := do
  let ended ← targetRun lib path file command
  return ended.2

def targetRuns (lib : Coercions) (path : CStr) (commands : List TargetCommand) (file : Json) : Managed Json :=
  commands.foldlM (targetStep lib path) file

end Ltf
