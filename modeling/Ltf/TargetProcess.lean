import Ltf.Target

/-! `ltf_target.c` with what standard input and the file system answer along the way: the
characters of an answer, and the file that is opened to be written again. -/

namespace Ltf.TargetProcess
open CString JsonC

/-- `getchar`. At the end of the input there is `EOF`, however often it is asked for. -/
def getchar : List UInt8 → Option UInt8 × List UInt8
  | [] => (none, [])
  | ch :: rest => (some ch, rest)

inductive PromptPhase where
  | asking
  | skipping (first : Option UInt8)
  | answered (yes : Bool)
deriving DecidableEq

structure Prompt where
  phase : PromptPhase := .asking
  input : List UInt8

/-- What the first character of a line means once the rest of the line was read. -/
def decided (first : Option UInt8) : PromptPhase :=
  if first = some 78 ∨ first = some 110 then .answered false
  else if first = some 89 ∨ first = some 121 ∨ first = some 10 then .answered true
  else .asking

/-- One `getchar` of the question, which both commands read the answer to in the same way. -/
def promptStep (prompt : Prompt) : Prompt :=
  let (ch, input) := getchar prompt.input
  match prompt.phase with
  | .asking => { phase := if ch = some 10 then decided ch else .skipping ch, input }
  | .skipping first => { phase := if ch = some 10 ∨ ch = none then decided first else .skipping first, input }
  | .answered _ => prompt

/-- How `json_object_to_file_ext` ends. A file that was opened is empty before it is written. -/
inductive SaveAnswer where
  | written
  | notOpened
  | cutShort

/-- The project file holds a whole tree, or the start of one. -/
inductive ProjectFile where
  | whole (tree : Json)
  | cut

inductive AddEnd where
  | ended (result : TargetResult)
  /-- `exit(EXIT_FAILURE)` in `project_parser_save` -/
  | saveFailed

def AddEnd.exitCode : AddEnd → Nat
  | .ended result => result.exitCode
  | .saveFailed => 1

/-- `ltf target add`. The directory of the target is looked for when the file was saved. -/
def ltfTargetAdd (lib : Coercions) (path target : CStr) (input : List UInt8) (commonMade : Bool) (answer : SaveAnswer)
    (targetMade : Bool) (file : ProjectFile) : Managed (AddEnd × ProjectFile) :=
  match file with
  | .cut => return (.ended .parseFailed, file)
  | .whole tree => do
    match ← projectParserParse lib path tree with
    | none => return (.ended .parseFailed, file)
    | some proj =>
      match ← convertProject input commonMade proj with
      | .inl result => return (.ended result, file)
      | .inr proj => do
        let names ← readTargets proj
        if target ∈ names then return (.ended .targetExists, file)
        else
          let proj ← appendTarget target proj
          let saved ← projectParserSave proj
          match answer with
          | .notOpened => return (.saveFailed, file)
          | .cutShort => return (.saveFailed, .cut)
          | .written => return (.ended (.added targetMade), .whole saved)

end Ltf.TargetProcess
