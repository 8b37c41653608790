import Ltf.Base.Blocks
import Ltf.Base.CString

/-! `get_line_text` of `util/line_cache.c`, with the arrays of lines it keeps. There is
memory for each of them. -/

namespace Ltf.LineCache
open CString

/-- What must not happen to an array of lines. -/
inductive LineFault where
  | null
  | outOfBlock
  | uninitialised
deriving DecidableEq

abbrev LineExec := Except LineFault

/-- A `char *` in an array, or nothing yet if it was not written. -/
abbrev Slot := Option (Option CStr)

/-- `line_cache_t` -/
structure CachedLines where
  path : CStr
  lines : List Slot

/-- While a file is read. There is no array at first, then one of `cap + 1` slots. -/
structure Filling where
  cap : Nat := 0
  n : Nat := 0
  lines : Option (List Slot) := none

/-- `lines[i] = text;` -/
def setLine (lines : Option (List Slot)) (i : Nat) (text : Option CStr) : LineExec (List Slot) :=
  match lines with
  | none => throw .null
  | some block =>
    match Blocks.write block i [some text] with
    | none => throw .outOfBlock
    | some block => return block

def grow (s : Filling) : Filling :=
  if s.n = s.cap then
    let cap := if s.cap = 0 then 128 else s.cap * 2
    { s with cap, lines := some (Blocks.resize (s.lines.getD []) (cap + 1) fun _ => none) }
  else s

/-- One turn of the loop over the lines of the file. -/
def addLine (s : Filling) (line : List UInt8) : LineExec Filling := do
  let s := grow s
  let lines ← setLine s.lines s.n (some (.ofBytes line))
  return { s with lines, n := s.n + 1 }

/-- All lines of a file, and how many there are. -/
def readLines (content : List UInt8) : LineExec (List Slot × Nat) := do
  let s ← (getlines content).foldlM addLine {}
  let lines ← setLine s.lines s.n none
  return (lines, s.n)

/-- `lines[lineno - 1]` -/
def lineAt (lines : List Slot) (lineno : Int) : LineExec (Option CStr) :=
  if lineno < 1 then throw .outOfBlock
  else
    match lines[(lineno - 1).toNat]? with
    | none => throw .outOfBlock
    | some none => throw .uninitialised
    | some (some text) => return text

/-- What can be opened. The files do not change. -/
abbrev Files := CStr → Option (List UInt8)

/-- The answer, and the cache behind `cache_head` afterwards. -/
def getLineText (files : Files) (cache : List CachedLines) (path : CStr) (lineno : Int) :
    LineExec (Option CStr × List CachedLines) :=
  match cache.find? (·.path = path) with
  | some c => do
    let text ← lineAt c.lines lineno
    return (text, cache)
  | none =>
    match files path with
    | none => return (none, cache)
    | some content => do
      let (lines, n) ← readLines content
      let text ← if lineno > 0 ∧ lineno ≤ toInt n then lineAt lines lineno else pure none
      return (text, { path, lines } :: cache)

/-- A line that a hook asks for. -/
structure Query where
  path : CStr
  lineno : Int

def lineQuery (files : Files) (cache : List CachedLines) (query : Query) : LineExec (List CachedLines) := do
  let (_, cache) ← getLineText files cache query.path query.lineno
  return cache

end Ltf.LineCache
