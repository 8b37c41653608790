import Ltf.Base.Blocks
import Ltf.Base.CString
import Ltf.Base.Steps

/-! `file_info` of `modules/util/util.c`, with the absolute path that it makes of a path
by its text alone. Pointers into a buffer are offsets. There is memory for each block. -/

namespace Ltf.Util
open CString Steps

/-- What must not happen to a buffer, and a loop that has more to do than it had time for. -/
inductive PathFault where
  | outOfBlock
  | uninitialised
  | endless
deriving DecidableEq

abbrev PathExec := Except PathFault

def checked {α : Type} : Option α → PathExec α
  | some value => .ok value
  | none => .error .outOfBlock

/-- A slot of a block from `malloc` that must have been written. -/
def readSlot (block : List (Option Nat)) (i : Nat) : PathExec Nat := do
  match ← checked block[i]? with
  | some value => return value
  | none => throw .uninitialised

/-- `snprintf` of a text that may be too long -/
def snprintfText (need : Nat) (text : List UInt8) : List UInt8 := text.take (need - 1) ++ [0]

/-- `strdup` of a string in a buffer -/
def strdup (buffer : List UInt8) : List UInt8 := buffer.takeWhile (· ≠ 0) ++ [0]

/-- `raw` before it is rebuilt, or `NULL` if there is no current directory to begin with. -/
def rawPath (getcwd : Option CStr) (path : CStr) : Option (List UInt8) :=
  if path.bytes.head? = some 47 then some (strdup (path.bytes ++ [0]))
  else
    getcwd.map fun cwd => snprintfText (cwd.bytes.length + 1 + path.bytes.length + 1) (cwd.bytes ++ 47 :: path.bytes)

/-- `max_segs` -/
def countSegs (tmp : List UInt8) : Nat := 1 + (tmp.takeWhile (· ≠ 0)).count 47

/-- While the segments are parsed. The slots of `segs` behind `sp` are not cleared. -/
structure Lexing where
  tmp : List UInt8
  segs : List (Option Nat)
  p : Nat := 0
  sp : Nat := 0
  complete : Bool := false

/-- `if (*p) *p++ = '\0';` -/
def cut (tmp : List UInt8) (p : Nat) : PathExec (List UInt8 × Nat) := do
  if (← checked tmp[p]?) = 0 then return (tmp, p)
  else
    let tmp ← checked (Blocks.write tmp p [0])
    return (tmp, p + 1)

/-- A segment that was cut off is kept, or the last one is taken back. -/
def keepSegment (s : Lexing) (seg : Nat) : PathExec Lexing := do
  let text ← checked (strAt s.tmp seg)
  if text = [46] ∨ text = [] then return s
  else if text = [46, 46] then return if s.sp > 0 then { s with sp := s.sp - 1 } else s
  else
    let segs ← checked (Blocks.write s.segs s.sp [some seg])
    return { s with segs, sp := s.sp + 1 }

/-- One round of the loop over `tmp`. -/
def lexRound (s : Lexing) : PathExec Lexing := do
  if s.complete then return s
  else if (← checked s.tmp[s.p]?) = 0 then return { s with complete := true }
  else
    let seg ← checked (scan (· = 47) s.tmp s.p)
    if (← checked s.tmp[seg]?) = 0 then return { s with p := seg, complete := true }
    else
      let stop ← checked (scan (fun byte => byte ≠ 0 && byte ≠ 47) s.tmp seg)
      let (tmp, p) ← cut s.tmp stop
      keepSegment { s with tmp, p } seg

/-- One round of the loop over the segments, with `raw` and `w`. -/
def rebuildRound (s : Lexing) (out : List UInt8 × Nat) (i : Nat) : PathExec (List UInt8 × Nat) := do
  let seg ← readSlot s.segs i
  let text ← checked (strAt s.tmp seg)
  let raw ← checked (Blocks.write out.1 out.2 text)
  let w := out.2 + text.length
  if i + 1 < s.sp then
    let raw ← checked (Blocks.write raw w [47])
    return (raw, w + 1)
  else return (raw, w)

/-- What is in `raw` in the end, and how many bytes were written before the NUL. -/
def rebuild (s : Lexing) (raw : List UInt8) : PathExec (List UInt8 × Nat) := do
  let raw ← checked (Blocks.write raw 0 [47])
  let (raw, w) ← (List.range s.sp).foldlM (rebuildRound s) (raw, 1)
  let raw ← checked (Blocks.write raw w [0])
  return (raw, w)

/-- `tmp` and its segments. Each round goes at least one byte further. -/
def lexSegments (tmp : List UInt8) : PathExec Lexing := do
  let lexed ← rounds lexRound tmp.length { tmp, segs := List.replicate (countSegs tmp) none }
  if lexed.complete then return lexed else throw .endless

def makePathAbsLexical (getcwd : Option CStr) (path : CStr) : PathExec (Option CStr) :=
  match rawPath getcwd path with
  | none => return none
  | some raw => do
    let lexed ← lexSegments (strdup raw)
    let (raw, _) ← rebuild lexed raw
    return some (.ofBytes raw)

/-- `struct stat`, as far as it is looked at -/
structure Stat where
  mode : Nat
  size : Int

inductive LstatAnswer where
  | found (sb : Stat)
  /-- `ENOENT` or `ENOTDIR` -/
  | missing
  | failed (err : CStr)

structure FileInfo where
  type : CStr
  path : CStr
  size : Int
  permissions : Int

def modeToType (m : Nat) : Option CStr :=
  if m &&& 61440 = 32768 then some (.lit "file")
  else if m &&& 61440 = 16384 then some (.lit "directory")
  else if m &&& 61440 = 40960 then some (.lit "symlink")
  else none

/-- The message of an error, or what is returned. Lua's own formatting does not know the
`%o` of the message for an unknown type. -/
def lModuleUtilFileInfo (lstat : LstatAnswer) (getcwd : Option CStr) (path : CStr) :
    PathExec (Except CStr (Option FileInfo)) :=
  match lstat with
  | .missing => return .ok none
  | .failed err => return .error (.concat [.lit "lstat('", path, .lit "') failed: ", err])
  | .found sb =>
    match modeToType sb.mode with
    | none => return .error (.lit "invalid conversion '%o' to 'lua_pushfstring'")
    | some type => do
      match ← makePathAbsLexical getcwd path with
      | none => return .error (.concat [.lit "make_path_abs_lexical('", path, .lit "') failed"])
      | some abs => return .ok (some { type, path := abs, size := sb.size, permissions := sb.mode })

end Ltf.Util
