import Ltf.Ssh
import Ltf.Util

/-! `file_info` of `ltf-ssh-sftp.c`, with the paths that it makes of its own. There is
memory for each block, also for a longer list of segment starts. -/

namespace Ltf.SftpPaths
open CString Steps Util
open Ssh (LSftpSession)

/-- While a path is normalised in its own buffer. There are `seg_starts_cap` slots. -/
structure Normalizing where
  s : List UInt8
  segStarts : List (Option Nat)
  segStartsLen : Nat := 0
  r : Nat := 1
  w : Nat := 1
  complete : Bool := false

/-- Unless it is the root, the path so far gets a separator. -/
def separate (st : Normalizing) : PathExec (List UInt8 × Nat) := do
  if st.w > 1 then
    let s ← checked (Blocks.write st.s st.w [47])
    return (s, st.w + 1)
  else return (st.s, st.w)

/-- `realloc` to twice as many slots, once all of them are in use. -/
def growStarts (st : Normalizing) : List (Option Nat) :=
  if st.segStartsLen = st.segStarts.length then Blocks.resize st.segStarts (st.segStarts.length * 2) fun _ => none
  else st.segStarts

def pushSegment (segment : List UInt8) (st : Normalizing) : PathExec Normalizing := do
  let (s, w) ← separate st
  let segStarts ← checked (Blocks.write (growStarts st) st.segStartsLen [some (if w > 1 then w - 1 else 1)])
  let s ← checked (Blocks.write s w segment)
  return { st with s, segStarts, segStartsLen := st.segStartsLen + 1, w := w + segment.length }

def popSegment (st : Normalizing) : PathExec Normalizing := do
  if st.segStartsLen > 0 then
    let w ← readSlot st.segStarts (st.segStartsLen - 1)
    return { st with segStartsLen := st.segStartsLen - 1, w }
  else return { st with w := 1 }

/-- One round of the loop over the copy of the path. -/
def normalizeRound (input : List UInt8) (st : Normalizing) : PathExec Normalizing := do
  if st.complete then return st
  else if (← checked input[st.r]?) = 0 then return { st with complete := true }
  else
    let segStart ← checked (scan (· = 47) input st.r)
    if (← checked input[segStart]?) = 0 then return { st with r := segStart, complete := true }
    else
      let r ← checked (scan (fun byte => byte ≠ 0 && byte ≠ 47) input segStart)
      let segment ← checked (Blocks.read input segStart (r - segStart))
      if segment = [46] then return { st with r }
      else if segment = [46, 46] then popSegment { st with r }
      else pushSegment segment { st with r }

/-- The terminator, in place of a slash at the end if there is one. -/
def terminate (st : Normalizing) : PathExec (List UInt8) := do
  let (s, w) ← if st.w = 0 then do pure (← checked (Blocks.write st.s 0 [47]), 1) else pure (st.s, st.w)
  let s ← checked (Blocks.write s w [0])
  if w > 1 then
    if (← checked s[w - 1]?) = 47 then checked (Blocks.write s (w - 1) [0]) else return s
  else return s

/-- Each round reads at least one byte. -/
def normalizeAbsPathInplace (s : List UInt8) : PathExec (List UInt8) := do
  if (← checked s[0]?) ≠ 47 then return s
  else
    let input := strdup s
    let s ← checked (Blocks.write s 0 [47])
    let st ← rounds (normalizeRound input) input.length { s, segStarts := List.replicate 64 none }
    if st.complete then terminate st else throw .endless

/-- A relative path is joined as it is. -/
def joinAbsLexical (baseAbs rel : CStr) : PathExec (Option CStr) := do
  if baseAbs.bytes.head? ≠ some 47 then return none
  else if rel.bytes.head? = some 47 then
    let out ← normalizeAbsPathInplace (strdup (rel.bytes ++ [0]))
    return some (.ofBytes out)
  else
    let slash : List UInt8 := if baseAbs.bytes.length > 1 ∧ baseAbs.bytes.getLast? ≠ some 47 then [47] else []
    let need := baseAbs.bytes.length + slash.length + rel.bytes.length + 1
    return some (.ofBytes (snprintfText need (baseAbs.bytes ++ slash ++ rel.bytes)))

/-- `realpath` is what `libssh2_sftp_realpath` writes for `.`, if it does not fail. -/
def sftpGetCwdAbs (realpath : Option (List UInt8)) : PathExec (Option CStr) := do
  match realpath with
  | none => return none
  | some reported =>
    let buf := CStr.ofBytes reported
    let out :=
      if buf.bytes.head? ≠ some 47 then snprintfText (buf.bytes.length + 2) (47 :: buf.bytes)
      else strdup (buf.bytes ++ [0])
    let out ← normalizeAbsPathInplace out
    return some (.ofBytes out)

/-- `LIBSSH2_SFTP_ATTRIBUTES`, with what the flags say is there. -/
structure Attributes where
  permissions : Option Nat
  filesize : Option UInt64

inductive StatAnswer where
  | found (attributes : Attributes)
  /-- `LIBSSH2_FX_NO_SUCH_FILE` or `LIBSSH2_FX_NO_SUCH_PATH` -/
  | missing
  | failed (err : CStr)

/-- The absolute path without resolving the file itself, or the message of an error. -/
def absPath (realpath : Option (List UInt8)) (path : CStr) : PathExec (Except CStr CStr) := do
  if path.bytes.head? = some 47 then
    let abs ← normalizeAbsPathInplace (strdup (path.bytes ++ [0]))
    return .ok (.ofBytes abs)
  else
    match ← sftpGetCwdAbs realpath with
    | none => return .error (.lit "libssh2_sftp_realpath('.') failed (cannot build absolute path)")
    | some cwd =>
      match ← joinAbsLexical cwd path with
      | none => return .error (.lit "out of memory")
      | some abs => return .ok abs

/-- Lua's own formatting does not know the `%lo` of the message for an unknown type. -/
def lModuleSshSftpFileInfo (u : LSftpSession) (stat : StatAnswer) (realpath : Option (List UInt8)) (path : CStr) :
    PathExec (Except CStr (Option FileInfo)) := do
  if u.sftpSession.isNone then return .error (.lit "sftp_session not initialized")
  else
    match stat with
    | .missing => return .ok none
    | .failed err => return .error (.concat [.lit "libssh2_sftp_stat_ex(LSTAT) error: ", err])
    | .found a =>
      match a.permissions with
      | none => return .error (.concat [.lit "SFTP server did not return permissions for '", path, .lit "'"])
      | some permissions =>
        match modeToType permissions with
        | none => return .error (.lit "invalid conversion '%l' to 'lua_pushfstring'")
        | some type =>
          match ← absPath realpath path with
          | .error err => return .error err
          | .ok abs =>
            return .ok (some { type, path := abs, size := (a.filesize.getD 0).toInt64.toInt, permissions })

end Ltf.SftpPaths
