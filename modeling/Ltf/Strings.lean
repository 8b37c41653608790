import Ltf.Base.Blocks
import Ltf.Base.CString

/-! Line wrapping and joining of `util/string.c`, on the blocks they allocate. There is memory
for each of them. -/

namespace Ltf.Strings
open CString

/-- What must not happen to a block. -/
inductive StringFault where
  | outOfBlock
deriving DecidableEq

abbrev StringExec := Except StringFault

def checked {α : Type} : Option α → StringExec α
  | some value => .ok value
  | none => .error .outOfBlock

section Wrapping

/-- While a text is wrapped. There are `cap` slots in `indices`. -/
structure Wrapping where
  col : Nat := 0
  index : Nat := 0
  indices : List (Option Nat)
  i : Nat

/-- `indices[i++] = offset;`, with twice as many slots if all of them are in use. -/
def pushIndex (s : Wrapping) (offset : Nat) : StringExec Wrapping := do
  let indices := if s.i = s.indices.length then Blocks.resize s.indices (s.indices.length * 2) fun _ => none
    else s.indices
  let indices ← checked (Blocks.write indices s.i [some offset])
  return { s with indices, i := s.i + 1 }

/-- The body of the loop over the text. A line starts behind the byte unless the text ends there. -/
def wrapByte (maxLen : Nat) (s : Wrapping) (byte : UInt8) (rest : List UInt8) : StringExec Wrapping := do
  if byte = 10 ∨ s.col = maxLen then
    let s ← if rest ≠ [] then pushIndex s (s.index + 1) else pure s
    return { s with col := if byte = 10 then 0 else 1 }
  else return { s with col := s.col + 1 }

def wrapLoop (maxLen : Nat) (s : Wrapping) : List UInt8 → StringExec Wrapping
  | [] => return s
  | byte :: rest => do
    let s ← wrapByte maxLen s byte rest
    wrapLoop maxLen { s with index := s.index + 1 } rest

/-- The offsets that are returned, `count` of them, or `NULL`. -/
def stringWrappedLines (text : Option CStr) (maxLen : Nat) : StringExec (Option (List (Option Nat))) :=
  match text with
  | none => return none
  | some text =>
    if maxLen = 0 then return none
    else do
      let indices ← checked (Blocks.write (List.replicate 8 none) 0 [some 0])
      let s ← wrapLoop maxLen { indices, i := 1 } text.bytes
      return some (Blocks.resize s.indices s.i fun _ => none)

end Wrapping

section Joining

def sizeT (n : Nat) : Nat := n % UInt64.size

/-- The length pass of `string_join`, from `len` on. -/
def joinLength (len : Nat) : List (Option CStr) → Nat
  | [] => len
  | none :: rest => joinLength len rest
  | some item :: rest =>
    let len := sizeT (len + item.bytes.length)
    joinLength (if rest ≠ [] then sizeT (len + 2) else len) rest

/-- The copy pass, into `out` at the offset `dst`. -/
def joinCopy (out : List UInt8) (dst : Nat) : List (Option CStr) → StringExec (List UInt8 × Nat)
  | [] => return (out, dst)
  | item :: rest => do
    let s := (item.map (·.bytes)).getD []
    let out ← checked (Blocks.write out dst s)
    let dst := dst + s.length
    if rest ≠ [] then
      let out ← checked (Blocks.write out dst [44, 32])
      joinCopy out (dst + 2) rest
    else joinCopy out dst rest

/-- The block that is returned. `fresh` is what `malloc` leaves in it. -/
def stringJoin (fresh : Nat → UInt8) (items : List (Option CStr)) : StringExec (List UInt8) := do
  let out := Blocks.resize [] (joinLength 1 items) fresh
  let (out, dst) ← joinCopy out 0 items
  checked (Blocks.write out dst [0])

end Joining

end Ltf.Strings
