import Ltf.Base.Blocks

/-! The growable array of `da.c`, on the bytes of the block that it owns. Numbers of
`size_t` are kept in `Nat`, and what is computed with them is reduced where the code
could wrap around. Whether there is memory to be had is up to the C library. -/

namespace Ltf.Da

/-- Numbers of `size_t` are below. -/
def sizeLimit : Nat := UInt64.size

def sizeT (n : Nat) : Nat := n % sizeLimit

/-- A copy from or to bytes that are not in the block. -/
inductive Fault where
  | outOfBlock
deriving DecidableEq

/-- What a pointer of the caller points to, which is not in the block. -/
abbrev Pointee := Nat → UInt8

/-- `da_t` -/
structure DaT where
  data : Option (List UInt8)
  elemSize : Nat
  size : Nat
  capacity : Nat
deriving DecidableEq

/-- The answers of the C library during a call: whether `calloc` has room for a `da_t`, and
what a block from `malloc` or `realloc` has in it, if there is one. -/
structure Memory where
  calloc : Bool
  block : Option Pointee

def malloc (memory : Memory) (bytes : Nat) : Option (List UInt8) := memory.block.map (Blocks.resize [] bytes)

def realloc (memory : Memory) (data : Option (List UInt8)) (bytes : Nat) : Option (List UInt8) :=
  memory.block.map (Blocks.resize (data.getD []) bytes)

def checked {α : Type} : Option α → Except Fault α
  | some value => .ok value
  | none => .error .outOfBlock

/-- `memcpy` into the block -/
def memcpyTo (data : Option (List UInt8)) (offset : Nat) (elem : Pointee) (n : Nat) : Except Fault (List UInt8) :=
  checked (data.bind fun block => Blocks.write block offset ((List.range n).map elem))

/-- `memcpy` from the block -/
def memcpyFrom (data : Option (List UInt8)) (offset n : Nat) : Except Fault (List UInt8) :=
  checked (data.bind fun block => Blocks.read block offset n)

def memmove (data : Option (List UInt8)) (target source n : Nat) : Except Fault (List UInt8) :=
  checked (data.bind fun block => Blocks.move block target source n)

def daInit (memory : Memory) (initCapacity elemSize : Nat) : Option DaT :=
  if elemSize = 0 then none
  else if memory.calloc = false then none
  else if initCapacity = 0 then some { data := none, elemSize, size := 0, capacity := initCapacity }
  else
    match malloc memory (sizeT (initCapacity * elemSize)) with
    | none => none
    | some data => some { data := some data, elemSize, size := 0, capacity := initCapacity }

/-- `da_reserve` of an array that is not `NULL` -/
def reserve (memory : Memory) (da : DaT) (minCapacity : Nat) : DaT × Bool :=
  if minCapacity ≤ da.capacity then (da, true)
  else if da.elemSize ≠ 0 ∧ (sizeLimit - 1) / da.elemSize < minCapacity then (da, false)
  else
    match realloc memory da.data (sizeT (minCapacity * da.elemSize)) with
    | none => (da, false)
    | some data => ({ da with data := some data, capacity := minCapacity }, true)

def daReserve (memory : Memory) (da : Option DaT) (minCapacity : Nat) : Option DaT × Bool :=
  match da with
  | none => (none, false)
  | some da => ((reserve memory da minCapacity).1, (reserve memory da minCapacity).2)

/-- `new_cap` of `da_grow_for_one` -/
def newCap (da : DaT) : Nat := if da.capacity ≠ 0 then sizeT (da.capacity * 2) else 1

def daGrowForOne (memory : Memory) (da : DaT) : DaT × Bool :=
  if da.size < da.capacity then (da, true)
  else if newCap da < da.capacity then (da, false)
  else reserve memory da (newCap da)

def daAppend (memory : Memory) (da : Option DaT) (elem : Option Pointee) : Except Fault (Option DaT × Bool) :=
  match da, elem with
  | some da, some elem =>
    match daGrowForOne memory da with
    | (da, false) => return (da, false)
    | (da, true) => do
      let data ← memcpyTo da.data (sizeT (da.size * da.elemSize)) elem da.elemSize
      return (some { da with data, size := sizeT (da.size + 1) }, true)
  | da, _ => return (da, false)

/-- How far into the block the element is. -/
def daGet (da : Option DaT) (index : Nat) : Option Nat :=
  match da with
  | none => none
  | some da => if da.size ≤ index then none else some (sizeT (index * da.elemSize))

def daSet (da : Option DaT) (index : Nat) (elem : Option Pointee) : Except Fault (Option DaT × Bool) :=
  match da, elem with
  | some da, some elem =>
    if da.size ≤ index then return (da, false)
    else do
      let data ← memcpyTo da.data (sizeT (index * da.elemSize)) elem da.elemSize
      return (some { da with data }, true)
  | da, _ => return (da, false)

/-- `da_reserve` is not asked whether it succeeded. -/
def daResize (memory : Memory) (da : Option DaT) (newSize : Nat) : Option DaT × Bool :=
  match da with
  | none => (none, false)
  | some da =>
    if newSize ≤ da.size then (da, false)
    else (some { (reserve memory da newSize).1 with size := newSize }, true)

/-- The end of `da_pop` and of `da_remove` -/
def closeGap (da : DaT) (index : Nat) : Except Fault DaT :=
  if index < da.size - 1 then do
    let data ← memmove da.data (sizeT (index * da.elemSize)) (sizeT ((index + 1) * da.elemSize))
      (sizeT ((da.size - index - 1) * da.elemSize))
    return { da with data, size := da.size - 1 }
  else return { da with size := da.size - 1 }

/-- With the bytes that are copied to `out`, if that points to anything. -/
def daPop (da : Option DaT) (index : Nat) (out : Bool) : Except Fault (Option DaT × Option (List UInt8)) :=
  match da with
  | none => return (none, none)
  | some da =>
    if da.size ≤ index ∨ out = false then return (da, none)
    else do
      let copied ← memcpyFrom da.data (sizeT (index * da.elemSize)) da.elemSize
      return (some (← closeGap da index), some copied)

def daRemove (da : Option DaT) (index : Nat) : Except Fault (Option DaT × Bool) :=
  match da with
  | none => return (none, false)
  | some da => if da.size ≤ index then return (da, false) else return (some (← closeGap da index), true)

def daClear (da : Option DaT) : Option DaT := da.map ({ · with size := 0 })

/-- The calls that leave the array a list. -/
inductive Operation where
  | append (elem : Option Pointee)
  /-- `da_get`, and a copy of the element it points to -/
  | get (index : Nat)
  | set (index : Nat) (elem : Option Pointee)
  | pop (index : Nat) (out : Bool)
  | remove (index : Nat)
  | clear
  | reserve (minCapacity : Nat)

inductive Call where
  /-- `da_init`, with the pointer set to what it returns -/
  | init (initCapacity elemSize : Nat)
  | resize (newSize : Nat)
  | on (operation : Operation)

inductive Answer where
  /-- for `da_init`: whether the pointer is not `NULL` -/
  | flag (ok : Bool)
  | element (bytes : Option (List UInt8))
  | void
deriving DecidableEq

def operate (memory : Memory) (da : Option DaT) : Operation → Except Fault (Option DaT × Answer)
  | .append elem => do
    let (da, ok) ← daAppend memory da elem
    return (da, .flag ok)
  | .get index =>
    match da, daGet da index with
    | some da, some offset => do
      let bytes ← memcpyFrom da.data offset da.elemSize
      return (da, .element bytes)
    | da, _ => return (da, .element none)
  | .set index elem => do
    let (da, ok) ← daSet da index elem
    return (da, .flag ok)
  | .pop index out => do
    let (da, bytes) ← daPop da index out
    return (da, .element bytes)
  | .remove index => do
    let (da, ok) ← daRemove da index
    return (da, .flag ok)
  | .clear => return (daClear da, .void)
  | .reserve minCapacity => return ((daReserve memory da minCapacity).1, .flag (daReserve memory da minCapacity).2)

def call (memory : Memory) (da : Option DaT) : Call → Except Fault (Option DaT × Answer)
  | .init initCapacity elemSize =>
    return (daInit memory initCapacity elemSize, .flag (daInit memory initCapacity elemSize).isSome)
  | .resize newSize => return ((daResize memory da newSize).1, .flag (daResize memory da newSize).2)
  | .on operation => operate memory da operation

/-- With what the C library answers meanwhile. -/
abbrev Action := Memory × Call

def step (state : Option DaT × List Answer) (action : Action) : Except Fault (Option DaT × List Answer) := do
  let (da, answer) ← call action.1 state.1 action.2
  return (da, state.2 ++ [answer])

/-- Calls on a pointer that is `NULL` at first. -/
def run (actions : List Action) : Except Fault (Option DaT × List Answer) := actions.foldlM step (none, [])

end Ltf.Da
