import Ltf.Base.Forest
import Ltf.State

/-! The keyword recorder of `keyword_status.c`. Its stack points into arrays that move
when they grow: a pointer is the place of a node with the number of moves its array had
made, and following it after another move has no meaning. -/

namespace Ltf.Keywords
open CString Forest

/-- A `keyword_status_t` without its children. -/
structure Keyword where
  name : CStr
  started : CStr
  finished : Option CStr := none
  ignored : Bool := false
  file : CStr
  line : Int

/-- `ar->what` -/
inductive What where
  | lua
  | c
  | main
deriving DecidableEq

/-- The part of `lua_Debug` the hooks read. `frame` stands for `ar->i_ci`. -/
structure LuaDebug where
  what : What
  name : Option CStr
  source : CStr
  linedefined : Int
  frame : Nat := 0

/-- A `keyword_status_t *`: the array it points into, by its address in the forest, the
index, and the number of times the array had been moved. -/
structure KeywordPtr where
  array : List Nat
  index : Nat
  moves : Nat
deriving DecidableEq

/-- `keyword_stack_entry_t` and, as a ghost, the frame whose call pushed it. -/
structure KeywordStackEntry where
  kw : Option KeywordPtr
  ignored : Bool
  inBlacklist : Bool
  frame : Nat
deriving DecidableEq

/-- The capacity of an array and how often `realloc` has moved it. -/
structure Layout where
  capacity : Nat := 10
  moves : Nat := 0

/-- The globals of the recorder. The stack has its top first. -/
structure Recorder where
  blacklistDir : Option CStr
  testRunning : Bool := false
  keywordStatuses : List (RoseTree Keyword) := []
  layout : List Nat → Layout := fun _ => {}
  keywordStack : List KeywordStackEntry := []

namespace Recorder

def arrayAt (r : Recorder) (address : List Nat) : List (RoseTree Keyword) :=
  (forestAt address r.keywordStatuses).getD []

def deref (r : Recorder) (p : KeywordPtr) : Memory (RoseTree Keyword) :=
  if (r.layout p.array).moves = p.moves then (r.arrayAt p.array)[p.index]? else none

/-- `da_grow_for_one` -/
def grow (layout : Layout) (size : Nat) : Layout :=
  if size < layout.capacity then layout
  else { capacity := if layout.capacity = 0 then 1 else layout.capacity * 2, moves := layout.moves + 1 }

/-- `da_append` of a keyword with fresh children, and `da_get` of the last element. -/
def append (r : Recorder) (address : List Nat) (ks : Keyword) : KeywordPtr × Recorder :=
  let size := (r.arrayAt address).length
  let layout := grow (r.layout address) size
  let r := { r with
    keywordStatuses := modifyAt address (· ++ [.node ks []]) r.keywordStatuses
    layout := fun other =>
      if other = address then layout else if other = address ++ [size] then {} else r.layout other }
  ({ array := address, index := size, moves := layout.moves }, r)

end Recorder

def keywordStatusTestStarted (r : Recorder) : Recorder :=
  { r with testRunning := true, keywordStatuses := [], layout := fun _ => {}, keywordStack := [] }

mutual
def statusOf : RoseTree Keyword → KeywordStatus
  | .node keyword kids => {
    children := some (statusesOf kids)
    name := some keyword.name
    started := some keyword.started
    finished := keyword.finished
    ignored := keyword.ignored
    file := some keyword.file
    line := keyword.line }

def statusesOf : List (RoseTree Keyword) → List KeywordStatus
  | [] => []
  | tree :: forest => statusOf tree :: statusesOf forest
end

/-- What is handed to `ltf_state_test_set_keyword_statuses`, and the recorder after it. -/
def keywordStatusTestFinished (r : Recorder) : List KeywordStatus × Recorder :=
  (statusesOf r.keywordStatuses, { r with testRunning := false, keywordStatuses := [] })

/-- Whether a source is in the library directory: its path has that of the directory in it. -/
def inBlacklistDir (dir : Option CStr) (src : CStr) : Bool := dir.any fun dir => strstr src.bytes dir.bytes

def callHook (now : CStr) (ar : LuaDebug) (src : CStr) (r : Recorder) : Memory Recorder :=
  if !r.testRunning then some r
  else if ar.what ≠ .lua then some r
  else
    match ar.name with
    | none => some r
    | some name => do
      let parentEntry := r.keywordStack.head?
      let parent := parentEntry.bind (·.kw)
      let inBlacklist := inBlacklistDir r.blacklistDir src
      let ignored := parentEntry.any (·.inBlacklist) && inBlacklist
      let ks : Keyword := { name, started := now, file := src, line := ar.linedefined, ignored }
      let (added, r) ←
        if ignored then some (none, r)
        else
          match parent with
          | none =>
            let (added, r) := r.append [] ks
            some (some added, r)
          | some p => do
            let node ← r.deref p
            let (added, r) := r.append (if node.label.ignored then [] else p.array ++ [p.index]) ks
            some (some added, r)
      return { r with keywordStack := { kw := added, ignored, inBlacklist, frame := ar.frame } :: r.keywordStack }

def finish (now : CStr) (keyword : Keyword) : Keyword := { keyword with finished := some now }

def retHook (now : CStr) (ar : LuaDebug) (r : Recorder) : Memory Recorder :=
  if !r.testRunning then some r
  else if ar.what ≠ .lua then some r
  else if ar.name.isNone then some r
  else
    match r.keywordStack with
    | [] => some r
    | entry :: rest =>
      let r := { r with keywordStack := rest }
      match entry.kw with
      | none => some r
      | some p =>
        if entry.ignored then some r
        else do
          let _ ← r.deref p
          return { r with
            keywordStatuses := modifyAt p.array (·.modify p.index (RoseTree.mapLabel (finish now))) r.keywordStatuses }

/-- A hook event of a named Lua function, with what the clock shows. -/
inductive HookEvent where
  | call (name file : CStr) (line : Int) (now : CStr)
  | ret (name file : CStr) (line : Int) (now : CStr)

def step (r : Recorder) : HookEvent → Memory Recorder
  | .call name file line now =>
    callHook now { what := .lua, name := some name, source := file, linedefined := line } file r
  | .ret name file line now => retHook now { what := .lua, name := some name, source := file, linedefined := line } r

def run (r : Recorder) (events : List HookEvent) : Memory Recorder := events.foldlM step r

end Ltf.Keywords
