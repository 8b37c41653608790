import Ltf.Base.DirTree
import Ltf.LogsInfo

/-! The part of `util/files.c` on directories: what is there, what is made, and the search for
a file from the current directory up. All links have been followed. -/

namespace Ltf.FileTree
open CString DirTree

/-- The name of a file or a directory. -/
structure FileName (name : List UInt8) : Prop extends Paths.Name name where
  terminated : (0 : UInt8) ∉ name

/-- What a process finds. It is in a directory. -/
@[ext]
structure Host where
  tree : DiskTree Content
  cwd : TreePlace
  inside : tree.isDirectory cwd
  named : ∀ name ∈ cwd, FileName name

/-- Whether the system lets a place be created, or opened for writing. -/
abbrev Permits := TreePlace → Bool

namespace Host

/-- The tree that a call leaves. The directory that the process is in stays. -/
def grown (host : Host) (tree : DiskTree Content) : Host :=
  if inside : tree.isDirectory host.cwd then { host with tree, inside } else host

def start (host : Host) (path : CStr) : TreePlace := if path.bytes.head? = some 47 then [] else host.cwd

/-- A path is walked by its segments. The functions here ask for a directory or name what comes last,
so a slash at the end makes no difference. -/
def find (host : Host) (path : CStr) : Option TreePlace :=
  if path.bytes = [] then none else locate host.tree (host.start path) (strtok path.bytes 47)

def stat (host : Host) (path : CStr) : Option (Node Content) := (host.find path).bind host.tree.get

end Host

def directoryExists (host : Host) (dir : CStr) : Bool :=
  match host.stat dir with
  | some .directory => true
  | _ => false

def fileExists (host : Host) (filePath : CStr) : Bool :=
  match host.stat filePath with
  | some (.file _) => true
  | _ => false

inductive MkdirAnswer where
  | made
  /-- `EEXIST` -/
  | taken
  | failed
deriving DecidableEq

variable (permits : Permits)

/-- `mkdir` at a place, which has to be in a directory. -/
def mkdirAt (place : TreePlace) (tree : DiskTree Content) : MkdirAnswer × DiskTree Content :=
  if (tree.get place).isSome then (.taken, tree)
  else if !permits place then (.failed, tree)
  else
    match tree.add place .directory with
    | some tree => (.made, tree)
    | none => (.failed, tree)

def mkdir (path : CStr) (host : Host) : MkdirAnswer × Host :=
  match host.find path with
  | none => (.failed, host)
  | some place =>
    let (answer, tree) := mkdirAt permits place host.tree
    (answer, host.grown tree)

/-- The loop over the components of a path. `before` is the part in front of `p`; runs of slashes are
passed over. -/
def makeComponents (before : List UInt8) (slash : Bool) : List UInt8 → Host → Bool × Host
  | [], host => (true, host)
  | byte :: rest, host =>
    if byte = 47 ∧ !slash then
      let (answer, host) := mkdir permits (.ofBytes before) host
      if answer = .failed then (false, host) else makeComponents (before ++ [byte]) true rest host
    else makeComponents (before ++ [byte]) (byte = 47) rest host

/-- Whether there was no error. -/
def createDirectory (path : CStr) (host : Host) : Bool × Host :=
  if path.bytes = [] then (false, host)
  else if path.bytes.length ≥ pathMax then (false, host)
  else
    let (made, host) := makeComponents permits [] true path.bytes host
    if !made then (false, host)
    else
      let (answer, host) := mkdir permits path host
      (answer ≠ .failed, host)

/-- `fopen` for writing, and what is written, which is taken to succeed. -/
def writeFile (path : CStr) (content : Content) (host : Host) : Option Host := do
  let place ← host.find path
  if permits place then
    let tree ← host.tree.add place (.file content)
    return host.grown tree
  else none

section Upwards

def getcwd (host : Host) : List UInt8 := Paths.render host.cwd

/-- One component less. -/
def trim (cwd : List UInt8) : Option (List UInt8) :=
  (strrchr cwd 47).map fun slash => if slash = 0 then cwd.take 1 else cwd.take slash

/-- The loop of `file_find_upwards`. With each round the text gets shorter. -/
def searchUpwards (host : Host) (filename : CStr) : Nat → List UInt8 → Option CStr
  | 0, _ => none
  | fuel + 1, cwd =>
    let candidate := CStr.ofBytes (cwd ++ 47 :: filename.bytes)
    if candidate.bytes.length ≥ pathMax then none
    else if fileExists host candidate then some candidate
    else if cwd = [47] then none
    else (trim cwd).bind (searchUpwards host filename fuel)

def fileFindUpwards (host : Host) (filename : CStr) : Option CStr :=
  if filename.bytes = [] then none
  else if (getcwd host).length ≥ pathMax then none
  else searchUpwards host filename ((getcwd host).length + 1) (getcwd host)

end Upwards
end Ltf.FileTree
