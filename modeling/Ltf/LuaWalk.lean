import Ltf.LtfTest

/-! `list_lua_recursive` of `util/files.c`, and the directories of a project as it finds them. -/

namespace Ltf.LuaWalk
open CString Ltf.LtfTest

/-- What `stat` finds behind a name, all links followed: a directory with its entries in the order of
`readdir`, one that cannot be opened, a regular file, anything else, or nothing. -/
inductive DirEntry where
  | directory (entries : List (CStr × DirEntry))
  | unreadable
  | regular
  | special
  | dangling

def isDots (name : CStr) : Bool := name.bytes = [46] || name.bytes = [46, 46]

def endsWithLua (name : CStr) : Bool :=
  match strrchr name.bytes 46 with
  | none => false
  | some dot => name.bytes.drop dot = (CStr.lit ".lua").bytes

def entryPath (dirpath name : CStr) : CStr := .concat [dirpath, .lit "/", name]

mutual

/-- Whether there was no error, and the files so far. -/
def walk (dirpath : CStr) : DirEntry → List CStr → Bool × List CStr
  | .directory entries, out => walkEntries dirpath entries out
  | .unreadable, out | .regular, out | .special, out | .dangling, out => (false, out)

/-- The loop of `walk`, which the first error ends. -/
def walkEntries (dirpath : CStr) : List (CStr × DirEntry) → List CStr → Bool × List CStr
  | [], out => (true, out)
  | (name, entry) :: rest, out =>
    if isDots name then walkEntries dirpath rest out
    else
      match entry with
      | .dangling => (false, out)
      | .regular => walkEntries dirpath rest (if endsWithLua name then out ++ [entryPath dirpath name] else out)
      | .special => walkEntries dirpath rest out
      | directory =>
        let (walked, out) := walk (entryPath dirpath name) directory out
        if walked then walkEntries dirpath rest out else (false, out)

end

/-- Nothing is told of an error. -/
def listLuaRecursive (root : CStr) (entry : DirEntry) : List CStr := (walk root entry []).2

/-- The directories of a command, from what is on the disk and the code in the files. -/
def dirOf (disk : CStr → DirEntry) (code : CStr → LuaFile) (path : CStr) : Option (List LuaFile) :=
  match disk path with
  | .directory entries => some ((listLuaRecursive path (.directory entries)).map code)
  | .unreadable => some ((listLuaRecursive path .unreadable).map code)
  | _ => none

end Ltf.LuaWalk
