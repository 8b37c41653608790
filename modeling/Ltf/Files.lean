import Ltf.Base.Assoc
import Ltf.Base.Json

/-! The part of `util/files.c` that the logs use, on a disk of regular files and links. -/

namespace Ltf
open CString JsonC

/-- What is in a regular file: bytes, or a tree that `json_object_to_file_ext` has written. -/
inductive Content where
  | text (bytes : List UInt8)
  | json (root : Json)

inductive DiskEntry where
  | file (content : Content)
  | link (target : CStr)

abbrev Disk := List (CStr × DiskEntry)

namespace Disk

/-- Where a path leads. The links that are made lead to regular files. -/
def resolve (disk : Disk) (path : CStr) : CStr :=
  match disk.lookup path with
  | some (.link target) => target
  | _ => path

def fileExists (disk : Disk) (path : CStr) : Bool :=
  match disk.lookup (disk.resolve path) with
  | some (.file _) => true
  | _ => false

/-- A file is opened for writing, emptied, and written. -/
def write (disk : Disk) (path : CStr) (content : Content) : Disk := Assoc.put disk (disk.resolve path, .file content)

/-- Whatever has the name of the link is unlinked first. -/
def replaceSymlink (disk : Disk) (target linkname : CStr) : Disk :=
  Assoc.put (disk.filter (·.1 ≠ linkname)) (linkname, .link target)

end Disk
end Ltf
