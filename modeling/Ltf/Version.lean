import Ltf.ProjectParser

/-! `version.h` and the check of the version in `ltf_test`. The numbers are of the types that
C gives them. -/

namespace Ltf.Version
open CString

/-- How the check ends without a result: a number does not fit its type, or the project does
not have what is read. -/
inductive VersionFault where
  | overflow
  | project (fault : ProjectFault)
deriving DecidableEq

abbrev VersionExec := Except VersionFault

def readProject {α : Type} (field : Option α) : VersionExec α :=
  match readField field with
  | .ok value => .ok value
  | .error fault => .error (.project fault)

inductive IntType where
  | int
  | long
deriving DecidableEq

namespace IntType

/-- The largest number of the type. -/
def max : IntType → Nat
  | int => 2147483647
  | long => 9223372036854775807

/-- The usual arithmetic conversions. -/
def common : IntType → IntType → IntType
  | int, int => int
  | _, _ => long

/-- The type of a decimal constant. -/
def ofConstant (n : Nat) : IntType := if n ≤ int.max then int else long

end IntType

structure CInt where
  type : IntType
  value : Int
deriving DecidableEq

namespace CInt

def checked (type : IntType) (value : Int) : VersionExec CInt :=
  if -(type.max : Int) - 1 ≤ value ∧ value ≤ type.max then .ok { type, value } else .error .overflow

def constant (n : Nat) : VersionExec CInt := checked (.ofConstant n) n

def add (first second : CInt) : VersionExec CInt := checked (first.type.common second.type) (first.value + second.value)

def mul (first second : CInt) : VersionExec CInt := checked (first.type.common second.type) (first.value * second.value)

/-- Conversion to `unsigned long`. -/
def toUnsigned (number : CInt) : Nat := (number.value % UInt64.size).toNat

end CInt

/-- `LTF_VERSION_MAJOR`, `LTF_VERSION_MINOR` and `LTF_VERSION_PATCH` of the running program, and `LTF_VERSION`. -/
structure Program where
  major : Nat
  minor : Nat
  patch : Nat
  version : CStr

/-- `LTF_VERSION_NUM` -/
def ltfVersionNum (major minor patch : CInt) : VersionExec CInt := do
  let majors ← major.mul ⟨.int, 1000⟩
  let minors ← minor.mul ⟨.int, 100⟩
  let sum ← majors.add minors
  sum.add patch

/-- `LTF_VERSION_NUM_CURRENT` -/
def ltfVersionNumCurrent (program : Program) : VersionExec CInt := do
  let major ← CInt.constant program.major
  let minor ← CInt.constant program.minor
  let patch ← CInt.constant program.patch
  ltfVersionNum major minor patch

/-- What `ltf_test` prints about the version of a project that was parsed, if it does. -/
def ltfTestVersion (proj : ProjectParsed) (program : Program) : VersionExec (Option CStr) := do
  let major ← readProject proj.minLtfVerMajor
  let minor ← readProject proj.minLtfVerMinor
  let patch ← readProject proj.minLtfVerPatch
  let required ← ltfVersionNum ⟨.int, major⟩ ⟨.int, minor⟩ ⟨.int, patch⟩
  let current ← ltfVersionNumCurrent program
  if current.toUnsigned < required.toUnsigned then
    let minimum ← readProject proj.minLtfVerStr
    return some (.concat [.lit "\x1b[33mWARNING:\x1b[0m This project was created with a newer LTF version '", minimum,
      .lit "' (current LTF version '", program.version, .lit "'), some features might not work as expected.\n"])
  else return none

end Ltf.Version
