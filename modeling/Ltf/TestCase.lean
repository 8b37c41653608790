import Ltf.CmdParser
import Ltf.LuaArgs

/-! `test_case.c`, and the registration of a test in `modules/ltf/ltf.c`. Each string, tag
array and Lua reference is a resource that has to be released. -/

namespace Ltf.TestCases
open CString CmdParser Ledger

/-- `test_case_t`, with what it owns. The reference to the body is the code it refers to. -/
structure OwnedTest where
  name : Owned CStr
  desc : Option (Owned CStr) := none
  tags : Option (Owned (List (Owned CStr))) := none
  ref : Owned LuaCode

namespace OwnedTest
variable (tc : OwnedTest)

/-- The tags an array has. `da_size` of `NULL` is zero. -/
def tagTexts : List CStr := ((tc.tags.map (·.value)).getD []).map (·.value)

def testCase : TestCase where
  name := tc.name.value
  desc := tc.desc.map (·.value)
  tags := tc.tags.map fun tags => tags.value.map (·.value)
  body := tc.ref.value

/-- What is owned, in the order in which `test_case_free` releases it. -/
def serials : List Nat :=
  tc.name.serial :: tc.desc.toList.map (·.serial) ++
    tc.tags.toList.flatMap (fun tags => tags.value.map (·.serial) ++ [tags.serial]) ++ [tc.ref.serial]

end OwnedTest

/-- The static `tests` and the resources there have been. -/
structure Tests where
  tests : DaPtr OwnedTest := none
  book : Book := {}

def testCaseFree (tc : OwnedTest) (book : Book) : Book := book.release tc.serials

/-- The nested loops over the tags of the command line and of the test. -/
def hasTag (tags : List CStr) (tc : OwnedTest) : Bool := tags.any fun optsTag => tc.tagTexts.any (optsTag = ·)

/-- The loop over the registered tests: the first one with the name is replaced and handed back. -/
def overwriteTest (tc : OwnedTest) : List OwnedTest → Option (OwnedTest × List OwnedTest)
  | [] => none
  | registered :: tests =>
    if tc.name.value = registered.name.value then some (registered, tc :: tests)
    else (overwriteTest tc tests).map fun (old, tests) => (old, registered :: tests)

def testCaseEnqueue (opts : CmdTestOptions) (tc : OwnedTest) (s : Tests) : Int × Tests :=
  if opts.tags.length > 0 ∧ hasTag opts.tags tc = false then (1, { s with book := testCaseFree tc s.book })
  else
    let tests := s.tests.getD []
    match overwriteTest tc tests with
    | some (registered, tests) => (0, { tests := some tests, book := testCaseFree registered s.book })
    | none => (0, { s with tests := some (tests ++ [tc]) })

/-- `test_case_order_tests`. The records are copied, what they own is not. -/
def testCaseOrderTests (opts : CmdTestOptions) (s : Tests) : Tests :=
  if !opts.scenarioParsed then s
  else if opts.scenario.order.length = 0 then s
  else { s with tests := some (opts.scenario.order.flatMap fun name => (s.tests.getD []).filter (·.name.value = name)) }

def testCaseFreeAll (s : Tests) : Tests :=
  match s.tests with
  | none => s
  | some tests => { tests := none, book := tests.foldl (fun book tc => testCaseFree tc book) s.book }

/-- What `lua_getfield` finds in the table given to `register_test`. A value that is no
function has no code. -/
structure TestTable where
  name : LuaValue
  body : Option LuaCode
  description : LuaValue := .nil
  tags : ArrayField := .nil

section Register
variable (lua : LuaChoices)

def readDescription (value : LuaValue) : Acquiring LuaError (Option (Owned CStr)) :=
  if value = .nil then return none
  else
    match lua.toString value with
    | none => throw (.argError 1 (.lit "`description` must be string"))
    | some bytes => some <$> acquire (.ofBytes bytes)

def readTags (field : ArrayField) : Acquiring LuaError (Option (Owned (List (Owned CStr)))) :=
  match field with
  | .nil => return none
  | .other => throw (.argError 1 (.lit "`tags` must be array of strings"))
  | .table items => some <$> readStringArray lua items

/-- `l_module_ltf_register_test` up to the call of `test_case_enqueue`. A check that fails
leaves behind what was copied before it. -/
def readTest (table : TestTable) : Acquiring LuaError OwnedTest := do
  let text ← luaLCheckstring lua (-1) table.name
  let name ← acquire text
  match table.body with
  | none => throw (.argError 1 (.lit "`body` must be a function"))
  | some body => do
    let ref ← acquire body
    let desc ← readDescription lua table.description
    let tags ← readTags lua table.tags
    return { name, desc := desc, tags, ref }

/-- `l_module_ltf_register_test`, with the test it has read and the result it logs. The first
argument may be no table. -/
def lModuleLtfRegisterTest (opts : CmdTestOptions) (arg : Option TestTable) (s : Tests) :
    Except LuaError (OwnedTest × Int) × Tests :=
  match arg with
  | none => (.error (.typeError 1 (.lit "table")), s)
  | some table =>
    match readTest lua table s.book with
    | (.error err, book) => (.error err, { s with book })
    | (.ok tc, book) =>
      let (res, s) := testCaseEnqueue opts tc { s with book }
      (.ok (tc, res), s)

/-- Registrations one after the other, each in a protected call. -/
def registerTests (opts : CmdTestOptions) :
    List (Option TestTable) → Tests → List (Except LuaError (OwnedTest × Int)) × Tests
  | [], s => ([], s)
  | arg :: args, s =>
    let (result, s) := lModuleLtfRegisterTest lua opts arg s
    let (results, s) := registerTests opts args s
    (result :: results, s)

end Register
end Ltf.TestCases
