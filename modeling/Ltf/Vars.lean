import Ltf.CmdParser
import Ltf.LuaArgs

/-! `ltf_vars.c`, and the registration of variables in `modules/ltf/ltf.c`. What becomes of
the memory of a table that is refused is left out. -/

namespace Ltf.Vars
open CString CmdParser Ledger

/-- A value in the table given to `register_vars`, with the fields that are read of a table. -/
inductive VarValue where
  | string (bytes : List UInt8)
  | table (values : ArrayField) (default : LuaValue)
  | other

/-- The table given to `register_vars`, in the order in which `lua_next` goes through it. -/
abbrev VarsTable := List (LuaValue × VarValue)

/-- The entry behind a key, or the first one behind `nil`. -/
def luaNext (table : VarsTable) (key : Option LuaValue) : Except LuaError (Option (LuaValue × VarValue)) :=
  match key with
  | none => .ok table.head?
  | some key =>
    match table.findIdx? (·.1 = key) with
    | none => .error (.error (.lit "invalid key to 'next'"))
    | some i => .ok table[i + 1]?

section Register
variable (lua : LuaChoices)

def readValues (field : ArrayField) : Except LuaError (DaPtr CStr) :=
  match field with
  | .nil => .ok none
  | .other => .error (.argError 1 (.lit "`values` must be array of strings"))
  | .table items => ((readStringArray lua items {}).1).map fun values => some (values.value.map (·.value))

/-- The default is one of the values, if there are any. -/
def readDefault (name : CStr) (values : DaPtr CStr) (default : LuaValue) : Except LuaError (Option CStr) :=
  if default = .nil then .ok none
  else
    match lua.toString default with
    | none => .error (.argError 1 (.lit "`default` must be string"))
    | some bytes =>
      let defValue := CStr.ofBytes bytes
      let found := (values.getD []).any (defValue = ·)
      if !found ∧ daSize values > 0 then
        .error (.error (.concat [.lit "Error parsing var '", name, .lit "': Default value '", defValue,
          .lit "' is not an allowed value."]))
      else .ok (some defValue)

def readVar (name : CStr) (value : VarValue) : Except LuaError VarEntry :=
  match value with
  | .string bytes => .ok { name, isScalar := true, scalar := some (.ofBytes bytes) }
  | .table values default => do
    let values ← readValues lua values
    let defValue ← readDefault lua name values default
    return { name, values := values, defValue }
  | .other => .error (.error (.concat [.lit "Error parsing value for var '", name,
      .lit "': value must be string or table"]))

/-- The loop over the table. A key that is a number is turned into a string where `lua_next`
takes it from, so the loop goes on behind the entry with that string, if there is one. -/
def readVars (table : VarsTable) : Nat → Option LuaValue → List VarEntry → Option (Except LuaError (List VarEntry))
  | 0, _, _ => none
  | fuel + 1, key, vars =>
    match luaNext table key with
    | .error err => some (.error err)
    | .ok none => some (.ok vars)
    | .ok (some (key, value)) =>
      match lua.toString key with
      | none => some (.error (.error (.lit "ltf_vars keys must be strings")))
      | some bytes =>
        match readVar lua (.ofBytes bytes) value with
        | .error err => some (.error err)
        | .ok e => readVars table fuel (some (.string bytes)) (vars ++ [e])

/-- `ltf_register_vars` -/
def ltfRegisterVars (new : List VarEntry) (vars : DaPtr VarEntry) : DaPtr VarEntry := some (vars.getD [] ++ new)

def lModuleLtfRegisterVars (fuel : Nat) (arg : Option VarsTable) (vars : DaPtr VarEntry) :
    Option (Except LuaError (DaPtr VarEntry)) :=
  match arg with
  | none => some (.error (.typeError 1 (.lit "table")))
  | some table => (readVars lua table fuel none []).map fun new => new.map fun new => ltfRegisterVars new vars

/-- Calls of `register_vars` one after the other, up to one that fails. -/
def registerVars (fuel : Nat) : List (Option VarsTable) → DaPtr VarEntry → Option (Except LuaError (DaPtr VarEntry))
  | [], vars => some (.ok vars)
  | arg :: args, vars =>
    match lModuleLtfRegisterVars lua fuel arg vars with
    | some (.ok vars) => registerVars fuel args vars
    | stopped => stopped

end Register

def errorColored : CStr := .concat [.ofBytes [27], .lit "[31mERROR:", .ofBytes [27], .lit "[0m "]

def warningColored : CStr := .concat [.ofBytes [27], .lit "[33mWARNING:", .ofBytes [27], .lit "[0m "]

/-- The body of the loops that search for duplicates: the indices found so far and what has
been reported. -/
def duplicateStep (names : List CStr) (report : CStr → CStr) (s : List Nat × List CStr) (pair : Nat × Nat) :
    List Nat × List CStr :=
  if pair.1 = pair.2 then s
  else if s.1.any fun idx => idx = pair.2 ∨ idx = pair.1 then s
  else
    match names[pair.1]?, names[pair.2]? with
    | some l, some r => if l = r then (s.1 ++ [pair.2], s.2 ++ [report l]) else s
    | _, _ => s

def searchDuplicates (names : List CStr) (report : CStr → CStr) : List CStr :=
  let indices := List.range names.length
  ((indices.flatMap fun i => indices.map fun j => (i, j)).foldl (duplicateStep names report) ([], [])).2

def registeredTwice (name : CStr) : CStr :=
  .concat [errorColored, .lit "Variable '", name, .lit "' was registered more than once.\n"]

def specifiedTwice (key : CStr) : CStr :=
  .concat [errorColored, .lit "Value for variable '", key, .lit "' was specified more than once.\n"]

/-- The values in quotes, with a comma between two of them. -/
def allowedValues (values : List CStr) : CStr :=
  .concat ((values.map fun value => [.lit "'", value, .lit "'"]).intersperse [.lit ", "]).flatten

def notSpecified (e : VarEntry) : CStr :=
  let values := e.values.getD []
  .concat ([errorColored, .lit "Value for variable '", e.name, .lit "' is not specified. "] ++
    (if values.length ≠ 0 then
      [.lit "Allowed values: ", allowedValues values, .lit ". Please specify it with `--vars ", e.name,
        .lit "=value` or add default value in declaration.\n"]
    else [.lit "Please specify it with `--vars ", e.name, .lit "=value` or add default value in declaration.\n"]))

/-- The body of the loop over the registered variables: the entry and what is reported. -/
def parseVar (vars : List KvPair) (e : VarEntry) : VarEntry × List CStr :=
  let found := vars.find? (e.name = ·.1)
  if e.isScalar then
    match found with
    | some _ => (e, [.concat [errorColored, .lit "Constant variable '", e.name, .lit "' redefined.\n"]])
    | none => ({ e with finalValue := e.scalar }, [])
  else
    match found, e.defValue with
    | none, some defValue => ({ e with finalValue := some defValue }, [])
    | none, none => (e, [notSpecified e])
    | some p, _ =>
      let values := e.values.getD []
      if values.length = 0 then ({ e with finalValue := some p.2 }, [])
      else if values.any (· = p.2) then ({ e with finalValue := some p.2 }, [])
      else if e.finalValue.isSome then (e, [])
      else (e, [.concat [errorColored, .lit "Value for variable '", e.name,
        .lit "' is not an allowed value. Allowed values: ", allowedValues values, .lit "\n"]])

/-- What `ltf_parse_vars` returns, leaves in `vars` and prints to `stderr` and `stdout`. -/
structure ParsedVars where
  res : Int
  vars : DaPtr VarEntry
  errors : List CStr
  warnings : List CStr

/-- Each report sets the result. -/
def ltfParseVars (opts : CmdTestOptions) (vars : DaPtr VarEntry) : ParsedVars :=
  let registered := vars.getD []
  let errors :=
    searchDuplicates (registered.map (·.name)) registeredTwice ++
      searchDuplicates (opts.vars.map Prod.fst) specifiedTwice ++
      registered.flatMap fun e => (parseVar opts.vars e).2
  { res := if errors.isEmpty then 0 else -1
    vars := vars.map fun registered => registered.map fun e => (parseVar opts.vars e).1
    errors
    warnings := (opts.vars.filter fun opt => !registered.any (·.name = opt.1)).map fun opt =>
      .concat [warningColored, .lit "Variable '", opt.1, .lit "' was not registered.\n"] }

end Ltf.Vars
