import Ltf.Base.Json
import Ltf.State

/-! The raw log: `ltf_state_to_json` and `ltf_state_from_json` of `ltf_state.c` with the
functions for the parts of the state. What is behind a message is read as `beyond`. -/

namespace Ltf
open CString JsonC

def jdupString (lib : Coercions) (o : Json) : Option CStr := (getString lib o).map .ofBytes

def addStringIf (obj : Fields) (key : String) (val : Option CStr) : Fields := addIf obj (.lit key) (val.map newString)

def addStringLenIf (beyond : Nat → UInt8) (obj : Fields) (key : String) (val : Option CStr) (len : Nat) : Fields :=
  addIf obj (.lit key) (val.map fun text => newStringLen (text.read beyond) (toInt len))

/-- `JGET_STR_DUP` into a field that is `NULL`. -/
def jgetStrDup (lib : Coercions) (obj : Json) (key : String) : Option CStr := (get obj (.lit key)).bind (jdupString lib)

/-- `JGET_INT` into a field that is zero. -/
def jgetInt (lib : Coercions) (obj : Json) (key : String) : Int := ((get obj (.lit key)).map (getInt lib)).getD 0

def ltfStateTestOutputToJson (beyond : Nat → UInt8) (output : TestOutput) : Json :=
  let o := addStringIf [] "file" output.file
  let o := add o (.lit "line") (.int output.line)
  let o := addStringIf o "date_time" output.dateTime
  let o := addStringIf o "level" (ltfLogLevelToStr output.level)
  .object (addStringLenIf beyond o "msg" output.msg output.msgLen)

theorem output_get (beyond : Nat → UInt8) (output : TestOutput) :
    get (ltfStateTestOutputToJson beyond output) (.lit "file") = output.file.map newString ∧
    get (ltfStateTestOutputToJson beyond output) (.lit "line") = some (.int output.line) ∧
    get (ltfStateTestOutputToJson beyond output) (.lit "date_time") = output.dateTime.map newString ∧
    get (ltfStateTestOutputToJson beyond output) (.lit "level") = (ltfLogLevelToStr output.level).map newString ∧
    get (ltfStateTestOutputToJson beyond output) (.lit "msg") =
      output.msg.map fun text => newStringLen (text.read beyond) (toInt output.msgLen) := by
  simp +decide [ltfStateTestOutputToJson, addStringIf, addStringLenIf]

/-- A level that is `null` is compared through a null pointer. -/
def ltfStateTestOutputFromJson (lib : Coercions) (jo : Json) : Memory TestOutput := do
  let msg := jgetStrDup lib jo "msg"
  let level ← match get jo (.lit "level") with
    | none => some (some .critical)
    | some lvl => (getString lib lvl).map fun str => ltfLogLevelFromStr (.ofBytes str)
  return {
    file := jgetStrDup lib jo "file"
    dateTime := jgetStrDup lib jo "date_time"
    msg
    msgLen := (msg.map (·.bytes.length)).getD 0
    level
    line := jgetInt lib jo "line" }

def daStringsToJsonArray (arr : DaPtr (Option CStr)) : Json :=
  .array ((arr.getD []).map fun s => newString (s.getD (.lit "")))

def jsonArrayToDaStrings (lib : Coercions) : Json → DaPtr (Option CStr)
  | .array a => some ((elements a).map (jdupString lib))
  | _ => none

def jsonObjectToVars : Json → DaPtr VarEntry
  | .object v => some (v.map fun (key, val) => {
      name := key
      finalValue := match val with
        | .string bytes => some (.ofBytes bytes)
        | _ => none })
  | _ => none

/-- The length of a value that is `NULL` cannot be taken. -/
def ltfStateVarsToJson (vars : DaPtr VarEntry) : Memory Json := do
  let o ← (vars.getD []).foldlM (fun o var => var.finalValue.map fun value => add o var.name (newString value)) []
  return .object o

def daOutputsToJsonArray (beyond : Nat → UInt8) (arr : DaPtr TestOutput) : Json :=
  .array ((arr.getD []).map (ltfStateTestOutputToJson beyond))

def jsonArrayToDaOutputs (lib : Coercions) : Json → Memory (DaPtr TestOutput)
  | .array a => ((elements a).mapM (ltfStateTestOutputFromJson lib)).map some
  | _ => some none

mutual
def ltfStateTestKeywordToJson : KeywordStatus → Json
  | .mk children name started finished _ file line =>
    let o := addStringIf [] "name" name
    let o := addStringIf o "started" started
    let o := addStringIf o "finished" finished
    let o := addStringIf o "file" file
    let o := add o (.lit "line") (.int line)
    .object (add o (.lit "children") (daKeywordsToJsonArray children))

def daKeywordsToJsonArray : DaPtr KeywordStatus → Json
  | none => .array []
  | some arr => .array (keywordsToJson arr)

def keywordsToJson : List KeywordStatus → List Json
  | [] => []
  | s :: arr => ltfStateTestKeywordToJson s :: keywordsToJson arr
end

theorem keywordsToJson_eq (keywords : List KeywordStatus) :
    keywordsToJson keywords = keywords.map ltfStateTestKeywordToJson := by
  induction keywords with
  | nil => rfl
  | cons keyword keywords ih => rw [keywordsToJson, ih, List.map_cons]

theorem daKeywordsToJsonArray_eq (arr : DaPtr KeywordStatus) :
    daKeywordsToJsonArray arr = .array ((arr.getD []).map ltfStateTestKeywordToJson) := by
  cases arr with
  | none => rfl
  | some keywords => rw [daKeywordsToJsonArray, keywordsToJson_eq, Option.getD_some]

theorem ltfStateTestKeywordToJson_eq (keyword : KeywordStatus) : ltfStateTestKeywordToJson keyword =
    .object (add (add (addStringIf (addStringIf (addStringIf (addStringIf []
      "name" keyword.name) "started" keyword.started)
      "finished" keyword.finished) "file" keyword.file) (.lit "line") (.int keyword.line))
      (.lit "children") (.array ((keyword.children.getD []).map ltfStateTestKeywordToJson))) := by
  cases keyword
  rw [ltfStateTestKeywordToJson, daKeywordsToJsonArray_eq]

theorem keyword_get (keyword : KeywordStatus) :
    get (ltfStateTestKeywordToJson keyword) (.lit "name") = keyword.name.map newString ∧
    get (ltfStateTestKeywordToJson keyword) (.lit "started") = keyword.started.map newString ∧
    get (ltfStateTestKeywordToJson keyword) (.lit "finished") = keyword.finished.map newString ∧
    get (ltfStateTestKeywordToJson keyword) (.lit "file") = keyword.file.map newString ∧
    get (ltfStateTestKeywordToJson keyword) (.lit "line") = some (.int keyword.line) ∧
    get (ltfStateTestKeywordToJson keyword) (.lit "children") =
      some (.array ((keyword.children.getD []).map ltfStateTestKeywordToJson)) := by
  rw [ltfStateTestKeywordToJson_eq]
  simp +decide [addStringIf]

mutual
def ltfStateTestKeywordFromJson (lib : Coercions) (jk : Json) : KeywordStatus := {
  name := jgetStrDup lib jk "name"
  started := jgetStrDup lib jk "started"
  finished := jgetStrDup lib jk "finished"
  file := jgetStrDup lib jk "file"
  line := jgetInt lib jk "line"
  children := match _found : get jk (.lit "children") with
    | none => none
    | some tmp =>
      jsonArrayToDaKeywords lib tmp }
termination_by sizeOf jk
decreasing_by exact sizeOf_get _found

def jsonArrayToDaKeywords (lib : Coercions) : Json → DaPtr KeywordStatus
  | .array a => some ((elements a).attach.map fun jk => ltfStateTestKeywordFromJson lib jk.1)
  | _ => none
termination_by a => sizeOf a
decreasing_by exact sizeOf_element jk.2
end

theorem jsonArrayToDaKeywords_array (lib : Coercions) (a : List Json) :
    jsonArrayToDaKeywords lib (.array a) = some ((elements a).map (ltfStateTestKeywordFromJson lib)) := by
  rw [jsonArrayToDaKeywords, List.map_attach_eq_pmap, List.pmap_eq_map]

theorem ltfStateTestKeywordFromJson_eq (lib : Coercions) (jk : Json) : ltfStateTestKeywordFromJson lib jk = {
    name := jgetStrDup lib jk "name"
    started := jgetStrDup lib jk "started"
    finished := jgetStrDup lib jk "finished"
    file := jgetStrDup lib jk "file"
    line := jgetInt lib jk "line"
    children := (get jk (.lit "children")).bind (jsonArrayToDaKeywords lib) } := by
  rw [ltfStateTestKeywordFromJson]
  cases get jk (.lit "children") <;> rfl

def ltfStateTestToJson (beyond : Nat → UInt8) (t : StateTest) : Json :=
  let o := addStringIf [] "name" t.name
  let o := addStringIf o "description" t.description
  let o := addStringIf o "started" t.started
  let o := addStringIf o "finished" t.finished
  let o := addStringIf o "teardown_start" t.teardownStart
  let o := addStringIf o "status" t.statusStr
  let o := add o (.lit "tags") (daStringsToJsonArray t.tags)
  let o := add o (.lit "failure_reasons") (daOutputsToJsonArray beyond t.failureReasons)
  let o := add o (.lit "output") (daOutputsToJsonArray beyond t.outputs)
  let o := add o (.lit "teardown_output") (daOutputsToJsonArray beyond t.teardownOutputs)
  let o := add o (.lit "teardown_errors") (daOutputsToJsonArray beyond t.teardownErrors)
  .object (add o (.lit "keywords") (daKeywordsToJsonArray t.keywordStatuses))

theorem test_get (beyond : Nat → UInt8) (t : StateTest) :
    get (ltfStateTestToJson beyond t) (.lit "name") = t.name.map newString ∧
    get (ltfStateTestToJson beyond t) (.lit "description") = t.description.map newString ∧
    get (ltfStateTestToJson beyond t) (.lit "started") = t.started.map newString ∧
    get (ltfStateTestToJson beyond t) (.lit "finished") = t.finished.map newString ∧
    get (ltfStateTestToJson beyond t) (.lit "teardown_start") = t.teardownStart.map newString ∧
    get (ltfStateTestToJson beyond t) (.lit "status") = t.statusStr.map newString ∧
    get (ltfStateTestToJson beyond t) (.lit "tags") = some (daStringsToJsonArray t.tags) ∧
    get (ltfStateTestToJson beyond t) (.lit "failure_reasons") = some (daOutputsToJsonArray beyond t.failureReasons) ∧
    get (ltfStateTestToJson beyond t) (.lit "output") = some (daOutputsToJsonArray beyond t.outputs) ∧
    get (ltfStateTestToJson beyond t) (.lit "teardown_output") = some (daOutputsToJsonArray beyond t.teardownOutputs) ∧
    get (ltfStateTestToJson beyond t) (.lit "teardown_errors") = some (daOutputsToJsonArray beyond t.teardownErrors) ∧
    get (ltfStateTestToJson beyond t) (.lit "keywords") = some (daKeywordsToJsonArray t.keywordStatuses) := by
  simp +decide [ltfStateTestToJson, addStringIf]

/-- The outputs under a key, read into a field that is `NULL`. -/
def jgetOutputs (lib : Coercions) (jt : Json) (key : String) : Memory (DaPtr TestOutput) :=
  match get jt (.lit key) with
  | none => some none
  | some tmp => jsonArrayToDaOutputs lib tmp

def ltfStateTestFromJson (lib : Coercions) (jt : Json) : Memory StateTest := do
  return {
    name := jgetStrDup lib jt "name"
    description := jgetStrDup lib jt "description"
    started := jgetStrDup lib jt "started"
    finished := jgetStrDup lib jt "finished"
    teardownStart := jgetStrDup lib jt "teardown_start"
    statusStr := jgetStrDup lib jt "status"
    tags := (get jt (.lit "tags")).bind (jsonArrayToDaStrings lib)
    failureReasons := ← jgetOutputs lib jt "failure_reasons"
    outputs := ← jgetOutputs lib jt "output"
    teardownOutputs := ← jgetOutputs lib jt "teardown_output"
    teardownErrors := ← jgetOutputs lib jt "teardown_errors"
    keywordStatuses := (get jt (.lit "keywords")).bind (jsonArrayToDaKeywords lib) }

def ltfStateToJson (beyond : Nat → UInt8) (state : LtfState) : Memory Json := do
  let root := addStringIf [] "project_name" state.projectName
  let root := addStringIf root "ltf_version" state.ltfVersion
  let root := addStringIf root "os" state.os
  let root := addStringIf root "os_version" state.osVersion
  let root := addStringIf root "started" state.started
  let root := addStringIf root "finished" state.finished
  let root := addStringIf root "target" state.target
  let root := add root (.lit "variables") (← ltfStateVarsToJson state.vars)
  let root := add root (.lit "tags") (daStringsToJsonArray state.tags)
  let root := add root (.lit "tests") (.array ((state.tests.getD []).map (ltfStateTestToJson beyond)))
  let root := add root (.lit "total_amount") (.int (toInt state.totalAmount))
  let root := add root (.lit "passed_amount") (.int (toInt state.passedAmount))
  let root := add root (.lit "failed_amount") (.int (toInt state.failedAmount))
  return .object (add root (.lit "finished_amount") (.int (toInt state.finishedAmount)))

theorem state_get {beyond : Nat → UInt8} {state : LtfState} {root : Json}
    (written : ltfStateToJson beyond state = some root) :
    (∃ fields, root = .object fields) ∧
    get root (.lit "project_name") = state.projectName.map newString ∧
    get root (.lit "ltf_version") = state.ltfVersion.map newString ∧
    get root (.lit "os") = state.os.map newString ∧
    get root (.lit "os_version") = state.osVersion.map newString ∧
    get root (.lit "started") = state.started.map newString ∧
    get root (.lit "finished") = state.finished.map newString ∧
    get root (.lit "target") = state.target.map newString ∧
    get root (.lit "variables") = ltfStateVarsToJson state.vars ∧
    get root (.lit "tags") = some (daStringsToJsonArray state.tags) ∧
    get root (.lit "tests") = some (.array ((state.tests.getD []).map (ltfStateTestToJson beyond))) ∧
    get root (.lit "total_amount") = some (.int (toInt state.totalAmount)) ∧
    get root (.lit "passed_amount") = some (.int (toInt state.passedAmount)) ∧
    get root (.lit "failed_amount") = some (.int (toInt state.failedAmount)) ∧
    get root (.lit "finished_amount") = some (.int (toInt state.finishedAmount)) := by
  cases names : ltfStateVarsToJson state.vars with
  | none => simp [ltfStateToJson, names] at written
  | some vars =>
    obtain rfl : _ = root := by simpa [ltfStateToJson, names] using written
    refine ⟨⟨_, rfl⟩, ?_⟩
    simp +decide [addStringIf]

/-- `NULL` for anything that is no object. -/
def ltfStateFromJson (lib : Coercions) : Json → Memory (Option LtfState)
  | .object fields => do
    let root := Json.object fields
    let found ← match get root (.lit "tests") with
      | some (.array tmp) => do
        let tests ← (elements tmp).mapM (ltfStateTestFromJson lib)
        some (tmp.length, some tests)
      | _ => some (0, none)
    return some {
      projectName := jgetStrDup lib root "project_name"
      ltfVersion := jgetStrDup lib root "ltf_version"
      os := jgetStrDup lib root "os"
      osVersion := jgetStrDup lib root "os_version"
      started := jgetStrDup lib root "started"
      finished := jgetStrDup lib root "finished"
      target := jgetStrDup lib root "target"
      vars := (get root (.lit "variables")).bind jsonObjectToVars
      tags := (get root (.lit "tags")).bind (jsonArrayToDaStrings lib)
      tests := found.2
      totalAmount := found.1
      passedAmount := toSize (jgetInt lib root "passed_amount")
      failedAmount := toSize (jgetInt lib root "failed_amount")
      finishedAmount := toSize (jgetInt lib root "finished_amount") }
  | _ => some none

end Ltf
