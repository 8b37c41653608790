import Ltf.Base.Steps
import Ltf.Proofs.ScenarioChains

/-! What a scenario file says about each field, read off its JSON, and what is left there of
the file it includes. -/

namespace Ltf.TestScenarios
open CString JsonC CmdParser

section Values

def asString : Json → Option CStr
  | .string bytes => some (.ofBytes bytes)
  | _ => none

def asBoolean : Json → Option Bool
  | .boolean value => some value
  | _ => none

def asLevel (value : Json) : Option LogLevel := (asString value).bind ltfLogLevelFromStr

def asStrings : Json → Option (List CStr)
  | .array items => items.mapM asString
  | _ => none

def asPairs : Json → Option (List KvPair)
  | .object fields => fields.mapM fun (key, value) => (asString value).map fun text => (key, text)
  | _ => none

variable {α : Type}

/-- A field that is mentioned has its own value. One that is not is as it was before. -/
def Field (o : Option Json) (key : String) (own : Json → Option α) (before after : α) : Prop :=
  match o.bind (get · (.lit key)) with
  | none => after = before
  | some value => own value = some after

/-- What is under several keys is as it was before if none of them is mentioned. -/
def Kept (o : Option Json) (keys : List String) (before after : α) : Prop :=
  (∀ key ∈ keys, o.bind (get · (.lit key)) = none) → after = before

end Values

/-- What `calloc` and `ltf_test_scenario_from_json` make of the value at `"cmd"`. -/
structure CmdReads (o : Option Json) (cmd : TestScenarioCmd) : Prop where
  target : Field o "target" (some <$> asString ·) none cmd.target
  skipHooks : Field o "skip_hooks" asBoolean false cmd.skipHooks
  logLevel : Field o "log_level" (some <$> asLevel ·) (if o.isSome then none else some .critical) cmd.logLevel
  noLogs : Field o "no_logs" asBoolean false cmd.noLogs
  headless : Field o "headless" asBoolean false cmd.headless
  ltfLibPath : Field o "ltf_lib_path" (some <$> asString ·) none cmd.ltfLibPath
  tags : Field o "tags" asStrings [] cmd.tags
  tagsAppend : Field o "tags:append" asStrings [] cmd.tagsAppend
  tagsRemove : Field o "tags:remove" asStrings [] cmd.tagsRemove
  vars : Field o "vars" asPairs [] cmd.vars
  varsAppend : Field o "vars:append" asPairs [] cmd.varsAppend
  varsRemove : Field o "vars:remove" asStrings [] cmd.varsRemove

structure Reads (json : Json) (s : TestScenario) : Prop where
  cmd : CmdReads (get json (.lit "cmd")) s.cmd
  order : Field (some json) "order" asStrings [] s.order
  orderAppend : Field (some json) "order:append" asStrings [] s.orderAppend
  orderRemove : Field (some json) "order:remove" asStrings [] s.orderRemove

section Reading
variable {files : Files} {filePath name : CStr}

theorem ifPresent_ok {α : Type} {o : Json} {key : String} {absent a : α} {read : Json → Except CStr α}
    {own : Json → Option α} (sound : ∀ value a, read value = .ok a → own value = some a)
    (here : ifPresent o key absent read = .ok a) : Field (some o) key own absent a := by
  simp only [ifPresent] at here
  simp only [Field, Option.bind_some]
  cases found : get o (.lit key) with
  | none => rw [found] at here; exact (Except.ok.inj here).symm
  | some value => rw [found] at here; exact sound value a here

theorem jsonStringToString_ok {value : Json} {text : CStr} (read : jsonStringToString filePath name value = .ok text) :
    asString value = some text := by
  cases value <;> cases read
  rfl

theorem some_ok {α : Type} {first : Except CStr α} {own : Option α} {result : Option α}
    (sound : ∀ a, first = .ok a → own = some a) (read : some <$> first = .ok result) :
    some <$> own = some result := by
  cases first with
  | error _ => cases read
  | ok a => cases read; rw [sound a rfl]; rfl

theorem jsonBooleanToBool_ok {value : Json} {flag : Bool} (read : jsonBooleanToBool filePath name value = .ok flag) :
    asBoolean value = some flag := by
  cases value <;> cases read
  rfl

theorem jsonStringToLevel_ok {value : Json} {level : LogLevel}
    (read : jsonStringToLevel filePath name value = .ok level) :
    asLevel value = some level := by
  obtain ⟨str, text, known⟩ := Steps.bind_ok.mp read
  rw [asLevel, jsonStringToString_ok text, Option.bind_some]
  cases found : ltfLogLevelFromStr str with
  | none => rw [found] at known; cases known
  | some level => rw [found] at known; cases known; rfl

theorem mapM_ok {σ β : Type} {read : σ → Except CStr β} {own : σ → Option β}
    {items : List σ} {results : List β} (sound : ∀ item b, read item = .ok b → own item = some b)
    (ran : items.mapM read = .ok results) : items.mapM own = some results := by
  induction items generalizing results with
  | nil => cases ran; rfl
  | cons item items ih =>
    rw [List.mapM_cons] at ran ⊢
    obtain ⟨b, first, ran⟩ := Steps.bind_ok.mp ran
    obtain ⟨rest, later, same⟩ := Steps.bind_ok.mp ran
    cases same
    rw [sound item b first, ih later]
    rfl

theorem jsonArrayToStrArray_ok {value : Json} {texts : List CStr}
    (read : jsonArrayToStrArray files filePath name value = .ok texts) : asStrings value = some texts := by
  cases value with
  | array items =>
    have each : items.zipIdx.mapM (fun entry => asString entry.1) = some texts := by
      refine mapM_ok ?_ read
      rintro ⟨item, i⟩ text here
      cases item <;> cases here
      rfl
    calc asStrings (.array items) = (items.zipIdx.map Prod.fst).mapM asString := by rw [List.zipIdx_map_fst]; rfl
      _ = items.zipIdx.mapM fun entry => asString entry.1 := List.mapM_map
      _ = some texts := each
  | _ => cases read

theorem jsonObjectToKvPairsArr_ok {value : Json} {pairs : List KvPair}
    (read : jsonObjectToKvPairsArr filePath name value = .ok pairs) : asPairs value = some pairs := by
  cases value with
  | object fields =>
    apply mapM_ok ?_ read
    rintro ⟨key, value⟩ pair here
    cases value <;> cases here
    rfl
  | _ => cases read

theorem cmdFromJson_ok {o : Json} {cmd : TestScenarioCmd} (read : cmdFromJson files filePath o = .ok cmd) :
    CmdReads (some o) cmd := by
  cases o with
  | object fields =>
    obtain ⟨target, targetRead, read⟩ := Steps.bind_ok.mp read
    obtain ⟨skipHooks, skipHooksRead, read⟩ := Steps.bind_ok.mp read
    obtain ⟨logLevel, logLevelRead, read⟩ := Steps.bind_ok.mp read
    obtain ⟨noLogs, noLogsRead, read⟩ := Steps.bind_ok.mp read
    obtain ⟨headless, headlessRead, read⟩ := Steps.bind_ok.mp read
    obtain ⟨ltfLibPath, ltfLibPathRead, read⟩ := Steps.bind_ok.mp read
    obtain ⟨tags, tagsRead, read⟩ := Steps.bind_ok.mp read
    obtain ⟨tagsAppend, tagsAppendRead, read⟩ := Steps.bind_ok.mp read
    obtain ⟨tagsRemove, tagsRemoveRead, read⟩ := Steps.bind_ok.mp read
    obtain ⟨vars, varsRead, read⟩ := Steps.bind_ok.mp read
    obtain ⟨varsAppend, varsAppendRead, read⟩ := Steps.bind_ok.mp read
    obtain ⟨varsRemove, varsRemoveRead, read⟩ := Steps.bind_ok.mp read
    obtain rfl := Except.ok.inj read
    constructor
    · exact ifPresent_ok (fun _ _ => some_ok fun _ => jsonStringToString_ok) targetRead
    · exact ifPresent_ok (fun _ _ => jsonBooleanToBool_ok) skipHooksRead
    · exact ifPresent_ok (fun _ _ => some_ok fun _ => jsonStringToLevel_ok) logLevelRead
    · exact ifPresent_ok (fun _ _ => jsonBooleanToBool_ok) noLogsRead
    · exact ifPresent_ok (fun _ _ => jsonBooleanToBool_ok) headlessRead
    · exact ifPresent_ok (fun _ _ => some_ok fun _ => jsonStringToString_ok) ltfLibPathRead
    · exact ifPresent_ok (fun _ _ => jsonArrayToStrArray_ok) tagsRead
    · exact ifPresent_ok (fun _ _ => jsonArrayToStrArray_ok) tagsAppendRead
    · exact ifPresent_ok (fun _ _ => jsonArrayToStrArray_ok) tagsRemoveRead
    · exact ifPresent_ok (fun _ _ => jsonObjectToKvPairsArr_ok) varsRead
    · exact ifPresent_ok (fun _ _ => jsonObjectToKvPairsArr_ok) varsAppendRead
    · exact ifPresent_ok (fun _ _ => jsonArrayToStrArray_ok) varsRemoveRead
  | _ => cases read

theorem fromJson_ok {json : Json} {s : TestScenario}
    (read : ltfTestScenarioFromJson files filePath (some json) = .ok s) :
    Reads json s := by
  unfold ltfTestScenarioFromJson at read
  split at read
  · cases read
  · cases read
  next o _ same =>
    obtain rfl := Option.some.inj same
    obtain ⟨included, -, read⟩ := Steps.bind_ok.mp read
    obtain ⟨cmd, cmdRead, read⟩ := Steps.bind_ok.mp read
    obtain ⟨order, orderRead, read⟩ := Steps.bind_ok.mp read
    obtain ⟨orderAppend, orderAppendRead, read⟩ := Steps.bind_ok.mp read
    obtain ⟨orderRemove, orderRemoveRead, read⟩ := Steps.bind_ok.mp read
    obtain rfl := Except.ok.inj read
    constructor
    · unfold ifPresent at cmdRead
      split at cmdRead
      next missing =>
        obtain rfl := Except.ok.inj cmdRead
        rw [missing]
        constructor <;> rfl
      next found => rw [found]; exact cmdFromJson_ok cmdRead
    · exact ifPresent_ok (fun _ _ => jsonArrayToStrArray_ok) orderRead
    · exact ifPresent_ok (fun _ _ => jsonArrayToStrArray_ok) orderAppendRead
    · exact ifPresent_ok (fun _ _ => jsonArrayToStrArray_ok) orderRemoveRead

end Reading

/-- A file's fields after its parse, when the files it includes have left `before`. -/
structure Inherits (json : Json) (before after : TestScenarioParsed) : Prop where
  target : Field (get json (.lit "cmd")) "target" (some <$> asString ·) before.target after.target
  logLevel : Field (get json (.lit "cmd")) "log_level" (some <$> asLevel ·) before.logLevel after.logLevel
  noLogs : Field (get json (.lit "cmd")) "no_logs" asBoolean before.noLogs after.noLogs
  headless : Field (get json (.lit "cmd")) "headless" asBoolean before.headless after.headless
  skipHooks : Field (get json (.lit "cmd")) "skip_hooks" asBoolean before.skipHooks after.skipHooks
  ltfLibPath : Field (get json (.lit "cmd")) "ltf_lib_path" (some <$> asString ·) before.ltfLibPath after.ltfLibPath
  tags : Kept (get json (.lit "cmd")) ["tags", "tags:append", "tags:remove"] before.tags after.tags
  vars : Kept (get json (.lit "cmd")) ["vars", "vars:append", "vars:remove"] before.vars after.vars
  order : Kept (some json) ["order", "order:append", "order:remove"] before.order after.order

section Fields
variable {files : Files}

namespace ScenarioFile
variable (file : ScenarioFile files)

def cmd : Option Json := get file.json (.lit "cmd")

def flag (key : String) : Option Bool := (file.cmd.bind (get · (.lit key))).bind asBoolean

/-- The level a file leaves behind: its own, or the lowest one if it has no object at `"cmd"`. -/
def level : Option LogLevel :=
  match file.cmd with
  | none => some .critical
  | some o => (get o (.lit "log_level")).bind asLevel

end ScenarioFile

/-- The file does not lose a flag of the one it includes. -/
def FlagKept (key : String) (file : ScenarioFile files) (older : List (ScenarioFile files)) : Prop :=
  (file.cmd.bind (get · (.lit key))).isSome ∨ ∀ parent ∈ older.head?, parent.flag key ≠ some true

/-- What the fields of a file need to be its own or else inherited. -/
structure Inheriting (file : ScenarioFile files) (older : List (ScenarioFile files)) : Prop where
  noLogs : FlagKept "no_logs" file older
  headless : FlagKept "headless" file older
  skipHooks : FlagKept "skip_hooks" file older
  logLevel : file.cmd.isSome ∨ older.findSome? ScenarioFile.level = some .critical

/-- What is in `parsed` when the files a file includes are done. -/
def Before (file : ScenarioFile files) (before : TestScenarioParsed) : Prop :=
  match file.parent with
  | none => before = {}
  | some filePath => Parsed files filePath before

theorem Before.merged {file : ScenarioFile files} {older : List (ScenarioFile files)} {before : TestScenarioParsed}
    (included : Before file before) (chain : Chain files file older) : before = merged older := by
  unfold Before at included
  cases chain with
  | root _ alone => rw [alone] at included; exact included
  | included _ parent older includes chain => rw [includes] at included; exact included.unique chain.parsed

section Flags
variable {key : String} {part : TestScenarioCmd → Bool} {whole : TestScenarioParsed → Bool}

theorem Field.flag_false {o : Option Json} {own : Bool} (reads : Field o key asBoolean false own) :
    own = false ↔ (o.bind (get · (.lit key))).bind asBoolean ≠ some true := by
  unfold Field at reads
  cases found : o.bind (get · (.lit key)) with
  | none => simpa [found] using reads
  | some value =>
    rw [found] at reads
    have reads : asBoolean value = some own := reads
    simp [reads]

/-- Whatever was there before, a flag is the one the last file has. -/
theorem flagKept_iff (reads : ∀ file : ScenarioFile files, Field file.cmd key asBoolean false (part file.scenario.cmd))
    (start : whole {} = false) (merges : ∀ s before, whole (mergeScenario s before) = part s.cmd)
    (file : ScenarioFile files) (older : List (ScenarioFile files)) :
    Field file.cmd key asBoolean (whole (merged older)) (whole (merged (file :: older))) ↔ FlagKept key file older := by
  have last : whole (merged older) = false ↔ ∀ parent ∈ older.head?, parent.flag key ≠ some true := by
    cases older with
    | nil => simp [merged, start]
    | cons parent older =>
      rw [merged, List.foldr_cons, merges, (reads parent).flag_false]
      simp [ScenarioFile.flag]
  have here : whole (merged (file :: older)) = part file.scenario.cmd := merges ..
  have own := reads file
  rw [here, FlagKept, ← last]
  unfold Field at own ⊢
  cases found : file.cmd.bind (get · (.lit key)) with
  | none =>
    rw [found] at own
    have own : part file.scenario.cmd = false := own
    have unmentioned : ¬ (none : Option Json).isSome = true := by simp
    rw [own, or_iff_right unmentioned]
    exact eq_comm
  | some value =>
    rw [found] at own
    exact ⟨fun _ => .inl rfl, fun _ => own⟩

end Flags

/-- A pointer or a level is only copied if there is one. -/
theorem Field.copied {α : Type} {o : Option Json} {key : String} {own : Json → Option α} {before mine : Option α}
    (reads : Field o key (some <$> own ·) none mine) :
    Field o key (some <$> own ·) before (if mine.isSome then mine else before) := by
  unfold Field at reads ⊢
  cases found : o.bind (get · (.lit key)) with
  | none =>
    rw [found] at reads
    have reads : mine = none := reads
    simp [reads]
  | some value =>
    rw [found] at reads
    obtain ⟨own', here, rfl⟩ := Option.map_eq_some_iff.mp reads
    simpa using here

theorem Field.absent {α : Type} {o : Option Json} {key : String} {own : Json → Option α} {before after : α}
    (field : Field o key own before after) (missing : o.bind (get · (.lit key)) = none) : after = before := by
  rw [Field, missing] at field
  exact field

theorem ScenarioFile.reads (file : ScenarioFile files) : Reads file.json file.scenario := fromJson_ok file.read

theorem ScenarioFile.own_level (file : ScenarioFile files) : file.scenario.cmd.logLevel = file.level := by
  have reads := file.reads.cmd.logLevel
  unfold Field at reads
  unfold level cmd
  cases present : get file.json (.lit "cmd") with
  | none => simpa [present] using reads
  | some o =>
    cases found : get o (.lit "log_level") with
    | none => simpa [present, found] using reads
    | some value =>
      obtain ⟨own, here, same⟩ : ∃ own, asLevel value = some own ∧ some own = file.scenario.cmd.logLevel := by
        simpa [present, found] using reads
      simp [here, same, found]

/-- The level after a chain is the one its last file to have one leaves. -/
theorem merged_level (chain : List (ScenarioFile files)) :
    (merged chain).logLevel = some ((chain.findSome? ScenarioFile.level).getD .info) := by
  induction chain with
  | nil => rfl
  | cons file older ih =>
    rw [merged, List.foldr_cons, ← merged, List.findSome?_cons]
    simp only [mergeScenario, file.own_level, ih]
    cases file.level <;> simp

theorem level_iff (file : ScenarioFile files) (older : List (ScenarioFile files)) :
    Field file.cmd "log_level" (some <$> asLevel ·) (merged older).logLevel (merged (file :: older)).logLevel ↔
      file.cmd.isSome ∨ older.findSome? ScenarioFile.level = some .critical := by
  cases present : file.cmd with
  | none =>
    rw [merged_level, merged_level, List.findSome?_cons]
    simp only [ScenarioFile.level, present, Field, Option.bind_none]
    cases older.findSome? ScenarioFile.level <;> simp [eq_comm]
  | some o =>
    have reads := file.reads.cmd.logLevel
    have here : get file.json (.lit "cmd") = some o := present
    rw [here] at reads
    have copied : (merged (file :: older)).logLevel =
        if file.scenario.cmd.logLevel.isSome then file.scenario.cmd.logLevel else (merged older).logLevel := by
      cases own : file.scenario.cmd.logLevel <;> simp [merged, mergeScenario, own]
    rw [copied]
    exact iff_of_true reads.copied (.inl rfl)

section Lists
variable {o : Option Json} {first second third : String}

theorem strings_kept {redeclare append remove da : List CStr} (redeclares : Field o first asStrings [] redeclare)
    (appends : Field o second asStrings [] append) (removes : Field o third asStrings [] remove) :
    Kept o [first, second, third] da (mergeStringDa append remove redeclare da) := by
  intro silent
  obtain rfl := redeclares.absent (silent first (by simp))
  obtain rfl := appends.absent (silent second (by simp))
  obtain rfl := removes.absent (silent third (by simp))
  rfl

theorem pairs_kept {redeclare append da : List KvPair} {remove : List CStr}
    (redeclares : Field o first asPairs [] redeclare)
    (appends : Field o second asPairs [] append) (removes : Field o third asStrings [] remove) :
    Kept o [first, second, third] da (mergeKvPairDa append remove redeclare da) := by
  intro silent
  obtain rfl := redeclares.absent (silent first (by simp))
  obtain rfl := appends.absent (silent second (by simp))
  obtain rfl := removes.absent (silent third (by simp))
  rfl

end Lists

/-- Every field is the file's own or else inherited, exactly when no flag of the included file
is lost and a file without an object at `"cmd"` includes one that leaves the lowest level. -/
theorem inherits_iff {file : ScenarioFile files} {older : List (ScenarioFile files)} {before after : TestScenarioParsed}
    (chain : Chain files file older) (included : Before file before) (parsed : Parsed files file.path after) :
    Inherits file.json before after ↔ Inheriting file older := by
  obtain rfl := included.merged chain
  obtain rfl := parsed.unique chain.parsed
  have reads := file.reads
  constructor
  · intro inherits
    exact {
      noLogs := (flagKept_iff (fun file => file.reads.cmd.noLogs) rfl (fun _ _ => rfl) file older).mp inherits.noLogs
      headless :=
        (flagKept_iff (fun file => file.reads.cmd.headless) rfl (fun _ _ => rfl) file older).mp inherits.headless
      skipHooks :=
        (flagKept_iff (fun file => file.reads.cmd.skipHooks) rfl (fun _ _ => rfl) file older).mp inherits.skipHooks
      logLevel := (level_iff file older).mp inherits.logLevel }
  · intro inheriting
    exact {
      target := reads.cmd.target.copied
      logLevel := (level_iff file older).mpr inheriting.logLevel
      noLogs := (flagKept_iff (fun file => file.reads.cmd.noLogs) rfl (fun _ _ => rfl) file older).mpr inheriting.noLogs
      headless :=
        (flagKept_iff (fun file => file.reads.cmd.headless) rfl (fun _ _ => rfl) file older).mpr inheriting.headless
      skipHooks :=
        (flagKept_iff (fun file => file.reads.cmd.skipHooks) rfl (fun _ _ => rfl) file older).mpr inheriting.skipHooks
      ltfLibPath := reads.cmd.ltfLibPath.copied
      tags := strings_kept reads.cmd.tags reads.cmd.tagsAppend reads.cmd.tagsRemove
      vars := pairs_kept reads.cmd.vars reads.cmd.varsAppend reads.cmd.varsRemove
      order := strings_kept reads.order reads.orderAppend reads.orderRemove }

/-- A file that mentions two fields, one that includes it and says nothing else, and one that
includes it and has a word of its own. -/
def silentFiles : Files where
  contents := [
    (.lit "base.json", some (.object [(.lit "cmd", .object [
      (.lit "headless", .boolean true), (.lit "log_level", newString (.lit "debug"))])])),
    (.lit "child.json", some (.object [(.lit "include", newString (.lit "base"))])),
    (.lit "spoken.json", some (.object [(.lit "include", newString (.lit "base")), (.lit "cmd", .object [
      (.lit "headless", .boolean false)])]))]
  lastErr := .lit ""

def silentBase : ScenarioFile silentFiles where
  path := .lit "base.json"
  json := .object [(.lit "cmd", .object [
    (.lit "headless", .boolean true), (.lit "log_level", newString (.lit "debug"))])]
  scenario := { cmd := { headless := true, logLevel := some .debug } }
  found := rfl
  read := rfl

def silentChild : ScenarioFile silentFiles where
  path := .lit "child.json"
  json := .object [(.lit "include", newString (.lit "base"))]
  scenario := { included := some (.lit "base") }
  found := rfl
  read := rfl

theorem silentChild_overwrites :
    Chain silentFiles silentChild [silentBase] ∧
      Before silentChild { headless := true, logLevel := some .debug } ∧
      Parsed silentFiles silentChild.path { headless := false, logLevel := some .critical } ∧
      ¬ Inherits silentChild.json { headless := true, logLevel := some .debug }
        { headless := false, logLevel := some .critical } := by
  refine ⟨.included _ _ _ (by decide) (.root _ rfl), ⟨1, rfl⟩, ⟨2, rfl⟩, ?_⟩
  intro inherits
  have headless : false = true := inherits.headless
  cases headless

def spokenChild : ScenarioFile silentFiles where
  path := .lit "spoken.json"
  json := .object [(.lit "include", newString (.lit "base")), (.lit "cmd", .object [(.lit "headless", .boolean false)])]
  scenario := { included := some (.lit "base"), cmd := { logLevel := none } }
  found := rfl
  read := rfl

/-- It takes over the level, and nothing else needs to be said twice. -/
theorem spokenChild_inherits : Inherits spokenChild.json { headless := true, logLevel := some .debug }
    { headless := false, logLevel := some .debug } := by
  have chain : Chain silentFiles spokenChild [silentBase] := .included _ _ _ (by decide) (.root _ rfl)
  refine (inherits_iff chain ⟨1, rfl⟩ ⟨2, rfl⟩).mpr ⟨.inr ?_, .inl rfl, .inr ?_, .inl rfl⟩
  · rintro _ ⟨⟩
    decide
  · rintro _ ⟨⟩
    decide

end Fields
end Ltf.TestScenarios
