import Ltf.OptionStrings
import Ltf.Proofs.ScenarioLists
import Ltf.Proofs.TestOptions

/-! Who holds the strings behind the options of `ltf test`, after any options and any
scenarios, and whether each of them is freed once at the end. -/

namespace Ltf.Proofs.OptionStrings
open CString JsonC Ltf.OptionStrings Ledger
open Ltf.CmdParser (CmdTestOptions KvPair Surroundings TestScenarioParsed)
open TestScenarios (Files)

instance : Holding Bool where
  serials _ := []

instance : Holding LogLevel where
  serials _ := []

instance : Holding ScenarioCmd where
  serials cmd :=
    serials cmd.target ++ serials cmd.tags ++ serials cmd.tagsAppend ++ serials cmd.tagsRemove ++ serials cmd.vars ++
      serials cmd.varsAppend ++ serials cmd.varsRemove ++ serials cmd.ltfLibPath

instance : Holding Scenario where
  serials s :=
    serials s.included ++ serials s.cmd ++ serials s.order ++ serials s.orderAppend ++ serials s.orderRemove

instance : Holding ScenarioParsed where
  serials parsed :=
    serials parsed.target ++ serials parsed.tags ++ serials parsed.vars ++ serials parsed.ltfLibPath ++
      serials parsed.order

theorem serials_cmd (cmd : ScenarioCmd) : serials cmd =
    serials cmd.target ++ serials cmd.tags ++ serials cmd.tagsAppend ++ serials cmd.tagsRemove ++ serials cmd.vars ++
      serials cmd.varsAppend ++ serials cmd.varsRemove ++ serials cmd.ltfLibPath := rfl

theorem serials_scenario (s : Scenario) : serials s =
    serials s.included ++ serials s.cmd ++ serials s.order ++ serials s.orderAppend ++ serials s.orderRemove := rfl

theorem serials_parsed (parsed : ScenarioParsed) : serials parsed =
    serials parsed.target ++ serials parsed.tags ++ serials parsed.vars ++ serials parsed.ltfLibPath ++
      serials parsed.order := rfl

@[simp] theorem serials_bool (flag : Bool) : serials flag = [] := rfl

@[simp] theorem serials_level (level : Option LogLevel) : serials level = [] := by
  cases level <;> rfl

def viewPair (pair : Pair) : KvPair := (pair.1.value, pair.2.value)

def viewCmd (cmd : ScenarioCmd) : TestScenarios.TestScenarioCmd where
  target := cmd.target.map (·.value)
  tags := cmd.tags.map (·.value)
  tagsAppend := cmd.tagsAppend.map (·.value)
  tagsRemove := cmd.tagsRemove.map (·.value)
  vars := cmd.vars.map viewPair
  varsAppend := cmd.varsAppend.map viewPair
  varsRemove := cmd.varsRemove.map (·.value)
  logLevel := cmd.logLevel
  noLogs := cmd.noLogs
  skipHooks := cmd.skipHooks
  headless := cmd.headless
  ltfLibPath := cmd.ltfLibPath.map (·.value)

def viewScenario (s : Scenario) : TestScenarios.TestScenario where
  included := s.included.map (·.value)
  cmd := viewCmd s.cmd
  order := s.order.map (·.value)
  orderAppend := s.orderAppend.map (·.value)
  orderRemove := s.orderRemove.map (·.value)

def viewParsed (parsed : ScenarioParsed) : TestScenarioParsed where
  target := parsed.target.map (·.value)
  tags := parsed.tags.map (·.value)
  vars := parsed.vars.map viewPair
  logLevel := parsed.logLevel
  noLogs := parsed.noLogs
  skipHooks := parsed.skipHooks
  headless := parsed.headless
  ltfLibPath := parsed.ltfLibPath.map (·.value)
  order := parsed.order.map (·.value)

section Reading
variable {ε : Type} {files : Files} {filePath name : CStr} {held : List Nat}

theorem strdup_gains (s : CStr) : Gains (strdup s : Acquiring ε Str) := fun _ => .acquire s

theorem strdup_shows (s : CStr) : Shows (strdup s : Acquiring ε Str) (·.value) (.ok s) := .acquire s

/-- A part that is only read first. -/
theorem attempt_bind {α β : Type} [Holding β] {result : Except ε α} {next : α → Acquiring ε β}
    (rest : ∀ value, Gains (next value)) : Gains (attempt result >>= next) := by
  intro held
  have reads : Settles held (attempt result) fun _ => held := .attempt fun _ _ => .refl _
  exact reads.bind fun value => rest value held

theorem strdupPair_gains (pair : KvPair) : Gains (strdupPair pair : Acquiring ε Pair) := by
  intro held
  apply (strdup_gains pair.1 held).bind
  intro key
  apply (strdup_gains pair.2 _).bind
  intro value
  apply Settles.pure
  rw [List.perm_iff_count]
  intro serial
  simp only [serials_pair, List.count_append]
  omega

theorem strdupPair_shows (pair : KvPair) : Shows (strdupPair pair : Acquiring ε Pair) viewPair (.ok pair) := by
  apply (strdup_shows pair.1).after
  intro key first
  apply (strdup_shows pair.2).after
  intro value second
  exact fun _ => congrArg Except.ok (Prod.ext first second)

theorem jsonArrayToStrArray_gains (o : Json) : Gains (jsonArrayToStrArray files filePath name o) :=
  attempt_bind fun items => Gains.mapM strdup_gains items

theorem jsonArrayToStrArray_shows (o : Json) : Shows (jsonArrayToStrArray files filePath name o) (List.map (·.value))
    (TestScenarios.jsonArrayToStrArray files filePath name o) :=
  .copied (.mapM_copied strdup_shows)

theorem jsonObjectToKvPairsArr_shows (o : Json) : Shows (jsonObjectToKvPairsArr filePath name o) (List.map viewPair)
    (TestScenarios.jsonObjectToKvPairsArr filePath name o) :=
  .copied (.mapM_copied strdupPair_shows)

theorem jsonStringToString_shows (o : Json) : Shows (jsonStringToString filePath name o) (·.value)
    (TestScenarios.jsonStringToString filePath name o) :=
  .copied strdup_shows

theorem jsonStringToLevel_gains (o : Json) : Gains (jsonStringToLevel filePath name o) := by
  intro held
  apply (attempt_bind strdup_gains held).bind
  intro str
  cases ltfLogLevelFromStr str.value with
  | none =>
    apply Settles.attempt
    intro level failed
    cases failed
  | some level => exact .freed (List.Perm.refl _) (.pure (List.Perm.refl _))

theorem jsonStringToLevel_shows (o : Json) : Shows (jsonStringToLevel filePath name o) id
    (TestScenarios.jsonStringToLevel filePath name o) := by
  apply (jsonStringToString_shows o).bind
  intro str
  cases ltfLogLevelFromStr str.value with
  | none => exact .attempt _
  | some level => exact .free (.pure level id)

theorem jsonObjectToKvPairsArr_gains (o : Json) : Gains (jsonObjectToKvPairsArr filePath name o) :=
  attempt_bind fun items => Gains.mapM strdupPair_gains items

theorem jsonStringToString_gains (o : Json) : Gains (jsonStringToString filePath name o) :=
  attempt_bind strdup_gains

theorem ifPresent_gains {α : Type} [Holding α] {o : Json} {key : String} {absent : α} {read : Json → Acquiring CStr α}
    (nothing : serials absent = []) (reads : ∀ value, Gains (read value)) : Gains (ifPresent o key absent read) := by
  unfold ifPresent
  cases get o (.lit key) with
  | none =>
    intro held
    apply Settles.pure
    rw [nothing, List.nil_append]
  | some value => exact reads value

theorem ifPresent_shows {α β : Type} {o : Json} {key : String} {absent : α} {read : Json → Acquiring CStr α}
    {spec : Json → Except CStr β} (view : α → β) (reads : ∀ value, Shows (read value) view (spec value)) :
    Shows (ifPresent o key absent read) view (TestScenarios.ifPresent o key (view absent) spec) := by
  unfold ifPresent TestScenarios.ifPresent
  cases get o (.lit key) with
  | none => exact .pure absent view
  | some value => exact reads value

theorem some_gains {α : Type} [Holding α] {program : Acquiring ε α} (gains : Gains program) :
    Gains (some <$> program) := by
  intro held
  apply Settles.map
  simpa using gains held

theorem some_shows {α β : Type} {view : α → β} {program : Acquiring ε α} {spec : Except ε β}
    (shows : Shows program view spec) : Shows (some <$> program) (Option.map view) (some <$> spec) := by
  rw [map_eq_pure_bind, map_eq_pure_bind]
  exact shows.bind fun value => .pure (some value) (Option.map view)

theorem jsonBooleanToBool_gains (o : Json) : Gains (jsonBooleanToBool filePath name o) :=
  fun _ => .attempt fun _ _ => .refl _

theorem cmdFromJson_gains (v : Json) : Gains (cmdFromJson files filePath v) := by
  intro held
  unfold cmdFromJson
  split
  next =>
    apply (ifPresent_gains serials_none (fun o => some_gains (jsonStringToString_gains o)) _).bind
    intro target
    apply (ifPresent_gains (serials_bool false) jsonBooleanToBool_gains _).bind
    intro skipHooks
    apply (ifPresent_gains serials_none (fun o => some_gains (jsonStringToLevel_gains o)) _).bind
    intro logLevel
    apply (ifPresent_gains (serials_bool false) jsonBooleanToBool_gains _).bind
    intro noLogs
    apply (ifPresent_gains (serials_bool false) jsonBooleanToBool_gains _).bind
    intro headless
    apply (ifPresent_gains serials_none (fun o => some_gains (jsonStringToString_gains o)) _).bind
    intro ltfLibPath
    apply (ifPresent_gains serials_nil jsonArrayToStrArray_gains _).bind
    intro tags
    apply (ifPresent_gains serials_nil jsonArrayToStrArray_gains _).bind
    intro tagsAppend
    apply (ifPresent_gains serials_nil jsonArrayToStrArray_gains _).bind
    intro tagsRemove
    apply (ifPresent_gains serials_nil jsonObjectToKvPairsArr_gains _).bind
    intro vars
    apply (ifPresent_gains serials_nil jsonObjectToKvPairsArr_gains _).bind
    intro varsAppend
    apply (ifPresent_gains serials_nil jsonArrayToStrArray_gains _).bind
    intro varsRemove
    apply Settles.pure
    rw [List.perm_iff_count]
    intro serial
    simp only [serials_cmd, serials_bool, serials_level, List.count_append, List.count_nil]
    omega
  next =>
    apply Settles.attempt
    intro cmd failed
    cases failed

theorem cmdFromJson_shows (v : Json) :
    Shows (cmdFromJson files filePath v) viewCmd (TestScenarios.cmdFromJson files filePath v) := by
  cases v with
  | object fields =>
    unfold cmdFromJson TestScenarios.cmdFromJson
    apply (ifPresent_shows (Option.map (·.value)) fun o => some_shows (jsonStringToString_shows o)).bind
    intro target
    apply (ifPresent_shows id fun o => .attempt _).bind
    intro skipHooks
    apply (ifPresent_shows (Option.map id) fun o => some_shows (jsonStringToLevel_shows o)).bind
    intro logLevel
    apply (ifPresent_shows id fun o => .attempt _).bind
    intro noLogs
    apply (ifPresent_shows id fun o => .attempt _).bind
    intro headless
    apply (ifPresent_shows (Option.map (·.value)) fun o => some_shows (jsonStringToString_shows o)).bind
    intro ltfLibPath
    apply (ifPresent_shows (List.map (·.value)) jsonArrayToStrArray_shows).bind
    intro tags
    apply (ifPresent_shows (List.map (·.value)) jsonArrayToStrArray_shows).bind
    intro tagsAppend
    apply (ifPresent_shows (List.map (·.value)) jsonArrayToStrArray_shows).bind
    intro tagsRemove
    apply (ifPresent_shows (List.map viewPair) jsonObjectToKvPairsArr_shows).bind
    intro vars
    apply (ifPresent_shows (List.map viewPair) jsonObjectToKvPairsArr_shows).bind
    intro varsAppend
    apply (ifPresent_shows (List.map (·.value)) jsonArrayToStrArray_shows).bind
    intro varsRemove book
    simp only [Option.map_id, id]
    rfl
  | _ => exact fun _ => rfl

theorem fromJson_gains (content : Option Json) : Gains (ltfTestScenarioFromJson files filePath content) := by
  intro held
  unfold ltfTestScenarioFromJson
  split
  next =>
    apply Settles.attempt
    intro s failed
    cases failed
  next =>
    apply Settles.attempt
    intro s failed
    cases failed
  next o _ =>
    apply (ifPresent_gains serials_none (fun o => some_gains (jsonStringToString_gains o)) _).bind
    intro included
    apply (ifPresent_gains rfl cmdFromJson_gains _).bind
    intro cmd
    apply (ifPresent_gains serials_nil jsonArrayToStrArray_gains _).bind
    intro order
    apply (ifPresent_gains serials_nil jsonArrayToStrArray_gains _).bind
    intro orderAppend
    apply (ifPresent_gains serials_nil jsonArrayToStrArray_gains _).bind
    intro orderRemove
    apply Settles.pure
    rw [List.perm_iff_count]
    intro serial
    simp only [serials_scenario, List.count_append]
    omega

theorem fromJson_shows (content : Option Json) : Shows (ltfTestScenarioFromJson files filePath content) viewScenario
    (TestScenarios.ltfTestScenarioFromJson files filePath content) := by
  have body : ∀ o : Json, o ≠ .null → Shows (ltfTestScenarioFromJson files filePath (some o)) viewScenario
      (TestScenarios.ltfTestScenarioFromJson files filePath (some o)) := by
    intro o known
    rw [ltfTestScenarioFromJson.eq_3 _ _ _ known, TestScenarios.ltfTestScenarioFromJson.eq_3 _ _ _ known]
    apply (ifPresent_shows (Option.map (·.value)) fun o => some_shows (jsonStringToString_shows o)).bind
    intro included
    apply (ifPresent_shows viewCmd cmdFromJson_shows).bind
    intro cmd
    apply (ifPresent_shows (List.map (·.value)) jsonArrayToStrArray_shows).bind
    intro order
    apply (ifPresent_shows (List.map (·.value)) jsonArrayToStrArray_shows).bind
    intro orderAppend
    apply (ifPresent_shows (List.map (·.value)) jsonArrayToStrArray_shows).bind
    intro orderRemove
    exact .pure _ viewScenario
  cases content with
  | none => exact fun _ => rfl
  | some o =>
    by_cases known : o = .null
    · cases known
      exact fun _ => rfl
    · exact body o known

theorem includeFilePath_gains (filePath included : CStr) : Gains (includeFilePath filePath included : Acquiring ε Str) := by
  intro held
  unfold includeFilePath
  split
  next => exact .acquire _
  next eq _ =>
    apply (Settles.acquire _).bind
    intro dirPath
    apply (Settles.acquire _).bind
    intro ret
    apply Settles.freed (List.perm_append_comm_assoc ..)
    exact .pure (.refl _)

theorem includeFilePath_shows (filePath included : CStr) : Shows (includeFilePath filePath included : Acquiring ε Str)
    (·.value) (.ok (TestScenarios.includeFilePath filePath included)) := by
  unfold includeFilePath TestScenarios.includeFilePath
  cases strrchr filePath.bytes 47 with
  | none => exact .acquire _
  | some eq =>
    apply (Shows.acquire _).after
    intro dirPath same
    apply (Shows.acquire _).after
    intro ret path
    apply Shows.free
    exact fun _ => congrArg Except.ok (path.trans (same ▸ rfl))

section Lists
variable {α β : Type} [Holding α] {copy : α → Acquiring ε α} {name : α → CStr} {view : α → β} {spec : β → CStr}

/-- Taking an item out of an array. -/
theorem serials_eraseP {da : List α} {test : α → Bool} {item : α} (found : da.find? test = some item) :
    (serials da).Perm (serials item ++ serials (da.eraseP test)) := by
  induction da with
  | nil => cases found
  | cons first rest ih =>
    rw [List.find?_cons] at found
    cases hit : test first with
    | true =>
      simp only [hit, Option.some.injEq] at found
      rw [List.eraseP_cons_of_pos hit, serials_cons, found]
    | false =>
      simp only [hit] at found
      rw [List.eraseP_cons_of_neg (by simp [hit]), serials_cons, serials_cons]
      exact ((ih found).append_left _).trans (List.perm_append_comm_assoc ..)

theorem removeItem_settles (da : List α) (text : Str) (held : List Nat) :
    Settles (serials da ++ held) (removeItem name da text : Acquiring ε (List α)) (serials · ++ held) := by
  unfold removeItem
  split
  next => exact .pure (.refl _)
  next item found =>
    have taken := (serials_eraseP found).append_right held
    rw [List.append_assoc] at taken
    exact .freed taken (.pure (.refl _))

theorem removeFromDa_settles (da : List α) (arr : List Str) (held : List Nat) :
    Settles (serials da ++ held) (removeFromDa name da arr : Acquiring ε (List α)) (serials · ++ held) :=
  Settles.foldlM (fun da text => removeItem_settles da text held) arr da

theorem appendToDa_settles (copies : ∀ item, Gains (copy item)) (da arr : List α) (held : List Nat) :
    Settles (serials da ++ held) (appendToDa copy da arr : Acquiring ε (List α)) (serials · ++ held) := by
  unfold appendToDa
  apply (Gains.mapM copies arr _).bind
  intro items
  apply Settles.pure
  rw [serials_append, List.append_assoc]
  exact List.perm_append_comm_assoc ..

theorem mergeDa_settles (copies : ∀ item, Gains (copy item)) (append : List α) (remove : List Str)
    (redeclare da : List α) (held : List Nat) :
    Settles (serials da ++ held) (mergeDa copy name append remove redeclare da) (serials · ++ held) := by
  unfold mergeDa
  apply (appendToDa_settles copies da append held).bind
  intro da
  apply (removeFromDa_settles da remove held).bind
  intro da
  split
  next =>
    apply Settles.freed (List.Perm.refl _)
    exact appendToDa_settles copies [] redeclare held
  next => exact .pure (.refl _)

section Shown
variable (same : ∀ item, name item = spec (view item))
include same

theorem removeItem_shows (da : List α) (text : Str) : Shows (removeItem name da text : Acquiring ε (List α))
    (List.map view) (.ok ((da.map view).eraseP fun item => spec item = text.value)) := by
  have erased : (da.map view).eraseP (fun item => spec item = text.value) =
      (da.eraseP fun item => name item = text.value).map view := by
    rw [List.eraseP_map]
    simp only [Function.comp_def, same]
  rw [erased]
  unfold removeItem
  cases found : da.find? fun item => name item = text.value with
  | none =>
    have stays : (da.eraseP fun item => name item = text.value) = da :=
      List.eraseP_of_forall_not (by simpa using found)
    rw [stays]
    exact .pure da _
  | some item => exact .free (.pure _ _)

theorem removeFromDa_shows (da : List α) (arr : List Str) :
    Shows (removeFromDa name da arr : Acquiring ε (List α)) (List.map view)
      (.ok ((arr.map (·.value)).foldl (fun da text => da.eraseP fun item => spec item = text) (da.map view))) := by
  unfold removeFromDa
  induction arr generalizing da with
  | nil => exact .pure da _
  | cons text arr ih =>
    rw [List.foldlM_cons]
    apply (removeItem_shows same da text).after
    intro rest found
    rw [List.map_cons, List.foldl_cons, ← found]
    exact ih rest

theorem mergeDa_shows (copies : ∀ item, Shows (copy item) view (.ok (view item))) (append : List α)
    (remove : List Str) (redeclare da : List α) :
    Shows (mergeDa copy name append remove redeclare da) (List.map view)
      (.ok (if redeclare.map view = [] then
        (remove.map (·.value)).foldl (fun da text => da.eraseP fun item => spec item = text)
          (da.map view ++ append.map view)
        else redeclare.map view)) := by
  have appended : ∀ da arr, Shows (appendToDa copy da arr) (List.map view) (.ok (da.map view ++ arr.map view)) := by
    intro da arr
    apply (Shows.mapM_ok copies arr).after
    intro items found
    rw [← found, ← List.map_append]
    exact .pure _ _
  unfold mergeDa
  apply (appended da append).after
  intro longer first
  apply (removeFromDa_shows same longer remove).after
  intro shorter second
  cases redeclare with
  | nil =>
    rw [← first, ← second]
    exact .pure shorter _
  | cons item items => exact .free (appended [] (item :: items))

end Shown
end Lists

theorem mergeStringDa_settles (append remove redeclare da : List Str) (held : List Nat) :
    Settles (serials da ++ held) (mergeStringDa append remove redeclare da : Acquiring ε (List Str))
      (serials · ++ held) := by
  unfold mergeStringDa
  apply mergeDa_settles
  exact fun item => strdup_gains item.value

theorem mergeKvPairDa_settles (append : List Pair) (remove : List Str) (redeclare da : List Pair) (held : List Nat) :
    Settles (serials da ++ held) (mergeKvPairDa append remove redeclare da : Acquiring ε (List Pair))
      (serials · ++ held) := by
  unfold mergeKvPairDa
  apply mergeDa_settles
  exact fun pair => strdupPair_gains (pair.1.value, pair.2.value)

theorem foldl_erase (da names : List CStr) :
    names.foldl (fun da text => da.eraseP fun item => id item = text) da = names.foldl List.erase da := by
  have each : (fun (da : List CStr) text => da.eraseP fun item => id item = text) = List.erase := by
    funext da text
    simp only [List.erase_eq_eraseP', beq_eq_decide, id]
  exact congrArg (fun step => names.foldl step da) each

theorem mergeStringDa_shows (append remove redeclare da : List Str) :
    Shows (mergeStringDa append remove redeclare da : Acquiring ε (List Str)) (List.map (·.value))
      (.ok (TestScenarios.mergeStringDa (append.map (·.value)) (remove.map (·.value)) (redeclare.map (·.value))
        (da.map (·.value)))) := by
  rw [TestScenarios.mergeStringDa_eq, List.diff_eq_foldl, ← foldl_erase]
  apply mergeDa_shows
  · exact fun _ => rfl
  · exact fun item => strdup_shows item.value

theorem mergeKvPairDa_shows (append : List Pair) (remove : List Str) (redeclare da : List Pair) :
    Shows (mergeKvPairDa append remove redeclare da : Acquiring ε (List Pair)) (List.map viewPair)
      (.ok (TestScenarios.mergeKvPairDa (append.map viewPair) (remove.map (·.value)) (redeclare.map viewPair)
        (da.map viewPair))) := by
  rw [TestScenarios.mergeKvPairDa_eq, Removal.eraseKeys]
  apply mergeDa_shows
  · exact fun _ => rfl
  · exact fun pair => strdupPair_shows (pair.1.value, pair.2.value)

theorem replaceString_settles (field : Option Str) (value : Option CStr) (held : List Nat) :
    Settles (serials field ++ held) (replaceString field value : Acquiring ε (Option Str)) (serials · ++ held) := by
  cases value with
  | none => exact .pure (.refl _)
  | some text =>
    apply Settles.freed (.refl _)
    exact some_gains (strdup_gains text) held

theorem replaceString_shows (field : Option Str) (value : Option CStr) :
    Shows (replaceString field value : Acquiring ε (Option Str)) (Option.map (·.value))
      (.ok (if value.isSome then value else field.map (·.value))) := by
  cases value with
  | none => exact .pure field _
  | some text => exact .free (some_shows (strdup_shows text))

theorem mergeScenario_settles (s : Scenario) (parsed : ScenarioParsed) (held : List Nat) :
    Settles (serials parsed ++ held) (mergeScenario s parsed : Acquiring ε ScenarioParsed) (serials · ++ held) := by
  have split : (serials parsed ++ held).Perm (serials parsed.target ++ (serials parsed.ltfLibPath ++
      (serials parsed.tags ++ (serials parsed.vars ++ (serials parsed.order ++ held))))) := by
    rw [List.perm_iff_count]
    intro serial
    simp only [serials_parsed, List.count_append]
    omega
  apply ((replaceString_settles _ _ _).turn.perm split).bind
  intro target
  simp only [List.append_assoc]
  apply (replaceString_settles _ _ _).turn.bind
  intro ltfLibPath
  simp only [List.append_assoc]
  apply (mergeStringDa_settles _ _ _ _ _).turn.bind
  intro tags
  simp only [List.append_assoc]
  apply (mergeKvPairDa_settles _ _ _ _ _).turn.bind
  intro vars
  simp only [List.append_assoc]
  apply (mergeStringDa_settles _ _ _ _ _).turn.bind
  intro order
  apply Settles.pure
  rw [List.perm_iff_count]
  intro serial
  simp only [serials_parsed, List.count_append]
  omega

theorem mergeScenario_shows (s : Scenario) (parsed : ScenarioParsed) :
    Shows (mergeScenario s parsed : Acquiring ε ScenarioParsed) viewParsed
      (.ok (TestScenarios.mergeScenario (viewScenario s) (viewParsed parsed))) := by
  unfold mergeScenario TestScenarios.mergeScenario
  apply (replaceString_shows _ _).after
  intro target first
  apply (replaceString_shows _ _).after
  intro ltfLibPath second
  apply (mergeStringDa_shows _ _ _ _).after
  intro tags third
  apply (mergeKvPairDa_shows _ _ _ _).after
  intro vars fourth
  apply (mergeStringDa_shows _ _ _ _).after
  intro order fifth book
  change Except.ok (viewParsed _) = _
  simp only [viewParsed, first, second, third, fourth, fifth]
  rfl

/-- What the fuel leaves of the result. -/
def outcome (result : Option (Except CStr TestScenarioParsed)) : Except (Option CStr) TestScenarioParsed :=
  match result with
  | none => .error none
  | some (.error text) => .error (some text)
  | some (.ok parsed) => .ok parsed

theorem parseFile_settles (fuel : Nat) (filePath : CStr) (parsed : ScenarioParsed) (held : List Nat) :
    Settles (serials parsed ++ held) (ltfTestScenarioParseFile files fuel filePath parsed) (serials · ++ held) := by
  induction fuel generalizing filePath parsed held with
  | zero => exact .throw
  | succ fuel ih =>
    unfold ltfTestScenarioParseFile
    split
    next =>
      apply Settles.failing
      apply Settles.attempt
      intro _ failed
      cases failed
    next content _ =>
      apply (fromJson_gains content _).failing.bind
      intro s
      apply (strdup_gains filePath _).bind
      intro path
      dsimp only
      split
      next =>
        have before : (serials path ++ (serials s ++ (serials parsed ++ held))).Perm
            (serials parsed ++ (serials path ++ serials s ++ held)) := by
          rw [List.perm_iff_count]
          intro serial
          simp only [List.count_append]
          omega
        apply ((mergeScenario_settles s parsed _).perm before).bind
        intro parsed
        apply Settles.pure
        rw [List.perm_iff_count]
        intro serial
        simp only [serials_pair, serials_cons, serials_nil, List.count_append, List.count_nil]
        omega
      next included _ =>
        apply (includeFilePath_gains filePath included.value _).bind
        intro incFilePath
        have before : (serials incFilePath ++ (serials path ++ (serials s ++ (serials parsed ++ held)))).Perm
            (serials parsed ++ (serials incFilePath ++ (serials path ++ (serials s ++ held)))) := by
          rw [List.perm_iff_count]
          intro serial
          simp only [List.count_append]
          omega
        apply ((ih incFilePath.value parsed _).perm before).bind
        intro result
        obtain ⟨parents, parsed⟩ := result
        apply Settles.freed (List.perm_append_comm_assoc ..)
        have between : (serials (parents, parsed) ++ (serials path ++ (serials s ++ held))).Perm
            (serials parsed ++ (serials path ++ serials s ++ serials parents ++ held)) := by
          rw [List.perm_iff_count]
          intro serial
          simp only [serials_pair, List.count_append]
          omega
        apply ((mergeScenario_settles s parsed _).perm between).bind
        intro parsed
        apply Settles.pure
        rw [List.perm_iff_count]
        intro serial
        simp only [serials_pair, serials_cons, List.count_append]
        omega

theorem outcome_file {fuel : Nat} {filePath : CStr} {parsed : TestScenarioParsed} {content : Option Json}
    (found : files.contents.lookup filePath = some content) :
    outcome (TestScenarios.ltfTestScenarioParseFile files (fuel + 1) filePath parsed) =
      (TestScenarios.ltfTestScenarioFromJson files filePath content).mapError some >>= fun s =>
        (match s.included with
          | none => .ok parsed
          | some included => outcome
            (TestScenarios.ltfTestScenarioParseFile files fuel (TestScenarios.includeFilePath filePath included) parsed)) >>=
        fun parsed => .ok (TestScenarios.mergeScenario s parsed) := by
  rw [TestScenarios.ltfTestScenarioParseFile, found]
  dsimp only
  cases TestScenarios.ltfTestScenarioFromJson files filePath content with
  | error text => rfl
  | ok s =>
    rw [Except.mapError, Steps.bind_of_ok rfl]
    dsimp only
    cases s.included with
    | none => rfl
    | some included =>
      dsimp only
      cases TestScenarios.ltfTestScenarioParseFile files fuel
          (TestScenarios.includeFilePath filePath included) parsed with
      | none => rfl
      | some result => cases result <;> rfl

theorem parseFile_shows (fuel : Nat) (filePath : CStr) (parsed : ScenarioParsed) :
    Shows (ltfTestScenarioParseFile files fuel filePath parsed) (fun result => viewParsed result.2)
      (outcome (TestScenarios.ltfTestScenarioParseFile files fuel filePath (viewParsed parsed))) := by
  induction fuel generalizing filePath parsed with
  | zero => exact .throw _ _
  | succ fuel ih =>
    cases found : files.contents.lookup filePath with
    | none =>
      rw [ltfTestScenarioParseFile, TestScenarios.ltfTestScenarioParseFile, found]
      exact fun _ => rfl
    | some content =>
      rw [outcome_file found, ltfTestScenarioParseFile, found]
      apply (fromJson_shows content).failing.bind
      intro s
      apply (strdup_shows filePath).after
      intro path _
      rw [viewScenario]
      cases s.included with
      | none =>
        apply (mergeScenario_shows s parsed).after
        intro merged same
        exact fun _ => congrArg Except.ok same
      | some file =>
        apply (includeFilePath_shows filePath file.value).after
        intro incFilePath inside
        dsimp only [Option.map_some]
        rw [← inside]
        apply (ih incFilePath.value parsed).bind
        intro result
        apply Shows.free
        apply (mergeScenario_shows s result.2).after
        intro merged same
        exact fun _ => congrArg Except.ok same

theorem freeCmd_settles (cmd : ScenarioCmd) (held : List Nat) :
    Settles (serials cmd ++ held) (freeCmd cmd : Acquiring ε Unit) fun _ => held := by
  simp only [serials_cmd, List.append_assoc]
  apply Settles.freed (.refl _)
  apply Settles.freed (.refl _)
  apply Settles.freed (.refl _)
  apply Settles.freed (.refl _)
  apply Settles.freed (.refl _)
  apply Settles.freed (.refl _)
  apply Settles.freed (.refl _)
  exact .free (.refl _)

/-- The scenario and those it includes are freed as a whole. -/
theorem scenarioFree_settles (scenarios : List (Str × Scenario)) (held : List Nat) :
    Settles (serials scenarios ++ held) (ltfTestScenarioFree scenarios : Acquiring ε Unit) fun _ => held := by
  induction scenarios generalizing held with
  | nil => exact .pure (.refl _)
  | cons first parents ih =>
    obtain ⟨path, s⟩ := first
    have split : (serials ((path, s) :: parents) ++ held).Perm
        (serials parents ++ (serials path ++ (serials s ++ held))) := by
      rw [List.perm_iff_count]
      intro serial
      simp only [serials_pair, serials_cons, List.count_append]
      omega
    unfold ltfTestScenarioFree
    apply ((ih _).perm split).bind
    intro _
    apply Settles.freed (.refl _)
    simp only [serials_scenario, List.append_assoc]
    apply Settles.freed (.refl _)
    apply (freeCmd_settles s.cmd _).bind
    intro _
    apply Settles.freed (.refl _)
    apply Settles.freed (.refl _)
    exact .free (.refl _)

theorem parse_gains (fuel : Nat) (filePath : CStr) : Gains (ltfTestScenarioParse files fuel filePath) := by
  intro held
  apply (parseFile_settles fuel filePath {} held).bind
  intro result
  obtain ⟨scenarios, parsed⟩ := result
  rw [serials_pair, List.append_assoc]
  exact (scenarioFree_settles scenarios _).bind fun _ => .pure (.refl _)

theorem scenarioFree_shows (scenarios : List (Str × Scenario)) :
    Shows (ltfTestScenarioFree scenarios : Acquiring ε Unit) id (.ok ()) := by
  induction scenarios with
  | nil => exact fun _ => rfl
  | cons first parents ih =>
    obtain ⟨path, s⟩ := first
    unfold ltfTestScenarioFree
    apply ih.after
    exact fun _ _ _ => rfl

theorem parse_shows (fuel : Nat) (filePath : CStr) : Shows (ltfTestScenarioParse files fuel filePath) viewParsed
    (outcome (TestScenarios.ltfTestScenarioParse files fuel filePath)) := by
  rw [← bind_pure (outcome _)]
  apply (parseFile_shows fuel filePath {}).bind
  intro result
  apply (scenarioFree_shows result.1).after
  exact fun _ _ => .pure result.2 viewParsed

end Reading

section Options

/-- What the options hold without their scenario. -/
def own (opts : TestOptions) : List Nat :=
  serials opts.tags ++ serials opts.vars ++ serials opts.target ++ serials opts.customLtfLibPath

/-- The options without the variables of the scenario, some of which have been released. -/
def bare (opts : CmdTestOptions) : CmdTestOptions := { opts with scenario := { opts.scenario with vars := [] } }

/-- The options without their numbers. -/
def viewOptions (opts : TestOptions) : CmdTestOptions where
  tags := opts.tags.map (·.value)
  vars := opts.vars.map viewPair
  noLogs := opts.noLogs
  logLevel := opts.logLevel
  logLevelSet := opts.logLevelSet
  skipHooks := opts.skipHooks
  target := opts.target.map (·.value)
  internalLogging := opts.internalLogging
  customLtfLibPath := opts.customLtfLibPath.map (·.value)
  headless := opts.headless
  scenario := { viewParsed opts.scenario with vars := [] }
  scenarioParsed := opts.scenarioParsed

variable {held : List Nat}

theorem stringSplitByDelim_gains (s : CStr) (delim : UInt8) : Gains (stringSplitByDelim s delim) := by
  intro held
  apply (strdup_gains s held).bind
  intro copy
  apply (Gains.mapM (fun tok => strdup_gains (.ofBytes tok)) _ _).bind
  intro out
  apply Settles.freed (List.perm_append_comm_assoc ..)
  exact .pure (.refl _)

theorem stringSplitByDelim_shows (s : CStr) (delim : UInt8) : Shows (stringSplitByDelim s delim) (List.map (·.value))
    (.ok (CmdParser.stringSplitByDelim s delim)) := by
  apply (strdup_shows s).after
  intro copy _
  apply (Shows.mapM_ok (fun tok => strdup_shows (.ofBytes tok)) _).after
  intro out found
  apply Shows.free
  exact fun _ => congrArg Except.ok found

theorem setTestTags_settles (arg : CStr) (opts : TestOptions) :
    Settles (own opts ++ held) (setTestTags arg opts) (own · ++ held) := by
  apply (stringSplitByDelim_gains arg 44 _).bind
  intro tags
  have before : (serials tags ++ (own opts ++ held)).Perm (serials opts.tags ++ (own { opts with tags } ++ held)) := by
    rw [List.perm_iff_count]
    intro serial
    simp only [own, List.count_append]
    omega
  exact .freed before (.pure (.refl _))

theorem setTestTags_shows (arg : CStr) (opts : TestOptions) : Shows (setTestTags arg opts) viewOptions
    (CmdParser.setTestTags arg (viewOptions opts)) := by
  apply (stringSplitByDelim_shows arg 44).after
  intro tags found
  apply Shows.free
  intro book
  rw [CmdParser.setTestTags, ← found]
  rfl

theorem putVar_settles (pair : Pair) (vars : List Pair) (held : List Nat) :
    Settles (serials vars ++ (serials pair ++ held)) (putVar pair vars) (serials · ++ held) := by
  induction vars generalizing held with
  | nil =>
    apply Settles.pure
    simp
  | cons var vars ih =>
    unfold putVar
    split
    next =>
      simp only [serials_cons, serials_pair, List.append_assoc]
      apply Settles.freed (.refl _)
      apply Settles.freed (.refl _)
      apply Settles.pure
      rw [List.perm_iff_count]
      intro serial
      simp only [serials_cons, serials_pair, List.count_append]
      omega
    next =>
      have before : (serials (var :: vars) ++ (serials pair ++ held)).Perm
          (serials vars ++ (serials pair ++ (serials var ++ held))) := by
        rw [List.perm_iff_count]
        intro serial
        simp only [serials_cons, List.count_append]
        omega
      apply ((ih _).perm before).bind
      intro vars
      apply Settles.pure
      rw [serials_cons, List.append_assoc]
      exact List.perm_append_comm_assoc ..

theorem putVar_shows (pair : Pair) (vars : List Pair) : Shows (putVar pair vars) (List.map viewPair)
    (.ok (Assoc.put (vars.map viewPair) (viewPair pair))) := by
  induction vars with
  | nil => exact .pure _ _
  | cons var vars ih =>
    unfold putVar
    rw [List.map_cons, Assoc.put]
    change Shows (if pair.1.value = var.1.value then _ else _) _
      (.ok (if pair.1.value = var.1.value then _ else _))
    split
    next => exact .free (.free (.pure (pair :: vars) _))
    next =>
      apply ih.after
      intro rest found
      rw [← found]
      exact .pure (var :: rest) _

theorem setTestVar_settles (vars : List Pair) (token : List UInt8) (held : List Nat) :
    Settles (serials vars ++ held) (setTestVar vars token) (serials · ++ held) := by
  unfold setTestVar
  split
  next => exact .throw
  next eq _ =>
    split
    next => exact .throw
    next =>
      apply (strdupPair_gains _ _).bind
      intro pair
      exact (putVar_settles pair vars held).perm (List.perm_append_comm_assoc ..)

/-- The variables are all of the options that the loop changes. -/
theorem setTestVar_shows (opts : CmdTestOptions) (vars : List Pair) (token : List UInt8) :
    Shows (setTestVar vars token) (fun vars => { opts with vars := vars.map viewPair })
      (CmdParser.setTestVar { opts with vars := vars.map viewPair } token) := by
  unfold setTestVar CmdParser.setTestVar
  cases strchr token 61 with
  | none => exact .throw _ _
  | some eq =>
    dsimp only
    split
    next => exact .throw _ _
    next =>
      apply (strdupPair_shows _).after
      intro pair same
      rw [← same]
      exact (putVar_shows pair vars).through fun vars => { opts with vars }

theorem setTestVars_settles (arg : CStr) (opts : TestOptions) :
    Settles (own opts ++ held) (setTestVars arg opts) (own · ++ held) := by
  apply (strdup_gains arg _).bind
  intro copy
  have before : (serials copy ++ (own opts ++ held)).Perm
      (serials opts.vars ++ (serials copy ++ (own { opts with vars := [] } ++ held))) := by
    rw [List.perm_iff_count]
    intro serial
    simp only [own, serials_nil, List.count_append, List.count_nil]
    omega
  apply ((Settles.foldlM (fun vars token => setTestVar_settles vars token _) _ opts.vars).perm before).bind
  intro vars
  apply Settles.freed (List.perm_append_comm_assoc ..)
  apply Settles.pure
  rw [List.perm_iff_count]
  intro serial
  simp only [own, serials_nil, List.count_append, List.count_nil]
  omega

theorem setTestVars_shows (arg : CStr) (opts : TestOptions) : Shows (setTestVars arg opts) viewOptions
    (CmdParser.setTestVars arg (viewOptions opts)) := by
  unfold setTestVars CmdParser.setTestVars
  apply (strdup_shows arg).after
  intro copy _
  rw [← bind_pure (List.foldlM CmdParser.setTestVar _ _)]
  apply (Shows.foldlM (setTestVar_shows (viewOptions opts)) _ opts.vars).bind
  intro vars
  apply Shows.free
  exact .pure { opts with vars } viewOptions

theorem setTestLtfLibPath_settles (arg : CStr) (opts : TestOptions) :
    Settles (own opts ++ held) (setTestLtfLibPath arg opts) (own · ++ held) := by
  have before : (own opts ++ held).Perm
      (serials opts.customLtfLibPath ++ (own { opts with customLtfLibPath := none } ++ held)) := by
    rw [List.perm_iff_count]
    intro serial
    simp only [own, serials_none, List.count_append, List.count_nil]
    omega
  apply Settles.freed before
  apply (strdup_gains arg _).bind
  intro path
  apply Settles.pure
  rw [List.perm_iff_count]
  intro serial
  simp only [own, serials_none, serials_some, List.count_append, List.count_nil]
  omega

theorem setTestLtfLibPath_shows (arg : CStr) (opts : TestOptions) : Shows (setTestLtfLibPath arg opts) viewOptions
    (CmdParser.setTestLtfLibPath arg (viewOptions opts)) := by
  apply Shows.free
  apply (strdup_shows arg).after
  rintro path rfl
  exact .pure { opts with customLtfLibPath := some path } viewOptions

theorem mergeVars_settles (vars : List Pair) (lists : List Pair × List Pair) :
    Settles (serials lists.1 ++ (serials vars ++ held)) (vars.foldlM mergeVar lists) fun lists =>
      serials lists.1 ++ held := by
  induction vars generalizing lists with
  | nil => exact .pure (.refl _)
  | cons var vars ih =>
    rw [List.foldlM_cons, mergeVar]
    split
    next =>
      have before : (serials lists.1 ++ (serials (var :: vars) ++ held)).Perm
          (serials var.2 ++ (serials var.1 ++ (serials lists.1 ++ (serials vars ++ held)))) := by
        rw [List.perm_iff_count]
        intro serial
        simp only [serials_cons, serials_pair, List.count_append]
        omega
      apply Settles.bind _ ih
      apply Settles.freed before
      exact .freed (.refl _) (.pure (.refl _))
    next =>
      apply (ih (lists.1 ++ [var], lists.2 ++ [var])).perm
      rw [List.perm_iff_count]
      intro serial
      simp only [serials_cons, serials_append, serials_nil, List.count_append, List.count_nil]
      omega

theorem mergeVars_shows (vars : List Pair) (lists : List Pair × List Pair) :
    Shows (vars.foldlM mergeVar lists) (fun lists => lists.1.map viewPair)
      (.ok ((vars.map viewPair).foldl Assoc.addMissing (lists.1.map viewPair))) := by
  induction vars generalizing lists with
  | nil => exact .pure lists _
  | cons var vars ih =>
    have known : ((lists.1.map viewPair).any fun pair => pair.1 = (viewPair var).1) =
        lists.1.any fun regVar => var.1.value = regVar.1.value := by
      rw [List.any_map]
      congr 1
      funext regVar
      exact decide_eq_decide.mpr eq_comm
    rw [List.foldlM_cons, mergeVar, List.map_cons, List.foldl_cons, Assoc.addMissing, known]
    split
    next =>
      apply Shows.after (.free (.free (.pure lists id)))
      rintro _ rfl
      exact ih _
    next =>
      have longer := ih (lists.1 ++ [var], lists.2 ++ [var])
      rw [List.map_append] at longer
      exact longer

/-- The variables that stay in the scenario are in the options as well. There are none exactly
when each had a value before. -/
theorem mergeVars_yields (vars : List Pair) (lists : List Pair × List Pair) (inside : lists.2 ⊆ lists.1) :
    Yields (vars.foldlM mergeVar lists) fun after => after.2 ⊆ after.1 ∧
      (after.2 = [] ↔ lists.2 = [] ∧ ∀ var ∈ vars, var.1.value ∈ lists.1.map (·.1.value)) := by
  induction vars generalizing lists with
  | nil =>
    apply Yields.pure
    simpa using inside
  | cons var vars ih =>
    rw [List.foldlM_cons, mergeVar]
    simp only [List.forall_mem_cons]
    split
    next found =>
      have known : var.1.value ∈ lists.1.map (·.1.value) := by simpa [@eq_comm _ var.1.value] using found
      have same : Yields (do
          free var.2
          free var.1
          return lists : Acquiring Stop (List Pair × List Pair)) (· = lists) :=
        .last fun _ => .last fun _ => .pure rfl
      refine same.bind ?_
      intro other unchanged
      rw [unchanged]
      simpa only [known, true_and] using ih lists inside
    next missing =>
      have unknown : var.1.value ∉ lists.1.map (·.1.value) := by simpa [@eq_comm _ var.1.value] using missing
      have longer := ih (lists.1 ++ [var], lists.2 ++ [var]) (by simpa using List.subset_append_of_subset_left [var] inside)
      simpa [unknown] using longer

/-- There are tags that those of a scenario are added to. -/
def tagged (opts : TestOptions) : Bool := opts.tags.length ≠ 0

/-- The strings that only the scenario holds. -/
def alone (tagged : Bool) (sc : ScenarioParsed) : List Nat :=
  serials sc.target ++ serials sc.ltfLibPath ++ serials sc.order ++ if tagged then [] else serials sc.tags

/-- The strings of the scenario whose pointers were copied. -/
def shared (tagged : Bool) (sc : ScenarioParsed) : List Nat :=
  serials sc.vars ++ if tagged then serials sc.tags else []

theorem scenario_perm (tagged : Bool) (sc : ScenarioParsed) :
    (serials sc).Perm (alone tagged sc ++ shared tagged sc) := by
  rw [List.perm_iff_count]
  intro serial
  cases tagged <;>
  · simp only [serials_parsed, alone, shared, Bool.false_eq_true, if_true, if_false, List.count_append, List.count_nil]
    omega

section Scenario
variable {files : Files} {fuel : Nat} {signed : Bool} {arg : CStr} {opts : TestOptions}

/-- The scenario files are what the command line is read against. -/
def surroundings (files : Files) (fuel : Nat) (signed : Bool) : Surroundings where
  testScenarioParse filePath := (outcome (TestScenarios.ltfTestScenarioParse files fuel filePath)).toOption
  signedEnum := signed

theorem setTestScenario_settles :
    Settles (own opts ++ held) (setTestScenario files fuel arg opts) fun after =>
      own after ++ (alone (tagged opts) after.scenario ++ held) := by
  apply (parse_gains fuel arg _).failing.bind
  intro sc
  have first : (serials sc ++ (own opts ++ held)).Perm (serials opts.vars ++ (serials sc.vars ++
      (serials opts.target ++ (serials opts.customLtfLibPath ++ (serials opts.tags ++ (serials sc.target ++
        (serials sc.tags ++ (serials sc.ltfLibPath ++ (serials sc.order ++ held))))))))) := by
    rw [List.perm_iff_count]
    intro serial
    simp only [serials_parsed, own, List.count_append]
    omega
  apply ((mergeVars_settles sc.vars (opts.vars, [])).perm first).bind
  intro lists
  apply ((replaceString_settles opts.target _ _).turn.perm (List.perm_append_comm_assoc ..)).bind
  intro target
  have second : ((serials lists.1 ++ (serials opts.customLtfLibPath ++ (serials opts.tags ++ (serials sc.target ++
      (serials sc.tags ++ (serials sc.ltfLibPath ++ (serials sc.order ++ held))))))) ++ serials target).Perm
        (serials opts.customLtfLibPath ++ (serials lists.1 ++ (serials opts.tags ++ (serials sc.target ++
          (serials sc.tags ++ (serials sc.ltfLibPath ++ (serials sc.order ++ held))))) ++ serials target)) := by
    rw [List.perm_iff_count]
    intro serial
    simp only [List.count_append]
    omega
  apply ((replaceString_settles opts.customLtfLibPath _ _).perm second).bind
  intro customLtfLibPath
  apply Settles.pure
  rw [List.perm_iff_count]
  intro serial
  by_cases given : opts.tags.length ≠ 0
  · simp only [own, alone, tagged, given, decide_true, if_true, serials_append, List.count_append, List.count_nil,
      not_false_eq_true, ne_eq]
    omega
  · simp only [own, alone, tagged, given, decide_false, if_false, List.count_append, Bool.false_eq_true]
    omega

theorem setTestScenario_shows : Shows (setTestScenario files fuel arg opts) viewOptions
    ((CmdParser.setTestScenario (surroundings files fuel signed) arg (viewOptions opts)).map bare) := by
  have reads : Shows (failing (fun _ => Stop.exit exitFailure) (ltfTestScenarioParse files fuel arg)) viewParsed
      ((outcome (TestScenarios.ltfTestScenarioParse files fuel arg)).mapError fun _ => Stop.exit exitFailure) :=
    (parse_shows fuel arg).failing
  unfold setTestScenario CmdParser.setTestScenario surroundings
  dsimp only
  cases parsed : outcome (TestScenarios.ltfTestScenarioParse files fuel arg) with
  | error text =>
    rw [parsed] at reads
    exact reads.stops
  | ok values =>
    rw [parsed] at reads
    apply reads.after
    rintro sc rfl
    apply (mergeVars_shows sc.vars (opts.vars, [])).after
    intro lists vars
    apply (replaceString_shows opts.target _).after
    intro target first
    apply (replaceString_shows opts.customLtfLibPath _).after
    intro path second book
    have libPath : path.map (·.value) =
        if (opts.customLtfLibPath.map (·.value)).isNone && (sc.ltfLibPath.map (·.value)).isSome then
          sc.ltfLibPath.map (·.value)
        else opts.customLtfLibPath.map (·.value) := by
      rw [second]
      cases opts.customLtfLibPath <;> cases sc.ltfLibPath <;> rfl
    have tags : (if opts.tags.length ≠ 0 then opts.tags ++ sc.tags else opts.tags).map (·.value) =
        if (opts.tags.map (·.value)).length ≠ 0 then opts.tags.map (·.value) ++ sc.tags.map (·.value)
        else opts.tags.map (·.value) := by
      rw [List.length_map]
      split
      next => exact List.map_append
      next => rfl
    change Except.ok (viewOptions _) = Except.ok (bare _)
    simp only [viewOptions, vars, first, libPath, tags]
    rfl

/-- What is known of the options once a scenario has been merged into them. -/
structure Merged (before : TestOptions) (sc : TestScenarioParsed) (after : TestOptions) : Prop where
  texts : viewParsed { after.scenario with vars := [] } = { sc with vars := [] }
  vars : after.scenario.vars = [] ↔ ∀ var ∈ sc.vars, var.1 ∈ before.vars.map (·.1.value)
  shared : ∀ serial ∈ shared (tagged before) after.scenario, serial ∈ own after

theorem serials_subset {α : Type} [Holding α] {few many : List α} (inside : few ⊆ many) :
    serials few ⊆ serials many := by
  intro serial found
  obtain ⟨value, listed, held⟩ := List.mem_flatMap.mp found
  exact List.mem_flatMap.mpr ⟨value, inside listed, held⟩

variable (signed) in
theorem setTestScenario_yields : Yields (setTestScenario files fuel arg opts) fun after =>
    ∃ sc, (surroundings files fuel signed).testScenarioParse arg = some sc ∧ Merged opts sc after := by
  have reads : Yields (failing (fun _ => Stop.exit exitFailure) (ltfTestScenarioParse files fuel arg)) fun sc =>
      outcome (TestScenarios.ltfTestScenarioParse files fuel arg) = .ok (viewParsed sc) := by
    intro book sc later ran
    have shown := (parse_shows fuel arg).failing.yields book sc later ran
    cases parsed : outcome (TestScenarios.ltfTestScenarioParse files fuel arg) with
    | error text =>
      rw [parsed] at shown
      cases shown
    | ok values =>
      rw [parsed] at shown
      exact congrArg Except.ok (Except.ok.inj shown)
  refine reads.bind ?_
  intro sc parsed
  refine (mergeVars_yields sc.vars (opts.vars, []) (List.nil_subset _)).bind ?_
  rintro lists ⟨inside, none⟩
  refine .last fun target => .last fun path => .pure ⟨viewParsed sc, ?_, ?_⟩
  · simp only [surroundings, parsed, Except.toOption]
  · constructor
    · rfl
    · refine none.trans ?_
      simp only [true_and, viewParsed, List.forall_mem_map]
      rfl
    · intro serial held
      simp only [own, List.mem_append]
      rcases List.mem_append.mp held with copied | copied
      · exact .inl (.inl (.inr (serials_subset inside copied)))
      · cases given : tagged opts with
        | false =>
          rw [given] at copied
          cases copied
        | true =>
          rw [given] at copied
          have added : opts.tags.length ≠ 0 := by simpa [tagged] using given
          rw [if_pos added, serials_append]
          exact .inl (.inl (.inl (List.mem_append_right _ copied)))

end Scenario
end Options

section Run
open TestOptions (TestItem)
variable (files : Files) (fuel : Nat) (signed : Bool)

/-- An option whose values are no strings. -/
def setFlags (set : CmdTestOptions → Process CmdTestOptions) (opts : TestOptions) : Acquiring Stop TestOptions := do
  let flags ← attempt (set (viewOptions opts))
  return { opts with
    noLogs := flags.noLogs
    logLevel := flags.logLevel
    logLevelSet := flags.logLevelSet
    skipHooks := flags.skipHooks
    internalLogging := flags.internalLogging
    headless := flags.headless }

def apply (opts : TestOptions) (item : TestItem) : Acquiring Stop TestOptions :=
  match item with
  | .tags arg => setTestTags arg opts
  | .vars arg => setTestVars arg opts
  | .scenario arg => setTestScenario files fuel arg opts
  | .ltfLibPath arg => setTestLtfLibPath arg opts
  | .logLevel arg => setFlags (CmdParser.setLogLevel (surroundings files fuel signed) arg) opts
  | .skipHooks => setFlags CmdParser.setSkipHooks opts
  | .noLogs => setFlags CmdParser.setTestNoLogs opts
  | .internalLog => setFlags CmdParser.setInternalLogging opts
  | .headless => setFlags CmdParser.setTestHeadless opts
  | .help => setFlags CmdParser.getTestHelp opts

/-- A command line with a target, if any, and options, and the end of the process. -/
def wholeRun (target : Option CStr) (items : List TestItem) : Acquiring Stop Unit := do
  let opts ← initTestOptions target
  let opts ← items.foldlM (apply files fuel signed) opts
  cmdParserFreeTestOptions opts

variable {files fuel signed} {opts : TestOptions} {held : List Nat}

theorem setFlags_settles (set : CmdTestOptions → Process CmdTestOptions) :
    Settles (own opts ++ held) (setFlags set opts) (own · ++ held) := by
  have reads : Settles (own opts ++ held) (attempt (set (viewOptions opts))) fun _ => own opts ++ held :=
    .attempt fun _ _ => .refl _
  exact reads.bind fun _ => .pure (.refl _)

/-- Every option but a scenario leaves what the scenario holds alone. -/
theorem apply_settles {item : TestItem} (other : ∀ arg, item ≠ .scenario arg) :
    Settles (own opts ++ held) (apply files fuel signed opts item) (own · ++ held) := by
  cases item with
  | tags arg => exact setTestTags_settles arg opts
  | vars arg => exact setTestVars_settles arg opts
  | ltfLibPath arg => exact setTestLtfLibPath_settles arg opts
  | scenario arg => exact absurd rfl (other arg)
  | _ => exact setFlags_settles _

theorem apply_keeps {item : TestItem} (other : ∀ arg, item ≠ .scenario arg) :
    Yields (apply files fuel signed opts item) fun after => after.scenario = opts.scenario := by
  cases item with
  | tags arg => exact .last fun _ => .last fun _ => .pure rfl
  | vars arg => exact .last fun _ => .last fun _ => .last fun _ => .pure rfl
  | ltfLibPath arg => exact .last fun _ => .last fun _ => .pure rfl
  | scenario arg => exact absurd rfl (other arg)
  | _ => exact .last fun _ => .pure rfl

/-- Reading the options, nobody looks at the variables of the scenario. -/
theorem apply_bare (env : Surroundings) (opts : CmdTestOptions) (item : TestItem) :
    (TestOptions.apply env (bare opts) item).map bare = (TestOptions.apply env opts item).map bare := by
  cases item with
  | vars arg =>
    have each : ∀ opts token, CmdParser.setTestVar (bare opts) token = (CmdParser.setTestVar opts token).map bare := by
      intro opts token
      unfold CmdParser.setTestVar
      cases strchr token 61 with
      | none => rfl
      | some eq =>
        dsimp only
        split <;> rfl
    simp only [TestOptions.apply, CmdParser.setTestVars]
    rw [Steps.foldlM_map each]
    cases (strtok arg.bytes 44).foldlM CmdParser.setTestVar opts <;> rfl
  | logLevel arg =>
    simp only [TestOptions.apply, CmdParser.setLogLevel]
    split <;> rfl
  | scenario arg =>
    simp only [TestOptions.apply, CmdParser.setTestScenario]
    cases env.testScenarioParse arg <;> rfl
  | _ => rfl

/-- The part of the options that `setFlags` carries over. -/
def FlagsOnly (set : CmdTestOptions → Process CmdTestOptions) (opts : CmdTestOptions) : Prop :=
  ∀ after, set opts = .ok after → after = { opts with
    noLogs := after.noLogs
    logLevel := after.logLevel
    logLevelSet := after.logLevelSet
    skipHooks := after.skipHooks
    internalLogging := after.internalLogging
    headless := after.headless }

theorem setFlags_shows (set : CmdTestOptions → Process CmdTestOptions) (flags : FlagsOnly set (viewOptions opts)) :
    Shows (setFlags set opts) viewOptions ((set (viewOptions opts)).map bare) := by
  intro book
  unfold setFlags
  cases ran : set (viewOptions opts) with
  | error stop => rfl
  | ok after =>
    change Except.ok _ = Except.ok (bare after)
    rw [flags after ran]
    rfl

theorem flags_of_set {set : CmdTestOptions → Process CmdTestOptions} {opts after : CmdTestOptions}
    (sets : set opts = .ok after) (flags : after = { opts with
      noLogs := after.noLogs
      logLevel := after.logLevel
      logLevelSet := after.logLevelSet
      skipHooks := after.skipHooks
      internalLogging := after.internalLogging
      headless := after.headless }) : FlagsOnly set opts := by
  intro other ran
  rw [sets] at ran
  cases ran
  exact flags

theorem setLogLevel_flags (env : Surroundings) (arg : CStr) (opts : CmdTestOptions) :
    FlagsOnly (CmdParser.setLogLevel env arg) opts := by
  intro after ran
  simp only [CmdParser.setLogLevel] at ran
  split at ran
  next => cases ran
  next =>
    cases ran
    rfl

theorem apply_shows (item : TestItem) : Shows (apply files fuel signed opts item) viewOptions
    ((TestOptions.apply (surroundings files fuel signed) (viewOptions opts) item).map bare) := by
  cases item with
  | tags arg => exact (setTestTags_shows arg opts).through bare
  | vars arg => exact (setTestVars_shows arg opts).through bare
  | ltfLibPath arg => exact (setTestLtfLibPath_shows arg opts).through bare
  | scenario arg => exact setTestScenario_shows
  | logLevel arg => exact setFlags_shows (CmdParser.setLogLevel _ arg) (setLogLevel_flags _ arg _)
  | skipHooks => exact setFlags_shows CmdParser.setSkipHooks (flags_of_set rfl rfl)
  | noLogs => exact setFlags_shows CmdParser.setTestNoLogs (flags_of_set rfl rfl)
  | internalLog => exact setFlags_shows CmdParser.setInternalLogging (flags_of_set rfl rfl)
  | headless => exact setFlags_shows CmdParser.setTestHeadless (flags_of_set rfl rfl)
  | help =>
    apply setFlags_shows CmdParser.getTestHelp
    intro after ran
    cases ran

/-- The options with their strings go through the same values as those without. -/
theorem run_shows (items : List TestItem) {values : CmdTestOptions} (seen : viewOptions opts = bare values) :
    Shows (items.foldlM (apply files fuel signed) opts) viewOptions
      ((items.foldlM (TestOptions.apply (surroundings files fuel signed)) values).map bare) := by
  have whole : Shows (items.foldlM (apply files fuel signed) opts) viewOptions
      (items.foldlM (fun values item => (TestOptions.apply (surroundings files fuel signed) values item).map bare)
        (viewOptions opts)) := by
    apply Shows.foldlM
    exact fun _ => apply_shows
  rw [seen, Steps.foldlM_map (apply_bare _)] at whole
  exact whole

/-- Each string there has been is in a list of the options, held by their scenario alone, lost,
or freed. Those the scenario shares are not lost. -/
structure Kept (lost : List Nat) (tags : Bool) (opts : TestOptions) (book : Book) : Prop where
  accounted : Accounted (own opts ++ (alone tags opts.scenario ++ lost)) book
  shared : ∀ serial ∈ shared tags opts.scenario, serial < book.next ∧ serial ∉ lost

theorem free_iff {lost : List Nat} {tags : Bool} {book : Book} (kept : Kept lost tags opts book) :
    Accounted [] (cmdParserFreeTestOptions opts book).2 ↔ lost = [] ∧ shared tags opts.scenario = [] := by
  have accounted := kept.accounted
  rw [← List.append_assoc] at accounted
  have freed : (cmdParserFreeTestOptions opts book).2 = book.release (own opts ++ serials opts.scenario) := by
    simp [cmdParserFreeTestOptions, bind_apply, free, Book.release, own, serials_parsed]
  rw [freed]
  apply accounted.freed_iff kept.shared
  rw [List.append_assoc]
  exact (scenario_perm tags opts.scenario).append_left _

variable {lost : List Nat} {tags : Bool} {after : TestOptions} {book later : Book}

theorem Kept.other {item : TestItem} (kept : Kept lost tags opts book) (other : ∀ arg, item ≠ .scenario arg)
    (ran : apply files fuel signed opts item book = (.ok after, later)) : Kept lost tags after later := by
  obtain ⟨grows, accounted⟩ := apply_settles other book kept.accounted after later ran
  have same := apply_keeps other book after later ran
  rw [← same] at accounted
  constructor
  · exact accounted
  · intro serial inside
    rw [same] at inside
    obtain ⟨before, found⟩ := kept.shared serial inside
    exact ⟨Nat.lt_of_lt_of_le before grows, found⟩

/-- The new scenario takes the place of the old one, and what that held alone is lost. -/
theorem Kept.scenario {arg : CStr} (kept : Kept lost tags opts book)
    (ran : setTestScenario files fuel arg opts book = (.ok after, later)) :
    Kept (alone tags opts.scenario ++ lost) (tagged opts) after later := by
  obtain ⟨_, accounted⟩ := setTestScenario_settles book kept.accounted after later ran
  obtain ⟨sc, _, merged⟩ := setTestScenario_yields true book after later ran
  constructor
  · exact accounted
  · intro serial inside
    have held := merged.shared serial inside
    have known : serial ∈ own after ++ (alone (tagged opts) after.scenario ++ (alone tags opts.scenario ++ lost)) ++
        later.released := by
      simp [held]
    constructor
    · exact accounted.mem_iff.mp known
    · intro gone
      have apart := (List.nodup_append.mp (List.nodup_append.mp accounted.distinct).1).2.2
      exact apart serial held serial (List.mem_append_right _ gone) rfl

/-- Nothing is lost when another scenario takes the place of this one. -/
structure HandedOver (values : CmdTestOptions) (sc : TestScenarioParsed) : Prop where
  target : sc.target = none
  ltfLibPath : sc.ltfLibPath = none
  order : sc.order = []
  tags : values.tags = [] → sc.tags = []

/-- The options get no pointer of the scenario. -/
structure Apart (values : CmdTestOptions) (sc : TestScenarioParsed) : Prop where
  vars : ∀ var ∈ sc.vars, var.1 ∈ values.vars.map Prod.fst
  tags : values.tags ≠ [] → sc.tags = []

/-- Something is asked of a scenario with another one behind it, and something else of the last. -/
def Asked (rest : List TestItem) (followed last : Prop) : Prop :=
  ((∃ arg, .scenario arg ∈ rest) → followed) ∧ ((∀ arg, .scenario arg ∉ rest) → last)

def FineScenarios (env : Surroundings) (values : CmdTestOptions) (items : List TestItem) : Prop :=
  ∀ before arg rest middle sc, items = before ++ .scenario arg :: rest →
    before.foldlM (TestOptions.apply env) values = .ok middle → env.testScenarioParse arg = some sc →
    Asked rest (HandedOver middle sc) (Apart middle sc)

section Conditions
variable {followed last : Prop} {rest : List TestItem} {item : TestItem}

theorem asked_nil : Asked [] followed last ↔ last := by
  simp [Asked]

theorem asked_scenario {arg : CStr} : Asked (.scenario arg :: rest) followed last ↔ followed := by
  have inside : ∃ other, TestItem.scenario other ∈ TestItem.scenario arg :: rest := ⟨arg, List.mem_cons_self⟩
  constructor
  · exact fun asked => asked.1 inside
  · exact fun holds => ⟨fun _ => holds, fun none => absurd inside (not_exists.mpr none)⟩

theorem asked_other (other : ∀ arg, item ≠ .scenario arg) :
    Asked (item :: rest) followed last ↔ Asked rest followed last := by
  have same : ∀ arg, TestItem.scenario arg ∈ item :: rest ↔ TestItem.scenario arg ∈ rest := by
    intro arg
    rw [List.mem_cons]
    exact or_iff_right fun equal => other arg equal.symm
  simp only [Asked, same]

theorem fineScenarios_cons {env : Surroundings} {values next : CmdTestOptions}
    (applied : TestOptions.apply env values item = .ok next) :
    FineScenarios env values (item :: rest) ↔
      (∀ arg sc, item = .scenario arg → env.testScenarioParse arg = some sc →
        Asked rest (HandedOver values sc) (Apart values sc)) ∧ FineScenarios env next rest := by
  constructor
  · intro fine
    constructor
    · rintro arg sc rfl parsed
      exact fine [] arg rest values sc rfl rfl parsed
    · intro before arg more middle sc split ran parsed
      refine fine (item :: before) arg more middle sc (by rw [split, List.cons_append]) ?_ parsed
      rw [List.foldlM_cons, Steps.bind_of_ok applied]
      exact ran
  · rintro ⟨first, others⟩ before arg more middle sc split ran parsed
    cases before with
    | nil =>
      cases ran
      obtain ⟨rfl, rfl⟩ := List.cons.inj split
      exact first arg sc rfl parsed
    | cons head before =>
      obtain ⟨rfl, behind⟩ := List.cons.inj split
      rw [List.foldlM_cons, Steps.bind_of_ok applied] at ran
      exact others before arg more middle sc behind ran parsed

theorem serials_strs_nil {strs : List Str} : serials strs = [] ↔ strs = [] := by
  cases strs <;> simp

theorem serials_pairs_nil {pairs : List Pair} : serials pairs = [] ↔ pairs = [] := by
  cases pairs <;> simp

theorem serials_str_nil {str : Option Str} : serials str = [] ↔ str = none := by
  cases str <;> simp

variable {values : CmdTestOptions} {sc : TestScenarioParsed}

theorem tagged_iff (seen : viewOptions opts = bare values) : tagged opts = true ↔ values.tags ≠ [] := by
  have texts : opts.tags.map (·.value) = values.tags := congrArg CmdTestOptions.tags seen
  rw [← texts]
  simp [tagged]

theorem alone_iff (seen : viewOptions opts = bare values) (merged : Merged opts sc after) :
    alone (tagged opts) after.scenario = [] ↔ HandedOver values sc := by
  have target : after.scenario.target.map (·.value) = sc.target := congrArg TestScenarioParsed.target merged.texts
  have libPath : after.scenario.ltfLibPath.map (·.value) = sc.ltfLibPath :=
    congrArg TestScenarioParsed.ltfLibPath merged.texts
  have order : after.scenario.order.map (·.value) = sc.order := congrArg TestScenarioParsed.order merged.texts
  have tags : after.scenario.tags.map (·.value) = sc.tags := congrArg TestScenarioParsed.tags merged.texts
  have dropped : (if tagged opts then [] else serials after.scenario.tags) = [] ↔ (values.tags = [] → sc.tags = []) := by
    rw [← tags, List.map_eq_nil_iff, ← serials_strs_nil]
    by_cases given : values.tags = []
    · have untagged : ¬ tagged opts = true := fun found => (tagged_iff seen).mp found given
      simp [untagged, given]
    · simp [(tagged_iff seen).mpr given, given]
  simp only [alone, List.append_eq_nil_iff, serials_str_nil, serials_strs_nil, dropped]
  constructor
  · rintro ⟨⟨⟨noTarget, noPath⟩, noOrder⟩, noTags⟩
    exact ⟨by rw [← target, noTarget]; rfl, by rw [← libPath, noPath]; rfl, by rw [← order, noOrder]; rfl, noTags⟩
  · intro handed
    have noTarget := target.trans handed.target
    have noPath := libPath.trans handed.ltfLibPath
    have noOrder := order.trans handed.order
    exact ⟨⟨⟨by simpa using noTarget, by simpa using noPath⟩, by simpa using noOrder⟩, handed.tags⟩

theorem shared_iff (seen : viewOptions opts = bare values) (merged : Merged opts sc after) :
    shared (tagged opts) after.scenario = [] ↔ Apart values sc := by
  have tags : after.scenario.tags.map (·.value) = sc.tags := congrArg TestScenarioParsed.tags merged.texts
  have keys : opts.vars.map (·.1.value) = values.vars.map Prod.fst := by
    have texts : opts.vars.map viewPair = values.vars := congrArg CmdTestOptions.vars seen
    rw [← texts, List.map_map]
    rfl
  have copied : (if tagged opts then serials after.scenario.tags else []) = [] ↔
      (values.tags ≠ [] → sc.tags = []) := by
    rw [← tags, List.map_eq_nil_iff, ← serials_strs_nil, ← tagged_iff seen]
    cases tagged opts <;> simp
  simp only [shared, List.append_eq_nil_iff, serials_pairs_nil, merged.vars, keys, copied]
  exact ⟨fun holds => ⟨holds.1, holds.2⟩, fun apart => ⟨apart.vars, apart.tags⟩⟩

/-- What the same option does to the values alone. -/
theorem apply_values (seen : viewOptions opts = bare values)
    (ran : apply files fuel signed opts item book = (.ok after, later)) :
    ∃ next, TestOptions.apply (surroundings files fuel signed) values item = .ok next ∧
      viewOptions after = bare next := by
  have shown := (apply_shows item).yields book after later ran
  rw [seen, apply_bare] at shown
  cases applied : TestOptions.apply (surroundings files fuel signed) values item with
  | error stop =>
    rw [applied] at shown
    cases shown
  | ok next =>
    rw [applied] at shown
    exact ⟨next, rfl, (Except.ok.inj shown).symm⟩

theorem run_freed_iff {items : List TestItem} {last : TestOptions} {final : Book} (kept : Kept lost tags opts book)
    (seen : viewOptions opts = bare values)
    (ran : items.foldlM (apply files fuel signed) opts book = (.ok last, final)) :
    Accounted [] (cmdParserFreeTestOptions last final).2 ↔
      lost = [] ∧ Asked items (alone tags opts.scenario = []) (shared tags opts.scenario = []) ∧
        FineScenarios (surroundings files fuel signed) values items := by
  induction items generalizing opts book values lost tags with
  | nil =>
    cases ran
    rw [free_iff kept, asked_nil]
    have nothing : FineScenarios (surroundings files fuel signed) values [] := by
      intro before arg rest middle sc split
      simp at split
    simp only [nothing, and_true]
  | cons item items ih =>
    rw [List.foldlM_cons] at ran
    obtain ⟨next, middle, first, rest⟩ := bind_ok ran
    obtain ⟨nextValues, applied, same⟩ := apply_values seen first
    rw [fineScenarios_cons applied]
    by_cases scenario : ∃ arg, item = .scenario arg
    · obtain ⟨arg, rfl⟩ := scenario
      obtain ⟨sc, parsed, merged⟩ := setTestScenario_yields signed book next middle first
      have asked : (∀ other sc, TestItem.scenario arg = .scenario other →
          (surroundings files fuel signed).testScenarioParse other = some sc →
            Asked items (HandedOver values sc) (Apart values sc)) ↔
          Asked items (HandedOver values sc) (Apart values sc) := by
        constructor
        · exact fun all => all arg sc rfl parsed
        · intro here path other equal found
          cases equal
          cases parsed.symm.trans found
          exact here
      rw [ih (kept.scenario first) same rest, asked_scenario, alone_iff seen merged, shared_iff seen merged, asked,
        List.append_eq_nil_iff]
      exact ⟨fun holds => ⟨holds.1.2, holds.1.1, holds.2⟩, fun holds => ⟨⟨holds.2.1, holds.1⟩, holds.2.2⟩⟩
    · have other : ∀ arg, item ≠ .scenario arg := fun arg equal => scenario ⟨arg, equal⟩
      rw [ih (kept.other other first) same rest, asked_other other, apply_keeps other book next middle first]
      have unasked : ∀ arg sc, item = .scenario arg →
          (surroundings files fuel signed).testScenarioParse arg = some sc →
            Asked items (HandedOver values sc) (Apart values sc) := fun arg _ equal => absurd equal (other arg)
      rw [and_iff_right unasked]

end Conditions

theorem kept_start {target : Option CStr} {start : TestOptions} {begun : Book}
    (ran : initTestOptions target {} = (.ok start, begun)) :
    Kept [] false start begun ∧ viewOptions start = bare { target } ∧ start.scenario = { logLevel := some .critical } := by
  cases target with
  | none =>
    cases ran
    exact ⟨⟨.start, nofun⟩, rfl, rfl⟩
  | some word =>
    cases ran
    exact ⟨⟨Accounted.start.acquire, nofun⟩, rfl, rfl⟩

variable (files fuel signed)

/-- Whenever the process comes to free the options, each string there has been is freed once. -/
def FreedOnce (target : Option CStr) (items : List TestItem) : Prop :=
  ∀ later, wholeRun files fuel signed target items {} = (.ok (), later) → Accounted [] later

/-- The strings are freed once each exactly when every scenario but the last leaves nothing
behind and the last one shares nothing. -/
theorem freed_once_iff (target : Option CStr) (items : List TestItem) :
    FreedOnce files fuel signed target items ↔
      ∀ values, items.foldlM (TestOptions.apply (surroundings files fuel signed)) { target } = .ok values →
        FineScenarios (surroundings files fuel signed) { target } items := by
  obtain ⟨start, begun, starts⟩ : ∃ start begun, initTestOptions target {} = (.ok start, begun) := by
    cases target <;> exact ⟨_, _, rfl⟩
  obtain ⟨kept, seen, scenario⟩ := kept_start starts
  have asked : Asked items (alone false start.scenario = []) (shared false start.scenario = []) := by
    rw [scenario]
    exact ⟨fun _ => rfl, fun _ => rfl⟩
  have shown : Shows (items.foldlM (apply files fuel signed) start) viewOptions
      ((items.foldlM (TestOptions.apply (surroundings files fuel signed)) { target }).map bare) :=
    run_shows items seen
  constructor
  · intro once values applied
    have result := shown begun
    rw [applied] at result
    cases ran : items.foldlM (apply files fuel signed) start begun with
    | mk outcome final =>
      rw [ran] at result
      cases outcome with
      | error stop => cases result
      | ok last =>
        have whole : wholeRun files fuel signed target items {} = cmdParserFreeTestOptions last final := by
          rw [wholeRun, bind_of_ok starts, bind_of_ok ran]
        exact ((run_freed_iff kept seen ran).mp (once _ whole)).2.2
  · intro fine later ran
    obtain ⟨first, middle, startsToo, rest⟩ := bind_ok ran
    cases starts.symm.trans startsToo
    obtain ⟨last, final, ran, ends⟩ := bind_ok rest
    have freed : (cmdParserFreeTestOptions last final).2 = later := congrArg Prod.snd ends
    have values := shown.yields begun last final ran
    cases applied : items.foldlM (TestOptions.apply (surroundings files fuel signed)) { target } with
    | error stop =>
      rw [applied] at values
      cases values
    | ok values =>
      rw [← freed]
      exact (run_freed_iff kept seen ran).mpr ⟨rfl, asked, fine values applied⟩

end Run

/-- A scenario with one variable. -/
def portFiles : Files where
  contents := [(.lit "nightly.json", some (.object [(.lit "cmd", .object [(.lit "vars", .object
    [(.lit "port", newString (.lit "80"))])])]))]
  lastErr := .lit ""

/-- Its name and its value are in both lists. -/
theorem variable_freed_twice : ¬ FreedOnce portFiles 1 false none [.scenario (.lit "nightly.json")] := by
  intro once
  have freed := once _ rfl
  exact absurd freed.total (by decide)

end Ltf.Proofs.OptionStrings
