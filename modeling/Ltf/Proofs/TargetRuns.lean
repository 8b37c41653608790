import Ltf.Target

/-! Sequences of `ltf target` commands on one project file: what each of them does to the
list of targets, and when one of them uses a pointer that was never set. -/

namespace Ltf.Proofs.TargetRuns
open CString JsonC

/-- The fields of a project that the commands only carry over. -/
structure Header where
  name : CStr
  version : CStr
  major : Int
  minor : Int
  patch : Int

/-- The record that parsing leaves: the pointer to the targets is set only if there are any. -/
def loaded (header : Header) (path : CStr) (multitarget : Bool) (names : List CStr) : ProjectParsed where
  projectName := some header.name
  minLtfVerStr := some header.version
  minLtfVerMajor := some header.major
  minLtfVerMinor := some header.minor
  minLtfVerPatch := some header.patch
  projectPath := some path
  multitarget := some multitarget
  targets := if names.length = 0 then none else some names
  targetsAmount := some names.length

/-- The tree that is saved for a project. -/
def savedJson (header : Header) (multitarget : Bool) (names : List CStr) : Json :=
  let obj := add [] (.lit "project_name") (newString header.name)
  let obj := add obj (.lit "min_ltf_version") (newString header.version)
  let obj := add obj (.lit "min_ltf_version_major") (.int header.major)
  let obj := add obj (.lit "min_ltf_version_minor") (.int header.minor)
  let obj := add obj (.lit "min_ltf_version_patch") (.int header.patch)
  let obj := add obj (.lit "multitarget") (.boolean multitarget)
  if multitarget then .object (add obj (.lit "targets") (.array (names.map newString))) else .object obj

def isMultitarget (file : Json) : Bool := (jsonGetBool file (.lit "multitarget")).getD false

/-- The target list of a project file, empty for a single-target project. -/
def targetNames (lib : Coercions) (file : Json) : List CStr :=
  match isMultitarget file, get file (.lit "targets") with
  | true, some (.array items) => (items.filterMap (getString lib)).map .ofBytes
  | _, _ => []

/-- The file is accepted as this project. -/
def Parses (lib : Coercions) (path : CStr) (file : Json) (header : Header) : Prop :=
  projectParserParse lib path file = .ok (some (loaded header path (isMultitarget file) (targetNames lib file)))

def Accepted (lib : Coercions) (path : CStr) (file : Json) : Prop :=
  ∃ proj, projectParserParse lib path file = .ok (some proj)

variable {lib : Coercions} {path : CStr} {file : Json}

theorem mapM_targets {items : List Json} {names : List CStr} (copied : items.mapM (projectTarget lib) = .ok names) :
    names = (items.filterMap (getString lib)).map .ofBytes := by
  induction items generalizing names with
  | nil =>
    cases copied
    rfl
  | cons item items ih =>
    rw [List.mapM_cons, Steps.bind_ok] at copied
    obtain ⟨name, first, copied⟩ := copied
    rw [Steps.bind_ok] at copied
    obtain ⟨rest, others, same⟩ := copied
    cases same
    cases text : getString lib item with
    | none => simp [projectTarget, text] at first
    | some bytes =>
      simp only [projectTarget, text, Except.ok.injEq] at first
      rw [List.filterMap_cons_some text, List.map_cons, ← ih others, first]

theorem header_parsed {proj : ProjectParsed} {multitarget : Bool}
    (found : projectParseHeader lib file { projectPath := some path } = some (proj, multitarget)) :
    ∃ header : Header, jsonGetBool file (.lit "multitarget") = some multitarget ∧
      proj = { loaded header path multitarget [] with targetsAmount := none } := by
  simp only [projectParseHeader, Option.bind_eq_bind, Option.bind_eq_some_iff] at found
  obtain ⟨name, _, version, _, major, _, minor, _, patch, _, multi, flag, same⟩ := found
  cases same
  exact ⟨⟨name, version, major, minor, patch⟩, flag, rfl⟩

def arrayNames (lib : Coercions) (items : List Json) : List CStr := (items.filterMap (getString lib)).map .ofBytes

theorem targets_parsed {proj parsed : ProjectParsed} (found : projectParseTargets lib file proj = .ok (some parsed)) :
    ∃ items, get file (.lit "targets") = some (.array items) ∧ parsed = { proj with
      targets := if (arrayNames lib items).length = 0 then proj.targets else some (arrayNames lib items)
      targetsAmount := some (arrayNames lib items).length } := by
  rw [projectParseTargets] at found
  split at found
  next items array =>
    rw [Steps.bind_ok] at found
    obtain ⟨names, copied, same⟩ := found
    cases same
    exact ⟨items, array, by rw [mapM_targets copied, arrayNames]⟩
  next => cases found

theorem Accepted.parses (accepted : Accepted lib path file) : ∃ header, Parses lib path file header := by
  obtain ⟨proj, parsed⟩ := accepted
  have whole := parsed
  unfold projectParserParse projectParseJson at parsed
  split at parsed
  next fields =>
    split at parsed
    next => cases parsed
    next first found =>
      obtain ⟨header, flag, rfl⟩ := header_parsed found
      obtain ⟨items, array, rfl⟩ := targets_parsed parsed
      refine ⟨header, whole.trans ?_⟩
      simp [isMultitarget, targetNames, flag, array, loaded, arrayNames]
    next first found =>
      obtain ⟨header, flag, rfl⟩ := header_parsed found
      cases parsed
      refine ⟨header, whole.trans ?_⟩
      simp [isMultitarget, targetNames, flag, loaded]
  next => cases parsed

theorem mapM_ok {ε α β : Type} {body : α → Except ε β} {value : α → β} {items : List α}
    (each : ∀ item ∈ items, body item = .ok (value item)) : items.mapM body = .ok (items.map value) := by
  induction items with
  | nil => rfl
  | cons item items ih =>
    have rest := ih fun other inside => each other (by simp [inside])
    rw [List.mapM_cons, Steps.bind_of_ok (each item (by simp)), Steps.bind_of_ok rest]
    rfl

/-- Without targets the loops do not care about the pointer. -/
theorem readTargets_eq {proj : ProjectParsed} {names : List CStr} (amount : proj.targetsAmount = some names.length)
    (set : proj.targets = some names ∨ names = []) : readTargets proj = .ok names := by
  have value : ∀ i ∈ List.range names.length, readTarget proj i = .ok (names.getD i (.lit "")) := by
    intro i inside
    rw [List.mem_range] at inside
    obtain set | rfl := set
    · have slot : names[i]? = some (names.getD i (.lit "")) := by simp [inside]
      rw [readTarget, set, readField, Steps.bind_of_ok rfl, slot]
      rfl
    · simp at inside
  have all : (List.range names.length).map (fun i => names.getD i (.lit "")) = names := by
    apply List.ext_getElem
    · simp
    · intro i _ inside
      simp [inside]
  rw [readTargets, amount, readField, Steps.bind_of_ok rfl, mapM_ok value, all]

theorem save_eq (header : Header) (path : CStr) (multitarget : Bool) {names : List CStr} {targets : Option (List CStr)}
    (set : targets = some names ∨ names = []) :
    projectParserSave { loaded header path multitarget names with targets } =
      .ok (savedJson header multitarget names) := by
  have listed : readTargets { loaded header path multitarget names with targets } = .ok names :=
    readTargets_eq rfl set
  cases multitarget with
  | false => rfl
  | true =>
    simp only [projectParserSave, listed]
    rfl

theorem saved_get (header : Header) (multitarget : Bool) (names : List CStr) :
    jsonGetString (savedJson header multitarget names) (.lit "project_name") = some header.name ∧
    jsonGetString (savedJson header multitarget names) (.lit "min_ltf_version") = some header.version ∧
    jsonGetInt lib (savedJson header multitarget names) (.lit "min_ltf_version_major") =
      some (getInt lib (.int header.major)) ∧
    jsonGetInt lib (savedJson header multitarget names) (.lit "min_ltf_version_minor") =
      some (getInt lib (.int header.minor)) ∧
    jsonGetInt lib (savedJson header multitarget names) (.lit "min_ltf_version_patch") =
      some (getInt lib (.int header.patch)) ∧
    jsonGetBool (savedJson header multitarget names) (.lit "multitarget") = some multitarget ∧
    get (savedJson header multitarget names) (.lit "targets") =
      (if multitarget then some (.array (names.map newString)) else none) := by
  cases multitarget <;> simp +decide [savedJson, jsonGetString, jsonGetInt, jsonGetBool, newString]

theorem saved_targets (header : Header) (multitarget : Bool) (names : List CStr) :
    targetNames lib (savedJson header multitarget names) = if multitarget then names else [] := by
  obtain ⟨_, _, _, _, _, flag, array⟩ := @saved_get lib header multitarget names
  have texts : (names.map newString).filterMap (getString lib) = names.map (·.bytes) := by
    rw [List.filterMap_map]
    exact congrFun (@List.filterMap_eq_map _ _ CStr.bytes) names
  cases multitarget with
  | false => simp [targetNames, isMultitarget, flag]
  | true => simp [targetNames, isMultitarget, flag, array, texts, Function.comp_def]

theorem saved_accepted (header : Header) (multitarget : Bool) (names : List CStr) :
    Accepted lib path (savedJson header multitarget names) := by
  obtain ⟨name, version, major, minor, patch, flag, array⟩ := @saved_get lib header multitarget names
  have copied : (names.map newString).mapM (projectTarget lib) = .ok (names.map id) := by
    rw [List.mapM_map]
    apply mapM_ok
    intro text _
    simp [projectTarget, newString, getString]
  have object : ∃ fields, savedJson header multitarget names = .object fields := by
    cases multitarget <;> exact ⟨_, rfl⟩
  obtain ⟨fields, object⟩ := object
  simp only [object] at name version major minor patch flag array
  rw [object]
  unfold Accepted projectParserParse projectParseJson projectParseHeader
  cases multitarget with
  | false => simp [name, version, major, minor, patch, flag, pure, Except.pure]
  | true => simp [name, version, major, minor, patch, flag, projectParseTargets, array, copied, pure, Except.pure, bind,
      Except.bind]

/-- What a command leaves of the targets: one more at the end, one less, or the file as it was. -/
structure TargetKept (lib : Coercions) (file : Json) (command : TargetCommand) (ended : TargetResult × Json) : Prop where
  added : ∀ made, ended.1 = .added made → command.target ∉ targetNames lib file ∧
    targetNames lib ended.2 = targetNames lib file ++ [command.target]
  removed : ended.1 = .removed → command.target ∈ targetNames lib file ∧
    targetNames lib ended.2 = (targetNames lib file).erase command.target
  aborted : ended.1 = .aborted → ended.2 = file
  failed : ended.1.exitCode ≠ 0 → ended.1 ≠ .added false → ended.2 = file
  distinct : (targetNames lib file).Nodup → (targetNames lib ended.2).Nodup

/-- The command is about to give the project its first target. -/
def AppendsFirst (lib : Coercions) (file : Json) : TargetCommand → Prop
  | .add _ input commonMade _ => targetNames lib file = [] ∧
    (isMultitarget file = true ∨ askConvert false input = some true ∧ commonMade = true)
  | .remove .. => False

/-- A command that runs to its end, unless it waits for an answer for ever. -/
def RunsWell (lib : Coercions) (path : CStr) (file : Json) (command : TargetCommand) : Prop :=
  Steps.Sound (TargetKept lib file command) (· = .endless) (targetRun lib path file command)

theorem untouched {command : TargetCommand} {result : TargetResult} (other : ∀ made, result ≠ .added made)
    (stays : result ≠ .removed) : TargetKept lib file command (result, file) := by
  refine ⟨?_, ?_, fun _ => rfl, fun _ _ => rfl, id⟩
  · intro made same
    exact absurd same (other made)
  · intro same
    exact absurd same stays

theorem loaded_targets (header : Header) (path : CStr) (multitarget : Bool) (names : List CStr) :
    (loaded header path multitarget names).targets = some names ∨ names = [] := by
  cases names with
  | nil => exact .inr rfl
  | cons name names => exact .inl rfl

theorem append_first (target : CStr) (header : Header) (path : CStr) (multitarget : Bool) :
    appendTarget target (loaded header path multitarget []) = .error .uninitialised := rfl

theorem append_more (target : CStr) (header : Header) (path : CStr) (multitarget : Bool) {names : List CStr}
    (some_there : names ≠ []) : appendTarget target (loaded header path multitarget names) =
      .ok (loaded header path multitarget (names ++ [target])) := by
  cases names with
  | nil => exact absurd rfl some_there
  | cons name names => simp [appendTarget, loaded, readField, bind, Except.bind, pure, Except.pure]

theorem single_empty (single : isMultitarget file = false) : targetNames lib file = [] := by
  simp [targetNames, single]

/-- The end of an add in a multi-target project. -/
theorem add_multitarget {header : Header} (parses : Parses lib path file header) (multi : isMultitarget file = true)
    (target : CStr) (input : List UInt8) (commonMade targetMade : Bool) :
    ltfTargetAdd lib path target input commonMade targetMade file =
      if target ∈ targetNames lib file then .ok (.targetExists, file)
      else if (targetNames lib file).length = 0 then .error .uninitialised
      else .ok (.added targetMade, savedJson header true (targetNames lib file ++ [target])) := by
  rw [Parses, multi] at parses
  have listed := @readTargets_eq (loaded header path true (targetNames lib file)) _ rfl (loaded_targets header path true _)
  have kept : convertProject input commonMade (loaded header path true (targetNames lib file)) =
      .ok (.inr (loaded header path true (targetNames lib file))) := rfl
  rw [ltfTargetAdd, Steps.bind_of_ok parses]
  simp only
  rw [Steps.bind_of_ok kept]
  simp only
  rw [Steps.bind_of_ok listed]
  split
  next => rfl
  next fresh =>
    split
    next empty =>
      rw [List.length_eq_zero_iff.mp empty, append_first]
      rfl
    next more =>
      have some_there : targetNames lib file ≠ [] := by
        intro none_there
        exact more (by rw [none_there]; rfl)
      have saved := save_eq header path true (loaded_targets header path true (targetNames lib file ++ [target]))
      rw [Steps.bind_of_ok (append_more target header path true some_there)]
      exact Steps.bind_of_ok saved

/-- The end of an add in a single-target project. -/
theorem add_single {header : Header} (parses : Parses lib path file header) (single : isMultitarget file = false)
    (target : CStr) (input : List UInt8) (commonMade targetMade : Bool) :
    ltfTargetAdd lib path target input commonMade targetMade file =
      match askConvert false input with
      | none => .error .endless
      | some false => .ok (.aborted, file)
      | some true => if commonMade then .error .uninitialised else .ok (.notConverted, file) := by
  rw [Parses, single, single_empty single] at parses
  rw [ltfTargetAdd, Steps.bind_of_ok parses]
  cases answer : askConvert false input with
  | none => simp [convertProject, answer, loaded, readField, bind, Except.bind]
  | some yes =>
    cases yes with
    | false => simp [convertProject, answer, loaded, readField, bind, Except.bind, pure, Except.pure]
    | true =>
      cases commonMade with
      | false => simp [convertProject, answer, loaded, readField, bind, Except.bind, pure, Except.pure]
      | true => simp [convertProject, answer, loaded, readField, bind, Except.bind, pure, Except.pure, readTargets,
          appendTarget]

/-- The tree that is left when a target goes: after the last one the answer decides on the kind of project. -/
def removedJson (header : Header) (input : List UInt8) (left : List CStr) : Managed (TargetResult × Json) :=
  if left.length = 0 then
    match askConvert false input with
    | none => .error .endless
    | some yes => .ok (.removed, savedJson header (!yes) left)
  else .ok (.removed, savedJson header true left)

theorem convertBack_eq (header : Header) (path : CStr) (input : List UInt8) (left : List CStr) :
    convertBack input { loaded header path true left with targets := some left } =
      if left.length = 0 then
        match askConvert false input with
        | none => .error .endless
        | some yes => .ok { loaded header path (!yes) left with targets := some left }
      else .ok { loaded header path true left with targets := some left } := by
  simp only [convertBack, loaded, readField, bind, Except.bind, pure, Except.pure]
  split
  next =>
    cases askConvert false input with
    | none => rfl
    | some yes => cases yes <;> rfl
  next => rfl

theorem remove_multitarget {header : Header} (parses : Parses lib path file header)
    (multi : isMultitarget file = true) (target : CStr) (input : List UInt8) :
    ltfTargetRemove lib path target input file =
      if target ∈ targetNames lib file then removedJson header input ((targetNames lib file).erase target)
      else .ok (.notFound, file) := by
  rw [Parses, multi] at parses
  have listed := @readTargets_eq (loaded header path true (targetNames lib file)) _ rfl (loaded_targets header path true _)
  rw [ltfTargetRemove, Steps.bind_of_ok parses]
  simp only
  rw [loaded, readField, Steps.bind_of_ok rfl, if_pos rfl, ← loaded, Steps.bind_of_ok listed]
  split
  next inside =>
    let left := (targetNames lib file).erase target
    have record : ({ loaded header path true (targetNames lib file) with
        targets := some left, targetsAmount := some ((targetNames lib file).length - 1) } : ProjectParsed) =
        { loaded header path true left with targets := some left } := by
      simp [loaded, left, List.length_erase_of_mem inside]
    have saved (multitarget : Bool) := save_eq header path multitarget (.inl (Eq.refl (some left)))
    show convertBack input _ >>= _ = removedJson header input left
    rw [record, convertBack_eq, removedJson]
    split
    next =>
      cases askConvert false input with
      | none => rfl
      | some yes => exact Steps.bind_of_ok (saved (!yes))
    next => exact Steps.bind_of_ok (saved true)
  next => rfl

theorem remove_single {header : Header} (parses : Parses lib path file header) (single : isMultitarget file = false)
    (target : CStr) (input : List UInt8) :
    ltfTargetRemove lib path target input file = .ok (.notMultitarget, file) := by
  rw [Parses, single] at parses
  rw [ltfTargetRemove, Steps.bind_of_ok parses]
  rfl

theorem added_kept {header : Header} {target : CStr} {input : List UInt8} {commonMade targetMade : Bool}
    (fresh : target ∉ targetNames lib file) :
    TargetKept lib file (.add target input commonMade targetMade)
      (.added targetMade, savedJson header true (targetNames lib file ++ [target])) := by
  have saved : targetNames lib (savedJson header true (targetNames lib file ++ [target])) =
      targetNames lib file ++ [target] := saved_targets header true _
  refine ⟨fun _ _ => ⟨fresh, saved⟩, by simp, by simp, ?_, ?_⟩
  · intro fails other
    cases targetMade with
    | false => exact absurd rfl other
    | true => exact absurd rfl fails
  · intro distinct
    rw [saved, ← List.concat_eq_append]
    exact distinct.concat fresh

theorem removed_kept {header : Header} {target : CStr} {input : List UInt8} {multitarget : Bool}
    (inside : target ∈ targetNames lib file) (plain : multitarget = false → (targetNames lib file).erase target = []) :
    TargetKept lib file (.remove target input)
      (.removed, savedJson header multitarget ((targetNames lib file).erase target)) := by
  have saved : targetNames lib (savedJson header multitarget ((targetNames lib file).erase target)) =
      (targetNames lib file).erase target := by
    rw [saved_targets]
    cases multitarget with
    | false => rw [plain rfl]; rfl
    | true => rfl
  refine ⟨by simp, fun _ => ⟨inside, saved⟩, by simp, fun fails => absurd rfl fails, ?_⟩
  intro distinct
  rw [saved]
  exact distinct.erase target

/-- A command goes wrong exactly when it gives the project its first target. The file it
leaves is accepted again. -/
theorem command_ends (accepted : Accepted lib path file) (command : TargetCommand) :
    AppendsFirst lib file command ∧ targetRun lib path file command = .error .uninitialised ∨
    ¬ AppendsFirst lib file command ∧
      Steps.Sound (fun ended => Accepted lib path ended.2 ∧ TargetKept lib file command ended) (· = .endless)
        (targetRun lib path file command) := by
  obtain ⟨header, parses⟩ := accepted.parses
  cases command with
  | add target input commonMade targetMade =>
    simp only [targetRun, AppendsFirst]
    cases multi : isMultitarget file with
    | true =>
      rw [add_multitarget parses multi]
      split
      next inside =>
        right
        refine ⟨?_, accepted, untouched (by simp) (by simp)⟩
        intro first
        rw [first.1] at inside
        cases inside
      next fresh =>
        split
        next empty => exact .inl ⟨⟨List.length_eq_zero_iff.mp empty, .inl rfl⟩, rfl⟩
        next more =>
          right
          refine ⟨?_, saved_accepted header true _, added_kept fresh⟩
          intro first
          exact more (by rw [first.1]; rfl)
    | false =>
      have empty := @single_empty lib file multi
      rw [add_single parses multi]
      cases answer : askConvert false input with
      | none => exact .inr ⟨by simp, rfl⟩
      | some yes =>
        cases yes with
        | false => exact .inr ⟨by simp, accepted, untouched (by simp) (by simp)⟩
        | true =>
          cases commonMade with
          | false => exact .inr ⟨by simp, accepted, untouched (by simp) (by simp)⟩
          | true => exact .inl ⟨⟨empty, .inr ⟨rfl, rfl⟩⟩, rfl⟩
  | remove target input =>
    right
    refine ⟨id, ?_⟩
    rw [targetRun]
    cases multi : isMultitarget file with
    | false =>
      rw [remove_single parses multi]
      exact ⟨accepted, untouched (by simp) (by simp)⟩
    | true =>
      rw [remove_multitarget parses multi]
      split
      next inside =>
        rw [removedJson]
        split
        next last =>
          cases askConvert false input with
          | none => rfl
          | some yes =>
            exact ⟨saved_accepted header _ _, removed_kept inside fun _ => List.length_eq_zero_iff.mp last⟩
        next => exact ⟨saved_accepted header true _, removed_kept inside (by simp)⟩
      next => exact ⟨accepted, untouched (by simp) (by simp)⟩

theorem command_iff (accepted : Accepted lib path file) (command : TargetCommand) :
    RunsWell lib path file command ↔ ¬ AppendsFirst lib file command := by
  obtain ⟨first, fault⟩ | ⟨later, sound⟩ := command_ends accepted command
  · refine iff_of_false ?_ (not_not_intro first)
    intro well
    rw [RunsWell, fault] at well
    cases well
  · exact iff_of_true (sound.imp fun _ kept => kept.2) later

theorem step_accepted {command : TargetCommand} {after : Json} (accepted : Accepted lib path file)
    (ran : targetStep lib path file command = .ok after) : Accepted lib path after := by
  rw [targetStep, Steps.bind_ok] at ran
  obtain ⟨ended, run, same⟩ := ran
  cases same
  obtain ⟨_, fault⟩ | ⟨_, sound⟩ := command_ends accepted command
  · rw [fault] at run
    cases run
  · exact (sound.of_ok run).1

theorem runs_accepted {commands : List TargetCommand} {after : Json} (accepted : Accepted lib path file)
    (ran : targetRuns lib path commands file = .ok after) : Accepted lib path after := by
  induction commands generalizing file with
  | nil =>
    cases ran
    exact accepted
  | cons command commands ih =>
    rw [targetRuns, List.foldlM_cons, Steps.bind_ok] at ran
    obtain ⟨middle, first, rest⟩ := ran
    exact ih (step_accepted accepted first) rest

/-- In any sequence of commands on one project file, each works as it should exactly when
none of them gives the project its first target. -/
theorem target_runs_iff (lib : Coercions) (path : CStr) (file : Json) (accepted : Accepted lib path file)
    (commands : List TargetCommand) :
    (∀ before command rest middle, commands = before ++ command :: rest →
      targetRuns lib path before file = .ok middle → RunsWell lib path middle command) ↔
    (∀ before command rest middle, commands = before ++ command :: rest →
      targetRuns lib path before file = .ok middle → ¬ AppendsFirst lib middle command) := by
  constructor
  · intro well before command rest middle split ran
    exact (command_iff (runs_accepted accepted ran) command).mp (well before command rest middle split ran)
  · intro later before command rest middle split ran
    exact (command_iff (runs_accepted accepted ran) command).mpr (later before command rest middle split ran)

/-- A project with the given targets, or a single-target project. -/
def exampleFile (multitarget : Bool) (names : List CStr) : Json :=
  savedJson ⟨.lit "project", .lit "1.0", 1, 0, 0⟩ multitarget names

theorem add_then_remove_iff :
    Accepted default (.lit "/p") (exampleFile true [.lit "a"]) ∧
    ((∀ before command rest middle, [TargetCommand.add (.lit "b") [] true true, .remove (.lit "a") []] =
        before ++ command :: rest →
      targetRuns default (.lit "/p") before (exampleFile true [.lit "a"]) = .ok middle →
        RunsWell default (.lit "/p") middle command) ↔
    (∀ before command rest middle, [TargetCommand.add (.lit "b") [] true true, .remove (.lit "a") []] =
        before ++ command :: rest →
      targetRuns default (.lit "/p") before (exampleFile true [.lit "a"]) = .ok middle →
        ¬ AppendsFirst default middle command)) :=
  ⟨saved_accepted _ _ _, target_runs_iff _ _ _ (saved_accepted _ _ _) _⟩

/-- `ltf target add a` on a single-target project, answered by an empty line. -/
theorem conversion_reads_garbage : Accepted default (.lit "/p") (exampleFile false []) ∧
    ¬ RunsWell default (.lit "/p") (exampleFile false []) (.add (.lit "a") [10] true true) := by
  refine ⟨saved_accepted _ _ _, ?_⟩
  intro well
  have fault : targetRun default (.lit "/p") (exampleFile false []) (.add (.lit "a") [10] true true) =
      .error .uninitialised := by rfl
  rw [RunsWell, fault] at well
  cases well

end Ltf.Proofs.TargetRuns
