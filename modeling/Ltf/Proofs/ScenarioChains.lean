import Ltf.Base.Orbit
import Ltf.TestScenarios

/-! A scenario file leads to the one it includes. Parsing follows these steps to their end
and then works its way back, so a finished parse is a merge along a chain of files. -/

namespace Ltf.TestScenarios
open CString JsonC CmdParser

/-- The file that is parsed before the rest of one, if there is one. -/
def nextFile (files : Files) (filePath : CStr) : Option CStr := do
  let content ← files.contents.lookup filePath
  let s ← (ltfTestScenarioFromJson files filePath content).toOption
  let included ← s.included
  return includeFilePath filePath included

variable {files : Files} {filePath : CStr}

theorem lookup_key {α β : Type} [BEq α] [LawfulBEq α] {entries : List (α × β)} {key : α} {value : β}
    (found : entries.lookup key = some value) : key ∈ entries.map Prod.fst := by
  obtain ⟨before, after, rfl, -⟩ := List.lookup_eq_some_iff.mp found
  simp

theorem nextFile_known {other : CStr} (leads : nextFile files filePath = some other) :
    filePath ∈ files.contents.map Prod.fst := by
  cases found : files.contents.lookup filePath with
  | none => simp [nextFile, found] at leads
  | some content => exact lookup_key found

/-- A file json-c can read, with the scenario that is made of it. -/
structure ScenarioFile (files : Files) where
  path : CStr
  json : Json
  scenario : TestScenario
  found : files.contents.lookup path = some (some json)
  read : ltfTestScenarioFromJson files path (some json) = .ok scenario

namespace ScenarioFile
variable (file : ScenarioFile files)

/-- The file that is parsed before this one. -/
def parent : Option CStr := file.scenario.included.map (includeFilePath file.path)

theorem next : nextFile files file.path = file.parent := by
  cases named : file.scenario.included <;> simp [nextFile, parent, file.found, file.read, named, Except.toOption]

theorem parse_root (alone : file.parent = none) (fuel : Nat) (parsed : TestScenarioParsed) :
    ltfTestScenarioParseFile files (fuel + 1) file.path parsed = some (.ok (mergeScenario file.scenario parsed)) := by
  have alone : file.scenario.included = none := by simpa [parent] using alone
  simp only [ltfTestScenarioParseFile, file.found, file.read, alone]

theorem parse_included {other : CStr} (includes : file.parent = some other) (fuel : Nat) (parsed : TestScenarioParsed) :
    ltfTestScenarioParseFile files (fuel + 1) file.path parsed =
      (ltfTestScenarioParseFile files fuel other parsed).map (Except.map (mergeScenario file.scenario)) := by
  obtain ⟨included, named, rfl⟩ : ∃ included, file.scenario.included = some included ∧
      includeFilePath file.path included = other := by simpa [parent] using includes
  simp only [ltfTestScenarioParseFile, file.found, file.read, named]
  cases ltfTestScenarioParseFile files fuel (includeFilePath file.path included) parsed with
  | none => rfl
  | some result => cases result <;> rfl

end ScenarioFile

/-- A path leads to a scenario, or the parse stops there with an error. -/
theorem scenario_or_error (files : Files) (filePath : CStr) :
    (∃ file : ScenarioFile files, file.path = filePath) ∨
      nextFile files filePath = none ∧
        ∃ err, ∀ fuel parsed, ltfTestScenarioParseFile files (fuel + 1) filePath parsed = some (.error err) := by
  cases found : files.contents.lookup filePath with
  | none =>
    refine .inr ⟨by simp [nextFile, found], ?_⟩
    simp only [ltfTestScenarioParseFile, found]
    exact ⟨_, fun _ _ => rfl⟩
  | some content =>
    cases read : ltfTestScenarioFromJson files filePath content with
    | error err => exact .inr ⟨by simp [nextFile, found, read, Except.toOption],
        err, fun _ _ => by simp only [ltfTestScenarioParseFile, found, read]⟩
    | ok s =>
      cases content with
      | none => cases read
      | some json => exact .inl ⟨⟨filePath, json, s, found, read⟩, rfl⟩

/-- There is a result as soon as the fuel lasts for every file on the way. -/
theorem parseFile_isSome (fuel : Nat) (parsed : TestScenarioParsed) :
    (ltfTestScenarioParseFile files fuel filePath parsed).isSome = true ↔
      Orbit.walk (nextFile files) fuel filePath = none := by
  induction fuel generalizing filePath with
  | zero => simp [ltfTestScenarioParseFile, Orbit.walk]
  | succ fuel ih =>
    rcases scenario_or_error files filePath with ⟨file, rfl⟩ | ⟨stops, err, failed⟩
    · cases parent : file.parent with
      | none => simp [file.parse_root parent, Orbit.walk, file.next, parent]
      | some other =>
        rw [file.parse_included parent, Option.isSome_map, ih, Orbit.walk, file.next, parent, Option.bind_some]
    · simp [failed, Orbit.walk, stops]

/-- A parse comes to a result exactly when no file it gets to includes itself, directly or
through others. -/
theorem parse_terminates_iff (files : Files) (filePath : CStr) (parsed : TestScenarioParsed) :
    (∃ fuel result, ltfTestScenarioParseFile files fuel filePath parsed = some result) ↔
      Orbit.Acyclic (nextFile files) filePath := by
  rw [← Orbit.ends_iff_acyclic (files.contents.map Prod.fst) (fun _ _ leads => nextFile_known leads)]
  constructor
  · intro returns
    obtain ⟨fuel, result, returned⟩ := returns
    exact ⟨fuel, (parseFile_isSome fuel parsed).mp (by rw [returned]; rfl)⟩
  · intro ends
    obtain ⟨fuel, stopped⟩ := ends
    exact ⟨fuel, Option.isSome_iff_exists.mp ((parseFile_isSome fuel parsed).mpr stopped)⟩

/-- What a parse leaves in `parsed`. -/
def Parsed (files : Files) (filePath : CStr) (after : TestScenarioParsed) : Prop :=
  ∃ fuel, ltfTestScenarioParse files fuel filePath = some (.ok after)

/-- A file and those that are parsed before it, the one without an include last. -/
inductive Chain (files : Files) : ScenarioFile files → List (ScenarioFile files) → Prop
  | root (file : ScenarioFile files) : file.parent = none → Chain files file []
  | included (file parent : ScenarioFile files) (older : List (ScenarioFile files)) :
      file.parent = some parent.path → Chain files parent older → Chain files file (parent :: older)

/-- What is in `parsed` after the files of a chain. -/
def merged (chain : List (ScenarioFile files)) : TestScenarioParsed :=
  chain.foldr (fun file parsed => mergeScenario file.scenario parsed) {}

theorem parse_more {filePath : CStr} {parsed : TestScenarioParsed} {fuel : Nat}
    {result : Except CStr TestScenarioParsed}
    (returned : ltfTestScenarioParseFile files fuel filePath parsed = some result) :
    ltfTestScenarioParseFile files (fuel + 1) filePath parsed = some result := by
  induction fuel generalizing filePath result with
  | zero => cases returned
  | succ fuel ih =>
    rcases scenario_or_error files filePath with ⟨file, rfl⟩ | ⟨-, err, failed⟩
    · cases parent : file.parent with
      | none => rw [file.parse_root parent] at returned ⊢; exact returned
      | some other =>
        rw [file.parse_included parent] at returned ⊢
        obtain ⟨before, earlier, rfl⟩ := Option.map_eq_some_iff.mp returned
        rw [ih earlier, Option.map_some]
    · rw [failed] at returned ⊢; exact returned

theorem parse_later {filePath : CStr} {parsed : TestScenarioParsed} {fuel : Nat}
    {result : Except CStr TestScenarioParsed}
    (returned : ltfTestScenarioParseFile files fuel filePath parsed = some result)
    (extra : Nat) : ltfTestScenarioParseFile files (fuel + extra) filePath parsed = some result := by
  induction extra with
  | zero => exact returned
  | succ extra ih => exact parse_more ih

theorem Parsed.unique {after other : TestScenarioParsed} (one : Parsed files filePath after)
    (two : Parsed files filePath other) : after = other := by
  obtain ⟨fuel, one⟩ := one
  obtain ⟨more, two⟩ := two
  have one := parse_later one more
  have two := parse_later two fuel
  rw [Nat.add_comm, two] at one
  cases one
  rfl

theorem Chain.parsed {file : ScenarioFile files} {older : List (ScenarioFile files)} (chain : Chain files file older) :
    Parsed files file.path (merged (file :: older)) := by
  induction chain with
  | root file alone => exact ⟨1, file.parse_root alone 0 {}⟩
  | included file parent older includes _ ih =>
    obtain ⟨fuel, earlier⟩ := ih
    refine ⟨fuel + 1, ?_⟩
    rw [ltfTestScenarioParse, file.parse_included includes, ← ltfTestScenarioParse, earlier]
    rfl

/-- Each parse that succeeds has gone along a chain. -/
theorem Parsed.chain {after : TestScenarioParsed} (parsed : Parsed files filePath after) :
    ∃ file older, Chain files file older ∧ file.path = filePath ∧ after = merged (file :: older) := by
  obtain ⟨fuel, returned⟩ := parsed
  rw [ltfTestScenarioParse] at returned
  induction fuel generalizing filePath after with
  | zero => cases returned
  | succ fuel ih =>
    rcases scenario_or_error files filePath with ⟨file, rfl⟩ | ⟨-, err, failed⟩
    · cases includes : file.parent with
      | none =>
        rw [file.parse_root includes] at returned
        cases returned
        exact ⟨file, [], .root file includes, rfl, rfl⟩
      | some other =>
        rw [file.parse_included includes] at returned
        obtain ⟨before, earlier, here⟩ := Option.map_eq_some_iff.mp returned
        cases before with
        | error err => cases here
        | ok before =>
          cases here
          obtain ⟨parent, older, chain, rfl, rfl⟩ := ih earlier
          exact ⟨file, parent :: older, .included file parent older includes chain, rfl, rfl⟩
    · rw [failed] at returned
      cases returned

/-- A file that includes itself. -/
def selfIncluding : Files where
  contents := [(.lit "a.json", some (.object [(.lit "include", newString (.lit "a"))]))]
  lastErr := .lit ""

theorem selfIncluding_next : nextFile selfIncluding (.lit "a.json") = some (.lit "a.json") := by decide

theorem selfIncluding_endless :
    ¬ ∃ fuel result, ltfTestScenarioParseFile selfIncluding fuel (.lit "a.json") {} = some result := by
  rw [parse_terminates_iff]
  intro acyclic
  exact acyclic _ .refl (.single selfIncluding_next)

end Ltf.TestScenarios
