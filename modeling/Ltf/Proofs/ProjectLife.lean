import Ltf.Proofs.LtfInit
import Ltf.Proofs.WholeCommand

/-! What becomes of a project that `ltf init` has made: the target commands leave it as it is, or
use a pointer that was never set. -/

namespace Ltf.Proofs.ProjectLife
open CString JsonC Ltf.LtfInit Ltf.LtfTest TargetRuns Proofs.LtfInit WholeCommand

variable {lib : Coercions} {path : CStr} {header : Header} {multitarget : Bool}

/-- A command that comes to its end without reading what was never set: it does not get as far as to
append a target, and what it asks is answered. -/
def Idle (multitarget : Bool) : TargetCommand → Prop
  | .add _ input commonMade _ =>
    multitarget = false ∧ (askConvert false input = some false ∨ askConvert false input = some true ∧ commonMade = false)
  | .remove _ _ => True

theorem new_multitarget (header : Header) (multitarget : Bool) :
    isMultitarget (savedJson header multitarget []) = multitarget := by
  obtain ⟨_, _, _, _, _, flag, _⟩ := @saved_get default header multitarget []
  rw [isMultitarget, flag]
  rfl

theorem new_targets (lib : Coercions) (header : Header) (multitarget : Bool) :
    targetNames lib (savedJson header multitarget []) = [] := by
  rw [saved_targets]
  cases multitarget <;> rfl

theorem new_parses (lib : Coercions) (path : CStr) (header : Header) (multitarget : Bool) :
    Parses lib path (savedJson header multitarget []) (readBack lib header) := by
  rw [Parses, new_multitarget, new_targets]
  exact saved_parsed header path multitarget

/-- A command on a project without targets leaves its file as it is, or does not come to an end as it should. -/
theorem new_step (command : TargetCommand) :
    targetStep lib path (savedJson header multitarget []) command = .ok (savedJson header multitarget []) ∧ Idle multitarget command ∨
    ¬ Idle multitarget command ∧ ∃ fault, targetStep lib path (savedJson header multitarget []) command = .error fault := by
  have parses := new_parses lib path header multitarget
  have multi := new_multitarget header multitarget
  have empty := new_targets lib header multitarget
  unfold targetStep
  cases command with
  | add target input commonMade targetMade =>
    rw [targetRun]
    cases multitarget with
    | true =>
      rw [add_multitarget parses multi, empty]
      exact .inr ⟨by simp [Idle], _, rfl⟩
    | false =>
      rw [add_single parses multi]
      cases answer : askConvert false input with
      | none => exact .inr ⟨by simp [Idle, answer], _, rfl⟩
      | some yes =>
        cases yes with
        | false => exact .inl ⟨rfl, by simp [Idle, answer]⟩
        | true =>
          cases commonMade with
          | false => exact .inl ⟨rfl, by simp [Idle, answer]⟩
          | true => exact .inr ⟨by simp [Idle, answer], _, rfl⟩
  | remove target input =>
    left
    refine ⟨?_, trivial⟩
    rw [targetRun]
    cases multitarget with
    | true =>
      rw [remove_multitarget parses multi, empty]
      rfl
    | false =>
      rw [remove_single parses multi]
      rfl

theorem new_runs (commands : List TargetCommand) (after : Json) :
    targetRuns lib path commands (savedJson header multitarget []) = .ok after ↔
      after = savedJson header multitarget [] ∧ ∀ command ∈ commands, Idle multitarget command := by
  induction commands with
  | nil =>
    constructor
    · intro ran
      cases ran
      exact ⟨rfl, nofun⟩
    · rintro ⟨rfl, _⟩
      rfl
  | cons command commands ih =>
    rw [targetRuns, List.foldlM_cons, List.forall_mem_cons]
    obtain ⟨step, idle⟩ | ⟨busy, fault, step⟩ := @new_step lib path header multitarget command
    · rw [Steps.bind_of_ok step]
      rw [targetRuns] at ih
      simpa [idle] using ih
    · rw [Steps.bind_of_error step]
      simp [busy]

/-- A run of tests on the project as it was made has no target to run for. -/
theorem new_opens {setup : Setup} {opened : CStr} {dirs : List CStr}
    (project : setup.project = .tree path (savedJson header multitarget [])) (opens : Opens setup opened dirs) :
    multitarget = false ∧ setup.opts.target = none := by
  obtain ⟨file, _, same, _, _, there⟩ := opens.project
  rw [project] at same
  cases same
  rw [new_multitarget, new_targets] at there
  cases there with
  | single none_given single => exact ⟨single, none_given⟩
  | target _ _ _ inside => cases inside

/-- From `ltf init` on, target commands that end without reading what was never set do not change the project
file: the first one that would append a target reads it. So no test is ever run for a target, and none in a multi-target project. -/
theorem new_project_life (program : Version.Program) (opts : CmdInitOptions) (lib : Coercions) (path : CStr) :
    ∃ file, projectParserSave (newProject program opts) = .ok file ∧
      (∀ commands after, targetRuns lib path commands file = .ok after ↔
        after = file ∧ ∀ command ∈ commands, Idle opts.multitarget command) ∧
      ∀ setup code final, setup.project = .tree path file → ltfTest setup = .ok (code, final) →
        opts.multitarget = false ∧ setup.opts.target = none := by
  refine ⟨_, save_new program opts, new_runs, ?_⟩
  intro setup code final project ran
  obtain ⟨name, opened, dirs, out, _, _, _, _, _, begins, _⟩ := (command_split code final).mp ran
  exact new_opens project (opens_iff.mp ⟨name, out, begins⟩)

end Ltf.Proofs.ProjectLife
