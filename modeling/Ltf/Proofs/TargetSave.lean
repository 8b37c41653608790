import Ltf.Proofs.TargetRuns
import Ltf.TargetProcess

/-! What `ltf target add` leaves of the project file when it fails. -/

namespace Ltf.Proofs.TargetSave
open CString JsonC TargetRuns Ltf.TargetProcess

/-- The command is about to save the file: there is a project with targets, and a new one. -/
def Saves (lib : Coercions) (path target : CStr) (file : ProjectFile) : Prop :=
  ∃ tree, file = .whole tree ∧ Accepted lib path tree ∧ isMultitarget tree = true ∧ targetNames lib tree ≠ [] ∧
    target ∉ targetNames lib tree

/-- If it fails, the file is as it was. -/
def FailsClean (file : ProjectFile) (ended : AddEnd × ProjectFile) : Prop := ended.1.exitCode ≠ 0 → ended.2 = file

variable {lib : Coercions} {path target : CStr} {input : List UInt8} {commonMade targetMade : Bool} {answer : SaveAnswer}

/-- The end of a command whose whole tree was saved, with another answer to that. -/
def settled (answer : SaveAnswer) (tree : Json) (ended : TargetResult × Json) : AddEnd × ProjectFile :=
  match ended.1, answer with
  | .added _, .notOpened => (.saveFailed, .whole tree)
  | .added _, .cutShort => (.saveFailed, .cut)
  | result, _ => (.ended result, .whole ended.2)

theorem convert_result {proj : ProjectParsed} {result : TargetResult}
    (ended : convertProject input commonMade proj = .ok (.inl result)) : result = .aborted ∨ result = .notConverted := by
  obtain ⟨multitarget, -, ended⟩ := Steps.bind_ok.mp ended
  cases multitarget with
  | true => cases ended
  | false =>
    simp only [Bool.false_eq_true, if_false] at ended
    split at ended
    · cases ended
    · cases ended
      exact .inl rfl
    · obtain ⟨_, -, ended⟩ := Steps.bind_ok.mp ended
      obtain ⟨_, -, ended⟩ := Steps.bind_ok.mp ended
      split at ended
      · cases ended
      · cases ended
        exact .inr rfl

theorem add_settled (tree : Json) :
    TargetProcess.ltfTargetAdd lib path target input commonMade answer targetMade (.whole tree) =
      (Ltf.ltfTargetAdd lib path target input commonMade targetMade tree).map (settled answer tree) := by
  simp only [TargetProcess.ltfTargetAdd, Ltf.ltfTargetAdd]
  cases projectParserParse lib path tree with
  | error fault => rfl
  | ok parsed =>
    cases parsed with
    | none => cases answer <;> rfl
    | some proj =>
      simp only [Steps.bind_of_ok rfl]
      cases converted : convertProject input commonMade proj with
      | error fault => rfl
      | ok next =>
        simp only [Steps.bind_of_ok rfl]
        cases next with
        | inl result =>
          obtain rfl | rfl := convert_result converted
          · cases answer <;> rfl
          · cases answer <;> rfl
        | inr proj =>
          simp only
          cases readTargets proj with
          | error fault => rfl
          | ok names =>
            simp only [Steps.bind_of_ok rfl]
            split
            · cases answer <;> rfl
            · cases appendTarget target proj with
              | error fault => rfl
              | ok proj =>
                simp only [Steps.bind_of_ok rfl]
                cases projectParserSave proj with
                | error fault => rfl
                | ok saved => cases answer <;> rfl

theorem settled_untouched {result : TargetResult} (tree : Json) (other : ∀ made, result ≠ .added made) :
    FailsClean (.whole tree) (settled answer tree (result, tree)) := by
  intro _
  cases result with
  | added made => exact absurd rfl (other made)
  | _ => cases answer <;> rfl

/-- What is left when a new target was put behind others. -/
theorem settled_added {names : List CStr} {tree : Json} {header : Header} (fresh : targetNames lib tree = names) :
    FailsClean (.whole tree) (settled answer tree (.added targetMade, savedJson header true (names ++ [target]))) ↔
      answer ≠ .cutShort ∧ (answer = .written → targetMade = true) := by
  cases answer with
  | notOpened => exact iff_of_true (fun _ => rfl) ⟨nofun, nofun⟩
  | cutShort => exact iff_of_false (fun clean => nomatch clean Nat.one_ne_zero) (fun both => both.1 rfl)
  | written =>
    cases targetMade with
    | true => exact iff_of_true (fun fails => absurd rfl fails) ⟨nofun, fun _ => rfl⟩
    | false =>
      refine iff_of_false ?_ (fun both => nomatch both.2 rfl)
      intro clean
      have same : savedJson header true (names ++ [target]) = tree := ProjectFile.whole.inj (clean Nat.one_ne_zero)
      have longer := @saved_targets lib header true (names ++ [target])
      rw [same, fresh] at longer
      simp at longer

/-- A process that asks for ever, or that a `NULL` in the parser kills, has not opened the file. What is
read through a pointer that was never set can lead anywhere, to the save as well. -/
def Unwritten : ProjectFault → Prop
  | .endless | .crash => True
  | .uninitialised => False

theorem parse_fault {tree : Json} {fault : ProjectFault} (fails : projectParserParse lib path tree = .error fault) :
    fault = .crash := by
  have targets : ∀ items : List Json, items.mapM (projectTarget lib) = .error fault → fault = .crash := by
    intro items
    induction items with
    | nil =>
      intro empty
      cases empty
    | cons item items ih =>
      rw [List.mapM_cons]
      cases text : getString lib item with
      | none =>
        have crash : projectTarget lib item = .error .crash := by rw [projectTarget, text]
        rw [Steps.bind_of_error crash]
        intro same
        exact (Except.error.inj same).symm
      | some bytes =>
        have read : projectTarget lib item = .ok (.ofBytes bytes) := by rw [projectTarget, text]
        rw [Steps.bind_of_ok read]
        cases rest : items.mapM (projectTarget lib) with
        | error other =>
          intro same
          cases same
          exact ih rest
        | ok names =>
          intro full
          cases full
  unfold projectParserParse projectParseJson at fails
  split at fails
  next =>
    split at fails
    next => cases fails
    next =>
      unfold projectParseTargets at fails
      split at fails
      next items _ =>
        cases rest : items.mapM (projectTarget lib) with
        | error other =>
          rw [Steps.bind_of_error rest] at fails
          cases fails
          exact targets items rest
        | ok names =>
          rw [Steps.bind_of_ok rest] at fails
          cases fails
      next => cases fails
    next => cases fails
  next => cases fails

theorem append_uninitialised {tree : Json} (accepted : Accepted lib path tree)
    (first : AppendsFirst lib tree (.add target input commonMade targetMade)) :
    Ltf.ltfTargetAdd lib path target input commonMade targetMade tree = .error .uninitialised := by
  obtain ⟨header, parses⟩ := accepted.parses
  obtain ⟨empty, multi | ⟨yes, made⟩⟩ := first
  · rw [add_multitarget parses multi, empty, if_neg (by simp)]
    rfl
  · cases multi : isMultitarget tree with
    | true =>
      rw [add_multitarget parses multi, empty, if_neg (by simp)]
      rfl
    | false => rw [add_single parses multi, yes, made]; rfl

/-- Unless it gets to the save or to a first target, the command ends with the tree it began with. -/
theorem sound_before_save {tree : Json} (stops : ¬ Saves lib path target (.whole tree))
    (later : Accepted lib path tree → ¬ AppendsFirst lib tree (.add target input commonMade targetMade)) :
    Steps.Sound (fun ended => ended.2 = tree ∧ ∀ made, ended.1 ≠ .added made) Unwritten
      (Ltf.ltfTargetAdd lib path target input commonMade targetMade tree) := by
  by_cases accepted : Accepted lib path tree
  · have more := later accepted
    obtain ⟨header, parses⟩ := accepted.parses
    cases multi : isMultitarget tree with
    | true =>
      rw [add_multitarget parses multi]
      split
      next inside => exact ⟨rfl, fun _ => TargetResult.noConfusion⟩
      next fresh =>
        split
        next none_ => exact absurd ⟨List.eq_nil_of_length_eq_zero none_, .inl multi⟩ more
        next some_ =>
          exact absurd ⟨tree, rfl, accepted, multi, fun empty => some_ (by rw [empty]; rfl), fresh⟩ stops
    | false =>
      rw [add_single parses multi]
      cases asked : askConvert false input with
      | none => trivial
      | some yes =>
        cases yes with
        | false => exact ⟨rfl, fun _ => TargetResult.noConfusion⟩
        | true =>
          cases commonMade with
          | false => exact ⟨rfl, fun _ => TargetResult.noConfusion⟩
          | true => exact absurd ⟨single_empty multi, .inr ⟨asked, rfl⟩⟩ more
  · rw [Ltf.ltfTargetAdd]
    cases parsed : projectParserParse lib path tree with
    | error fault =>
      rw [parse_fault parsed]
      trivial
    | ok found =>
      cases found with
      | none => exact ⟨rfl, fun _ => TargetResult.noConfusion⟩
      | some proj => exact absurd ⟨proj, parsed⟩ accepted

/-- The command is about to put a first target behind a pointer that was never set. -/
def Garbage (lib : Coercions) (path target : CStr) (input : List UInt8) (commonMade targetMade : Bool)
    (file : ProjectFile) : Prop :=
  ∃ tree, file = .whole tree ∧ Accepted lib path tree ∧ AppendsFirst lib tree (.add target input commonMade targetMade)

/-- A failure leaves the file alone exactly if no first target is appended, a file that gets to be
saved is saved to its end, or not at all, and a target that was saved gets its directory. -/
theorem add_clean_iff (lib : Coercions) (path target : CStr) (input : List UInt8) (commonMade : Bool)
    (answer : SaveAnswer) (targetMade : Bool) (file : ProjectFile) :
    Steps.Sound (FailsClean file) Unwritten
        (TargetProcess.ltfTargetAdd lib path target input commonMade answer targetMade file) ↔
      ¬ Garbage lib path target input commonMade targetMade file ∧
        (Saves lib path target file → answer ≠ .cutShort ∧ (answer = .written → targetMade = true)) := by
  cases file with
  | cut =>
    refine iff_of_true (fun _ => rfl) ⟨?_, ?_⟩
    · rintro ⟨tree, whole, -⟩
      cases whole
    · rintro ⟨tree, whole, -⟩
      cases whole
  | whole tree =>
    rw [add_settled]
    by_cases garbage : Garbage lib path target input commonMade targetMade (.whole tree)
    · obtain ⟨_, same, accepted, first⟩ := id garbage
      cases same
      rw [append_uninitialised accepted first]
      exact iff_of_false (fun absurd => absurd) fun both => both.1 garbage
    · by_cases saves : Saves lib path target (.whole tree)
      · obtain ⟨_, same, accepted, multi, some_, fresh⟩ := id saves
        cases same
        obtain ⟨header, parses⟩ := accepted.parses
        have more : ¬ (targetNames lib tree).length = 0 := fun empty => some_ (List.eq_nil_of_length_eq_zero empty)
        rw [add_multitarget parses multi, if_neg fresh, if_neg more, and_iff_right garbage, imp_iff_right saves,
          ← settled_added rfl]
        exact Iff.rfl
      · refine iff_of_true ?_ ⟨garbage, fun reached => absurd reached saves⟩
        have stops := sound_before_save saves fun accepted first => garbage ⟨tree, rfl, accepted, first⟩
        cases ran : Ltf.ltfTargetAdd lib path target input commonMade targetMade tree with
        | error fault =>
          rw [ran] at stops
          exact stops
        | ok ended =>
          obtain ⟨result, left⟩ := ended
          rw [ran] at stops
          obtain ⟨rfl, other⟩ := stops
          exact settled_untouched left other

/-- The new target is in the file although its directory could not be made. -/
theorem target_stays : ¬ Steps.Sound (FailsClean (.whole (exampleFile true [.lit "a"]))) Unwritten
    (TargetProcess.ltfTargetAdd default (.lit "/p") (.lit "b") [] true .written false
      (.whole (exampleFile true [.lit "a"]))) := by
  intro sound
  have saved : TargetProcess.ltfTargetAdd default (.lit "/p") (.lit "b") [] true .written false
      (.whole (exampleFile true [.lit "a"])) =
        .ok (.ended (.added false), .whole (exampleFile true [.lit "a", .lit "b"])) := rfl
  rw [saved] at sound
  have same := congrArg (targetNames default) (ProjectFile.whole.inj (sound Nat.one_ne_zero))
  revert same
  decide

end Ltf.Proofs.TargetSave
