import Ltf.Base.Removal
import Ltf.Proofs.ScenarioFields

/-! The lists of a scenario along a chain of files, against the operations the files contain
applied one file after the other from the outermost included one. -/

namespace Ltf.TestScenarios
open CString JsonC CmdParser

/-- The three operations on a list, each as a file has it. -/
structure ListOps (α : Type) where
  redeclare : Option (List α)
  append : List α
  remove : List CStr

def stringOps (o : Option Json) (redeclare append remove : String) : ListOps CStr where
  redeclare := (o.bind (get · (.lit redeclare))).bind asStrings
  append := ((o.bind (get · (.lit append))).bind asStrings).getD []
  remove := ((o.bind (get · (.lit remove))).bind asStrings).getD []

def pairOps (o : Option Json) (redeclare append remove : String) : ListOps KvPair where
  redeclare := (o.bind (get · (.lit redeclare))).bind asPairs
  append := ((o.bind (get · (.lit append))).bind asPairs).getD []
  remove := ((o.bind (get · (.lit remove))).bind asStrings).getD []

section Files
variable {files : Files} (file : ScenarioFile files)

def ScenarioFile.tagOps : ListOps CStr := stringOps file.cmd "tags" "tags:append" "tags:remove"
def ScenarioFile.varOps : ListOps KvPair := pairOps file.cmd "vars" "vars:append" "vars:remove"
def ScenarioFile.orderOps : ListOps CStr := stringOps (some file.json) "order" "order:append" "order:remove"

/-- The lists of a scenario, with the variables as a map. -/
structure Lists where
  tags : List CStr
  order : List CStr
  vars : CStr → Option CStr

/-- Items are added at the end and every occurrence of a name is removed. A redeclaration,
even of nothing, replaces the list. -/
def ListOps.applyStrings (ops : ListOps CStr) (before : List CStr) : List CStr :=
  match ops.redeclare with
  | some items => items
  | none => (before ++ ops.append).filter (· ∉ ops.remove)

/-- A variable that is appended takes the new value. -/
def ListOps.applyPairs (ops : ListOps KvPair) (before : CStr → Option CStr) (name : CStr) : Option CStr :=
  match ops.redeclare with
  | some pairs => pairs.lookup name
  | none => if name ∈ ops.remove then none else (ops.append.lookup name).or (before name)

def applyFile (before : Lists) : Lists where
  tags := file.tagOps.applyStrings before.tags
  order := file.orderOps.applyStrings before.order
  vars := file.varOps.applyPairs before.vars

/-- The operations of a chain of files, those of the outermost included one first. -/
def applyChain (chain : List (ScenarioFile files)) : Lists :=
  chain.reverse.foldl (fun before file => applyFile file before) { tags := [], order := [], vars := fun _ => none }

/-- The result of a parse has the lists, and each variable once with its value is handed to the
options when the command line has none. -/
structure Carries (filePath : CStr) (after : TestScenarioParsed) (lists : Lists) : Prop where
  tags : after.tags = lists.tags
  order : after.order = lists.order
  vars : ∀ name, after.vars.lookup name = lists.vars name
  handed : ∀ (env : Surroundings) opts out, env.testScenarioParse filePath = some after → opts.vars = [] →
    setTestScenario env filePath opts = .ok out →
      (out.vars.map Prod.fst).Nodup ∧ ∀ name, out.vars.lookup name = lists.vars name

/-- No name occurs more often than it is removed. A list that is redeclared with items does
not depend on what was there, and one that is redeclared as empty has to lose every item. -/
def ListOps.Removes {α : Type} (ops : ListOps α) (name : α → CStr) (before : List α) : Prop :=
  match ops.redeclare with
  | some [] => ∀ key, ((before ++ ops.append).map name).count key ≤ ops.remove.count key
  | some (_ :: _) => True
  | none => ∀ key ∈ ops.remove, ((before ++ ops.append).map name).count key ≤ ops.remove.count key

/-- A pair that is appended and stays has a new name or the value this name has. -/
def ListOps.Extends (ops : ListOps KvPair) (before : List KvPair) : Prop :=
  ops.redeclare = none → ∀ name value, ops.append.lookup name = some value → name ∉ ops.remove →
    before.lookup name = none ∨ before.lookup name = some value

/-- What a file needs of the lists it gets. -/
structure Follows (before : TestScenarioParsed) : Prop where
  tags : file.tagOps.Removes id before.tags
  order : file.orderOps.Removes id before.order
  vars : file.varOps.Removes Prod.fst before.vars
  values : file.varOps.Extends before.vars

end Files

section Merge

theorem mergeStringDa_eq (append remove redeclare da : List CStr) :
    mergeStringDa append remove redeclare da =
      if redeclare = [] then (da ++ append).diff remove else redeclare := by
  have appended : (if append.length ≠ 0 then appendToStringDa da append else da) = da ++ append := by
    cases append <;> simp [appendToStringDa]
  have removed : ∀ da, (if remove.length ≠ 0 then removeFromStringDa da remove else da) = da.diff remove := by
    intro da
    cases remove <;> simp [removeFromStringDa, List.diff_eq_foldl]
  simp only [mergeStringDa, appended, removed]
  cases redeclare <;> simp [replaceStringDa, appendToStringDa]

theorem mergeKvPairDa_eq (append : List KvPair) (remove : List CStr) (redeclare da : List KvPair) :
    mergeKvPairDa append remove redeclare da =
      if redeclare = [] then Removal.eraseKeys (da ++ append) remove else redeclare := by
  have appended : (if append.length ≠ 0 then appendToKvPairDa da append else da) = da ++ append := by
    cases append <;> simp [appendToKvPairDa]
  have removed : ∀ da,
      (if remove.length ≠ 0 then removeFromKvPairDa da remove else da) = Removal.eraseKeys da remove := by
    intro da
    cases remove <;> rfl
  simp only [mergeKvPairDa, appended, removed]
  cases redeclare <;> simp [replaceKvPairDa, appendToKvPairDa]

variable {α : Type} {o : Option Json} {key : String} {own : Json → Option (List α)} {items : List α}

theorem Field.listed (reads : Field o key own [] items) :
    items = ((o.bind (get · (.lit key))).bind own).getD [] := by
  unfold Field at reads
  cases found : o.bind (get · (.lit key)) with
  | none => rw [found] at reads; exact reads
  | some value =>
    rw [found] at reads
    have reads : own value = some items := reads
    rw [Option.bind_some, reads, Option.getD_some]

/-- The first match is the value it should be exactly when the names to remove are all gone
and nothing that is appended is hidden by an older value. -/
theorem lookup_merged (before append : List KvPair) (remove : List CStr) :
    (∀ name, (Removal.eraseKeys (before ++ append) remove).lookup name =
        if name ∈ remove then none else (append.lookup name).or (before.lookup name)) ↔
      (∀ name ∈ remove, ((before ++ append).map Prod.fst).count name ≤ remove.count name) ∧
        ∀ name value, append.lookup name = some value → name ∉ remove →
          before.lookup name = none ∨ before.lookup name = some value := by
  constructor
  · intro each
    constructor
    · intro name inside
      rw [← Removal.lookup_eraseKeys_none, each name, if_pos inside]
    · intro name value appended kept
      have here := each name
      rw [if_neg kept, Removal.lookup_eraseKeys _ _ kept, List.lookup_append, appended] at here
      cases older : before.lookup name with
      | none => exact .inl rfl
      | some other => rw [older] at here; exact .inr here
  · intro follows name
    obtain ⟨enough, fresh⟩ := follows
    by_cases removed : name ∈ remove
    · rw [if_pos removed, Removal.lookup_eraseKeys_none]
      exact enough name removed
    · rw [if_neg removed, Removal.lookup_eraseKeys _ _ removed, List.lookup_append]
      cases appended : append.lookup name with
      | none => simp
      | some value => rcases fresh name value appended removed with older | older <;> simp [older]

section Kinds
variable {first second third : String} {remove : List CStr}

/-- One file: the list is as it should be exactly when the file finds what it needs. -/
theorem merge_strings {redeclare append : List CStr} (redeclares : Field o first asStrings [] redeclare)
    (appends : Field o second asStrings [] append) (removes : Field o third asStrings [] remove) (before : List CStr) :
    mergeStringDa append remove redeclare before = (stringOps o first second third).applyStrings before ↔
      (stringOps o first second third).Removes id before := by
  obtain rfl := appends.listed
  obtain rfl := removes.listed
  have redeclared := redeclares.listed
  rw [mergeStringDa_eq]
  unfold ListOps.applyStrings ListOps.Removes
  simp only [stringOps, List.map_id]
  cases found : (o.bind (get · (.lit first))).bind asStrings with
  | none =>
    obtain rfl : redeclare = [] := by rw [redeclared, found]; rfl
    rw [if_pos rfl]
    exact Removal.diff_eq_filter ..
  | some items =>
    obtain rfl : redeclare = items := by rw [redeclared, found]; rfl
    cases redeclare with
    | nil => rw [if_pos rfl]; exact Removal.diff_eq_nil ..
    | cons item items => simp

theorem merge_pairs {redeclare append : List KvPair} (redeclares : Field o first asPairs [] redeclare)
    (appends : Field o second asPairs [] append) (removes : Field o third asStrings [] remove) (before : List KvPair) :
    (∀ name, (mergeKvPairDa append remove redeclare before).lookup name =
        (pairOps o first second third).applyPairs (fun name => before.lookup name) name) ↔
      (pairOps o first second third).Removes Prod.fst before ∧ (pairOps o first second third).Extends before := by
  obtain rfl := appends.listed
  obtain rfl := removes.listed
  have redeclared := redeclares.listed
  rw [mergeKvPairDa_eq]
  unfold ListOps.applyPairs ListOps.Removes ListOps.Extends
  simp only [pairOps]
  cases found : (o.bind (get · (.lit first))).bind asPairs with
  | none =>
    obtain rfl : redeclare = [] := by rw [redeclared, found]; rfl
    rw [if_pos rfl]
    exact (lookup_merged before _ _).trans (and_congr_right fun _ => ⟨fun fresh _ => fresh, fun fresh => fresh rfl⟩)
  | some items =>
    obtain rfl : redeclare = items := by rw [redeclared, found]; rfl
    cases redeclare with
    | nil =>
      rw [if_pos rfl]
      simp only [List.lookup_nil, Removal.lookup_eraseKeys_none]
      exact ⟨fun enough => ⟨enough, fun missing => nomatch missing⟩, fun follows => follows.1⟩
    | cons item items => simp

end Kinds
end Merge

/-- The lists in `parsed`, where a variable has the value of its first pair. -/
structure Agrees (after : TestScenarioParsed) (lists : Lists) : Prop where
  tags : after.tags = lists.tags
  order : after.order = lists.order
  vars : ∀ name, after.vars.lookup name = lists.vars name

/-- The options take the first pair of each name. -/
theorem Agrees.carries {after : TestScenarioParsed} {lists : Lists} (agrees : Agrees after lists) (filePath : CStr) :
    Carries filePath after lists := by
  refine { tags := agrees.tags, order := agrees.order, vars := agrees.vars, handed := ?_ }
  intro env opts out found none_given ran
  simp only [setTestScenario, found] at ran
  cases ran
  simp only [none_given]
  refine ⟨Assoc.nodup_foldl_addMissing _ List.nodup_nil, ?_⟩
  intro name
  rw [Assoc.lookup_foldl_addMissing, List.lookup_nil, Option.none_or]
  exact agrees.vars name

section Chains
variable {files : Files}

theorem applyChain_cons (file : ScenarioFile files) (older : List (ScenarioFile files)) :
    applyChain (file :: older) = applyFile file (applyChain older) := by
  rw [applyChain, List.reverse_cons, List.foldl_append]
  rfl

/-- One file: from lists that agree it makes lists that agree if it finds what it needs, and
only then. -/
theorem agrees_step (file : ScenarioFile files) {before : TestScenarioParsed} {lists : Lists}
    (agrees : Agrees before lists) :
    Agrees (mergeScenario file.scenario before) (applyFile file lists) ↔ Follows file before := by
  have reads := file.reads
  have tags := merge_strings reads.cmd.tags reads.cmd.tagsAppend reads.cmd.tagsRemove before.tags
  have order := merge_strings reads.order reads.orderAppend reads.orderRemove before.order
  have vars := merge_pairs reads.cmd.vars reads.cmd.varsAppend reads.cmd.varsRemove before.vars
  obtain rfl : lists = { tags := before.tags, order := before.order, vars := fun name => before.vars.lookup name } := by
    rw [agrees.tags, agrees.order, funext agrees.vars]
  constructor
  · intro here
    have kept := vars.mp here.vars
    exact { tags := tags.mp here.tags, order := order.mp here.order, vars := kept.1, values := kept.2 }
  · intro follows
    exact {
      tags := tags.mpr follows.tags
      order := order.mpr follows.order
      vars := vars.mpr ⟨follows.vars, follows.values⟩ }

theorem agrees_start :
    Agrees (merged ([] : List (ScenarioFile files))) (applyChain ([] : List (ScenarioFile files))) where
  tags := rfl
  order := rfl
  vars := fun _ => rfl

theorem agrees_run (chain : List (ScenarioFile files)) :
    (∀ rest, rest <:+ chain → Agrees (merged rest) (applyChain rest)) ↔
      ∀ part rest, part :: rest <:+ chain → Follows part (merged rest) := by
  induction chain with
  | nil =>
    apply iff_of_true
    · intro rest inside
      obtain rfl := List.suffix_nil.mp inside
      exact agrees_start
    · intro part rest inside
      cases List.suffix_nil.mp inside
  | cons file older ih =>
    constructor
    · intro agree
      have shorter := ih.mp fun rest inside => agree rest (inside.trans (List.suffix_cons ..))
      have here := agree _ (List.suffix_refl _)
      rw [applyChain_cons] at here
      have follows := (agrees_step file (agree older (List.suffix_cons ..))).mp here
      intro part rest inside
      rcases List.suffix_cons_iff.mp inside with same | inside
      · obtain ⟨rfl, rfl⟩ := List.cons.inj same
        exact follows
      · exact shorter part rest inside
    · intro follow
      have shorter := ih.mpr fun part rest inside => follow part rest (inside.trans (List.suffix_cons ..))
      intro rest inside
      rcases List.suffix_cons_iff.mp inside with rfl | inside
      · rw [applyChain_cons]
        exact (agrees_step file (shorter older (List.suffix_refl _))).mpr (follow file older (List.suffix_refl _))
      · exact shorter rest inside

theorem Chain.suffix {file part : ScenarioFile files} {older rest : List (ScenarioFile files)}
    (chain : Chain files file older) (inside : part :: rest <:+ file :: older) : Chain files part rest := by
  induction chain with
  | root file alone =>
    rcases List.suffix_cons_iff.mp inside with same | inside
    · obtain ⟨rfl, rfl⟩ := List.cons.inj same
      exact .root part alone
    · cases List.suffix_nil.mp inside
  | included file parent older includes chain ih =>
    rcases List.suffix_cons_iff.mp inside with same | inside
    · obtain ⟨rfl, rfl⟩ := List.cons.inj same
      exact .included part parent older includes chain
    · exact ih inside

theorem Chain.before {file : ScenarioFile files} {older : List (ScenarioFile files)} (chain : Chain files file older) :
    Before file (merged older) := by
  unfold Before
  cases chain with
  | root _ alone => rw [alone]; rfl
  | included _ parent older includes chain => rw [includes]; exact chain.parsed

/-- A file and all it includes have the lists they should exactly when each of them gets lists
in which it finds what it needs. -/
theorem carries_iff {file : ScenarioFile files} {older : List (ScenarioFile files)} (chain : Chain files file older) :
    (∀ part rest after, part :: rest <:+ file :: older → Parsed files part.path after →
        Carries part.path after (applyChain (part :: rest))) ↔
      ∀ part rest before, part :: rest <:+ file :: older → Before part before → Follows part before := by
  have run := agrees_run (file :: older)
  constructor
  · intro carried part rest before inside included
    obtain rfl := included.merged (chain.suffix inside)
    apply run.mp
    · intro rest inside
      cases rest with
      | nil => exact agrees_start
      | cons part rest =>
        have here := carried part rest _ inside (chain.suffix inside).parsed
        exact { tags := here.tags, order := here.order, vars := here.vars }
    · exact inside
  · intro follow part rest after inside parsed
    obtain rfl := parsed.unique (chain.suffix inside).parsed
    apply Agrees.carries
    apply run.mpr ?_ _ inside
    intro part rest inside
    exact follow part rest _ inside (chain.suffix inside).before

/-- A file with a variable, and one that includes it and appends the variable again. -/
def overridingFiles : Files where
  contents := [
    (.lit "base.json", some (.object [(.lit "cmd", .object [
      (.lit "vars", .object [(.lit "x", newString (.lit "1"))])])])),
    (.lit "child.json", some (.object [(.lit "include", newString (.lit "base")), (.lit "cmd", .object [
      (.lit "vars:append", .object [(.lit "x", newString (.lit "2"))])])]))]
  lastErr := .lit ""

def overriddenBase : ScenarioFile overridingFiles where
  path := .lit "base.json"
  json := .object [(.lit "cmd", .object [(.lit "vars", .object [(.lit "x", newString (.lit "1"))])])]
  scenario := { cmd := { logLevel := none, vars := [(.lit "x", .lit "1")] } }
  found := rfl
  read := rfl

def overridingChild : ScenarioFile overridingFiles where
  path := .lit "child.json"
  json := .object [(.lit "include", newString (.lit "base")), (.lit "cmd", .object [
    (.lit "vars:append", .object [(.lit "x", newString (.lit "2"))])])]
  scenario := { included := some (.lit "base"), cmd := { logLevel := none, varsAppend := [(.lit "x", .lit "2")] } }
  found := rfl
  read := rfl

/-- The variable keeps its first value. -/
theorem overridingChild_hidden :
    Chain overridingFiles overridingChild [overriddenBase] ∧
      Parsed overridingFiles overridingChild.path { vars := [(.lit "x", .lit "1"), (.lit "x", .lit "2")] } ∧
      ¬ Carries overridingChild.path { vars := [(.lit "x", .lit "1"), (.lit "x", .lit "2")] }
        (applyChain [overridingChild, overriddenBase]) := by
  refine ⟨.included _ _ _ (by decide) (.root _ rfl), ⟨2, rfl⟩, ?_⟩
  intro carries
  have value := carries.vars (.lit "x")
  revert value
  decide

theorem overridingChild_carries :
    (∀ part rest after, part :: rest <:+ [overridingChild, overriddenBase] → Parsed overridingFiles part.path after →
        Carries part.path after (applyChain (part :: rest))) ↔
      ∀ part rest before, part :: rest <:+ [overridingChild, overriddenBase] → Before part before → Follows part before :=
  carries_iff (.included _ _ _ (by decide) (.root _ rfl))

end Chains
end Ltf.TestScenarios
