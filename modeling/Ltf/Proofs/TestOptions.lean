import Ltf.Base.Steps
import Ltf.CmdParser

/-! Each option of `ltf test` leaves the same value wherever it stands, except for the
tags, which a scenario adds to, and the target, which a scenario replaces. -/

namespace Ltf.Proofs.TestOptions
open CString Ltf.CmdParser

inductive TestItem where
  | logLevel (arg : CStr)
  | skipHooks
  | noLogs
  | ltfLibPath (arg : CStr)
  | tags (arg : CStr)
  | vars (arg : CStr)
  | scenario (arg : CStr)
  | internalLog
  | headless
  | help
deriving DecidableEq

/-- An option as it is given, by its short or its long name. -/
structure Given where
  item : TestItem
  short : Bool
deriving DecidableEq

def Given.words (given : Given) : List CStr :=
  match given.item with
  | .logLevel arg => [if given.short then .lit "-l" else .lit "--log-level", arg]
  | .skipHooks => [.lit "--skip-hooks"]
  | .noLogs => [if given.short then .lit "-n" else .lit "--no-logs"]
  | .ltfLibPath arg => [if given.short then .lit "-p" else .lit "--ltf-lib-path", arg]
  | .tags arg => [if given.short then .lit "-t" else .lit "--tags", arg]
  | .vars arg => [if given.short then .lit "-v" else .lit "--vars", arg]
  | .scenario arg => [if given.short then .lit "-s" else .lit "--scenario", arg]
  | .internalLog => [if given.short then .lit "-i" else .lit "--internal-log"]
  | .headless => [if given.short then .lit "-e" else .lit "--headless"]
  | .help => [if given.short then .lit "-h" else .lit "--help"]

/-- A target, if any, and the options behind it. -/
def commandLine (target : Option CStr) (given : List Given) : List CStr :=
  [.lit "ltf", .lit "test"] ++ target.toList ++ given.flatMap (·.words)

def apply (env : Surroundings) (opts : CmdTestOptions) : TestItem → Process CmdTestOptions
  | .logLevel arg => setLogLevel env arg opts
  | .skipHooks => setSkipHooks opts
  | .noLogs => setTestNoLogs opts
  | .ltfLibPath arg => setTestLtfLibPath arg opts
  | .tags arg => setTestTags arg opts
  | .vars arg => setTestVars arg opts
  | .scenario arg => setTestScenario env arg opts
  | .internalLog => setInternalLogging opts
  | .headless => setTestHeadless opts
  | .help => getTestHelp opts

variable (env : Surroundings)

theorem parse_words (given : List Given) (opts : CmdTestOptions) :
    parseAdditionalOptions (allTestOptions env) (given.flatMap (·.words)) opts =
      (given.map (·.item)).foldlM (apply env) opts := by
  induction given generalizing opts with
  | nil => simp [parseAdditionalOptions]
  | cons first rest ih =>
    obtain ⟨item, short⟩ := first
    rw [List.flatMap_cons, List.map_cons, List.foldlM_cons]
    generalize rest.flatMap (·.words) = argv at ih ⊢
    cases item <;> cases short
    all_goals
      simp only [Given.words, List.cons_append, List.nil_append, Bool.false_eq_true, if_true, if_false]
      rw [parseAdditionalOptions]
      simp +decide [allTestOptions, CmdOption.isPresent, apply, ← ih]

theorem parse_commandLine {target : Option CStr} (plain : ∀ word, target = some word → isPlainWord word = true)
    (given : List Given) :
    parseTestOptions env (commandLine target given) = (given.map (·.item)).foldlM (apply env) { target } := by
  rw [← parse_words]
  cases target with
  | some word => simp [parseTestOptions, commandLine, plain word rfl]
  | none =>
    cases given with
    | nil => simp [parseTestOptions, commandLine, parseAdditionalOptions]
    | cons first rest =>
      have option : ∃ word words, first.words = word :: words ∧ isPlainWord word = false := by
        obtain ⟨item, short⟩ := first
        cases item <;> cases short <;> exact ⟨_, _, rfl, rfl⟩
      obtain ⟨word, words, split, option⟩ := option
      simp [parseTestOptions, commandLine, split, option]

/-- A pair that `set_test_vars` refuses. -/
def Malformed (token : List UInt8) : Prop := ∀ eq, strchr token 61 = some eq → token.drop (eq + 1) = []

def pairOf (token : List UInt8) : KvPair :=
  let eq := (strchr token 61).getD 0
  (.ofBytes (token.take eq), .ofBytes (token.drop (eq + 1)))

def pairs (arg : CStr) : List KvPair := (strtok arg.bytes 44).map pairOf

/-- The options that end the process wherever they stand. -/
def Exits : TestItem → Prop
  | .logLevel arg => env.signedEnum = true ∧ ltfLogLevelFromStr arg = none
  | .vars arg => ∃ token ∈ strtok arg.bytes 44, Malformed token
  | .scenario arg => env.testScenarioParse arg = none
  | .help => True
  | _ => False

theorem setTestVar_malformed {token : List UInt8} (malformed : Malformed token) (opts : CmdTestOptions) :
    setTestVar opts token = .error (.exit exitFailure) := by
  cases found : strchr token 61 with
  | none => simp [setTestVar, found]
  | some eq => simp [setTestVar, found, malformed eq found]

theorem setTestVar_pair {token : List UInt8} (sound : ¬ Malformed token) (opts : CmdTestOptions) :
    setTestVar opts token = .ok { opts with vars := Assoc.put opts.vars (pairOf token) } := by
  simp only [Malformed, not_forall] at sound
  obtain ⟨eq, found, value⟩ := sound
  simp [setTestVar, found, value, pairOf]

theorem setTestVars_pairs {arg : CStr} (sound : ¬ Exits env (.vars arg)) (opts : CmdTestOptions) :
    setTestVars arg opts = .ok { opts with vars := (pairs arg).foldl Assoc.put opts.vars } := by
  have each : ∀ tokens : List (List UInt8), (∀ token ∈ tokens, ¬ Malformed token) → ∀ opts : CmdTestOptions,
      tokens.foldlM setTestVar opts = .ok { opts with vars := (tokens.map pairOf).foldl Assoc.put opts.vars } := by
    intro tokens sound
    induction tokens with
    | nil => exact fun _ => rfl
    | cons token tokens ih =>
      intro opts
      rw [List.foldlM_cons, setTestVar_pair (sound token (by simp))]
      exact ih (fun other inside => sound other (by simp [inside])) _
  exact each _ (fun token inside malformed => sound ⟨token, inside, malformed⟩) opts

theorem setTestVars_exits {arg : CStr} (exits : Exits env (.vars arg)) (opts : CmdTestOptions) :
    setTestVars arg opts = .error (.exit exitFailure) := by
  have each : ∀ tokens : List (List UInt8), (∃ token ∈ tokens, Malformed token) → ∀ opts : CmdTestOptions,
      tokens.foldlM setTestVar opts = .error (.exit exitFailure) := by
    intro tokens
    induction tokens with
    | nil => simp
    | cons token tokens ih =>
      intro bad opts
      obtain ⟨other, inside, malformed⟩ := bad
      rw [List.foldlM_cons]
      by_cases here : Malformed token
      · rw [setTestVar_malformed here]
        rfl
      · rw [setTestVar_pair here]
        have later : other ∈ tokens := by
          rcases List.mem_cons.mp inside with rfl | later
          · exact absurd malformed here
          · exact later
        exact ih ⟨other, later, malformed⟩ _
  exact each _ exits opts

theorem apply_ok (item : TestItem) (opts : CmdTestOptions) :
    (∃ after, apply env opts item = .ok after) ↔ ¬ Exits env item := by
  cases item with
  | logLevel arg =>
    cases level : ltfLogLevelFromStr arg <;> cases signed : env.signedEnum <;>
      simp [apply, setLogLevel, Exits, level, signed]
  | vars arg =>
    by_cases exits : Exits env (.vars arg)
    · simp [apply, setTestVars_exits env exits, exits]
    · simp [apply, setTestVars_pairs env exits, exits]
  | scenario arg =>
    cases found : env.testScenarioParse arg <;> simp [apply, setTestScenario, Exits, found, pure, Except.pure]
  | help => simp [apply, getTestHelp, Exits]
  | skipHooks => exact iff_of_true ⟨_, rfl⟩ id
  | noLogs => exact iff_of_true ⟨_, rfl⟩ id
  | ltfLibPath arg => exact iff_of_true ⟨_, rfl⟩ id
  | tags arg => exact iff_of_true ⟨_, rfl⟩ id
  | internalLog => exact iff_of_true ⟨_, rfl⟩ id
  | headless => exact iff_of_true ⟨_, rfl⟩ id

theorem run_ok (items : List TestItem) (opts : CmdTestOptions) :
    (∃ after, items.foldlM (apply env) opts = .ok after) ↔ ∀ item ∈ items, ¬ Exits env item := by
  induction items generalizing opts with
  | nil => simp [pure, Except.pure]
  | cons item items ih =>
    rw [List.foldlM_cons, List.forall_mem_cons, ← apply_ok env item opts]
    constructor
    · intro runs
      obtain ⟨after, ran⟩ := runs
      obtain ⟨middle, first, rest⟩ := Steps.bind_ok.mp ran
      exact ⟨⟨middle, first⟩, (ih middle).mp ⟨after, rest⟩⟩
    · intro runs
      obtain ⟨⟨middle, first⟩, rest⟩ := runs
      obtain ⟨after, ran⟩ := (ih middle).mpr rest
      exact ⟨after, Steps.bind_ok.mpr ⟨middle, first, ran⟩⟩

def levelArg : TestItem → Option CStr
  | .logLevel arg => some arg
  | _ => none

def libPathArg : TestItem → Option CStr
  | .ltfLibPath arg => some arg
  | _ => none

def tagsArg : TestItem → Option CStr
  | .tags arg => some arg
  | _ => none

def varsArg : TestItem → Option CStr
  | .vars arg => some arg
  | _ => none

def scenarioArg : TestItem → Option CStr
  | .scenario arg => some arg
  | _ => none

/-- Each option with a value is given at most once. -/
def AtMostOnce (items : List TestItem) : Prop :=
  ∀ arg ∈ [levelArg, libPathArg, tagsArg, varsArg, scenarioArg], (items.filterMap arg).length ≤ 1

/-- The argument of an option, if it is given. -/
def valueOf (arg : TestItem → Option CStr) (items : List TestItem) : Option CStr := (items.filterMap arg).head?

/-- What a command line says about everything but the target and the tags. -/
structure View where
  level : Option CStr
  libPath : Option CStr
  vars : Option CStr
  scenario : Option TestScenarioParsed
  skipHooks : Bool
  noLogs : Bool
  headless : Bool
  internalLog : Bool

def viewOf (items : List TestItem) : View where
  level := valueOf levelArg items
  libPath := valueOf libPathArg items
  vars := valueOf varsArg items
  scenario := (valueOf scenarioArg items).bind env.testScenarioParse
  skipHooks := decide (.skipHooks ∈ items)
  noLogs := decide (.noLogs ∈ items)
  headless := decide (.headless ∈ items)
  internalLog := decide (.internalLog ∈ items)

/-- The options that a view leads to. -/
structure Settled (target : Option CStr) (view : View) (opts : CmdTestOptions) : Prop where
  target : opts.target = (view.scenario.bind (·.target)).or target
  logLevelSet : opts.logLevelSet = view.level.isSome
  logLevel : opts.logLevel = (view.level.map ltfLogLevelFromStr).getD
    ((view.scenario.map (·.logLevel)).getD (some .info))
  libPath : opts.customLtfLibPath = view.libPath.or (view.scenario.bind (·.ltfLibPath))
  vars : ∀ key, opts.vars.lookup key =
    (view.vars.bind fun arg => (pairs arg).reverse.lookup key).or (view.scenario.bind (·.vars.lookup key))
  skipHooks : opts.skipHooks = (view.skipHooks || view.scenario.any (·.skipHooks))
  noLogs : opts.noLogs = (view.noLogs || view.scenario.any (·.noLogs))
  headless : opts.headless = (view.headless || view.scenario.any (·.headless))
  internalLogging : opts.internalLogging = view.internalLog

theorem valueOf_concat (arg : TestItem → Option CStr) (done : List TestItem) (item : TestItem) :
    valueOf arg (done ++ [item]) = (valueOf arg done).or (arg item) := by
  cases given : arg item <;> simp [valueOf, List.filterMap_append, List.head?_append, given]

theorem AtMostOnce.fresh {done : List TestItem} {item : TestItem} (once : AtMostOnce (done ++ [item]))
    {arg : TestItem → Option CStr} (known : arg ∈ [levelArg, libPathArg, tagsArg, varsArg, scenarioArg]) {value : CStr}
    (given : arg item = some value) : valueOf arg done = none := by
  have few := once arg known
  rw [List.filterMap_append, List.length_append] at few
  simp only [List.filterMap_cons, given, List.filterMap_nil, List.length_singleton] at few
  have empty : done.filterMap arg = [] := List.eq_nil_of_length_eq_zero (by omega)
  rw [valueOf, empty, List.head?_nil]

theorem AtMostOnce.front {done : List TestItem} {item : TestItem} (once : AtMostOnce (done ++ [item])) :
    AtMostOnce done := by
  intro arg known
  have few := once arg known
  rw [List.filterMap_append, List.length_append] at few
  omega

def View.add (view : View) : TestItem → View
  | .logLevel arg => { view with level := some arg }
  | .skipHooks => { view with skipHooks := true }
  | .noLogs => { view with noLogs := true }
  | .ltfLibPath arg => { view with libPath := some arg }
  | .tags _ => view
  | .vars arg => { view with vars := some arg }
  | .scenario arg => { view with scenario := env.testScenarioParse arg }
  | .internalLog => { view with internalLog := true }
  | .headless => { view with headless := true }
  | .help => view

theorem viewOf_concat {done : List TestItem} {item : TestItem} (once : AtMostOnce (done ++ [item])) :
    viewOf env (done ++ [item]) = (viewOf env done).add env item := by
  have levels := valueOf_concat levelArg done item
  have paths := valueOf_concat libPathArg done item
  have vars := valueOf_concat varsArg done item
  have scenarios := valueOf_concat scenarioArg done item
  cases item with
  | logLevel arg =>
    have fresh : valueOf levelArg done = none := once.fresh (by simp) rfl
    simp [viewOf, View.add, levels, paths, vars, scenarios, levelArg, libPathArg, varsArg, scenarioArg, fresh]
  | ltfLibPath arg =>
    have fresh : valueOf libPathArg done = none := once.fresh (by simp) rfl
    simp [viewOf, View.add, levels, paths, vars, scenarios, levelArg, libPathArg, varsArg, scenarioArg, fresh]
  | vars arg =>
    have fresh : valueOf varsArg done = none := once.fresh (by simp) rfl
    simp [viewOf, View.add, levels, paths, vars, scenarios, levelArg, libPathArg, varsArg, scenarioArg, fresh]
  | scenario arg =>
    have fresh : valueOf scenarioArg done = none := once.fresh (by simp) rfl
    simp [viewOf, View.add, levels, paths, vars, scenarios, levelArg, libPathArg, varsArg, scenarioArg, fresh]
  | _ => simp [viewOf, View.add, levels, paths, vars, scenarios, levelArg, libPathArg, varsArg, scenarioArg]

theorem Settled.next {target : Option CStr} {done : List TestItem} {opts after : CmdTestOptions} {item : TestItem}
    (settled : Settled target (viewOf env done) opts) (once : AtMostOnce (done ++ [item]))
    (applied : apply env opts item = .ok after) : Settled target (viewOf env (done ++ [item])) after := by
  rw [viewOf_concat env once]
  cases item with
  | skipHooks =>
    obtain rfl : _ = after := Except.ok.inj applied
    exact { settled with skipHooks := rfl }
  | noLogs =>
    obtain rfl : _ = after := Except.ok.inj applied
    exact { settled with noLogs := rfl }
  | internalLog =>
    obtain rfl : _ = after := Except.ok.inj applied
    exact { settled with internalLogging := rfl }
  | headless =>
    obtain rfl : _ = after := Except.ok.inj applied
    exact { settled with headless := rfl }
  | ltfLibPath arg =>
    obtain rfl : _ = after := Except.ok.inj applied
    exact { settled with libPath := rfl }
  | tags arg =>
    obtain rfl : _ = after := Except.ok.inj applied
    exact { settled with }
  | help => cases applied
  | logLevel arg =>
    have known : ¬ (env.signedEnum && (ltfLogLevelFromStr arg).isNone) := by
      intro unknown
      simp [apply, setLogLevel, unknown] at applied
    obtain rfl : _ = after := by simpa [apply, setLogLevel, known] using applied
    exact { settled with logLevelSet := rfl, logLevel := rfl }
  | vars arg =>
    have sound : ¬ Exits env (.vars arg) := (apply_ok env _ opts).mp ⟨after, applied⟩
    obtain rfl : _ = after := by simpa [apply, setTestVars_pairs env sound] using applied
    have fresh : (viewOf env done).vars = none := once.fresh (by simp) rfl
    have vars := settled.vars
    simp only [fresh, Option.bind_none, Option.none_or] at vars
    exact { settled with vars := fun key => by rw [Assoc.lookup_foldl_put, vars]; rfl }
  | scenario arg =>
    have sound : ¬ Exits env (.scenario arg) := (apply_ok env _ opts).mp ⟨after, applied⟩
    obtain ⟨sc, found⟩ := Option.ne_none_iff_exists'.mp sound
    obtain rfl : _ = after := by simpa [apply, setTestScenario, found, pure, Except.pure] using applied
    have fresh : (viewOf env done).scenario = none := by
      have given : valueOf scenarioArg done = none := once.fresh (by simp) rfl
      simp [viewOf, given]
    obtain ⟨target', levelSet, level, libPath, vars, skipHooks, noLogs, headless, internal⟩ := settled
    simp only [fresh, Option.bind_none, Option.none_or, Option.or_none, Option.any_none, Bool.or_false, Option.map_none,
      Option.getD_none] at target' level libPath vars skipHooks noLogs headless
    refine ⟨?_, levelSet, ?_, ?_, ?_, ?_, ?_, ?_, internal⟩
    · cases own : sc.target <;> simp [View.add, found, own, target']
    · cases given : (viewOf env done).level <;> simp [View.add, found, given, level, levelSet]
    · cases given : (viewOf env done).libPath <;> cases own : sc.ltfLibPath <;>
        simp [View.add, found, given, own, libPath]
    · intro key
      rw [Assoc.lookup_foldl_addMissing, vars]
      simp [View.add, found]
    · cases given : (viewOf env done).skipHooks <;> simp [View.add, found, given, skipHooks]
    · cases given : (viewOf env done).noLogs <;> simp [View.add, found, given, noLogs]
    · cases given : (viewOf env done).headless <;> simp [View.add, found, given, headless]

theorem settled_run {target : Option CStr} {items : List TestItem} {opts : CmdTestOptions} (once : AtMostOnce items)
    (ran : items.foldlM (apply env) { target } = .ok opts) : Settled target (viewOf env items) opts := by
  have start : Settled target (viewOf env []) { target } := by
    constructor <;> simp [viewOf, valueOf]
  have whole := Steps.loop_ok (fun done opts => AtMostOnce done → Settled target (viewOf env done) opts)
    (fun done item before after settled applied once => (settled once.front).next env once applied) (fun _ => start) ran
  exact whole once

def tagList (arg : CStr) : List CStr := stringSplitByDelim arg 44

def tagStep (tags : List CStr) : TestItem → List CStr
  | .tags arg => tagList arg
  | .scenario arg => if tags = [] then [] else tags ++ ((env.testScenarioParse arg).map (·.tags)).getD []
  | _ => tags

theorem apply_tags {opts after : CmdTestOptions} {item : TestItem} (applied : apply env opts item = .ok after) :
    after.tags = tagStep env opts.tags item := by
  cases item with
  | help => cases applied
  | logLevel arg =>
    simp only [apply, setLogLevel] at applied
    split at applied
    next => cases applied
    next => exact (Except.ok.inj applied) ▸ rfl
  | vars arg =>
    have sound : ¬ Exits env (.vars arg) := (apply_ok env _ opts).mp ⟨after, applied⟩
    obtain rfl : _ = after := by simpa [apply, setTestVars_pairs env sound] using applied
    rfl
  | scenario arg =>
    have sound : ¬ Exits env (.scenario arg) := (apply_ok env _ opts).mp ⟨after, applied⟩
    obtain ⟨sc, found⟩ := Option.ne_none_iff_exists'.mp sound
    obtain rfl : _ = after := by simpa [apply, setTestScenario, found, pure, Except.pure] using applied
    by_cases empty : opts.tags = [] <;> simp [tagStep, found, empty]
  | _ =>
    obtain rfl : _ = after := Except.ok.inj applied
    rfl

theorem run_tags {items : List TestItem} {before after : CmdTestOptions}
    (ran : items.foldlM (apply env) before = .ok after) :
    after.tags = items.foldl (tagStep env) before.tags := by
  have start : before.tags = ([] : List TestItem).foldl (tagStep env) before.tags := rfl
  have whole := Steps.loop_ok (fun done opts => opts.tags = done.foldl (tagStep env) before.tags)
    (fun done item middle after tags applied => by rw [apply_tags env applied, tags, List.foldl_append]; rfl) start ran
  exact whole

def scenarioTags (items : List TestItem) : List CStr :=
  (((valueOf scenarioArg items).bind env.testScenarioParse).map (·.tags)).getD []

theorem tags_kept {items : List TestItem} (noTags : items.filterMap tagsArg = [])
    (once : (items.filterMap scenarioArg).length ≤ 1)
    (tags : List CStr) : items.foldl (tagStep env) tags = if tags = [] then [] else tags ++ scenarioTags env items := by
  induction items generalizing tags with
  | nil => by_cases empty : tags = [] <;> simp [scenarioTags, valueOf, empty]
  | cons item items ih =>
    cases item with
    | tags arg => simp [tagsArg] at noTags
    | scenario arg =>
      have alone : items.filterMap scenarioArg = [] := by simpa [scenarioArg] using once
      rw [List.foldl_cons, ih (by simpa [tagsArg] using noTags) (by simp [alone])]
      by_cases empty : tags = [] <;> simp [tagStep, scenarioTags, valueOf, alone, empty, scenarioArg]
    | _ => exact ih noTags once tags

theorem tags_given {before rest : List TestItem} {arg : CStr} (once : AtMostOnce (before ++ .tags arg :: rest))
    (tags : List CStr) :
    (before ++ .tags arg :: rest).foldl (tagStep env) tags =
      if tagList arg = [] then [] else tagList arg ++ scenarioTags env rest := by
  have tagsOnce := once tagsArg (by simp)
  have scenarioOnce := once scenarioArg (by simp)
  rw [List.filterMap_append, List.length_append] at tagsOnce scenarioOnce
  simp only [List.filterMap_cons, tagsArg, scenarioArg, List.length_cons] at tagsOnce scenarioOnce
  have noTags : rest.filterMap tagsArg = [] := List.eq_nil_of_length_eq_zero (by omega)
  rw [List.foldl_append, List.foldl_cons, tags_kept env noTags (by omega)]
  rfl

/-- Two results of parsing, their variables compared as maps. -/
structure Same (first second : CmdTestOptions) : Prop where
  target : first.target = second.target
  tags : first.tags = second.tags
  vars : ∀ key, first.vars.lookup key = second.vars.lookup key
  logLevel : first.logLevel = second.logLevel
  libPath : first.customLtfLibPath = second.customLtfLibPath
  skipHooks : first.skipHooks = second.skipHooks
  noLogs : first.noLogs = second.noLogs
  headless : first.headless = second.headless
  internalLogging : first.internalLogging = second.internalLogging

def Agree : Process CmdTestOptions → Process CmdTestOptions → Prop
  | .ok first, .ok second => Same first second
  | .error _, .error _ => True
  | _, _ => False

/-- Every value given on the command line is in the options. Of a variable that is
given more than once in one argument, the last value is. -/
structure Wins (target : Option CStr) (items : List TestItem) (opts : CmdTestOptions) : Prop where
  target : ∀ word, target = some word → opts.target = some word
  tags : ∀ arg, .tags arg ∈ items → opts.tags = tagList arg
  vars : ∀ arg, .vars arg ∈ items → ∀ key value, (pairs arg).reverse.lookup key = some value →
    opts.vars.lookup key = some value
  logLevel : ∀ arg, .logLevel arg ∈ items → opts.logLevel = ltfLogLevelFromStr arg
  libPath : ∀ arg, .ltfLibPath arg ∈ items → opts.customLtfLibPath = some arg
  skipHooks : .skipHooks ∈ items → opts.skipHooks = true
  noLogs : .noLogs ∈ items → opts.noLogs = true
  headless : .headless ∈ items → opts.headless = true
  internalLogging : .internalLog ∈ items → opts.internalLogging = true

/-- Without tags on the command line, the tags are those of the scenario. -/
def TagsTaken (items : List TestItem) (opts : CmdTestOptions) : Prop :=
  (∀ arg, .tags arg ∉ items) → ∀ arg sc, .scenario arg ∈ items → env.testScenarioParse arg = some sc → sc.tags ≠ [] →
    opts.tags = sc.tags

/-- The order of the options does not matter, and the command line wins over the scenario. -/
def CommandLineWins (target : Option CStr) (given : List Given) : Prop :=
  ∀ order : List Given, order.Perm given →
    Agree (parseTestOptions env (commandLine target order)) (parseTestOptions env (commandLine target given)) ∧
    ∀ opts, parseTestOptions env (commandLine target order) = .ok opts →
      Wins target (given.map (·.item)) opts ∧ TagsTaken env (given.map (·.item)) opts

/-- No scenario has tags, or tags are asked for and there are none in the list. -/
def TagsFree (items : List TestItem) : Prop :=
  ∀ arg sc, .scenario arg ∈ items → env.testScenarioParse arg = some sc →
    sc.tags = [] ∨ ∃ arg, .tags arg ∈ items ∧ tagList arg = []

/-- No scenario has a target other than that on the command line. -/
def TargetFree (target : Option CStr) (items : List TestItem) : Prop :=
  ∀ arg sc, .scenario arg ∈ items → env.testScenarioParse arg = some sc →
    ∀ word other, target = some word → sc.target = some other → word = other

theorem valueOf_some {arg : TestItem → Option CStr} {items : List TestItem} (few : (items.filterMap arg).length ≤ 1)
    {item : TestItem} {value : CStr} (inside : item ∈ items) (given : arg item = some value) :
    valueOf arg items = some value := by
  have found : value ∈ items.filterMap arg := List.mem_filterMap.mpr ⟨item, inside, given⟩
  match values : items.filterMap arg, few with
  | [], _ => simp [values] at found
  | [only], _ =>
    obtain rfl : value = only := by simpa [values] using found
    simp [valueOf, values]

theorem valueOf_mem {arg : TestItem → Option CStr} {items : List TestItem} {value : CStr}
    (given : valueOf arg items = some value) :
    ∃ item ∈ items, arg item = some value :=
  List.mem_filterMap.mp (List.mem_of_mem_head? given)

theorem AtMostOnce.perm {items order : List TestItem} (once : AtMostOnce items) (same : order.Perm items) :
    AtMostOnce order :=
  fun arg known => (same.filterMap arg).length_eq ▸ once arg known

theorem valueOf_perm {items order : List TestItem} {arg : TestItem → Option CStr}
    (few : (items.filterMap arg).length ≤ 1)
    (same : order.Perm items) : valueOf arg order = valueOf arg items := by
  cases given : valueOf arg order with
  | none =>
    have empty : order.filterMap arg = [] := by simpa [valueOf] using given
    have none : items.filterMap arg = [] := (empty ▸ (same.filterMap arg).symm).eq_nil
    rw [valueOf, none, List.head?_nil]
  | some value =>
    obtain ⟨item, inside, known⟩ := valueOf_mem given
    exact (valueOf_some few (same.mem_iff.mp inside) known).symm

theorem viewOf_perm {items order : List TestItem} (once : AtMostOnce items) (same : order.Perm items) :
    viewOf env order = viewOf env items := by
  simp only [viewOf, valueOf_perm (once levelArg (by simp)) same, valueOf_perm (once libPathArg (by simp)) same,
    valueOf_perm (once varsArg (by simp)) same, valueOf_perm (once scenarioArg (by simp)) same, same.mem_iff]

theorem tagsArg_eq {item : TestItem} {arg : CStr} : tagsArg item = some arg ↔ item = .tags arg := by
  cases item <;> simp [tagsArg]

theorem scenarioArg_eq {item : TestItem} {arg : CStr} : scenarioArg item = some arg ↔ item = .scenario arg := by
  cases item <;> simp [scenarioArg]

theorem scenarioTags_eq {items : List TestItem} (few : (items.filterMap scenarioArg).length ≤ 1) {arg : CStr}
    {sc : TestScenarioParsed} (given : .scenario arg ∈ items) (found : env.testScenarioParse arg = some sc) :
    scenarioTags env items = sc.tags := by
  rw [scenarioTags, valueOf_some few given rfl, Option.bind_some, found, Option.map_some, Option.getD_some]

theorem scenarioTags_nil {items : List TestItem}
    (empty : ∀ arg sc, .scenario arg ∈ items → env.testScenarioParse arg = some sc → sc.tags = []) :
    scenarioTags env items = [] := by
  unfold scenarioTags
  cases named : valueOf scenarioArg items with
  | none => rfl
  | some arg =>
    obtain ⟨item, inside, known⟩ := valueOf_mem named
    obtain rfl := scenarioArg_eq.mp known
    cases found : env.testScenarioParse arg with
    | none => simp [found]
    | some sc => simp [found, empty arg sc inside found]

section Settled
variable {target : Option CStr} {items order : List TestItem} {opts : CmdTestOptions}

theorem tags_settled (once : AtMostOnce items) (free : TagsFree env items) (same : order.Perm items)
    (ran : order.foldlM (apply env) { target } = .ok opts) :
    opts.tags = ((valueOf tagsArg items).map tagList).getD [] := by
  have once' := once.perm same
  rw [run_tags env ran, ← valueOf_perm (once tagsArg (by simp)) same]
  cases given : valueOf tagsArg order with
  | none =>
    have noTags : order.filterMap tagsArg = [] := by simpa [valueOf] using given
    rw [tags_kept env noTags (once' scenarioArg (by simp)), if_pos rfl]
    rfl
  | some arg =>
    obtain ⟨item, inside, known⟩ := valueOf_mem given
    obtain rfl := tagsArg_eq.mp known
    obtain ⟨before, rest, rfl⟩ := List.append_of_mem inside
    rw [tags_given env once', Option.map_some, Option.getD_some]
    split
    next empty => exact empty.symm
    next asked =>
      have none : scenarioTags env rest = [] := by
        apply scenarioTags_nil
        intro name sc among found
        rcases free name sc (same.mem_iff.mp (by simp [among])) found with empty | ⟨other, asked', empty⟩
        · exact empty
        · have only := valueOf_some (once' tagsArg (by simp)) (same.mem_iff.mpr asked') rfl
          rw [given, Option.some.injEq] at only
          exact absurd (only ▸ empty) asked
      rw [none, List.append_nil]

theorem Settled.same {view : View} {other : CmdTestOptions} (first : Settled target view opts)
    (second : Settled target view other)
    (tags : opts.tags = other.tags) : Same opts other where
  target := first.target.trans second.target.symm
  tags := tags
  vars key := (first.vars key).trans (second.vars key).symm
  logLevel := first.logLevel.trans second.logLevel.symm
  libPath := first.libPath.trans second.libPath.symm
  skipHooks := first.skipHooks.trans second.skipHooks.symm
  noLogs := first.noLogs.trans second.noLogs.symm
  headless := first.headless.trans second.headless.symm
  internalLogging := first.internalLogging.trans second.internalLogging.symm

theorem Settled.wins (settled : Settled target (viewOf env items) opts) (once : AtMostOnce items)
    (targetWins : ∀ word, target = some word → opts.target = some word)
    (tagsWin : ∀ arg, .tags arg ∈ items → opts.tags = tagList arg) :
    Wins target items opts where
  target := targetWins
  tags := tagsWin
  vars arg given key value last := by
    have known : (viewOf env items).vars = some arg := valueOf_some (once varsArg (by simp)) given rfl
    rw [settled.vars, known, Option.bind_some, last, Option.some_or]
  logLevel arg given := by
    have known : (viewOf env items).level = some arg := valueOf_some (once levelArg (by simp)) given rfl
    rw [settled.logLevel, known, Option.map_some, Option.getD_some]
  libPath arg given := by
    have known : (viewOf env items).libPath = some arg := valueOf_some (once libPathArg (by simp)) given rfl
    rw [settled.libPath, known, Option.some_or]
  skipHooks given := by simp [settled.skipHooks, viewOf, given]
  noLogs given := by simp [settled.noLogs, viewOf, given]
  headless given := by simp [settled.headless, viewOf, given]
  internalLogging given := by simp [settled.internalLogging, viewOf, given]

theorem Settled.scenario_target (settled : Settled target (viewOf env items) opts) (once : AtMostOnce items)
    {arg : CStr}
    {sc : TestScenarioParsed} (given : .scenario arg ∈ items) (found : env.testScenarioParse arg = some sc) :
    opts.target = sc.target.or target := by
  have known : valueOf scenarioArg items = some arg := valueOf_some (once scenarioArg (by simp)) given rfl
  rw [settled.target, viewOf, known, Option.bind_some, found, Option.bind_some]

theorem Settled.target_wins (settled : Settled target (viewOf env items) opts) (free : TargetFree env target items) :
    ∀ word, target = some word → opts.target = some word := by
  intro word equal
  subst equal
  rw [settled.target]
  cases scenario : (viewOf env items).scenario with
  | none => rfl
  | some sc =>
    obtain ⟨arg, named, found⟩ := Option.bind_eq_some_iff.mp scenario
    obtain ⟨item, given, known⟩ := valueOf_mem named
    obtain rfl := scenarioArg_eq.mp known
    cases other : sc.target with
    | none => simp [other]
    | some other' => simp [other, free arg sc given found word other' rfl other]

end Settled

section Order
variable {target : Option CStr} {given order : List Given} {opts : CmdTestOptions}
  (plain : ∀ word, target = some word → isPlainWord word = true)
include plain

theorem order_runs (same : order.Perm given) :
    (∃ opts, parseTestOptions env (commandLine target order) = .ok opts) ↔
      ∀ item ∈ given.map (·.item), ¬ Exits env item := by
  rw [parse_commandLine env plain, run_ok]
  apply forall_congr'
  intro item
  rw [(same.map _).mem_iff]

theorem order_stops (same : order.Perm given) (ends : ∃ item ∈ given.map (·.item), Exits env item) :
    ∃ stop, parseTestOptions env (commandLine target order) = .error stop := by
  obtain ⟨item, inside, exits⟩ := ends
  cases ran : parseTestOptions env (commandLine target order) with
  | ok opts => exact absurd exits ((order_runs env plain same).mp ⟨opts, ran⟩ item inside)
  | error stop => exact ⟨stop, rfl⟩

theorem order_settled (once : AtMostOnce (given.map (·.item))) (same : order.Perm given)
    (ran : parseTestOptions env (commandLine target order) = .ok opts) :
    Settled target (viewOf env (given.map (·.item))) opts := by
  have same' : (order.map (·.item)).Perm (given.map (·.item)) := same.map _
  rw [parse_commandLine env plain] at ran
  rw [← viewOf_perm env once same']
  exact settled_run env (once.perm same') ran

theorem order_tags (once : AtMostOnce (given.map (·.item))) (free : TagsFree env (given.map (·.item)))
    (same : order.Perm given)
    (ran : parseTestOptions env (commandLine target order) = .ok opts) :
    opts.tags = ((valueOf tagsArg (given.map (·.item))).map tagList).getD [] := by
  rw [parse_commandLine env plain] at ran
  exact tags_settled env once free (same.map _) ran

theorem wins_of_stopped (ends : ∃ item ∈ given.map (·.item), Exits env item) : CommandLineWins env target given := by
  intro order same
  obtain ⟨stop, ran⟩ := order_stops env plain same ends
  obtain ⟨stop', ran'⟩ := order_stops env plain (.refl given) ends
  rw [ran, ran']
  refine ⟨trivial, ?_⟩
  intro opts ok
  cases ok

theorem wins_of_free (once : AtMostOnce (given.map (·.item))) (goes : ∀ item ∈ given.map (·.item), ¬ Exits env item)
    (tagsFree : TagsFree env (given.map (·.item))) (targetFree : TargetFree env target (given.map (·.item))) :
    CommandLineWins env target given := by
  intro order same
  constructor
  · obtain ⟨first, ran⟩ := (order_runs env plain same).mpr goes
    obtain ⟨second, ran'⟩ := (order_runs env plain (.refl given)).mpr goes
    have tags :=
      (order_tags env plain once tagsFree same ran).trans (order_tags env plain once tagsFree (.refl given) ran').symm
    rw [ran, ran']
    exact (order_settled env plain once same ran).same (order_settled env plain once (.refl given) ran') tags
  · intro opts ran
    have settled := order_settled env plain once same ran
    constructor
    · apply settled.wins env once (settled.target_wins env targetFree)
      intro arg asked
      rw [order_tags env plain once tagsFree same ran, valueOf_some (once tagsArg (by simp)) asked rfl]
      rfl
    · intro untagged arg sc scenario found own
      rcases tagsFree arg sc scenario found with empty | ⟨arg, asked, -⟩
      · exact absurd empty own
      · exact absurd asked (untagged arg)

variable (wins : CommandLineWins env target given) (goes : ∀ item ∈ given.map (·.item), ¬ Exits env item)
include wins goes

/-- With the tags option in front the tags of the scenario are added to its own. -/
theorem no_tags_behind (once : AtMostOnce (given.map (·.item))) {tags arg : CStr}
    (tagged : .tags tags ∈ given.map (·.item))
    (asked : tagList tags ≠ []) {sc : TestScenarioParsed} (scenario : .scenario arg ∈ given.map (·.item))
    (found : env.testScenarioParse arg = some sc) : sc.tags = [] := by
  obtain ⟨first, inside, front⟩ := List.mem_map.mp tagged
  have same : (first :: given.erase first).Perm given := (List.perm_cons_erase inside).symm
  obtain ⟨opts, ran⟩ := (order_runs env plain same).mpr goes
  have won := ((wins _ same).2 opts ran).1.tags tags tagged
  have same' : ((first :: given.erase first).map (·.item)).Perm (given.map (·.item)) := same.map _
  rw [List.map_cons, front] at same'
  rw [parse_commandLine env plain, List.map_cons, front] at ran
  have few : (((given.erase first).map (·.item)).filterMap scenarioArg).length ≤ 1 :=
    once.perm same' scenarioArg (by simp)
  have later : .scenario arg ∈ (given.erase first).map (·.item) := by
    simpa using (same'.mem_iff (a := .scenario arg)).mpr scenario
  have added := (run_tags env ran).trans (@tags_given env [] _ tags (once.perm same') [])
  rw [if_neg asked, scenarioTags_eq env few later found, won] at added
  exact List.append_right_eq_self.mp added.symm

/-- Without the tags option the tags of the scenario are dropped. -/
theorem no_tags_alone (once : AtMostOnce (given.map (·.item))) (untagged : ∀ tags, .tags tags ∉ given.map (·.item))
    {arg : CStr}
    {sc : TestScenarioParsed} (scenario : .scenario arg ∈ given.map (·.item))
    (found : env.testScenarioParse arg = some sc) :
    sc.tags = [] := by
  obtain ⟨opts, ran⟩ := (order_runs env plain (.refl given)).mpr goes
  have taken := ((wins given (.refl _)).2 opts ran).2 untagged arg sc scenario found
  have none : (given.map (·.item)).filterMap tagsArg = [] := by
    apply List.filterMap_eq_nil_iff.mpr
    intro item inside
    cases tags : tagsArg item with
    | none => rfl
    | some arg => exact absurd (tagsArg_eq.mp tags ▸ inside) (untagged arg)
  rw [parse_commandLine env plain] at ran
  have empty := (run_tags env ran).trans (tags_kept env none (once scenarioArg (by simp)) [])
  rw [if_pos rfl] at empty
  by_contra own
  exact own ((taken own).symm.trans empty)

theorem tagsFree_of_wins (once : AtMostOnce (given.map (·.item))) : TagsFree env (given.map (·.item)) := by
  intro arg sc scenario found
  by_cases tagged : ∃ tags, .tags tags ∈ given.map (·.item)
  · obtain ⟨tags, tagged⟩ := tagged
    by_cases asked : tagList tags = []
    · exact .inr ⟨tags, tagged, asked⟩
    · exact .inl (no_tags_behind env plain wins goes once tagged asked scenario found)
  · exact .inl (no_tags_alone env plain wins goes once (not_exists.mp tagged) scenario found)

theorem targetFree_of_wins (once : AtMostOnce (given.map (·.item))) : TargetFree env target (given.map (·.item)) := by
  intro arg sc scenario found word other named own
  obtain ⟨opts, ran⟩ := (order_runs env plain (.refl given)).mpr goes
  have won := ((wins given (.refl _)).2 opts ran).1.target word named
  rw [(order_settled env plain once (.refl given) ran).scenario_target env once scenario found, own] at won
  exact (Option.some.inj won).symm

end Order

/-- The order of the options does not matter and the command line wins exactly when an
option ends the process or no scenario has tags or another target. -/
theorem command_line_wins_iff (target : Option CStr) (given : List Given)
    (plain : ∀ word, target = some word → isPlainWord word = true) (once : AtMostOnce (given.map (·.item))) :
    CommandLineWins env target given ↔ (∃ item ∈ given.map (·.item), Exits env item) ∨
      TagsFree env (given.map (·.item)) ∧ TargetFree env target (given.map (·.item)) := by
  by_cases ends : ∃ item ∈ given.map (·.item), Exits env item
  · exact iff_of_true (wins_of_stopped env plain ends) (.inl ends)
  · have goes : ∀ item ∈ given.map (·.item), ¬ Exits env item := by
      intro item inside exits
      exact ends ⟨item, inside, exits⟩
    constructor
    · intro wins
      exact .inr ⟨tagsFree_of_wins env plain wins goes once, targetFree_of_wins env plain wins goes once⟩
    · intro free
      obtain ⟨tagsFree, targetFree⟩ := free.resolve_left ends
      exact wins_of_free env plain once goes tagsFree targetFree

def withScenario (sc : TestScenarioParsed) : Surroundings where
  testScenarioParse _ := some sc
  signedEnum := false

def nightly : List Given :=
  [{ item := .scenario (.lit "nightly.json"), short := true }, { item := .tags (.lit "smoke,slow"), short := true },
   { item := .logLevel (.lit "debug"), short := false }, { item := .headless, short := false }]

theorem command_line_wins_nightly :
    CommandLineWins (withScenario { vars := [(.lit "port", .lit "80")], logLevel := some .error })
      (some (.lit "board")) nightly := by
  refine (command_line_wins_iff _ (some (.lit "board")) nightly ?_ ?_).mpr (.inr ⟨?_, ?_⟩)
  · intro _ found
    cases found
    decide
  · simp only [AtMostOnce, List.forall_mem_cons]
    decide
  · intro arg sc _ found
    cases found
    exact .inl rfl
  · intro arg sc _ found word other _ named
    cases found
    cases named

theorem scenario_tags_dropped :
    ¬ CommandLineWins (withScenario { tags := [.lit "smoke"] }) none
      [{ item := .scenario (.lit "nightly.json"), short := true }] := by
  intro wins
  have taken := ((wins _ (.refl _)).2 _ rfl).2 (by simp) (.lit "nightly.json") _ (by simp) rfl (by simp)
  cases taken

end Ltf.Proofs.TestOptions
