import Ltf.Base.Removal
import Ltf.Base.Steps
import Ltf.Proofs.Duplicates
import Ltf.Proofs.TestRegistry
import Ltf.Vars

/-! Variables that were registered are parsed against the overrides of the command line and
the scenario: when this succeeds and which value each variable then has. -/

namespace Ltf.Vars
open CString CmdParser Ledger Proofs.Duplicates

/-- A registered variable before it is parsed. -/
structure Declared (e : VarEntry) : Prop where
  constant : e.isScalar = true → e.scalar.isSome = true
  plain : e.isScalar = true → e.values = none
  default : e.isScalar = false → ∀ defValue, e.defValue = some defValue → e.values.getD [] ≠ [] →
    defValue ∈ e.values.getD []
  fresh : e.finalValue = none

section Register
variable {lua : LuaChoices}

theorem readDefault_ok {name : CStr} {values : DaPtr CStr} {default : LuaValue} {defValue : CStr}
    (read : readDefault lua name values default = .ok (some defValue)) (some_values : values.getD [] ≠ []) :
    defValue ∈ values.getD [] := by
  unfold readDefault at read
  split at read
  next => cases read
  next =>
    cases found : lua.toString default with
    | none => rw [found] at read; cases read
    | some bytes =>
      simp only [found] at read
      split at read
      next => cases read
      next allowed =>
        cases read
        have positive : daSize values > 0 := List.length_pos_iff.mpr some_values
        simpa [positive] using allowed

theorem readVar_ok {name : CStr} {value : VarValue} {e : VarEntry} (read : readVar lua name value = .ok e) :
    Declared e := by
  cases value with
  | string bytes =>
    cases read
    exact {
      constant := fun _ => rfl
      plain := fun _ => rfl
      default := fun is_table => (nomatch is_table)
      fresh := rfl }
  | table values default =>
    obtain ⟨values, -, read⟩ := Steps.bind_ok.mp read
    obtain ⟨defValue, defaultRead, read⟩ := Steps.bind_ok.mp read
    cases read
    exact {
      constant := fun is_scalar => (nomatch is_scalar)
      plain := fun is_scalar => (nomatch is_scalar)
      default := by
        rintro - defValue rfl some_values
        exact readDefault_ok defaultRead some_values
      fresh := rfl }
  | other => cases read

theorem readVars_ok {table : VarsTable} {fuel : Nat} {key : Option LuaValue} {vars new : List VarEntry}
    (declared : ∀ e ∈ vars, Declared e) (read : readVars lua table fuel key vars = some (.ok new)) :
    ∀ e ∈ new, Declared e := by
  induction fuel generalizing key vars with
  | zero => cases read
  | succ fuel ih =>
    unfold readVars at read
    split at read
    next => cases read
    next => cases read; exact declared
    next =>
      split at read
      next => cases read
      next =>
        split at read
        next => cases read
        next e readOne =>
          refine ih ?_ read
          intro other inside
          rcases List.mem_append.mp inside with earlier | now
          · exact declared other earlier
          · rw [List.mem_singleton.mp now]
            exact readVar_ok readOne

theorem registerVars_ok {fuel : Nat} {args : List (Option VarsTable)} {vars after : DaPtr VarEntry}
    (declared : ∀ e ∈ vars.getD [], Declared e) (registered : registerVars lua fuel args vars = some (.ok after)) :
    ∀ e ∈ after.getD [], Declared e := by
  induction args generalizing vars with
  | nil => cases registered; exact declared
  | cons arg args ih =>
    unfold registerVars at registered
    split at registered
    next middle accepted =>
      refine ih ?_ registered
      cases arg with
      | none => cases accepted
      | some table =>
        obtain ⟨result, read, mapped⟩ := Option.map_eq_some_iff.mp accepted
        cases result with
        | error err => cases mapped
        | ok new =>
          cases mapped
          intro e inside
          rcases List.mem_append.mp inside with earlier | now
          · exact declared e earlier
          · exact readVars_ok (by simp) read e now
    next stopped => exact absurd registered (stopped after)

end Register

section Described
variable (lua : LuaChoices)

/-- The variable that an entry of a table describes. -/
def describedVar (entry : LuaValue × VarValue) : Option VarEntry := do
  let name ← TestCases.describedText lua entry.1
  match entry.2 with
  | .string bytes => return { name, isScalar := true, scalar := some (.ofBytes bytes) }
  | .table values default =>
    let values ← TestCases.describedTags lua values
    let defValue ← TestCases.describedDesc lua default
    return { name, values, defValue }
  | .other => none

variable {lua}

theorem readValues_described {field : ArrayField} {values : DaPtr CStr} (read : readValues lua field = .ok values) :
    TestCases.describedTags lua field = some values := by
  cases field with
  | nil => cases read; rfl
  | other => cases read
  | table items =>
    have means := @TestCases.readStringArray_means lua items {}
    rw [readValues] at read
    cases ran : readStringArray lua items {} with
    | mk result book =>
      rw [ran] at read means
      cases result with
      | error err => cases read
      | ok tags =>
        cases read
        rw [TestCases.describedTags, means]
        rfl

theorem readDefault_described {name : CStr} {values : DaPtr CStr} {default : LuaValue} {defValue : Option CStr}
    (read : readDefault lua name values default = .ok defValue) : TestCases.describedDesc lua default = some defValue := by
  unfold readDefault at read
  unfold TestCases.describedDesc TestCases.describedText
  split at read
  next absent => cases read; rw [if_pos absent]
  next there =>
    rw [if_neg there]
    cases text : lua.toString default with
    | none => rw [text] at read; cases read
    | some bytes =>
      simp only [text] at read
      split at read
      · cases read
      · cases read
        rfl

theorem readVar_described {key : LuaValue} {bytes : List UInt8} (text : lua.toString key = some bytes) {value : VarValue}
    {e : VarEntry} (read : readVar lua (.ofBytes bytes) value = .ok e) : describedVar lua (key, value) = some e := by
  have name : TestCases.describedText lua key = some (.ofBytes bytes) := by rw [TestCases.describedText, text]; rfl
  rw [describedVar, name]
  cases value with
  | string bytes => cases read; rfl
  | table values default =>
    obtain ⟨values', valuesRead, read⟩ := Steps.bind_ok.mp read
    obtain ⟨defValue, defaultRead, read⟩ := Steps.bind_ok.mp read
    cases read
    simp only [readValues_described valuesRead, readDefault_described defaultRead]
    rfl
  | other => cases read

/-- Behind an entry whose key is no other's comes the next one. -/
theorem luaNext_behind {done rest : VarsTable} {key : LuaValue} {value : VarValue} (fresh : key ∉ done.map Prod.fst) :
    luaNext (done ++ (key, value) :: rest) (some key) = .ok rest.head? := by
  have none_before : done.findIdx? (fun entry => decide (entry.1 = key)) = none := by
    rw [List.findIdx?_eq_none_iff]
    intro entry inside
    apply decide_eq_false
    rintro rfl
    exact fresh (List.mem_map_of_mem inside)
  have here : (done ++ (key, value) :: rest).findIdx? (fun entry => decide (entry.1 = key)) = some done.length := by
    rw [List.findIdx?_append, none_before]
    simp [List.findIdx?_cons]
  simp only [luaNext, here]
  cases rest <;> simp

/-- Of a table whose keys are strings every entry is registered, in the order of the table. -/
theorem readVars_described {table : VarsTable} (keys : ∀ entry ∈ table, ∃ bytes, entry.1 = .string bytes)
    (distinct : (table.map Prod.fst).Nodup) {fuel : Nat} {new : List VarEntry}
    (read : readVars lua table fuel none [] = some (.ok new)) :
    List.Forall₂ (fun entry e => describedVar lua entry = some e) table new := by
  have go : ∀ (fuel : Nat) (done rest : VarsTable) (key : Option LuaValue) (vars : List VarEntry), table = done ++ rest →
      luaNext table key = .ok rest.head? → readVars lua table fuel key vars = some (.ok new) →
      ∃ more, new = vars ++ more ∧ List.Forall₂ (fun entry e => describedVar lua entry = some e) rest more := by
    intro fuel
    induction fuel with
    | zero => exact fun done rest key vars split next read => nomatch read
    | succ fuel ih =>
      intro done rest key vars split next read
      rw [readVars, next] at read
      cases rest with
      | nil =>
        cases read
        exact ⟨[], (List.append_nil _).symm, .nil⟩
      | cons entry rest =>
        obtain ⟨key, value⟩ := entry
        obtain ⟨bytes, rfl⟩ : ∃ bytes, key = .string bytes := keys (key, value) (by simp [split])
        simp only [List.head?_cons, show lua.toString (.string bytes) = some bytes from rfl] at read
        cases readOne : readVar lua (.ofBytes bytes) value with
        | error err => rw [readOne] at read; cases read
        | ok e =>
          simp only [readOne] at read
          have fresh : LuaValue.string bytes ∉ done.map Prod.fst := by
            rw [split, List.map_append, List.map_cons] at distinct
            exact fun inside => List.disjoint_of_nodup_append distinct inside List.mem_cons_self
          have behind : luaNext table (some (.string bytes)) = .ok rest.head? := by
            rw [split]
            exact luaNext_behind fresh
          obtain ⟨more, same, described⟩ :=
            ih (done ++ [(.string bytes, value)]) rest _ _ (by rw [split, List.append_assoc]; rfl) behind read
          exact ⟨e :: more, by rw [same, List.append_assoc]; rfl, .cons (readVar_described rfl readOne) described⟩
  obtain ⟨more, same, described⟩ := go fuel [] table none [] rfl rfl read
  rw [same]
  exact described

end Described

section Parse
variable {overrides : List KvPair} {e : VarEntry}

/-- The constant, else the override, else the default. -/
def finalFor (overrides : List KvPair) (e : VarEntry) : Option CStr :=
  if e.isScalar then e.scalar else (overrides.lookup e.name).or e.defValue

/-- What a variable needs to get its value. -/
structure Parses (overrides : List KvPair) (e : VarEntry) : Prop where
  constant : e.isScalar = true → overrides.lookup e.name = none
  required : e.isScalar = false → e.defValue = none → (overrides.lookup e.name).isSome = true
  allowed : e.isScalar = false → ∀ value, overrides.lookup e.name = some value → e.values.getD [] ≠ [] →
    value ∈ e.values.getD []

/-- One variable: nothing is reported exactly when it has what it needs, and then it has its
value. -/
theorem parseVar_cases (fresh : e.finalValue = none) :
    (Parses overrides e ∧ parseVar overrides e = ({ e with finalValue := finalFor overrides e }, [])) ∨
      (¬ Parses overrides e ∧ (parseVar overrides e).2 ≠ []) := by
  have looked := Assoc.find_snd overrides e.name
  unfold parseVar finalFor
  cases found : overrides.find? (e.name = ·.1) with
  | none =>
    rw [found, Option.map_none] at looked
    cases scalar : e.isScalar with
    | true => exact .inl ⟨⟨fun _ => looked.symm, by simp [scalar], by simp [scalar]⟩, rfl⟩
    | false =>
      cases default : e.defValue with
      | none =>
        refine .inr ⟨?_, by simp⟩
        intro parses
        have given := parses.required scalar default
        simp [← looked] at given
      | some defValue =>
        refine .inl ⟨⟨by simp [scalar], by simp [default], by simp [← looked]⟩, ?_⟩
        simp [← looked]
  | some p =>
    rw [found, Option.map_some] at looked
    cases scalar : e.isScalar with
    | true =>
      refine .inr ⟨?_, by simp⟩
      intro parses
      have missing := parses.constant scalar
      simp [← looked] at missing
    | false =>
      have result : (overrides.lookup e.name).or e.defValue = some p.2 := by rw [← looked, Option.some_or]
      by_cases allowed : e.values.getD [] = [] ∨ p.2 ∈ e.values.getD []
      · refine .inl ⟨⟨by simp [scalar], by simp [← looked], ?_⟩, ?_⟩
        · intro _ value given listed
          rw [← looked] at given
          cases given
          exact allowed.resolve_left listed
        · rw [result]
          rcases allowed with empty | listed
          · simp [empty]
          · have length : (e.values.getD []).length ≠ 0 := List.length_pos_iff_exists_mem.mpr ⟨_, listed⟩ |>.ne'
            simp [length, listed]
      · rw [not_or] at allowed
        refine .inr ⟨?_, ?_⟩
        · intro parses
          exact allowed.2 (parses.allowed scalar p.2 looked.symm allowed.1)
        · simp [allowed.1, allowed.2, fresh]

/-- The rules for a set of variables and their overrides. -/
structure Valid (vars : List VarEntry) (overrides : List KvPair) : Prop where
  registered : (vars.map (·.name)).Nodup
  specified : (overrides.map Prod.fst).Nodup
  constant : ∀ e ∈ vars, e.isScalar = true → e.name ∉ overrides.map Prod.fst
  required : ∀ e ∈ vars, e.isScalar = false → e.defValue = none → e.name ∈ overrides.map Prod.fst
  allowed : ∀ e ∈ vars, e.values.getD [] ≠ [] → ∀ value, (e.name, value) ∈ overrides → value ∈ e.values.getD []

theorem valid_iff {vars : List VarEntry} (declared : ∀ e ∈ vars, Declared e) :
    Valid vars overrides ↔
      (vars.map (·.name)).Nodup ∧ (overrides.map Prod.fst).Nodup ∧ ∀ e ∈ vars, Parses overrides e := by
  constructor
  · intro valid
    refine ⟨valid.registered, valid.specified, ?_⟩
    intro e inside
    exact {
      constant := fun scalar => (Removal.lookup_eq_none_iff ..).mpr (valid.constant e inside scalar)
      required := by
        intro scalar missing
        have given := valid.required e inside scalar missing
        rw [Option.isSome_iff_ne_none, ne_eq, Removal.lookup_eq_none_iff, not_not]
        exact given
      allowed := fun _ value given listed => valid.allowed e inside listed value (Assoc.mem_of_lookup given) }
  · rintro ⟨registered, specified, each⟩
    exact {
      registered
      specified
      constant := fun e inside scalar => (Removal.lookup_eq_none_iff ..).mp ((each e inside).constant scalar)
      required := by
        intro e inside scalar missing
        have given := (each e inside).required scalar missing
        rw [Option.isSome_iff_ne_none, ne_eq, Removal.lookup_eq_none_iff, not_not] at given
        exact given
      allowed := by
        intro e inside listed value given
        cases scalar : e.isScalar with
        | true => rw [(declared e inside).plain scalar] at listed; exact absurd rfl listed
        | false => exact (each e inside).allowed scalar value (Assoc.lookup_of_mem specified given) listed }

/-- What is true of the variables once they are parsed. -/
structure Settled (vars : List VarEntry) (overrides : List KvPair) (after : List VarEntry) : Prop where
  values : after = vars.map fun e => { e with finalValue := finalFor overrides e }
  present : ∀ e ∈ vars, (finalFor overrides e).isSome = true
  allowed : ∀ e ∈ vars, e.isScalar = false → e.values.getD [] ≠ [] → ∀ value, finalFor overrides e = some value →
    value ∈ e.values.getD []

theorem Parses.settled (parses : Parses overrides e) (declared : Declared e) :
    (finalFor overrides e).isSome = true ∧
      (e.isScalar = false → e.values.getD [] ≠ [] → ∀ value, finalFor overrides e = some value →
        value ∈ e.values.getD []) := by
  unfold finalFor
  cases scalar : e.isScalar with
  | true => exact ⟨declared.constant scalar, fun is_table => (nomatch is_table)⟩
  | false =>
    cases given : overrides.lookup e.name with
    | none =>
      constructor
      · cases default : e.defValue with
        | none => simpa [given] using parses.required scalar default
        | some defValue => rfl
      · intro _ listed value final
        exact declared.default scalar value (by simpa using final) listed
    | some value =>
      refine ⟨rfl, ?_⟩
      intro _ listed other final
      cases final
      exact parses.allowed scalar value given listed

end Parse

/-- Variables from any tables that were accepted are parsed without an error exactly when the
rules hold, and then each has an allowed value. -/
theorem parseVars_correct {lua : LuaChoices} {fuel : Nat} {args : List (Option VarsTable)} {vars : DaPtr VarEntry}
    (accepted : registerVars lua fuel args none = some (.ok vars)) (opts : CmdTestOptions) :
    ((ltfParseVars opts vars).res = 0 ↔ Valid (vars.getD []) opts.vars) ∧
      ((ltfParseVars opts vars).res = 0 →
        Settled (vars.getD []) opts.vars ((ltfParseVars opts vars).vars.getD [])) := by
  have declared := registerVars_ok (by simp) accepted
  have each : ∀ e ∈ vars.getD [], (parseVar opts.vars e).2 = [] ↔ Parses opts.vars e := by
    intro e inside
    rcases @parseVar_cases opts.vars e (declared e inside).fresh with ⟨parses, done⟩ | ⟨fails, reported⟩
    · exact iff_of_true (by rw [done]) parses
    · exact iff_of_false reported fails
  have zero : (ltfParseVars opts vars).res = 0 ↔ Valid (vars.getD []) opts.vars := by
    rw [valid_iff declared, ← searchDuplicates_nil _ registeredTwice, ← searchDuplicates_nil _ specifiedTwice]
    have quiet : ((vars.getD []).flatMap fun e => (parseVar opts.vars e).2) = [] ↔
        ∀ e ∈ vars.getD [], Parses opts.vars e := by
      rw [List.flatMap_eq_nil_iff]
      exact forall₂_congr each
    rw [← quiet]
    unfold ltfParseVars
    simp only [List.isEmpty_iff, List.append_eq_nil_iff]
    split <;> simp_all
  refine ⟨zero, ?_⟩
  intro returned
  have parses := ((valid_iff declared).mp (zero.mp returned)).2.2
  exact {
    values := by
      have whole : (ltfParseVars opts vars).vars.getD [] = (vars.getD []).map fun e => (parseVar opts.vars e).1 := by
        cases vars <;> rfl
      rw [whole]
      apply List.map_congr_left
      intro e inside
      rcases @parseVar_cases opts.vars e (declared e inside).fresh with ⟨-, done⟩ | ⟨fails, -⟩
      · rw [done]
      · exact absurd (parses e inside) fails
    present := fun e inside => ((parses e inside).settled (declared e inside)).1
    allowed := fun e inside => ((parses e inside).settled (declared e inside)).2 }

/-- A constant and a variable with two values, the first of which is the default. -/
def envTable : VarsTable :=
  [(.string (CStr.lit "port").bytes, .string (CStr.lit "/dev/ttyUSB0").bytes),
    (.string (CStr.lit "env").bytes,
      .table (.table [.string (CStr.lit "dev").bytes, .string (CStr.lit "prod").bytes])
        (.string (CStr.lit "dev").bytes))]

def envVars : DaPtr VarEntry :=
  some [{ name := .lit "port", isScalar := true, scalar := some (.lit "/dev/ttyUSB0") },
    { name := .lit "env", values := some [.lit "dev", .lit "prod"], defValue := some (.lit "dev") }]

theorem envVars_parsed :
    (ltfParseVars { vars := [(.lit "env", .lit "prod")] } envVars).res = 0 ∧
      Settled (envVars.getD []) [(.lit "env", .lit "prod")]
        ((ltfParseVars { vars := [(.lit "env", .lit "prod")] } envVars).vars.getD []) := by
  have accepted : registerVars .first 3 [some envTable] none = some (.ok envVars) := rfl
  have zero : (ltfParseVars { vars := [(.lit "env", .lit "prod")] } envVars).res = 0 := by decide
  exact ⟨zero, (parseVars_correct accepted _).2 zero⟩

end Ltf.Vars
