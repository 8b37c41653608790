import Ltf.Proofs.WholeCommand
import Ltf.VarAccess

/-! What the code of tests and hooks is given of variables and secrets. The library registers them
before they get their values; what other files register has none. -/

namespace Ltf.Proofs.VarAccess
open CString CmdParser Vars Secrets LtfTest FilesLoaded WholeCommand Ltf.VarAccess

section Tables

theorem lookup_setfield (table : List (CStr × LuaValue)) (key : CStr) (value : LuaValue) (name : CStr) :
    (luaSetfield table key value).lookup name =
      if name = key then (if value = .nil then none else some value) else table.lookup name := by
  unfold luaSetfield
  by_cases empty : value = .nil
  · rw [if_pos empty, if_pos empty]
    by_cases same : name = key
    · rw [Assoc.lookup_filter table (· ≠ key), if_pos same, if_neg (by simpa using same)]
    · rw [Assoc.lookup_filter_ne table same, if_neg same]
  · rw [if_neg empty, if_neg empty, Assoc.lookup_put]

/-- The last value that is set for a name is the one that stays. -/
theorem lookup_fields {α : Type} (nameOf : α → CStr) (valueOf : α → LuaValue) (items : List α)
    (table : List (CStr × LuaValue)) (name : CStr) :
    (items.foldl (fun table item => luaSetfield table (nameOf item) (valueOf item)) table).lookup name =
      match items.reverse.find? (name = nameOf ·) with
      | some item => if valueOf item = .nil then none else some (valueOf item)
      | none => table.lookup name := by
  induction items generalizing table with
  | nil => rfl
  | cons item items ih =>
    rw [List.foldl_cons, ih, List.reverse_cons, List.find?_append]
    cases later : items.reverse.find? (name = nameOf ·) with
    | some found => rfl
    | none =>
      rw [Option.none_or, lookup_setfield]
      by_cases same : name = nameOf item <;> simp [same]

end Tables

section Loaded
variable (setup : Setup) (path : CStr) (dirs : List CStr)

/-- The calls that come too late for a value. -/
def lateCalls : List LoadCall := fileCalls (testFiles setup dirs) ++ fileCalls (hookFiles setup path)

def libVars : List VarEntry := (fileCalls (libFiles setup path)).flatMap (newVars setup)

def lateVars : List VarEntry := (lateCalls setup path dirs).flatMap (newVars setup)

def libSecrets : List CStr := (fileCalls (libFiles setup path)).flatMap (newSecrets setup)

def lateSecrets : List CStr := (lateCalls setup path dirs).flatMap (newSecrets setup)

/-- The entries of the secrets file. -/
def given : List KvPair := (ltfSecretsParseFile setup.secretsFile []).2

def settledVar (e : VarEntry) : VarEntry := { e with finalValue := finalFor setup.opts.vars e }

variable {setup path dirs} {s after : LtfTest.Loaded}

theorem vars_after (ran : parseVars setup s = .ok after) :
    after.vars = (ltfParseVars setup.opts s.vars).vars ∧ after.secrets = s.secrets := by
  simp only [parseVars] at ran
  split at ran
  · cases ran
  · obtain ⟨state, _, same⟩ := Steps.bind_ok.mp ran
    cases same
    exact ⟨rfl, rfl⟩

theorem secrets_after (ran : parseSecrets setup s = .ok after) :
    after.vars = s.vars ∧ after.secrets = (ltfParseSecrets setup.secretsFile s.secrets).secrets := by
  simp only [parseSecrets] at ran
  split at ran
  · cases ran
  · cases ran
    exact ⟨rfl, rfl⟩

theorem vars_settled {vars : DaPtr VarEntry} (declared : ∀ e ∈ vars.getD [], Declared e)
    (valid : Valid (vars.getD []) setup.opts.vars) :
    (ltfParseVars setup.opts vars).vars.getD [] = (vars.getD []).map (settledVar setup) := by
  have parses := ((valid_iff declared).mp valid).2.2
  have whole : (ltfParseVars setup.opts vars).vars.getD [] =
      (vars.getD []).map fun e => (parseVar setup.opts.vars e).1 := by
    rw [ltfParseVars]
    cases vars <;> rfl
  rw [whole]
  refine List.map_congr_left fun e inside => ?_
  rcases @parseVar_cases setup.opts.vars e (declared e inside).fresh with ⟨_, done⟩ | ⟨fails, _⟩
  · rw [done]
    rfl
  · exact absurd (parses e inside) fails

theorem secrets_settled {secrets : DaPtr Secret} {names : List CStr} (readable : setup.secretsFile ≠ .unreadable)
    (registered : secrets.getD [] = names.map fun name => (name, none)) :
    (ltfParseSecrets setup.secretsFile secrets).secrets.getD [] =
      names.map fun name => (name, (given setup).lookup name) := by
  have read : (ltfSecretsParseFile setup.secretsFile []).1 = 0 := by
    cases file : setup.secretsFile with
    | missing => rfl
    | unreadable => exact absurd file readable
    | content bytes => rw [Duplicates.ltfSecretsParseFile_content]
  have whole : (ltfParseSecrets setup.secretsFile secrets).secrets.getD [] =
      (secrets.getD []).map fun reg => (parseSecret (given setup) reg).1 := by
    rw [given]
    cases found : ltfSecretsParseFile setup.secretsFile [] with
    | mk res specified =>
      obtain rfl : res = 0 := by simpa [found] using read
      simp only [ltfParseSecrets, found, ne_eq, not_true_eq_false, if_false]
      cases secrets <;> rfl
  rw [whole, registered, List.map_map]
  exact List.map_congr_left fun name _ => (SecretsParsed.parseSecret_eq _ name).1

/-- What tests and hooks find: what the library has registered with its values, and what came later with none. -/
theorem project_registered {name : CStr} {out : List CStr}
    (ran : loadProject setup path dirs (newLoaded setup name out) = .ok s) :
    LibraryFits setup path ∧ (∀ e ∈ libVars setup path, Declared e) ∧
      s.vars.getD [] = (libVars setup path).map (settledVar setup) ++ lateVars setup path dirs ∧
      s.secrets.getD [] = ((libSecrets setup path).map fun name => (name, (given setup).lookup name)) ++
        (lateSecrets setup path dirs).map fun name => (name, none) := by
  obtain ⟨first, second, third, fourth, ⟨loads, parses, finds⟩, tests, hooks⟩ :=
    (loadProject_split path dirs _ _).mp ran
  obtain ⟨fits, carried, lib⟩ := library_only path loads parses finds
  obtain ⟨registered, declared⟩ := lib_declared path lib
  have effect := ((dirs_through setup dirs carried.ready).only fourth tests).2
  have later := ((hooks_through path (hooks_inited effect.ready).1 rfl).only s hooks).2
  obtain ⟨vars, kept⟩ := vars_after parses
  obtain ⟨still, secrets⟩ := secrets_after finds
  have names : second.secrets.getD [] = (libSecrets setup path).map fun name => (name, none) := by
    rw [kept]
    exact lib.secrets
  have inLib : ∀ e ∈ libVars setup path, Declared e := fun e inside => declared e (by rw [registered]; exact inside)
  refine ⟨fits, inLib, ?_, ?_⟩
  · have before : fourth.vars.getD [] = _ := effect.vars
    have settled := @vars_settled setup first.vars declared (registered ▸ fits.vars)
    rw [later.vars]
    show fourth.vars.getD [] ++ _ = _
    rw [before, still, vars, settled, registered, List.append_assoc, lateVars, lateCalls, List.flatMap_append]
    rfl
  · have before : fourth.secrets.getD [] = _ := effect.secrets
    rw [later.secrets]
    show fourth.secrets.getD [] ++ _ = _
    rw [before, secrets, secrets_settled fits.secrets.1 names, List.append_assoc, lateSecrets, lateCalls,
      List.flatMap_append, List.map_append]
    rfl

end Loaded

section Access
variable {lua : LuaChoices} {arg : LuaValue} {asked : CStr}

theorem getVar_eq (vars : DaPtr VarEntry) (spelt : checkName lua arg = .ok asked) :
    lModuleLtfGetVar lua vars arg =
      match (vars.getD []).find? (asked = ·.name) with
      | none => .error (.error (.concat [.lit "No variable '", asked, .lit "'"]))
      | some e => .ok (luaPushstring e.finalValue) := by
  simp only [lModuleLtfGetVar, spelt, findVar]
  show (match (vars.getD []).find? (asked = ·.name) with
    | none => _
    | some e => _) = _
  cases (vars.getD []).find? (asked = ·.name) <;> rfl

theorem getSecret_eq (secrets : DaPtr Secret) (spelt : checkName lua arg = .ok asked) :
    lModuleLtfGetSecret lua secrets arg =
      match (secrets.getD []).find? (asked = ·.1) with
      | none => .error (.error (.concat [.lit "Unable to find secret '", asked, .lit "'"]))
      | some secret => .ok (luaPushstring secret.2) := by
  simp only [lModuleLtfGetSecret, spelt]
  show (match (secrets.getD []).find? (asked = ·.1) with
    | none => _
    | some secret => _) = _
  cases (secrets.getD []).find? (asked = ·.1) <;> rfl

theorem getVars_lookup (vars : DaPtr VarEntry) (asked : CStr) :
    (lModuleLtfGetVars vars).lookup asked =
      ((vars.getD []).reverse.find? (asked = ·.name)).map fun e =>
        .string ((e.finalValue.map (·.bytes)).getD []) := by
  rw [lModuleLtfGetVars, lookup_fields]
  cases (vars.getD []).reverse.find? (asked = ·.name) with
  | none => rfl
  | some e => rfl

theorem getSecrets_lookup (secrets : DaPtr Secret) (asked : CStr) :
    (lModuleLtfGetSecrets secrets).lookup asked =
      ((secrets.getD []).reverse.find? (asked = ·.1)).bind fun secret =>
        secret.2.map fun value => .string value.bytes := by
  rw [lModuleLtfGetSecrets, lookup_fields]
  cases (secrets.getD []).reverse.find? (asked = ·.1) with
  | none => rfl
  | some secret => cases missing : secret.2 <;> simp [luaPushstring, missing]

/-- The name of a variable is found with its value. `get_vars` shows what was registered last. -/
theorem settled_read {vars : DaPtr VarEntry} {lib late : List VarEntry} {e : VarEntry} {value : CStr}
    (registered : vars.getD [] = lib ++ late) (single : (lib.map (·.name)).Nodup)
    (bare : ∀ e ∈ late, e.finalValue = none) (inside : e ∈ lib) (settled : e.finalValue = some value)
    (spelt : checkName lua arg = .ok e.name) :
    lModuleLtfGetVar lua vars arg = .ok (.string value.bytes) ∧
      (lModuleLtfGetVars vars).lookup e.name =
        some (.string (if e.name ∈ late.map (·.name) then [] else value.bytes)) := by
  constructor
  · rw [getVar_eq vars spelt, registered, List.find?_append, Assoc.find_only (·.name) single inside]
    simp [luaPushstring, settled]
  · have turned : (lib.reverse.map (·.name)).Nodup := by
      rw [List.map_reverse]
      exact List.nodup_reverse.mpr single
    rw [getVars_lookup, registered, List.reverse_append, List.find?_append]
    by_cases again : e.name ∈ late.map (·.name)
    · have named : e.name ∈ late.reverse.map (·.name) := by simpa using again
      obtain ⟨last, kept, _, found⟩ := Assoc.find_some named
      rw [found, if_pos again]
      simp [bare last (List.mem_reverse.mp kept)]
    · have missing : e.name ∉ late.reverse.map (·.name) := by simpa using again
      rw [Assoc.find_none missing, if_neg again, Assoc.find_only (·.name) turned (List.mem_reverse.mpr inside)]
      simp [settled]

/-- A variable that only tests or hooks have registered has no value. -/
theorem late_read {vars : DaPtr VarEntry} {lib late : List VarEntry} (registered : vars.getD [] = lib ++ late)
    (bare : ∀ e ∈ late, e.finalValue = none) (foreign : asked ∉ lib.map (·.name))
    (named : asked ∈ late.map (·.name)) (spelt : checkName lua arg = .ok asked) :
    lModuleLtfGetVar lua vars arg = .ok .nil ∧ (lModuleLtfGetVars vars).lookup asked = some (.string []) := by
  constructor
  · obtain ⟨first, kept, _, found⟩ := Assoc.find_some named
    rw [getVar_eq vars spelt, registered, List.find?_append, Assoc.find_none foreign, found]
    simp [luaPushstring, bare first kept]
  · have turned : asked ∈ late.reverse.map (·.name) := by simpa using named
    obtain ⟨last, kept, _, found⟩ := Assoc.find_some turned
    rw [getVars_lookup, registered, List.reverse_append, List.find?_append, found]
    simp [bare last (List.mem_reverse.mp kept)]

theorem unknown_read {vars : DaPtr VarEntry} (unknown : asked ∉ (vars.getD []).map (·.name))
    (spelt : checkName lua arg = .ok asked) :
    lModuleLtfGetVar lua vars arg = .error (.error (.concat [.lit "No variable '", asked, .lit "'"])) ∧
      (lModuleLtfGetVars vars).lookup asked = none := by
  have turned : asked ∉ (vars.getD []).reverse.map (·.name) := by simpa using unknown
  rw [getVar_eq vars spelt, getVars_lookup, Assoc.find_none unknown, Assoc.find_none turned]
  exact ⟨rfl, rfl⟩

theorem find_valued {names : List CStr} (valueOf : CStr → Option CStr) (named : asked ∈ names) :
    (names.map fun name => (name, valueOf name)).find? (asked = ·.1) = some (asked, valueOf asked) := by
  have there : asked ∈ (names.map fun name => (name, valueOf name)).map Prod.fst := by simpa using named
  obtain ⟨secret, inside, same, found⟩ := Assoc.find_some there
  obtain ⟨name, _, rfl⟩ := List.mem_map.mp inside
  obtain rfl : name = asked := same
  rw [found]

/-- What is registered again without a value hides the value from `get_secrets`, but not from `get_secret`. -/
theorem secret_read {secrets : DaPtr Secret} {lib late : List CStr} {valueOf : CStr → Option CStr} {value : CStr}
    (registered : secrets.getD [] = (lib.map fun name => (name, valueOf name)) ++ late.map fun name => (name, none))
    (inside : asked ∈ lib) (valued : valueOf asked = some value) (spelt : checkName lua arg = .ok asked) :
    lModuleLtfGetSecret lua secrets arg = .ok (.string value.bytes) ∧
      (lModuleLtfGetSecrets secrets).lookup asked =
        if asked ∈ late then none else some (.string value.bytes) := by
  constructor
  · rw [getSecret_eq secrets spelt, registered, List.find?_append, find_valued valueOf inside, valued]
    rfl
  · rw [getSecrets_lookup, registered, List.reverse_append, List.find?_append, ← List.map_reverse, ← List.map_reverse]
    by_cases again : asked ∈ late
    · rw [find_valued (fun _ => none) (List.mem_reverse.mpr again), if_pos again]
      rfl
    · have missing : asked ∉ (late.reverse.map fun name => (name, (none : Option CStr))).map Prod.fst := by
        simpa using again
      rw [Assoc.find_none missing, find_valued valueOf (List.mem_reverse.mpr inside), valued, if_neg again]
      rfl

theorem late_secret {secrets : DaPtr Secret} {lib late : List CStr} {valueOf : CStr → Option CStr}
    (registered : secrets.getD [] = (lib.map fun name => (name, valueOf name)) ++ late.map fun name => (name, none))
    (foreign : asked ∉ lib) (named : asked ∈ late) (spelt : checkName lua arg = .ok asked) :
    lModuleLtfGetSecret lua secrets arg = .ok .nil ∧ (lModuleLtfGetSecrets secrets).lookup asked = none := by
  constructor
  · have missing : asked ∉ (lib.map fun name => (name, valueOf name)).map Prod.fst := by simpa using foreign
    rw [getSecret_eq secrets spelt, registered, List.find?_append, Assoc.find_none missing,
      find_valued (fun _ => none) named]
    rfl
  · rw [getSecrets_lookup, registered, List.reverse_append, List.find?_append, ← List.map_reverse,
      find_valued (fun _ => none) (List.mem_reverse.mpr named)]
    rfl

theorem unknown_secret {secrets : DaPtr Secret} (unknown : asked ∉ (secrets.getD []).map Prod.fst)
    (spelt : checkName lua arg = .ok asked) :
    lModuleLtfGetSecret lua secrets arg =
        .error (.error (.concat [.lit "Unable to find secret '", asked, .lit "'"])) ∧
      (lModuleLtfGetSecrets secrets).lookup asked = none := by
  have turned : asked ∉ (secrets.getD []).reverse.map Prod.fst := by simpa using unknown
  rw [getSecret_eq secrets spelt, getSecrets_lookup, Assoc.find_none unknown, Assoc.find_none turned]
  exact ⟨rfl, rfl⟩

end Access

section Given
variable {setup : Setup} {path name asked : CStr} {dirs out : List CStr} {s : LtfTest.Loaded}
variable {lua : LuaChoices} {arg : LuaValue}

/-- What is given for a name once the project has loaded. The library's variables and secrets have their
values. A name that only tests or hooks register is `nil`. When both register it, `get_var` and
`get_secret` still give the value, but `get_vars` has the empty text and `get_secrets` leaves it out. -/
theorem access_settled (ran : loadProject setup path dirs (newLoaded setup name out) = .ok s)
    (spelt : checkName lua arg = .ok asked) :
    (∀ e ∈ libVars setup path, e.name = asked → ∃ value, finalFor setup.opts.vars e = some value ∧
      (e.isScalar = false → e.values.getD [] ≠ [] → value ∈ e.values.getD []) ∧
      lModuleLtfGetVar lua s.vars arg = .ok (.string value.bytes) ∧
      (lModuleLtfGetVars s.vars).lookup asked =
        some (.string (if asked ∈ (lateVars setup path dirs).map (·.name) then [] else value.bytes))) ∧
    (asked ∉ (libVars setup path).map (·.name) →
      if asked ∈ (lateVars setup path dirs).map (·.name) then
        lModuleLtfGetVar lua s.vars arg = .ok .nil ∧ (lModuleLtfGetVars s.vars).lookup asked = some (.string [])
      else
        lModuleLtfGetVar lua s.vars arg = .error (.error (.concat [.lit "No variable '", asked, .lit "'"])) ∧
          (lModuleLtfGetVars s.vars).lookup asked = none) ∧
    (asked ∈ libSecrets setup path → ∃ value, (given setup).lookup asked = some value ∧
      lModuleLtfGetSecret lua s.secrets arg = .ok (.string value.bytes) ∧
      (lModuleLtfGetSecrets s.secrets).lookup asked =
        if asked ∈ lateSecrets setup path dirs then none else some (.string value.bytes)) ∧
    (asked ∉ libSecrets setup path →
      (lModuleLtfGetSecrets s.secrets).lookup asked = none ∧
      lModuleLtfGetSecret lua s.secrets arg =
        if asked ∈ lateSecrets setup path dirs then .ok .nil
        else .error (.error (.concat [.lit "Unable to find secret '", asked, .lit "'"]))) := by
  obtain ⟨fits, declared, vars, secrets⟩ := project_registered ran
  have parses := ((valid_iff declared).mp fits.vars).2.2
  have kept : ((libVars setup path).map (settledVar setup)).map (·.name) = (libVars setup path).map (·.name) := by
    rw [List.map_map]
    rfl
  have bare : ∀ e ∈ lateVars setup path dirs, e.finalValue = none := by
    intro e inside
    obtain ⟨call, _, new⟩ := List.mem_flatMap.mp inside
    exact (new_declared call e new).fresh
  refine ⟨?_, ?_, ?_, ?_⟩
  · rintro e inside rfl
    obtain ⟨some_value, allowed⟩ := (parses e inside).settled (declared e inside)
    obtain ⟨value, final⟩ := Option.isSome_iff_exists.mp some_value
    have there : settledVar setup e ∈ (libVars setup path).map (settledVar setup) := List.mem_map_of_mem inside
    have single : (((libVars setup path).map (settledVar setup)).map (·.name)).Nodup := by
      rw [kept]
      exact fits.vars.registered
    exact ⟨value, final, fun table limited => allowed table limited value final,
      settled_read (e := settledVar setup e) vars single bare there final spelt⟩
  · intro foreign
    split
    · next late => exact late_read vars bare (by rw [kept]; exact foreign) late spelt
    · next late =>
      refine unknown_read ?_ spelt
      rw [vars, List.map_append, kept]
      simp only [List.mem_append, not_or]
      exact ⟨foreign, late⟩
  · intro inside
    have specified := fits.secrets.2.2.2 asked inside
    have found : ((given setup).lookup asked).isSome = true := by
      rw [Option.isSome_iff_ne_none]
      exact fun missing => (Removal.lookup_eq_none_iff ..).mp missing specified
    obtain ⟨value, valued⟩ := Option.isSome_iff_exists.mp found
    exact ⟨value, valued, secret_read secrets inside valued spelt⟩
  · intro foreign
    split
    · next late => exact (late_secret secrets foreign late spelt).symm
    · next late =>
      refine (unknown_secret ?_ spelt).symm
      rw [secrets]
      simpa using ⟨foreign, late⟩

/-- A test registers what the library has registered before. -/
def shadowed : Setup := { WholeCommand.tagged with
  opts := { headless := true, noLogs := true }
  dir := fun path =>
    if path = .lit "/p/lib" then some [⟨.lit "/p/lib/vars.lua", [
      (.registerVars (some envTable), false),
      (.registerSecrets (some [.string (CStr.lit "env").bytes]), false)], .returned⟩]
    else if path = .lit "/p/tests" then some [⟨.lit "/p/tests/tests.lua", [
      (.registerVars (some envTable), false),
      (.registerSecrets (some [.string (CStr.lit "env").bytes]), false)], .returned⟩]
    else none
  secretsFile := .content (CStr.lit "env=abc\n").bytes }

theorem access_shadowed : ∃ s,
    loadProject shadowed (.lit "/p") [.lit "/p/tests"] (newLoaded shadowed (.lit "project") []) = .ok s ∧
      lModuleLtfGetVar .first s.vars (.string (CStr.lit "env").bytes) = .ok (.string (CStr.lit "dev").bytes) ∧
      (lModuleLtfGetVars s.vars).lookup (.lit "env") = some (.string []) ∧
      lModuleLtfGetSecret .first s.secrets (.string (CStr.lit "env").bytes) = .ok (.string (CStr.lit "abc").bytes) ∧
      (lModuleLtfGetSecrets s.secrets).lookup (.lit "env") = none := by
  have loads : (loadProject shadowed (.lit "/p") [.lit "/p/tests"]
      (newLoaded shadowed (.lit "project") [])).toOption.isSome = true := by decide +kernel
  cases ran : loadProject shadowed (.lit "/p") [.lit "/p/tests"] (newLoaded shadowed (.lit "project") []) with
  | error ended =>
    rw [ran] at loads
    cases loads
  | ok s =>
    have same : CStr.ofBytes (CStr.lit "env").bytes = .lit "env" := by decide +kernel
    have spelt : checkName .first (.string (CStr.lit "env").bytes) = .ok (.lit "env") := congrArg Except.ok same
    obtain ⟨vars, -, secrets, -⟩ := access_settled ran spelt
    have declared : CStr.lit "env" ∈ (libVars shadowed (.lit "/p")).map (·.name) := by decide +kernel
    obtain ⟨e, inside, env⟩ := List.mem_map.mp declared
    obtain ⟨value, final, -, var, shown⟩ := vars e inside env
    have default : ∀ e ∈ libVars shadowed (.lit "/p"), e.name = .lit "env" →
        finalFor shadowed.opts.vars e = some (.lit "dev") := by decide +kernel
    obtain rfl : value = .lit "dev" := Option.some.inj (final.symm.trans (default e inside env))
    obtain ⟨secret, found, get, hidden⟩ := secrets (by decide +kernel)
    have abc : (given shadowed).lookup (.lit "env") = some (.lit "abc") := by decide +kernel
    obtain rfl : secret = .lit "abc" := Option.some.inj (found.symm.trans abc)
    have again : CStr.lit "env" ∈ (lateVars shadowed (.lit "/p") [.lit "/p/tests"]).map (·.name) := by decide +kernel
    have twice : CStr.lit "env" ∈ lateSecrets shadowed (.lit "/p") [.lit "/p/tests"] := by decide +kernel
    rw [if_pos again] at shown
    rw [if_pos twice] at hidden
    exact ⟨s, rfl, var, shown, get, hidden⟩

end Given

end Ltf.Proofs.VarAccess
