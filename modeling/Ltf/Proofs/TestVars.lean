import Ltf.Proofs.TestOptions

/-! What the options `-v` make of the variables they are given: a value with a comma in it is
cut, whether or not its quotes reach the program, and other values are kept. -/

namespace Ltf.Proofs.TestVars
open CString CmdParser TestOptions Steps

/-- A name and a value for it, as they may be given. -/
structure Setting where
  name : CStr
  value : CStr
  plain : (44 : UInt8) ∉ name.bytes ∧ (61 : UInt8) ∉ name.bytes
  full : value.bytes ≠ []

namespace Setting

def pair (setting : Setting) : KvPair := (setting.name, setting.value)

/-- A value with commas stands in double quotes, unless a shell has taken them away. -/
def written (quotes : Bool) (setting : Setting) : List UInt8 :=
  setting.name.bytes ++ 61 ::
    (if quotes ∧ 44 ∈ setting.value.bytes then 34 :: (setting.value.bytes ++ [34]) else setting.value.bytes)

end Setting

def optionText (quotes : Bool) (settings : List Setting) : CStr :=
  .ofBytes ([44].intercalate (settings.map (Setting.written quotes)))

/-- Options `-v`, one after the other. -/
def setOptions (quotes : Bool) (options : List (List Setting)) : Process CmdTestOptions :=
  options.foldlM (fun opts settings => setTestVars (optionText quotes settings) opts) {}

/-- Each name once, in the order in which the names come up first, with the value given last. -/
structure Latest (given vars : List KvPair) : Prop where
  names : vars.map Prod.fst = (given.map Prod.fst).eraseDups
  values : ∀ name, vars.lookup name = given.reverse.lookup name

/-- However the settings are split over options, after each option the list is right. -/
def Builds (quotes : Bool) (settings : List Setting) : Prop :=
  ∀ done rest : List (List Setting), (done ++ rest).flatten = settings →
    ∃ opts, setOptions quotes done = .ok opts ∧ Latest (done.flatten.map Setting.pair) opts.vars

variable {quotes : Bool}

theorem latest_put (given : List KvPair) : Latest given (given.foldl Assoc.put []) := by
  refine ⟨Assoc.keys_foldl_put given, ?_⟩
  intro name
  rw [Assoc.lookup_foldl_put, List.lookup_nil, Option.or_none]

section Kept

theorem written_plain {setting : Setting} (plain : (44 : UInt8) ∉ setting.value.bytes) :
    setting.written quotes = setting.name.bytes ++ 61 :: setting.value.bytes := by
  simp [Setting.written, plain]

/-- A setting without commas is one token. -/
theorem optionText_tokens {settings : List Setting} (plain : ∀ setting ∈ settings, (44 : UInt8) ∉ setting.value.bytes) :
    strtok (optionText quotes settings).bytes 44 = settings.map (Setting.written quotes) := by
  have each : ∀ text ∈ settings.map (Setting.written quotes), (0 : UInt8) ∉ text ∧ (44 : UInt8) ∉ text ∧ text ≠ [] := by
    intro text inside
    obtain ⟨setting, among, rfl⟩ := List.mem_map.mp inside
    rw [written_plain (plain setting among)]
    have clean := setting.name.terminated
    have clean' := setting.value.terminated
    simp [clean, clean', setting.plain.1, plain setting among]
  have clean : (0 : UInt8) ∉ [44].intercalate (settings.map (Setting.written quotes)) := by
    intro inside
    obtain absurd | among := mem_join inside
    · exact nomatch absurd
    · obtain ⟨text, among, here⟩ := among
      exact (each text among).1 here
  rw [optionText, CStr.ofBytes_eq clean]
  exact strtok_join (fun text inside => (each text inside).2.1) (fun text inside => (each text inside).2.2)

theorem written_sound (quotes : Bool) {setting : Setting} (plain : (44 : UInt8) ∉ setting.value.bytes) :
    ¬ Malformed (setting.written quotes) ∧ pairOf (setting.written quotes) = setting.pair := by
  have found : strchr (setting.written quotes) 61 = some setting.name.bytes.length := by
    rw [written_plain plain]
    exact strchr_append setting.plain.2 _
  constructor
  · intro malformed
    have missing := malformed _ found
    rw [written_plain plain] at missing
    simp [setting.full] at missing
  · rw [pairOf, found, written_plain plain]
    simp [Setting.pair]

theorem option_kept {settings : List Setting} (plain : ∀ setting ∈ settings, (44 : UInt8) ∉ setting.value.bytes)
    (opts : CmdTestOptions) : setTestVars (optionText quotes settings) opts =
      .ok { opts with vars := (settings.map Setting.pair).foldl Assoc.put opts.vars } := by
  rw [setTestVars, optionText_tokens plain]
  induction settings generalizing opts with
  | nil => rfl
  | cons setting settings ih =>
    rw [List.forall_mem_cons] at plain
    obtain ⟨sound, pair⟩ := written_sound quotes plain.1
    rw [List.map_cons, List.foldlM_cons, setTestVar_pair sound, bind_of_ok rfl, ih plain.2, pair]
    rfl

theorem options_kept {options : List (List Setting)} (opts : CmdTestOptions)
    (plain : ∀ setting ∈ options.flatten, (44 : UInt8) ∉ setting.value.bytes) :
    options.foldlM (fun opts settings => setTestVars (optionText quotes settings) opts) opts =
      .ok { opts with vars := (options.flatten.map Setting.pair).foldl Assoc.put opts.vars } := by
  induction options generalizing opts with
  | nil => rfl
  | cons settings options ih =>
    simp only [List.flatten_cons, List.forall_mem_append] at plain
    rw [List.foldlM_cons, option_kept plain.1, bind_of_ok rfl, ih _ plain.2, List.flatten_cons, List.map_append,
      List.foldl_append]

end Kept

section Cut

/-- No value holds a comma. -/
def Plain (opts : CmdTestOptions) : Prop := ∀ var ∈ opts.vars, (44 : UInt8) ∉ var.2.bytes

theorem setTestVar_plain {opts : CmdTestOptions} {token : List UInt8} (plain : Plain opts)
    (clean : (44 : UInt8) ∉ token) : Ends (setTestVar opts token) Plain := by
  by_cases malformed : Malformed token
  · rw [setTestVar_malformed malformed]
    exact .stop
  · rw [setTestVar_pair malformed]
    apply Ends.ok
    intro var inside
    obtain rfl | old := Assoc.mem_of_put inside
    · intro comma
      exact clean (List.mem_of_mem_drop ((List.takeWhile_prefix _).subset comma))
    · exact plain var old

theorem tokens_plain {opts : CmdTestOptions} {tokens : List (List UInt8)} (plain : Plain opts)
    (clean : ∀ token ∈ tokens, (44 : UInt8) ∉ token) : Ends (tokens.foldlM setTestVar opts) Plain := by
  induction tokens generalizing opts with
  | nil => exact .ok plain
  | cons token tokens ih =>
    rw [List.forall_mem_cons] at clean
    rw [List.foldlM_cons]
    exact (setTestVar_plain plain clean.1).bind fun _ plain => ih plain clean.2

/-- Tokens are cut at each comma, so no variable ever gets one. -/
theorem setOptions_plain (options : List (List Setting)) : Ends (setOptions quotes options) Plain := by
  apply Ends.foldlM
  · intro opts settings plain
    exact tokens_plain plain fun _ => mem_strtok
  · intro var inside
    cases inside

/-- A value with a comma that is the last one of its name is never what the variable has. -/
theorem comma_lost {options : List (List Setting)} {name value : CStr}
    (last : (options.flatten.map Setting.pair).reverse.lookup name = some value) (comma : (44 : UInt8) ∈ value.bytes)
    {opts : CmdTestOptions} (ran : setOptions quotes options = .ok opts) :
    ¬ Latest (options.flatten.map Setting.pair) opts.vars := by
  intro latest
  have found := (latest.values name).trans last
  exact setOptions_plain _ opts ran _ (Assoc.mem_of_lookup found) comma

end Cut

/-- Exactly when no value holds a comma. -/
theorem builds_iff (quotes : Bool) (settings : List Setting) :
    Builds quotes settings ↔ ∀ setting ∈ settings, (44 : UInt8) ∉ setting.value.bytes := by
  constructor
  · -- each setting in an option of its own, and a look behind the one with the comma
    intro builds setting inside comma
    obtain ⟨before, after, rfl⟩ := List.append_of_mem inside
    have split : ((before ++ [setting]).map ([·]) ++ [after]).flatten = before ++ setting :: after := by
      simp [List.flatten_eq_flatMap, List.flatMap_map]
    obtain ⟨opts, ran, latest⟩ := builds _ _ split
    have last : ((((before ++ [setting]).map ([·])).flatten).map Setting.pair).reverse.lookup setting.name =
        some setting.value := by
      simp [List.flatten_eq_flatMap, List.flatMap_map, Setting.pair, Assoc.lookup_cons]
    exact comma_lost last comma ran latest
  · intro plain done rest split
    have given : ∀ setting ∈ done.flatten, (44 : UInt8) ∉ setting.value.bytes := by
      intro setting inside
      apply plain
      rw [← split, List.flatten_append]
      exact List.mem_append_left _ inside
    exact ⟨_, options_kept {} given, latest_put _⟩

/-- `enumeration="one,two,three"` -/
def enumeration : Setting where
  name := .lit "enumeration"
  value := .lit "one,two,three"
  plain := by decide
  full := by decide

/-- With its quotes or without them, the token behind the first comma has no value. -/
theorem commas_refused : ¬ Builds true [enumeration] ∧ ¬ Builds false [enumeration] := by
  have refused : setOptions true [[enumeration]] = .error (.exit 1) ∧
      setOptions false [[enumeration]] = .error (.exit 1) := ⟨rfl, rfl⟩
  constructor
  · intro builds
    obtain ⟨opts, ran, -⟩ := builds [[enumeration]] [] rfl
    rw [refused.1] at ran
    cases ran
  · intro builds
    obtain ⟨opts, ran, -⟩ := builds [[enumeration]] [] rfl
    rw [refused.2] at ran
    cases ran

end Ltf.Proofs.TestVars
