import Ltf.Base.Removal
import Ltf.Proofs.Duplicates
import Ltf.Proofs.VarsParsed

/-! `ltf_parse_secrets` against the rules for secrets: it returns 0 although a value is
empty, and this is the only way in which it differs. -/

namespace Ltf.Proofs.SecretsParsed
open CString CmdParser Vars Secrets

def entriesOf (bytes : List UInt8) : List KvPair := (ltfSecretsParseFile (.content bytes) []).2

/-- The names are registered and the file is there. -/
def parsedOf (names : List CStr) (bytes : List UInt8) : ParsedSecrets :=
  ltfParseSecrets (.content bytes) (ltfRegisterSecrets names none)

/-- The rules for the registered names and the entries of the file. -/
structure Given (names : List CStr) (entries : List KvPair) : Prop where
  registered : names.Nodup
  specified : (entries.map Prod.fst).Nodup
  valued : ∀ name ∈ names, ∃ value, (name, value) ∈ entries ∧ value.bytes ≠ []

/-- The result tells whether the rules hold, and then each secret has the value of its entry.
Entries of other names do not matter for the values. -/
structure Parsed (names : List CStr) (bytes : List UInt8) : Prop where
  result : (parsedOf names bytes).res = 0 ↔ Given names (entriesOf bytes)
  secrets : (parsedOf names bytes).res = 0 →
    (parsedOf names bytes).secrets =
      some (names.map fun name => (name, ((entriesOf bytes).filter (·.1 ∈ names)).lookup name))
  values : (parsedOf names bytes).res = 0 → ∀ name ∈ names, ∃ value, (name, value) ∈ entriesOf bytes ∧
    ((entriesOf bytes).filter (·.1 ∈ names)).lookup name = some value

/-- Where nothing else is wrong, no entry of a registered name has an empty value. -/
def NoneEmpty (names : List CStr) (entries : List KvPair) : Prop :=
  names.Nodup → (entries.map Prod.fst).Nodup → (∀ name ∈ names, name ∈ entries.map Prod.fst) →
    ∀ name ∈ names, ∀ value, (name, value) ∈ entries → value.bytes ≠ []

variable {specified : List KvPair}

theorem parseSecret_eq (specified : List KvPair) (name : CStr) :
    (parseSecret specified (name, none)).1 = (name, specified.lookup name) ∧
      ((parseSecret specified (name, none)).2 = [] ↔ name ∈ specified.map Prod.fst) := by
  have looked := Assoc.find_snd specified name
  have absent := Removal.lookup_eq_none_iff specified name
  unfold parseSecret
  cases found : specified.find? (name = ·.1) with
  | none =>
    rw [found, Option.map_none] at looked
    simpa [← looked] using absent.mp looked.symm
  | some spec =>
    rw [found, Option.map_some] at looked
    rw [← looked] at absent ⊢
    simpa using absent

/-- What the code checks. -/
theorem res_iff (names : List CStr) (bytes : List UInt8) : (parsedOf names bytes).res = 0 ↔
    names.Nodup ∧ ((entriesOf bytes).map Prod.fst).Nodup ∧ ∀ name ∈ names, name ∈ (entriesOf bytes).map Prod.fst := by
  obtain ⟨errors, res⟩ := Duplicates.parseSecrets_content bytes (ltfRegisterSecrets names none)
  have names_eq : ((ltfRegisterSecrets names none).getD []).map Prod.fst = names := by
    simp [ltfRegisterSecrets, Function.comp_def]
  have each : (((ltfRegisterSecrets names none).getD []).flatMap fun reg => (parseSecret (entriesOf bytes) reg).2) = [] ↔
      ∀ name ∈ names, name ∈ (entriesOf bytes).map Prod.fst := by
    simp only [ltfRegisterSecrets, Option.getD_none, List.nil_append, Option.getD_some, List.flatMap_map,
      List.flatMap_eq_nil_iff, parseSecret_eq]
  have passes (errors : List CStr) : (if errors.isEmpty then (0 : Int) else -1) = 0 ↔ errors = [] := by
    cases errors <;> simp
  rw [parsedOf, res, passes, errors, List.append_eq_nil_iff, List.append_eq_nil_iff, Duplicates.searchDuplicates_nil,
    Duplicates.searchDuplicates_nil, names_eq, and_assoc, ← each]
  rfl

theorem secrets_eq (names : List CStr) (bytes : List UInt8) :
    (parsedOf names bytes).secrets = some (names.map fun name => (name, (entriesOf bytes).lookup name)) := by
  simp only [parsedOf, ltfParseSecrets, Duplicates.ltfSecretsParseFile_content, ne_eq, not_true_eq_false, ite_false,
    ltfRegisterSecrets, Option.getD_none, List.nil_append, Option.map_some, List.map_map]
  congr 1
  apply List.map_congr_left
  intro name _
  exact (parseSecret_eq _ name).1

/-- Exactly when no value is empty where that is all that could be wrong. -/
theorem parsed_iff (names : List CStr) (bytes : List UInt8) :
    Parsed names bytes ↔ NoneEmpty names (entriesOf bytes) := by
  constructor
  · intro parsed registered specified given name inside value entry
    have given := parsed.result.mp ((res_iff names bytes).mpr ⟨registered, specified, given⟩)
    obtain ⟨other, found, full⟩ := given.valued name inside
    have same := Assoc.lookup_of_mem specified entry
    rw [Assoc.lookup_of_mem specified found, Option.some.injEq] at same
    exact same ▸ full
  · intro full
    have lookups : ∀ name ∈ names,
        ((entriesOf bytes).filter (·.1 ∈ names)).lookup name = (entriesOf bytes).lookup name :=
      fun name inside => (Assoc.lookup_filter _ (· ∈ names) name).trans (if_pos (decide_eq_true inside))
    refine ⟨?_, ?_, ?_⟩
    · rw [res_iff]
      constructor
      · intro passed
        obtain ⟨registered, specified, given⟩ := passed
        refine ⟨registered, specified, ?_⟩
        intro name inside
        obtain ⟨entry, found, rfl⟩ := List.mem_map.mp (given name inside)
        exact ⟨entry.2, found, full registered specified given _ inside _ found⟩
      · intro given
        refine ⟨given.registered, given.specified, ?_⟩
        intro name inside
        obtain ⟨value, found, -⟩ := given.valued name inside
        exact List.mem_map_of_mem found
    · intro _
      rw [secrets_eq, List.map_congr_left]
      intro name inside
      rw [lookups name inside]
    · intro passed name inside
      obtain ⟨-, specified, given⟩ := (res_iff names bytes).mp passed
      obtain ⟨entry, found, rfl⟩ := List.mem_map.mp (given name inside)
      refine ⟨entry.2, found, ?_⟩
      rw [lookups _ inside]
      exact Assoc.lookup_of_mem specified found

/-- `token=` -/
def emptyEntry : List UInt8 := [116, 111, 107, 101, 110, 61, 10]

/-- The line gives the secret an empty value, and nothing is reported. -/
theorem empty_value_passes : ¬ Parsed [.lit "token"] emptyEntry := by
  have entries : entriesOf emptyEntry = [(.lit "token", .lit "")] := rfl
  have passes : (parsedOf [.lit "token"] emptyEntry).res = 0 := by
    simp [res_iff, entries]
  intro parsed
  obtain ⟨value, found, full⟩ := (parsed.result.mp passes).valued _ (List.mem_singleton_self _)
  rw [entries, List.mem_singleton, Prod.mk.injEq] at found
  exact full (congrArg CStr.bytes found.2)

end Ltf.Proofs.SecretsParsed
