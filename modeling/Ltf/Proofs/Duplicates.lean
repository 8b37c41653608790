import Ltf.Base.Repeats
import Ltf.Secrets

/-! The searches for duplicates in `ltf_parse_vars` and `ltf_parse_secrets`, which skip every
pair with an index that has been found: each name is reported one time less than it occurs. -/

namespace Ltf.Proofs.Duplicates
open CString CmdParser Vars Secrets Repeats

variable {names : List CStr} {report : CStr → CStr}

/-- The indices found so far are these, each of them once, and each has been reported. -/
structure Found (names : List CStr) (report : CStr → CStr) (seen : Nat → Prop) (s : List Nat × List CStr) : Prop where
  listed : ∀ k, k ∈ s.1 ↔ seen k
  once : s.1.Nodup
  reported : s.2 = (s.1.filterMap (names[·]?)).map report

/-- Before the pair of indices `i` and `j`: what repeats a name of an earlier row, or up to
column `j` the name of this one. -/
def Seen (names : List CStr) (i j k : Nat) : Prop :=
  (∃ l < i, l < k ∧ Same names l k) ∨ (k < j ∧ i < k ∧ Same names i k)

theorem Found.congr {seen other : Nat → Prop} {s : List Nat × List CStr} (found : Found names report seen s)
    (same : ∀ k, seen k ↔ other k) : Found names report other s :=
  ⟨fun k => (found.listed k).trans (same k), found.once, found.reported⟩

/-- One more column changes nothing unless the name there is that of the row. -/
theorem seen_same {i j : Nat} (nothing : i < j → Same names i j → Seen names i j j) (k : Nat) :
    Seen names i j k ↔ Seen names i (j + 1) k := by
  constructor
  · intro seen
    obtain earlier | ⟨before, after, same⟩ := seen
    · exact .inl earlier
    · exact .inr ⟨by omega, after, same⟩
  · intro seen
    obtain earlier | ⟨before, after, same⟩ := seen
    · exact .inl earlier
    · by_cases last : k = j
      · subst last
        exact nothing after same
      · exact .inr ⟨by omega, after, same⟩

/-- A row whose own index was found adds nothing. -/
theorem seen_row {i j k : Nat} (known : Seen names i j i) (after : i < k) (same : Same names i k) :
    Seen names i j k := by
  obtain ⟨l, before, -, first⟩ | ⟨-, absurd, -⟩ := known
  · exact .inl ⟨l, before, by omega, first.trans same⟩
  · omega

theorem duplicateStep_found {i j : Nat} {s : List Nat × List CStr} (found : Found names report (Seen names i j) s) :
    Found names report (Seen names i (j + 1)) (duplicateStep names report s (i, j)) := by
  unfold duplicateStep
  split
  next equal =>
    exact found.congr (seen_same fun less => absurd equal (Nat.ne_of_lt less))
  next different =>
    split
    next known =>
      apply found.congr (seen_same _)
      intro less same
      simp only [List.any_eq_true, decide_eq_true_eq] at known
      obtain ⟨idx, inside, rfl | rfl⟩ := known
      · exact (found.listed _).mp inside
      · exact seen_row ((found.listed _).mp inside) less same
    next fresh =>
      simp only [List.any_eq_true, decide_eq_true_eq, not_exists, not_and, not_or] at fresh
      split
      next l r first second =>
        split
        next equal =>
          subst equal
          have same : Same names i j := ⟨l, first, second⟩
          have less : i < j := by
            rcases Nat.lt_or_gt_of_ne different with less | more
            · exact less
            · have known : Seen names i j i := .inl ⟨j, more, more, same.symm⟩
              exact absurd rfl (fresh i ((found.listed i).mpr known)).2
          refine ⟨?_, ?_, ?_⟩
          · intro k
            rw [List.mem_append, List.mem_singleton, found.listed]
            constructor
            · intro either
              obtain seen | rfl := either
              · obtain earlier | ⟨before, after, same⟩ := seen
                · exact .inl earlier
                · exact .inr ⟨by omega, after, same⟩
              · exact .inr ⟨by omega, less, same⟩
            · intro seen
              obtain earlier | ⟨before, after, same⟩ := seen
              · exact .inl (.inl earlier)
              · by_cases last : k = j
                · exact .inr last
                · exact .inl (.inr ⟨by omega, after, same⟩)
          · rw [← List.concat_eq_append]
            exact found.once.concat fun inside => (fresh j inside).1 rfl
          · simp [found.reported, second]
        next other =>
          apply found.congr (seen_same _)
          intro less same
          obtain ⟨name, here, there⟩ := same
          exact absurd (Option.some.inj (first.symm.trans (here.trans (there.symm.trans second)))) other
      next missing =>
        apply found.congr (seen_same _)
        intro less same
        obtain ⟨name, here, there⟩ := same
        exact absurd there (missing name name here)

theorem row_found {i : Nat} {s : List Nat × List CStr} (found : Found names report (Seen names i 0) s) (n : Nat) :
    Found names report (Seen names i n) ((List.range n).foldl (fun s j => duplicateStep names report s (i, j)) s) := by
  induction n with
  | zero => exact found
  | succ n ih =>
    rw [List.range_succ, List.foldl_append]
    exact duplicateStep_found ih

/-- After a whole row the next one begins. -/
theorem seen_next (i k : Nat) : Seen names i names.length k ↔ Seen names (i + 1) 0 k := by
  constructor
  · intro seen
    obtain ⟨l, before, less, same⟩ | ⟨-, after, same⟩ := seen
    · exact .inl ⟨l, by omega, less, same⟩
    · exact .inl ⟨i, by omega, after, same⟩
  · intro seen
    obtain ⟨l, before, less, same⟩ | ⟨absurd, -, -⟩ := seen
    · by_cases last : l = i
      · subst last
        obtain ⟨name, -, there⟩ := id same
        exact .inr ⟨(List.getElem?_eq_some_iff.mp there).1, less, same⟩
      · exact .inl ⟨l, by omega, less, same⟩
    · omega

theorem rows_found (n : Nat) : Found names report (Seen names n 0) ((List.range n).foldl
    (fun s i => (List.range names.length).foldl (fun s j => duplicateStep names report s (i, j)) s) ([], [])) := by
  induction n with
  | zero =>
    refine ⟨?_, List.nodup_nil, rfl⟩
    intro k
    simp [Seen]
  | succ n ih =>
    rw [List.range_succ, List.foldl_append]
    exact (row_found ih names.length).congr (seen_next n)

/-- The names that are reported are the repeated ones, up to their order. -/
theorem searchDuplicates_perm (names : List CStr) (report : CStr → CStr) :
    ∃ reported : List CStr, searchDuplicates names report = reported.map report ∧ reported.Perm (repeats names) := by
  have found := @rows_found names report names.length
  refine ⟨_, ?_, perm_repeats found.once ?_⟩
  · rw [← found.reported, searchDuplicates, List.foldl_flatMap]
    simp only [List.foldl_map]
  · intro k
    rw [found.listed]
    constructor
    · intro seen
      obtain ⟨l, -, less, same⟩ | ⟨absurd, -, -⟩ := seen
      · exact ⟨l, less, same⟩
      · omega
    · intro repeated
      obtain ⟨l, less, same⟩ := repeated
      obtain ⟨name, here, -⟩ := id same
      exact .inl ⟨l, (List.getElem?_eq_some_iff.mp here).1, less, same⟩

/-- Nothing is reported exactly when no name occurs twice. -/
theorem searchDuplicates_nil (names : List CStr) (report : CStr → CStr) :
    searchDuplicates names report = [] ↔ names.Nodup := by
  obtain ⟨reported, reports, perm⟩ := searchDuplicates_perm names report
  rw [reports, List.map_eq_nil_iff, ← repeats_nil]
  constructor
  · rintro rfl
    exact perm.symm.eq_nil
  · intro none
    exact (none ▸ perm).eq_nil

/-! The texts of the reports -/

theorem front_differs {first second : CStr} {one two : List UInt8} (begins : one <+: first.bytes)
    (other : two <+: second.bytes) (differ : ¬ one <+: two ∧ ¬ two <+: one) : first ≠ second := by
  rintro rfl
  rcases List.prefix_or_prefix_of_prefix begins other with shorter | longer
  · exact differ.1 shorter
  · exact differ.2 longer

theorem end_differs {first second : CStr} {one two : List UInt8} (ends : one <:+ first.bytes)
    (other : two <:+ second.bytes) (differ : ¬ one <:+ two ∧ ¬ two <:+ one) : first ≠ second := by
  rintro rfl
  rcases List.suffix_or_suffix_of_suffix ends other with shorter | longer
  · exact differ.1 shorter
  · exact differ.2 longer

/-- A text that has the name between two texts of its own. -/
def Around (front back : CStr) (text name : CStr) : Prop := text.bytes = front.bytes ++ name.bytes ++ back.bytes

section Around
variable {front back text name : CStr} {shape : CStr → CStr}

theorem Around.begins (around : Around front back text name) : front.bytes <+: text.bytes :=
  ⟨name.bytes ++ back.bytes, by rw [around, List.append_assoc]⟩

theorem Around.ends (around : Around front back text name) : back.bytes <:+ text.bytes :=
  ⟨front.bytes ++ name.bytes, around.symm⟩

theorem Around.injective (around : ∀ name, Around front back (shape name) name) : Function.Injective shape := by
  intro first second same
  have bytes := congrArg CStr.bytes same
  rw [around, around, List.append_left_inj, List.append_right_inj] at bytes
  exact CStr.ext bytes

end Around

/-- The texts of the two searches and of the other checks can be told apart. -/
structure Apart (registeredReport specifiedReport : CStr → CStr) (others : List CStr) : Prop where
  registered : Function.Injective registeredReport
  specified : Function.Injective specifiedReport
  searches : ∀ first second, registeredReport first ≠ specifiedReport second
  others : ∀ error ∈ others, ∀ name, error ≠ registeredReport name ∧ error ≠ specifiedReport name

/-- Each name is reported one time less than it occurs in its list, among all the errors there are, and
the result is that of an error exactly when there is such a name or one of the other checks fails. -/
structure Searches (registered specified : List CStr) (registeredReport specifiedReport : CStr → CStr)
    (others errors : List CStr) (res : Int) : Prop where
  registeredCount : ∀ name, errors.count (registeredReport name) = registered.count name - 1
  specifiedCount : ∀ name, errors.count (specifiedReport name) = specified.count name - 1
  only : ∀ error ∈ errors, (∃ name, error = registeredReport name ∨ error = specifiedReport name) ∨ error ∈ others
  apart : ∀ error ∈ others, ∀ name, error ≠ registeredReport name ∧ error ≠ specifiedReport name
  result : res = 0 ∨ res = -1
  error : res = -1 ↔ (∃ name, 1 < registered.count name ∨ 1 < specified.count name) ∨ others ≠ []

theorem count_other {report : CStr → CStr} {names : List CStr} {error : CStr} (apart : ∀ name, report name ≠ error) :
    (names.map report).count error = 0 := by
  rw [List.count_eq_zero, List.mem_map]
  rintro ⟨name, -, same⟩
  exact apart name same

theorem nodup_count (names : List CStr) : ¬ names.Nodup ↔ ∃ name, 1 < names.count name := by
  rw [List.nodup_iff_count_le_one, not_forall]
  simp only [not_le]

theorem searches_intro {registered specified others errors : List CStr} {first second : CStr → CStr} {res : Int}
    (apart : Apart first second others)
    (found : errors = searchDuplicates registered first ++ searchDuplicates specified second ++ others)
    (result : res = if errors.isEmpty then 0 else -1) :
    Searches registered specified first second others errors res := by
  obtain ⟨one, oneReports, onePerm⟩ := searchDuplicates_perm registered first
  obtain ⟨two, twoReports, twoPerm⟩ := searchDuplicates_perm specified second
  have quiet (error : CStr) (other : ∀ other ∈ others, other ≠ error) : others.count error = 0 :=
    List.count_eq_zero.mpr fun inside => other error inside rfl
  refine ⟨?_, ?_, ?_, apart.others, ?_, ?_⟩
  · intro name
    rw [found, oneReports, twoReports, List.count_append, List.count_append,
      List.count_map_of_injective _ _ apart.registered, count_other fun other => (apart.searches name other).symm,
      quiet _ fun other inside => (apart.others other inside name).1, onePerm.count_eq, count_repeats]
    omega
  · intro name
    rw [found, oneReports, twoReports, List.count_append, List.count_append,
      List.count_map_of_injective _ _ apart.specified, count_other fun other => apart.searches other name,
      quiet _ fun other inside => (apart.others other inside name).2, twoPerm.count_eq, count_repeats]
    omega
  · intro error inside
    rw [found, oneReports, twoReports, List.mem_append, List.mem_append] at inside
    rcases inside with (inside | inside) | inside
    · obtain ⟨name, -, rfl⟩ := List.mem_map.mp inside
      exact .inl ⟨name, .inl rfl⟩
    · obtain ⟨name, -, rfl⟩ := List.mem_map.mp inside
      exact .inl ⟨name, .inr rfl⟩
    · exact .inr inside
  · rw [result]
    split
    · exact .inl rfl
    · exact .inr rfl
  · have empty : errors = [] ↔ (registered.Nodup ∧ specified.Nodup) ∧ others = [] := by
      rw [found, List.append_eq_nil_iff, List.append_eq_nil_iff, searchDuplicates_nil, searchDuplicates_nil]
    have fails : res = -1 ↔ ¬ errors = [] := by
      rw [result]
      cases errors <;> simp
    rw [fails, empty, exists_or, ← nodup_count, ← nodup_count]
    tauto

/-! The texts of the two parsers -/

theorem concat_front (first second : CStr) (rest : List CStr) :
    (CStr.concat [first, second]).bytes <+: (CStr.concat (first :: second :: rest)).bytes := by
  simp [CStr.concat_bytes]

theorem concat_end {pieces : List CStr} {last : CStr} (ends : pieces.getLast? = some last) :
    last.bytes <:+ (CStr.concat pieces).bytes := by
  obtain ⟨front, rfl⟩ := List.getLast?_eq_some_iff.mp ends
  simp [CStr.concat_bytes]

theorem around_concat (first second name back : CStr) :
    Around (.concat [first, second]) back (.concat [first, second, name, back]) name := by
  simp [Around, CStr.concat_bytes]

theorem allowedValues_end {values : List CStr} (some_ : values.length ≠ 0) :
    (CStr.lit "'").bytes <:+ (allowedValues values).bytes := by
  have last : ∀ values : List CStr, values.length ≠ 0 → ∃ front,
      ((values.map fun value => [CStr.lit "'", value, .lit "'"]).intersperse [.lit ", "]).flatten = front ++ [.lit "'"] := by
    intro values some_
    induction values with
    | nil => exact absurd rfl some_
    | cons first rest ih =>
      cases rest with
      | nil => exact ⟨[.lit "'", first], rfl⟩
      | cons second rest =>
        obtain ⟨front, split⟩ := ih (by simp)
        refine ⟨[.lit "'", first, .lit "'"] ++ [.lit ", "] ++ front, ?_⟩
        simp only [List.map_cons, List.intersperse_cons_cons, List.flatten_cons] at split ⊢
        rw [split]
        simp
  obtain ⟨front, split⟩ := last values some_
  rw [allowedValues, split]
  exact concat_end (by simp)

def valueFor : CStr := .concat [errorColored, .lit "Value for variable '"]

/-- How the other errors of `ltf_parse_vars` begin and end. -/
theorem parseVar_reports {overrides : List KvPair} {e : VarEntry} {error : CStr} (inside : error ∈ (parseVar overrides e).2) :
    (CStr.concat [errorColored, .lit "Constant variable '"]).bytes <+: error.bytes ∨
      valueFor.bytes <+: error.bytes ∧
        ((CStr.lit "=value` or add default value in declaration.\n").bytes <:+ error.bytes ∨
          ((CStr.lit "'").bytes ++ (CStr.lit "\n").bytes) <:+ error.bytes) := by
  unfold parseVar at inside
  dsimp only at inside
  split at inside
  next =>
    split at inside
    next =>
      cases List.mem_singleton.mp inside
      exact .inl (concat_front _ _ _)
    next => cases inside
  next =>
    split at inside
    next => cases inside
    next =>
      cases List.mem_singleton.mp inside
      refine .inr ⟨concat_front _ _ _, .inl ?_⟩
      unfold notSpecified
      dsimp only
      split <;> exact concat_end rfl
    next =>
      split at inside
      next => cases inside
      next some_ =>
        split at inside
        next => cases inside
        next =>
          split at inside
          next => cases inside
          next =>
            cases List.mem_singleton.mp inside
            refine .inr ⟨concat_front _ _ _, .inr ?_⟩
            obtain ⟨front, ends⟩ := allowedValues_end some_
            rw [CStr.concat_bytes]
            simp only [List.flatMap_cons, List.flatMap_nil, ← ends, List.append_assoc, List.append_nil]
            exact ⟨errorColored.bytes ++ (CStr.lit "Value for variable '").bytes ++ e.name.bytes ++
              (CStr.lit "' is not an allowed value. Allowed values: ").bytes ++ front, by simp⟩

theorem vars_apart (overrides : List KvPair) (vars : List VarEntry) :
    Apart registeredTwice specifiedTwice (vars.flatMap fun e => (parseVar overrides e).2) := by
  have registered (name : CStr) := around_concat errorColored (.lit "Variable '") name
    (.lit "' was registered more than once.\n")
  have specified (name : CStr) := around_concat errorColored (.lit "Value for variable '") name
    (.lit "' was specified more than once.\n")
  refine ⟨Around.injective registered, Around.injective specified, ?_, ?_⟩
  · intro first second
    exact front_differs (registered first).begins (specified second).begins (by decide +kernel)
  · intro error inside name
    obtain ⟨e, -, inside⟩ := List.mem_flatMap.mp inside
    rcases parseVar_reports inside with constant | ⟨front, ends⟩
    · exact ⟨front_differs constant (registered name).begins (by decide +kernel),
        front_differs constant (specified name).begins (by decide +kernel)⟩
    · refine ⟨front_differs front (registered name).begins (by decide +kernel), ?_⟩
      rcases ends with missing | refused
      · exact end_differs missing (specified name).ends (by decide +kernel)
      · exact end_differs refused (specified name).ends (by decide +kernel)

theorem secrets_apart (specified : List KvPair) (secrets : List Secret) :
    Apart secretRegisteredTwice secretSpecifiedTwice (secrets.flatMap fun reg => (parseSecret specified reg).2) := by
  have twice (name : CStr) := around_concat errorColored (.lit "Secret '") name
    (.lit "' was registered more than once.\n")
  have given (name : CStr) := around_concat errorColored (.lit "Value for secret '") name
    (.lit "' was specified more than once.\n")
  refine ⟨Around.injective twice, Around.injective given, ?_, ?_⟩
  · intro first second
    exact front_differs (twice first).begins (given second).begins (by decide +kernel)
  · intro error inside name
    obtain ⟨reg, -, inside⟩ := List.mem_flatMap.mp inside
    unfold parseSecret at inside
    split at inside
    next => cases inside
    next =>
      cases List.mem_singleton.mp inside
      have missing := around_concat errorColored (.lit "Value for secret '") reg.1
        (.lit "' is not provided. Please add it in '.secrets' file.\n")
      exact ⟨front_differs missing.begins (twice name).begins (by decide +kernel),
        end_differs missing.ends (given name).ends (by decide +kernel)⟩

theorem ltfSecretsParseFile_content (bytes : List UInt8) (out : List KvPair) :
    (ltfSecretsParseFile (.content bytes) out).1 = 0 := rfl

/-- The errors of a file that was read. -/
theorem parseSecrets_content (bytes : List UInt8) (secrets : DaPtr Secret) :
    let specified := (ltfSecretsParseFile (.content bytes) []).2
    let parsed := ltfParseSecrets (.content bytes) secrets
    parsed.errors = searchDuplicates ((secrets.getD []).map Prod.fst) secretRegisteredTwice ++
      searchDuplicates (specified.map Prod.fst) secretSpecifiedTwice ++
      ((secrets.getD []).flatMap fun reg => (parseSecret specified reg).2) ∧
    parsed.res = if parsed.errors.isEmpty then 0 else -1 := by
  simp only [ltfParseSecrets, ltfSecretsParseFile_content, ne_eq, not_true_eq_false, ite_false, and_self]

/-- Both parsers report each name one time less than it occurs, in either of their lists. What else is
an error is what a variable is refused for, or a secret. -/
theorem duplicates_exact (opts : CmdTestOptions) (vars : DaPtr VarEntry) (bytes : List UInt8) (secrets : DaPtr Secret) :
    Searches ((vars.getD []).map (·.name)) (opts.vars.map Prod.fst) registeredTwice specifiedTwice
      ((vars.getD []).flatMap fun e => (parseVar opts.vars e).2) (ltfParseVars opts vars).errors
      (ltfParseVars opts vars).res ∧
    Searches ((secrets.getD []).map Prod.fst) ((ltfSecretsParseFile (.content bytes) []).2.map Prod.fst)
      secretRegisteredTwice secretSpecifiedTwice
      ((secrets.getD []).flatMap fun reg => (parseSecret (ltfSecretsParseFile (.content bytes) []).2 reg).2)
      (ltfParseSecrets (.content bytes) secrets).errors (ltfParseSecrets (.content bytes) secrets).res := by
  obtain ⟨errors, res⟩ := parseSecrets_content bytes secrets
  exact ⟨searches_intro (vars_apart _ _) rfl rfl, searches_intro (secrets_apart _ _) errors res⟩

end Ltf.Proofs.Duplicates
