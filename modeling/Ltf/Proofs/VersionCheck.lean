import Ltf.Version
import Ltf.Proofs.TargetRuns

/-! The version check of `ltf_test` next to the order of versions. -/

namespace Ltf.Proofs.VersionCheck
open CString JsonC Ltf.Version Steps

structure Triple where
  major : Nat
  minor : Nat
  patch : Nat

def Newer (first second : Triple) : Prop :=
  second.major < first.major ∨ first.major = second.major ∧
    (second.minor < first.minor ∨ first.minor = second.minor ∧ second.patch < first.patch)

/-- The components with the weights of `LTF_VERSION_NUM`. -/
def number (version : Triple) : Nat := 1000 * version.major + 100 * version.minor + version.patch

/-- The first difference, with its weight, is more than the components behind it make up for. -/
structure Outweighs (first second : Triple) : Prop where
  major : second.major < first.major →
    100 * second.minor + second.patch < 1000 * (first.major - second.major) + 100 * first.minor + first.patch
  majorBehind : first.major < second.major →
    100 * first.minor + first.patch ≤ 1000 * (second.major - first.major) + 100 * second.minor + second.patch
  minor : first.major = second.major → second.minor < first.minor →
    second.patch < 100 * (first.minor - second.minor) + first.patch
  minorBehind : first.major = second.major → first.minor < second.minor →
    first.patch ≤ 100 * (second.minor - first.minor) + second.patch

theorem outweighs_iff (first second : Triple) :
    Outweighs first second ↔ (number second < number first ↔ Newer first second) := by
  constructor
  · intro outweighs
    obtain ⟨major, majorBehind, minor, minorBehind⟩ := outweighs
    unfold number Newer
    omega
  · unfold number Newer
    intro same
    constructor <;> omega

/-- With one digit for the minor version and two for the patch the weights are large enough. -/
theorem outweighs_small {first second : Triple} (minor : first.minor ≤ 9) (patch : first.patch ≤ 99)
    (minor' : second.minor ≤ 9) (patch' : second.patch ≤ 99) : Outweighs first second := by
  constructor <;> omega

section Numbers
variable {a b c : IntType} {version : Triple} {result : CInt}

/-- No step towards the number leaves its type. -/
structure Fits (a b c : IntType) (version : Triple) : Prop where
  major : 1000 * version.major ≤ a.max
  minor : 100 * version.minor ≤ b.max
  sum : 1000 * version.major + 100 * version.minor ≤ (a.common b).max
  whole : number version ≤ ((a.common b).common c).max

theorem checked_nat (type : IntType) (n : Nat) :
    CInt.checked type n = .ok result ↔ n ≤ type.max ∧ result = ⟨type, n⟩ := by
  unfold CInt.checked
  constructor
  · intro found
    split at found
    next range =>
      cases found
      exact ⟨by omega, rfl⟩
    · cases found
  · intro small
    obtain ⟨small, rfl⟩ := small
    rw [if_pos ⟨by omega, by omega⟩]

@[simp] theorem common_int (type : IntType) : type.common .int = type := by
  cases type <;> rfl

theorem ltfVersionNum_iff : ltfVersionNum ⟨a, version.major⟩ ⟨b, version.minor⟩ ⟨c, version.patch⟩ = .ok result ↔
    Fits a b c version ∧ result = ⟨(a.common b).common c, number version⟩ := by
  have first : (version.major : Int) * 1000 = ((1000 * version.major : Nat) : Int) := by omega
  have second : (version.minor : Int) * 100 = ((100 * version.minor : Nat) : Int) := by omega
  constructor
  · intro found
    obtain ⟨majors, one, found⟩ := bind_ok.mp found
    obtain ⟨minors, two, found⟩ := bind_ok.mp found
    obtain ⟨sum, three, found⟩ := bind_ok.mp found
    simp only [CInt.mul, common_int, first, second] at one two
    obtain ⟨major, rfl⟩ := (checked_nat _ _).mp one
    obtain ⟨minor, rfl⟩ := (checked_nat _ _).mp two
    simp only [CInt.add, ← Int.natCast_add] at three
    obtain ⟨sum, rfl⟩ := (checked_nat _ _).mp three
    simp only [CInt.add, ← Int.natCast_add] at found
    obtain ⟨whole, same⟩ := (checked_nat _ _).mp found
    exact ⟨⟨major, minor, sum, whole⟩, same⟩
  · intro fits
    obtain ⟨⟨major, minor, sum, whole⟩, rfl⟩ := fits
    have one : CInt.mul ⟨a, version.major⟩ ⟨.int, 1000⟩ = .ok ⟨a, (1000 * version.major : Nat)⟩ := by
      simp only [CInt.mul, common_int, first]
      exact (checked_nat _ _).mpr ⟨major, rfl⟩
    have two : CInt.mul ⟨b, version.minor⟩ ⟨.int, 100⟩ = .ok ⟨b, (100 * version.minor : Nat)⟩ := by
      simp only [CInt.mul, common_int, second]
      exact (checked_nat _ _).mpr ⟨minor, rfl⟩
    have three := (checked_nat _ _).mpr ⟨sum, rfl⟩
    rw [ltfVersionNum, bind_of_ok one, bind_of_ok two]
    simp only [CInt.add, ← Int.natCast_add]
    rw [bind_of_ok three]
    simp only [← Int.natCast_add]
    exact (checked_nat _ _).mpr ⟨whole, rfl⟩

theorem fits_int : Fits .int .int .int version ↔ number version ≤ 2147483647 := by
  constructor
  · intro fits
    exact fits.whole
  · intro whole
    unfold number at whole
    constructor <;> simp only [number, IntType.common, IntType.max] <;> omega

/-- The version of the program as constants of the language. -/
def ConstantFits (version : Triple) : Prop :=
  Fits (.ofConstant version.major) (.ofConstant version.minor) (.ofConstant version.patch) version

theorem max_long (type : IntType) : type.max ≤ IntType.long.max := by
  cases type <;> decide

theorem constant_iff {n : Nat} : CInt.constant n = .ok result ↔ n ≤ IntType.long.max ∧ result = ⟨.ofConstant n, n⟩ := by
  unfold CInt.constant
  rw [checked_nat, IntType.ofConstant]
  split
  next small =>
    have := max_long .int
    simp [small, Nat.le_trans small this]
  · rfl

end Numbers

def triple (program : Program) : Triple := ⟨program.major, program.minor, program.patch⟩

variable {program : Program} {proj : ProjectParsed} {project : Triple} {result : CInt}

theorem current_iff : ltfVersionNumCurrent program = .ok result ↔ ConstantFits (triple program) ∧
    result = ⟨((IntType.ofConstant program.major).common (.ofConstant program.minor)).common (.ofConstant program.patch),
      number (triple program)⟩ := by
  constructor
  · intro found
    obtain ⟨major, one, found⟩ := bind_ok.mp found
    obtain ⟨minor, two, found⟩ := bind_ok.mp found
    obtain ⟨patch, three, found⟩ := bind_ok.mp found
    obtain ⟨_, rfl⟩ := constant_iff.mp one
    obtain ⟨_, rfl⟩ := constant_iff.mp two
    obtain ⟨_, rfl⟩ := constant_iff.mp three
    exact (@ltfVersionNum_iff _ _ _ (triple program) _).mp found
  · intro fits
    have fits' := fits
    obtain ⟨⟨major, minor, sum, whole⟩, _⟩ := fits'
    unfold number triple at whole
    have largest := max_long (.ofConstant program.major)
    have largest' := max_long (.ofConstant program.minor)
    have largest'' := max_long (((IntType.ofConstant program.major).common (.ofConstant program.minor)).common
      (.ofConstant program.patch))
    simp only [triple] at major minor whole
    have one := (@constant_iff _ program.major).mpr ⟨by omega, rfl⟩
    have two := (@constant_iff _ program.minor).mpr ⟨by omega, rfl⟩
    have three := (@constant_iff _ program.patch).mpr ⟨by omega, rfl⟩
    rw [ltfVersionNumCurrent, bind_of_ok one, bind_of_ok two, bind_of_ok three]
    exact (@ltfVersionNum_iff _ _ _ (triple program) _).mpr fits

theorem toUnsigned_nat {type type' : IntType} {n : Nat} (small : n ≤ type.max) : CInt.toUnsigned ⟨type', n⟩ = n := by
  have := max_long type
  have largest : IntType.long.max < UInt64.size := by decide
  have range : (n : Int) % UInt64.size = n := Int.emod_eq_of_lt (by omega) (by omega)
  rw [CInt.toUnsigned, range, Int.toNat_natCast]

/-- The minimum version in the project. -/
structure Requires (proj : ProjectParsed) (project : Triple) : Prop where
  major : proj.minLtfVerMajor = some (project.major : Int)
  minor : proj.minLtfVerMinor = some (project.minor : Int)
  patch : proj.minLtfVerPatch = some (project.patch : Int)

theorem readProject_some {α : Type} {field : Option α} {value : α} (found : field = some value) :
    readProject field = .ok value := by
  subst found
  rfl

theorem check_ran {printed : Option CStr} (requires : Requires proj project)
    (ran : ltfTestVersion proj program = .ok printed) :
    number project ≤ 2147483647 ∧ ConstantFits (triple program) ∧
      (printed ≠ none ↔ number (triple program) < number project) := by
  rw [ltfTestVersion, bind_of_ok (readProject_some requires.major), bind_of_ok (readProject_some requires.minor),
    bind_of_ok (readProject_some requires.patch)] at ran
  obtain ⟨required, one, ran⟩ := bind_ok.mp ran
  obtain ⟨current, two, ran⟩ := bind_ok.mp ran
  obtain ⟨fits, rfl⟩ := ltfVersionNum_iff.mp one
  obtain ⟨fits', rfl⟩ := current_iff.mp two
  rw [toUnsigned_nat fits.whole, toUnsigned_nat fits'.whole] at ran
  refine ⟨fits_int.mp fits, fits', ?_⟩
  split at ran
  next newer =>
    obtain ⟨minimum, _, same⟩ := bind_ok.mp ran
    cases same
    simp [newer]
  next older =>
    cases ran
    simp [older]

theorem check_runs {minimum : CStr} (requires : Requires proj project) (text : proj.minLtfVerStr = some minimum)
    (small : number project ≤ 2147483647) (fits : ConstantFits (triple program)) :
    ∃ printed, ltfTestVersion proj program = .ok printed := by
  have one := ltfVersionNum_iff.mpr ⟨fits_int.mpr small, rfl⟩
  have two := current_iff.mpr ⟨fits, rfl⟩
  rw [ltfTestVersion, bind_of_ok (readProject_some requires.major), bind_of_ok (readProject_some requires.minor),
    bind_of_ok (readProject_some requires.patch), bind_of_ok one, bind_of_ok two]
  split
  · rw [bind_of_ok (readProject_some text)]
    exact ⟨_, rfl⟩
  · exact ⟨_, rfl⟩

/-- The check says which of two versions is newer exactly if neither number overflows and
the first component that differs is the one that decides. -/
theorem warns_iff {lib : Coercions} {path : CStr} {file : Json}
    (accepted : projectParserParse lib path file = .ok (some proj)) (requires : Requires proj project) :
    (∃ printed, ltfTestVersion proj program = .ok printed ∧ (printed ≠ none ↔ Newer project (triple program))) ↔
      number project ≤ 2147483647 ∧ ConstantFits (triple program) ∧ Outweighs project (triple program) := by
  constructor
  · intro answers
    obtain ⟨printed, ran, warns⟩ := answers
    obtain ⟨small, fits, prints⟩ := check_ran requires ran
    exact ⟨small, fits, (outweighs_iff _ _).mpr (prints.symm.trans warns)⟩
  · intro condition
    obtain ⟨small, fits, outweighs⟩ := condition
    obtain ⟨header, parses⟩ := TargetRuns.Accepted.parses ⟨proj, accepted⟩
    have text : proj.minLtfVerStr = some header.version := by
      rw [TargetRuns.Parses, accepted] at parses
      cases parses
      rfl
    obtain ⟨printed, ran⟩ := check_runs requires text small fits
    obtain ⟨_, _, prints⟩ := check_ran requires ran
    exact ⟨printed, ran, prints.trans ((outweighs_iff _ _).mp outweighs)⟩

section Cases

/-- A project for version 1.10.1, and one for version 2.1.0. -/
def older : TargetRuns.Header := ⟨.lit "demo", .lit "1.10.1", 1, 10, 1⟩

def newer : TargetRuns.Header := ⟨.lit "demo", .lit "2.1.0", 2, 1, 0⟩

def release : Program := ⟨2, 0, 0, .lit "2.0.0-alpha2"⟩

def noCoercions : Coercions := ⟨fun _ => [], fun _ => 0⟩

theorem warns_newer_minor : ∃ printed, ltfTestVersion (TargetRuns.loaded newer (.lit "/demo") false []) release =
    .ok printed ∧ (printed ≠ none ↔ Newer ⟨2, 1, 0⟩ (triple release)) := by
  have accepted : projectParserParse noCoercions (.lit "/demo") (TargetRuns.savedJson newer false []) =
      .ok (some (TargetRuns.loaded newer (.lit "/demo") false [])) := rfl
  refine (warns_iff accepted ⟨rfl, rfl, rfl⟩).mpr ⟨by decide, fits_int.mpr (by decide), ?_⟩
  exact outweighs_small (by decide) (by decide) (by decide) (by decide)

/-- The minor version 10 counts like the next major version. -/
theorem warns_older_major : projectParserParse noCoercions (.lit "/demo") (TargetRuns.savedJson older false []) =
      .ok (some (TargetRuns.loaded older (.lit "/demo") false [])) ∧
    ¬ ∃ printed, ltfTestVersion (TargetRuns.loaded older (.lit "/demo") false []) release = .ok printed ∧
      (printed ≠ none ↔ Newer ⟨1, 10, 1⟩ (triple release)) := by
  refine ⟨rfl, ?_⟩
  intro answers
  obtain ⟨printed, ran, warns⟩ := answers
  have requires : Requires (TargetRuns.loaded older (.lit "/demo") false []) ⟨1, 10, 1⟩ := ⟨rfl, rfl, rfl⟩
  obtain ⟨_, _, prints⟩ := check_ran requires ran
  have ahead := warns.mp (prints.mpr (by decide))
  obtain major | ⟨major, _⟩ := ahead
  · exact absurd major (by decide)
  · exact absurd major (by decide)

end Cases

end Ltf.Proofs.VersionCheck
