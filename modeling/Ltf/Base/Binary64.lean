import Mathlib.Algebra.Order.Group.Nat
import Mathlib.Tactic.NormNum
import Mathlib.Tactic.Ring

/-! Integers as doubles: what `(double)n` gives, and the integer that a double is equal
to. The bits of a double are its exponent times `2 ^ 52` plus its fraction. -/

namespace Binary64

/-- The leading 53 bits of a number whose highest bit is `lead`, rounded to nearest with
ties to even. -/
def significand (n lead : Nat) : Nat :=
  if lead ≤ 52 then n * 2 ^ (52 - lead)
  else
    let unit := 2 ^ (lead - 52)
    let q := n / unit
    let r := n % unit
    if 2 * r < unit ∨ 2 * r = unit ∧ q % 2 = 0 then q else q + 1

/-- A significand that is rounded up to 54 bits carries into the exponent. -/
def ofNat (n : Nat) : Nat :=
  if n = 0 then 0 else (n.log2 + 1022) * 4503599627370496 + significand n n.log2

/-- `(double)n` -/
def ofInt (n : Int) : UInt64 :=
  .ofNat (ofNat n.natAbs + if n < 0 then 9223372036854775808 else 0)

/-- The natural number a double without its sign is equal to. -/
def ofFields (exponent fraction : Nat) : Option Nat :=
  let m := 4503599627370496 + fraction
  if exponent = 0 then if fraction = 0 then some 0 else none
  else if exponent = 2047 then none
  else if 1075 ≤ exponent then some (m * 2 ^ (exponent - 1075))
  else if m % 2 ^ (1075 - exponent) = 0 then some (m / 2 ^ (1075 - exponent))
  else none

def toNat (bits : Nat) : Option Nat := ofFields (bits / 4503599627370496) (bits % 4503599627370496)

def IsInt64 (n : Int) : Prop := -9223372036854775808 ≤ n ∧ n ≤ 9223372036854775807

instance (n : Int) : Decidable (IsInt64 n) := inferInstanceAs (Decidable (_ ∧ _))

def signed (bits : UInt64) (magnitude : Nat) : Int :=
  if 9223372036854775808 ≤ bits.toNat then -magnitude else magnitude

/-- The 64-bit integer a double is equal to. -/
def toInt64 (bits : UInt64) : Option Int :=
  (toNat (bits.toNat % 9223372036854775808)).bind fun magnitude =>
    if IsInt64 (signed bits magnitude) then some (signed bits magnitude) else none

/-- A number with at most 53 significant bits. -/
def Representable (n : Nat) : Prop := ∃ m e, n = m * 2 ^ e ∧ m < 9007199254740992

theorem pow_lead {lead : Nat} (large : 52 ≤ lead) : 2 ^ lead = 4503599627370496 * 2 ^ (lead - 52) := by
  have hidden : 4503599627370496 = 2 ^ 52 := by norm_num
  rw [hidden, ← pow_add, Nat.add_sub_cancel' large]

theorem quotient_bounds {n : Nat} (positive : n ≠ 0) (large : 52 ≤ n.log2) :
    4503599627370496 ≤ n / 2 ^ (n.log2 - 52) ∧ n / 2 ^ (n.log2 - 52) < 9007199254740992 := by
  have low : 2 ^ n.log2 ≤ n := Nat.log2_self_le positive
  have high : n < 2 ^ (n.log2 + 1) := Nat.lt_log2_self
  have unit : 0 < 2 ^ (n.log2 - 52) := Nat.pow_pos (by omega)
  rw [pow_succ, pow_lead large] at high
  rw [pow_lead large] at low
  refine ⟨(Nat.le_div_iff_mul_le unit).mpr low, (Nat.div_lt_iff_lt_mul unit).mpr ?_⟩
  omega

theorem significand_bounds {n : Nat} (positive : n ≠ 0) :
    4503599627370496 ≤ significand n n.log2 ∧ significand n n.log2 ≤ 9007199254740992 := by
  by_cases small : n.log2 ≤ 52
  · have low : 2 ^ n.log2 ≤ n := Nat.log2_self_le positive
    have high : n < 2 ^ (n.log2 + 1) := Nat.lt_log2_self
    have split : 2 ^ n.log2 * 2 ^ (52 - n.log2) = 4503599627370496 := by
      rw [← pow_add, Nat.add_sub_cancel' small]
      norm_num
    have below := Nat.mul_le_mul_right (2 ^ (52 - n.log2)) low
    have above := Nat.mul_le_mul_right (2 ^ (52 - n.log2)) high.le
    rw [pow_succ] at above
    rw [significand, if_pos small]
    constructor
    · omega
    · calc n * 2 ^ (52 - n.log2) ≤ 2 ^ n.log2 * 2 * 2 ^ (52 - n.log2) := above
        _ = 2 * (2 ^ n.log2 * 2 ^ (52 - n.log2)) := by ring
        _ = 9007199254740992 := by rw [split]
  · obtain ⟨low, high⟩ := quotient_bounds positive (by omega)
    simp only [significand, if_neg small]
    split <;> omega

/-- A significand is read back with the unit it was written with. -/
theorem toNat_large {lead m : Nat} (low : 4503599627370496 ≤ m) (high : m ≤ 9007199254740992) (large : 52 ≤ lead)
    (small : lead ≤ 64) : toNat ((lead + 1022) * 4503599627370496 + m) = some (m * 2 ^ (lead - 52)) := by
  rw [toNat]
  by_cases carry : m = 9007199254740992
  · have exponent : ((lead + 1022) * 4503599627370496 + m) / 4503599627370496 = lead + 1024 := by omega
    have fraction : ((lead + 1022) * 4503599627370496 + m) % 4503599627370496 = 0 := by omega
    rw [exponent, fraction, ofFields, if_neg (by omega), if_neg (by omega), if_pos (by omega), carry,
      show lead + 1024 - 1075 = lead - 52 + 1 by omega, pow_succ]
    congr 1
    omega
  · have exponent : ((lead + 1022) * 4503599627370496 + m) / 4503599627370496 = lead + 1023 := by omega
    have fraction : ((lead + 1022) * 4503599627370496 + m) % 4503599627370496 = m - 4503599627370496 := by omega
    rw [exponent, fraction, ofFields, if_neg (by omega), if_neg (by omega), if_pos (by omega),
      show lead + 1023 - 1075 = lead - 52 by omega, show 4503599627370496 + (m - 4503599627370496) = m by omega]

theorem toNat_small {n : Nat} (positive : n ≠ 0) (small : n.log2 < 52) : toNat (ofNat n) = some n := by
  obtain ⟨low, -⟩ := significand_bounds positive
  have high : n * 2 ^ (52 - n.log2) < 2 ^ (n.log2 + 1) * 2 ^ (52 - n.log2) :=
    Nat.mul_lt_mul_of_pos_right Nat.lt_log2_self (Nat.pow_pos (by omega))
  rw [← pow_add, show n.log2 + 1 + (52 - n.log2) = 53 by omega] at high
  rw [significand, if_pos small.le] at low
  rw [ofNat, if_neg positive, significand, if_pos small.le, toNat]
  generalize same : n * 2 ^ (52 - n.log2) = m at low high
  have exponent : ((n.log2 + 1022) * 4503599627370496 + m) / 4503599627370496 = n.log2 + 1023 := by omega
  have fraction : ((n.log2 + 1022) * 4503599627370496 + m) % 4503599627370496 = m - 4503599627370496 := by omega
  rw [exponent, fraction, ofFields, if_neg (by omega), if_neg (by omega), if_neg (by omega),
    show 4503599627370496 + (m - 4503599627370496) = m by omega, show 1075 - (n.log2 + 1023) = 52 - n.log2 by omega,
    ← same, if_pos (Nat.mul_mod_left ..), Nat.mul_div_cancel _ (Nat.pow_pos (by omega))]

/-- Up to 53 bits nothing is lost. -/
theorem representable_small {n : Nat} (small : n.log2 < 52) : Representable n := by
  refine ⟨n, 0, by omega, ?_⟩
  have high : n < 2 ^ (n.log2 + 1) := Nat.lt_log2_self
  have bound : 2 ^ (n.log2 + 1) ≤ 2 ^ 52 := Nat.pow_le_pow_right (by omega) (by omega)
  omega

/-- From the 53rd bit on nothing is lost when the bits below it are not set. -/
theorem representable_large {n : Nat} (positive : n ≠ 0) (large : 52 ≤ n.log2) :
    Representable n ↔ n % 2 ^ (n.log2 - 52) = 0 := by
  constructor
  · rintro ⟨m, e, same, bound⟩
    have covers : n.log2 - 52 ≤ e := by
      by_contra short
      have low : 2 ^ n.log2 ≤ n := Nat.log2_self_le positive
      have unit : 2 ^ e * 2 ≤ 2 ^ (n.log2 - 52) := by
        rw [← pow_succ]
        exact Nat.pow_le_pow_right (by omega) (by omega)
      have less : m * 2 ^ e < 9007199254740992 * 2 ^ e := Nat.mul_lt_mul_of_pos_right bound (Nat.pow_pos (by omega))
      rw [pow_lead large] at low
      omega
    apply Nat.mod_eq_zero_of_dvd
    have whole : 2 ^ e ∣ n := ⟨m, by rw [same, Nat.mul_comm]⟩
    exact (pow_dvd_pow 2 covers).trans whole
  · intro exact_
    refine ⟨n / 2 ^ (n.log2 - 52), n.log2 - 52, ?_, (quotient_bounds positive large).2⟩
    rw [Nat.div_mul_cancel (Nat.dvd_of_mod_eq_zero exact_)]

theorem toNat_ofNat {n : Nat} (small : n.log2 ≤ 64) :
    ∃ rounded, toNat (ofNat n) = some rounded ∧ (rounded = n ↔ Representable n) := by
  by_cases zero : n = 0
  · subst zero
    exact ⟨0, rfl, fun _ => ⟨0, 0, rfl, by omega⟩, fun _ => rfl⟩
  by_cases large : 52 ≤ n.log2
  · obtain ⟨low, high⟩ := significand_bounds zero
    refine ⟨significand n n.log2 * 2 ^ (n.log2 - 52), ?_, ?_⟩
    · rw [ofNat, if_neg zero]
      exact toNat_large low high large small
    · rw [representable_large zero large]
      have parts := Nat.div_add_mod n (2 ^ (n.log2 - 52))
      have unit : 0 < 2 ^ (n.log2 - 52) := Nat.pow_pos (by omega)
      constructor
      · intro same
        exact Nat.mod_eq_zero_of_dvd ⟨significand n n.log2, by rw [Nat.mul_comm, same]⟩
      · intro none_left
        have quotient : significand n n.log2 = n / 2 ^ (n.log2 - 52) := by
          by_cases edge : n.log2 = 52
          · simp [significand, edge]
          · simp only [significand, if_neg (show ¬ n.log2 ≤ 52 by omega), none_left]
            rw [if_pos (.inl (by omega))]
        rw [quotient, Nat.div_mul_cancel (Nat.dvd_of_mod_eq_zero none_left)]
  · have small : n.log2 < 52 := by omega
    exact ⟨n, toNat_small zero small, fun _ => representable_small small, fun _ => rfl⟩

theorem ofNat_lt {n : Nat} (small : n.log2 ≤ 64) : ofNat n < 9223372036854775808 := by
  by_cases zero : n = 0
  · subst zero
    decide
  obtain ⟨-, high⟩ := significand_bounds zero
  rw [ofNat, if_neg zero]
  omega

/-- The two halves of the bits of an integer. -/
theorem ofInt_parts {n : Int} (small : n.natAbs.log2 ≤ 64) (magnitude : Nat) :
    (ofInt n).toNat % 9223372036854775808 = ofNat n.natAbs ∧
      signed (ofInt n) magnitude = if n < 0 then -(magnitude : Int) else magnitude := by
  have room := ofNat_lt small
  have bits : (ofInt n).toNat = ofNat n.natAbs + if n < 0 then 9223372036854775808 else 0 := by
    rw [ofInt, UInt64.toNat_ofNat']
    split <;> omega
  rw [signed, bits]
  by_cases negative : n < 0
  · rw [if_pos negative, if_pos (by omega), if_pos negative]
    exact ⟨by omega, rfl⟩
  · rw [if_neg negative, if_neg (by omega), if_neg negative]
    exact ⟨by omega, rfl⟩

/-- An integer comes back from its double exactly when it has at most 53 significant bits. -/
theorem toInt64_ofInt {n : Int} (fits : IsInt64 n) : toInt64 (ofInt n) = some n ↔ Representable n.natAbs := by
  have small : n.natAbs.log2 ≤ 64 := by
    by_cases zero : n.natAbs = 0
    · simp [zero]
    · have bound : n.natAbs < 2 ^ 64 := by
        obtain ⟨low, high⟩ := fits
        omega
      exact ((Nat.log2_lt zero).mpr bound).le
  obtain ⟨rounded, read, exact_⟩ := toNat_ofNat small
  obtain ⟨low, sign⟩ := ofInt_parts small rounded
  rw [← exact_, toInt64, low, read, Option.bind_some, sign]
  constructor
  · intro same
    by_cases inside : IsInt64 (if n < 0 then -(rounded : Int) else rounded)
    · rw [if_pos inside, Option.some.injEq] at same
      omega
    · rw [if_neg inside] at same
      cases same
  · intro same
    have back : (if n < 0 then -(rounded : Int) else rounded) = n := by omega
    rw [back, if_pos fits]

end Binary64
