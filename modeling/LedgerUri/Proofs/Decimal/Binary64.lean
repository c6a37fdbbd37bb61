import LedgerUri.Decimal.Binary64
import Mathlib.Algebra.Order.Floor.Semifield
import Mathlib.Data.Rat.Floor
import Mathlib.Tactic.FieldSimp
import Mathlib.Tactic.Ring

/-!
# Floats as exact numbers

A finite pattern denotes a rational number, which its three fields determine. On these numbers the
operations on values are the exact ones: nothing is rounded by taking the part after the point, by
comparing, or by dropping the part after the point and clamping.

* `Denotes`, `IsInfinite`, `IsNaN` — what a pattern denotes, by its fields;
* `denotes_iff` — a value that is read from a pattern is that number;
* `Value.compare?_finite`, `Value.eq_fract_zero_iff`, `Value.toNat_toUInt64` — the operations.
-/

namespace LedgerUri.Binary64

/-! ## What a pattern denotes -/

/-- The top bit. -/
def signField (x : Binary64) : ℕ := x.bits.toNat / 2 ^ 63

/-- The eleven bits below it. -/
def exponentField (x : Binary64) : ℕ := x.bits.toNat / 2 ^ 52 % 2 ^ 11

/-- The other 52 bits. -/
def fractionField (x : Binary64) : ℕ := x.bits.toNat % 2 ^ 52

/-- The number without its sign. A fraction stands behind the point, and there is a one in front of
it unless the exponent field is zero. -/
def magnitude (x : Binary64) : ℚ :=
  if x.exponentField = 0 then x.fractionField / 2 ^ 52 * 2 ^ (-1022 : ℤ)
  else (1 + x.fractionField / 2 ^ 52) * 2 ^ ((x.exponentField : ℤ) - 1023)

/-- The pattern denotes exactly the number. -/
def Denotes (x : Binary64) (q : ℚ) : Prop :=
  x.exponentField ≠ 2 ^ 11 - 1 ∧ q = (-1) ^ x.signField * x.magnitude

/-- The pattern denotes an infinity. -/
def IsInfinite (x : Binary64) : Prop :=
  x.exponentField = 2 ^ 11 - 1 ∧ x.fractionField = 0

/-- The pattern denotes no number. -/
def IsNaN (x : Binary64) : Prop :=
  x.exponentField = 2 ^ 11 - 1 ∧ x.fractionField ≠ 0

namespace Value

/-- The number `± mantissa · 2 ^ exponent`. -/
def number (negative : Bool) (mantissa : ℕ) (exponent : ℤ) : ℚ :=
  (if negative then -1 else 1) * (mantissa * 2 ^ exponent)

variable {negative negative' : Bool} {mantissa mantissa' : ℕ} {exponent exponent' : ℤ}

/-! ## Order -/

/-- Counting in units that divide a number loses nothing. -/
theorem inUnits_mul {unit : ℤ} (h : unit ≤ exponent) :
    (inUnits unit negative mantissa exponent : ℚ) * 2 ^ unit =
      number negative mantissa exponent := by
  have hpow : (2 : ℚ) ^ (exponent - unit).toNat * 2 ^ unit = 2 ^ exponent := by
    rw [← zpow_natCast, ← zpow_add₀ two_ne_zero, Int.toNat_of_nonneg (by omega)]
    congr 1
    omega
  have hmagnitude : ((mantissa * Nat.pow 2 (exponent - unit).toNat : ℕ) : ℚ) * 2 ^ unit =
      mantissa * 2 ^ exponent := by
    rw [Nat.pow_eq, Nat.cast_mul, Nat.cast_pow, Nat.cast_ofNat, mul_assoc, hpow]
  rw [number, ← hmagnitude]
  cases negative <;> simp [inUnits]

/-- **Finite values are compared as numbers.** -/
theorem compare?_finite :
    compare? (finite negative mantissa exponent) (finite negative' mantissa' exponent') =
      some (compare (number negative mantissa exponent)
        (number negative' mantissa' exponent')) := by
  have hunit : (0 : ℚ) < 2 ^ min exponent exponent' := zpow_pos two_pos _
  rw [compare?, ← inUnits_mul (min_le_left exponent exponent'),
    ← inUnits_mul (min_le_right exponent exponent')]
  generalize inUnits _ negative mantissa exponent = a
  generalize inUnits _ negative' mantissa' exponent' = b
  -- A unit is above zero, so the counts of it are in the order of the numbers.
  have hmono : StrictMono fun n : ℤ => (n : ℚ) * 2 ^ min exponent exponent' :=
    fun m n h => mul_lt_mul_of_pos_right (Int.cast_lt.2 h) hunit
  rw [← cmp_eq_compare, ← cmp_eq_compare]
  exact congrArg some (hmono.cmp_map_eq a b).symm

theorem eq_finite_iff :
    eq (finite negative mantissa exponent) (finite negative' mantissa' exponent') = true ↔
      number negative mantissa exponent = number negative' mantissa' exponent' := by
  rw [eq, compare?_finite, decide_eq_true_iff, Option.some.injEq, compare_eq_iff_eq]

theorem lt_finite_iff :
    lt (finite negative mantissa exponent) (finite negative' mantissa' exponent') = true ↔
      number negative mantissa exponent < number negative' mantissa' exponent' := by
  rw [lt, compare?_finite, decide_eq_true_iff, Option.some.injEq, compare_lt_iff_lt]

theorem le_finite_iff :
    le (finite negative mantissa exponent) (finite negative' mantissa' exponent') = true ↔
      number negative mantissa exponent ≤ number negative' mantissa' exponent' := by
  rw [le, Bool.or_eq_true, lt_finite_iff, eq_finite_iff, le_iff_lt_or_eq]

@[simp]
theorem number_zero_mantissa : number negative 0 exponent = 0 := by
  simp [number]

/-! ## Before and after the point -/

/-- The number as a fraction with a power of two below the line. -/
theorem number_eq_div :
    number negative mantissa exponent =
      (if negative then -1 else 1) *
        ((mantissa * 2 ^ exponent.toNat : ℕ) / (2 ^ (-exponent).toNat : ℕ)) := by
  have hpow : (2 : ℚ) ^ exponent = 2 ^ exponent.toNat / 2 ^ (-exponent).toNat := by
    rw [← zpow_natCast, ← zpow_natCast, ← zpow_sub₀ two_ne_zero]
    congr 1
    omega
  rw [number, hpow, Nat.cast_mul, Nat.cast_pow, Nat.cast_pow, Nat.cast_ofNat, mul_div_assoc]

theorem number_true : number true mantissa exponent = -number false mantissa exponent := by
  simp [number]

theorem number_false_nonneg : 0 ≤ number false mantissa exponent := by
  have hpow : (0 : ℚ) < 2 ^ exponent := zpow_pos two_pos _
  simp only [number, Bool.false_eq_true, if_false, one_mul]
  positivity

/-- A number is an integer when the mantissa has nothing after the point. -/
theorem fract_number_eq_zero_iff :
    Int.fract (number negative mantissa exponent) = 0 ↔
      mantissa % 2 ^ (-exponent).toNat = 0 := by
  have hpow : ((2 ^ (-exponent).toNat : ℕ) : ℚ) ≠ 0 := by positivity
  have hpositive : Int.fract (number false mantissa exponent) = 0 ↔
      mantissa % 2 ^ (-exponent).toNat = 0 := by
    rw [number_eq_div]
    simp only [Bool.false_eq_true, if_false, one_mul]
    rw [Int.fract_div_natCast_eq_div_natCast_mod, div_eq_zero_iff, or_iff_left hpow,
      Nat.cast_eq_zero]
    -- One of the two powers is one: the mantissa is shifted up, or is itself cut by the point.
    rcases le_or_gt 0 exponent with hwhole | hpoint
    · have hnone : (-exponent).toNat = 0 := by omega
      simp [hnone, Nat.mod_one]
    · have hnone : exponent.toNat = 0 := by omega
      rw [hnone, pow_zero, mul_one]
  cases negative with
  | false => exact hpositive
  | true => rw [number_true, Int.fract_neg_eq_zero, hpositive]

/-- **Nothing after the point** is found exactly for integers. -/
theorem eq_fract_zero_iff :
    eq (fract (finite negative mantissa exponent)) zero = true ↔
      Int.fract (number negative mantissa exponent) = 0 := by
  have hpow : (2 : ℚ) ^ exponent ≠ 0 := zpow_ne_zero _ two_ne_zero
  rw [fract_number_eq_zero_iff, fract, zero, eq_finite_iff, number_zero_mantissa, Nat.pow_eq]
  cases negative <;> simp [number, hpow]

/-- **The integer part is clamped** to 64 bits; nothing below zero has one. -/
theorem toNat_toUInt64 :
    (toUInt64 (finite negative mantissa exponent)).toNat =
      min ⌊number negative mantissa exponent⌋₊ (2 ^ 64 - 1) := by
  have hfloor : ⌊number false mantissa exponent⌋₊ =
      mantissa * 2 ^ exponent.toNat / 2 ^ (-exponent).toNat := by
    rw [number_eq_div]
    simp only [Bool.false_eq_true, if_false, one_mul]
    exact Nat.floor_div_eq_div _ _
  cases negative with
  | true =>
    have hneg : number true mantissa exponent ≤ 0 := by
      rw [number_true]
      exact neg_nonpos.2 number_false_nonneg
    rw [Nat.floor_of_nonpos hneg]
    rfl
  | false =>
    rw [toUInt64, hfloor]
    simp only [Bool.false_eq_true, if_false]
    refine UInt64.toNat_ofNat_of_lt' ?_
    exact lt_of_le_of_lt (min_le_right _ _) (by decide)

end Value

/-! ## Patterns as values -/

variable {x : Binary64} {q : ℚ}

theorem signField_lt (x : Binary64) : x.signField < 2 := by
  have hbits : x.bits.toNat < 2 ^ 64 := x.bits.toNat_lt
  rw [signField]
  omega

/-- The integer that the number is a multiple of a power of two by. -/
def mantissa (x : Binary64) : ℕ :=
  if x.exponentField = 0 then x.fractionField else 2 ^ 52 + x.fractionField

/-- The power of two. -/
def exponent (x : Binary64) : ℤ :=
  if x.exponentField = 0 then -1074 else x.exponentField - 1075

/-- A pattern with an exponent is read by its fields. -/
theorem value_of_ne (h : x.exponentField ≠ 2 ^ 11 - 1) :
    x.value = .finite (x.signField = 1) x.mantissa x.exponent := by
  -- What the reader cuts out of the pattern are the fields, by definition.
  change (if x.exponentField = 2 ^ 11 - 1 then
      if x.fractionField = 0 then Value.infinite (x.signField = 1) else .nan
    else if x.exponentField = 0 then .finite (x.signField = 1) x.fractionField minExponent
    else .finite (x.signField = 1) (hiddenBit + x.fractionField)
      (minExponent + (x.exponentField - 1 : ℕ))) = _
  rw [if_neg h, mantissa, exponent]
  by_cases hzero : x.exponentField = 0
  · simp only [if_pos hzero]
    rfl
  · have hexponent : minExponent + ((x.exponentField - 1 : ℕ) : ℤ) = x.exponentField - 1075 := by
      rw [minExponent]
      omega
    simp only [if_neg hzero, hexponent]
    rfl

/-- A pattern without one is no number. -/
theorem isFinite_value_of_eq (h : x.exponentField = 2 ^ 11 - 1) : x.value.isFinite = false := by
  change Value.isFinite (if x.exponentField = 2 ^ 11 - 1 then
      if x.fractionField = 0 then .infinite (x.signField = 1) else .nan else _) = _
  rw [if_pos h]
  split <;> rfl

/-- Moving the point by 52 places. -/
theorem div_mul_zpow (m : ℚ) (e : ℤ) : m / 2 ^ 52 * 2 ^ e = m * 2 ^ (e - 52) := by
  rw [zpow_sub₀ two_ne_zero, div_mul_eq_mul_div, mul_div_assoc]
  rfl

theorem magnitude_eq (x : Binary64) : x.magnitude = x.mantissa * 2 ^ x.exponent := by
  rw [magnitude, mantissa, exponent]
  by_cases hzero : x.exponentField = 0
  · simp only [if_pos hzero]
    exact div_mul_zpow _ _
  · have hone : 1 + (x.fractionField : ℚ) / 2 ^ 52 =
        ((2 ^ 52 + x.fractionField : ℕ) : ℚ) / 2 ^ 52 := by
      rw [Nat.cast_add, add_div]
      norm_num
    have hexponent : (x.exponentField : ℤ) - 1023 - 52 = x.exponentField - 1075 := by omega
    simp only [if_neg hzero, hone, div_mul_zpow, hexponent]

/-- The number that is read from a pattern is the one that its fields make. -/
theorem number_eq (x : Binary64) :
    Value.number (x.signField = 1) x.mantissa x.exponent = (-1) ^ x.signField * x.magnitude := by
  have hsign : (if decide (x.signField = 1) then -1 else 1 : ℚ) = (-1) ^ x.signField := by
    rcases Nat.lt_succ_iff_lt_or_eq.1 x.signField_lt with hlt | hone
    · rw [Nat.lt_one_iff.1 hlt]
      rfl
    · rw [hone]
      rfl
  rw [Value.number, magnitude_eq, hsign]

/-- **A pattern is read as the number that it denotes.** -/
theorem denotes_iff :
    x.Denotes q ↔ ∃ negative mantissa exponent,
      x.value = .finite negative mantissa exponent ∧
        Value.number negative mantissa exponent = q := by
  rw [Denotes, ← number_eq]
  by_cases hspecial : x.exponentField = 2 ^ 11 - 1
  · refine iff_of_false (fun h => h.1 hspecial) ?_
    rintro ⟨negative, mantissa, exponent, h, -⟩
    have hnone := isFinite_value_of_eq hspecial
    rw [h] at hnone
    cases hnone
  · rw [and_iff_right hspecial]
    refine ⟨fun h => ⟨_, _, _, value_of_ne hspecial, h.symm⟩, ?_⟩
    rintro ⟨negative, mantissa, exponent, h, rfl⟩
    rw [value_of_ne hspecial] at h
    cases h
    rfl

/-- A pattern denotes one number at most. -/
theorem Denotes.unique {r : ℚ} (hq : x.Denotes q) (hr : x.Denotes r) : q = r :=
  hq.2.trans hr.2.symm

theorem isFinite_value_eq_false (h : ∀ q, ¬ x.Denotes q) : x.value.isFinite = false := by
  refine isFinite_value_of_eq ?_
  by_contra hspecial
  exact h _ ⟨hspecial, rfl⟩

/-- A pattern that denotes no number denotes an infinity, or nothing. -/
theorem not_denotes_iff : (∀ q, ¬ x.Denotes q) ↔ x.IsInfinite ∨ x.IsNaN := by
  by_cases hspecial : x.exponentField = 2 ^ 11 - 1
  · refine iff_of_true (fun q h => h.1 hspecial) ?_
    exact (em (x.fractionField = 0)).imp (⟨hspecial, ·⟩) (⟨hspecial, ·⟩)
  · refine iff_of_false (fun h => h _ ⟨hspecial, rfl⟩) ?_
    rintro (⟨h, -⟩ | ⟨h, -⟩) <;> exact hspecial h

end LedgerUri.Binary64
