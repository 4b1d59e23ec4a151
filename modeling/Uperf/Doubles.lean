import Uperf.Lib.Rounding

/-!
# Floating-point values in C

A `double` or a `float` is the rational that it holds; the conversion of a value
that the target type does not have is what the common machines do with it.
-/

namespace Uperf

open Lib

/-- A value stored as a `float`. -/
def toFloat : ℚ → ℚ := roundTo 24

/-- A value stored as a `double`. -/
def toDouble : ℚ → ℚ := roundTo 53

/-- The conversion to `int` of a wider integer. -/
def toInt (n : ℤ) : ℤ := n.bmod (2 ^ 32)

/-- The conversion of a floating-point value that is not negative to `int`. -/
def intOfDouble (q : ℚ) : ℤ := if q < 2 ^ 31 then ⌊q⌋ else -(2 ^ 31)

/-- The conversion of a floating-point value to `uint64_t`. -/
def uint64OfFloat (q : ℚ) : UInt64 := UInt64.ofInt (if 0 ≤ q then ⌊q⌋ else ⌈q⌉)

/-- A value in the range is cut to the integer below it. -/
theorem toNat_uint64OfFloat {q : ℚ} (hnonneg : 0 ≤ q) (hlt : q < 2 ^ 64) :
    ((uint64OfFloat q).toNat : ℤ) = ⌊q⌋ := by
  have hfloor : 0 ≤ ⌊q⌋ := Int.floor_nonneg.mpr hnonneg
  have hbound : ⌊q⌋ < 2 ^ 64 := Int.floor_lt.mpr (by exact_mod_cast hlt)
  rw [uint64OfFloat, if_pos hnonneg, UInt64.ofInt, UInt64.toNat_ofNat']
  omega

/-- The conversion of a floating-point value to `int`. -/
def truncToInt (q : ℚ) : ℤ :=
  if -(2 ^ 31) - 1 < q ∧ q < 2 ^ 31 then (if 0 ≤ q then ⌊q⌋ else ⌈q⌉) else -(2 ^ 31)

/-- A positive result is what the value is cut to. -/
theorem truncToInt_of_pos {q : ℚ} (hpos : 0 < truncToInt q) : truncToInt q = ⌊q⌋ ∧ 0 < q := by
  unfold truncToInt at hpos ⊢
  split at hpos
  · rename_i hrange
    rw [if_pos hrange]
    split at hpos
    · rename_i hnonneg
      rw [if_pos hnonneg]
      exact ⟨rfl, lt_of_lt_of_le one_pos (Int.floor_pos.mp hpos)⟩
    · rename_i hneg
      have hle : ⌈q⌉ ≤ 0 := Int.ceil_le.mpr (by exact_mod_cast (not_le.mp hneg).le)
      exact absurd hpos (not_lt.mpr hle)
  · exact absurd hpos (by decide)

theorem truncToInt_of_nonneg {q : ℚ} (hnonneg : 0 ≤ q) (hlt : q < 2 ^ 31) :
    truncToInt q = ⌊q⌋ := by
  rw [truncToInt, if_pos ⟨by linarith, hlt⟩, if_pos hnonneg]

/-- Integers below `2 ^ 53` are doubles. -/
theorem toDouble_natCast {n : ℕ} (hn : n < 2 ^ 53) : toDouble (n : ℚ) = n := roundTo_natCast hn

/-- Dividing nanoseconds by those of a millisecond in doubles, and cutting the result, is
the division of integers. -/
theorem floor_toDouble_div {n : ℕ} (hn : n < 2 ^ 53) :
    ⌊toDouble ((n : ℚ) / 10 ^ 6)⌋ = (n / 10 ^ 6 : ℕ) := by
  obtain rfl | hpos := Nat.eq_zero_or_pos n
  · simp [toDouble, roundTo]
  have hq : (0 : ℚ) < (n : ℚ) / 10 ^ 6 := by positivity
  have hn' : (n : ℚ) < 2 ^ 53 := by exact_mod_cast hn
  have hlow : ((n / 10 ^ 6 : ℕ) : ℚ) ≤ (n : ℚ) / 10 ^ 6 := by
    rw [le_div_iff₀ (by norm_num)]
    exact_mod_cast Nat.div_mul_le_self n (10 ^ 6)
  -- the next integer is at least a millionth away
  have hhigh : (n : ℚ) / 10 ^ 6 ≤ (n / 10 ^ 6 : ℕ) + 1 - 1 / 10 ^ 6 := by
    rw [div_le_iff₀ (by norm_num)]
    have hdiv : n + 1 ≤ (n / 10 ^ 6 + 1) * 10 ^ 6 := by omega
    have hdiv' : (n : ℚ) + 1 ≤ ((n / 10 ^ 6 : ℕ) + 1) * 10 ^ 6 := by exact_mod_cast hdiv
    linarith
  have hnear : |toDouble ((n : ℚ) / 10 ^ 6) - n / 10 ^ 6| ≤ 2 ^ (34 - 53 : ℤ) / 2 := by
    apply abs_roundTo_sub_le_of_lt
    rw [abs_of_pos hq, div_lt_iff₀ (by norm_num)]
    norm_num
    linarith
  have hsmall : (2 : ℚ) ^ (34 - 53 : ℤ) / 2 < 1 / 10 ^ 6 := by norm_num
  rw [Int.floor_eq_iff]
  constructor
  · have hfit : n / 10 ^ 6 ≤ 2 ^ 53 := (Nat.div_le_self _ _).trans hn.le
    exact_mod_cast le_roundTo (by norm_num) hq (representable_natCast hfit) hlow
  · have hbounds := abs_le.mp hnear
    rw [Int.cast_natCast]
    linarith

end Uperf
