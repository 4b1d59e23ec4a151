import Mathlib.Algebra.Order.Floor.Ring
import Mathlib.Data.Int.Log
import Mathlib.Data.Rat.Floor
import Mathlib.Tactic.Linarith
import Mathlib.Tactic.Positivity
import Mathlib.Tactic.Ring

/-!
# Rounding to binary floating point

A floating-point number is the rational that it holds.  Rounding is to the nearest
number with a given count of significant bits, ties to even; exponents are not
bounded.  The lemmas say how far a value is moved, that small integers are not moved
at all, and that no number of that many bits is nearer, so that the order is kept.
-/

namespace Uperf.Lib

/-- The nearest number with `bits` significant bits, ties to even. -/
def roundTo (bits : ℕ) (q : ℚ) : ℚ :=
  if q = 0 then 0
  else
    let unit : ℚ := 2 ^ (Int.log 2 |q| + 1 - bits)
    let down := ⌊q / unit⌋
    let excess := q / unit - down
    let n := if excess < 1 / 2 ∨ (excess = 1 / 2 ∧ down % 2 = 0) then down else down + 1
    n * unit

variable {bits : ℕ} {q : ℚ}

/-- A rounded number is a whole number of units in the last place, and the nearest. -/
theorem exists_roundTo_eq (bits : ℕ) (hq : q ≠ 0) :
    ∃ n : ℤ, roundTo bits q = n * 2 ^ (Int.log 2 |q| + 1 - bits) ∧
      |roundTo bits q - q| ≤ 2 ^ (Int.log 2 |q| + 1 - bits) / 2 := by
  set unit : ℚ := 2 ^ (Int.log 2 |q| + 1 - bits) with hunit
  have hpos : 0 < unit := zpow_pos two_pos _
  have hscale : q = q / unit * unit := (div_mul_cancel₀ q hpos.ne').symm
  have hfloor := Int.floor_le (q / unit)
  have hlt := Int.lt_floor_add_one (q / unit)
  have hround : roundTo bits q =
      (if q / unit - ⌊q / unit⌋ < 1 / 2 ∨
          (q / unit - ⌊q / unit⌋ = 1 / 2 ∧ ⌊q / unit⌋ % 2 = 0) then ⌊q / unit⌋
        else ⌊q / unit⌋ + 1 : ℤ) * unit := by
    rw [roundTo, if_neg hq]
  rw [hround]
  refine ⟨_, rfl, ?_⟩
  -- in units of the last place
  suffices hnear : ∀ n : ℤ, |(n : ℚ) - q / unit| ≤ 1 / 2 → |n * unit - q| ≤ unit / 2 by
    apply hnear
    rw [abs_le]
    split
    · rename_i hdown
      have hle : q / unit - ⌊q / unit⌋ ≤ 1 / 2 := hdown.elim le_of_lt fun h => h.1.le
      constructor <;> linarith
    · rename_i hup
      rw [not_or, not_lt] at hup
      push_cast
      constructor <;> linarith [hup.1]
  intro n hn
  calc |n * unit - q| = |((n : ℚ) - q / unit) * unit| := by rw [sub_mul, ← hscale]
    _ = |(n : ℚ) - q / unit| * unit := by rw [abs_mul, abs_of_pos hpos]
    _ ≤ 1 / 2 * unit := mul_le_mul_of_nonneg_right hn hpos.le
    _ = unit / 2 := by ring

/-- The error is at most half a unit in the last place of a bound of the number. -/
theorem abs_roundTo_sub_le_of_lt {k : ℤ} (hq : |q| < 2 ^ k) :
    |roundTo bits q - q| ≤ 2 ^ (k - bits) / 2 := by
  by_cases hzero : q = 0
  · subst hzero
    rw [roundTo, if_pos rfl, sub_zero, abs_zero]
    exact (half_pos (zpow_pos two_pos _)).le
  · obtain ⟨-, -, hle⟩ := exists_roundTo_eq bits hzero
    have hlog : Int.log 2 |q| < k :=
      (Int.lt_zpow_iff_log_lt one_lt_two (abs_pos.mpr hzero)).mp (by exact_mod_cast hq)
    refine hle.trans ?_
    gcongr
    · exact one_le_two
    · omega

/-- The relative error. -/
theorem abs_roundTo_sub_le (bits : ℕ) (q : ℚ) : |roundTo bits q - q| ≤ |q| / 2 ^ bits := by
  by_cases hzero : q = 0
  · subst hzero
    rw [roundTo, if_pos rfl, sub_zero, abs_zero]
    positivity
  · obtain ⟨-, -, hle⟩ := exists_roundTo_eq bits hzero
    have hlog : (2 : ℚ) ^ Int.log 2 |q| ≤ |q| := by
      exact_mod_cast Int.zpow_log_le_self one_lt_two (abs_pos.mpr hzero)
    calc |roundTo bits q - q| ≤ 2 ^ (Int.log 2 |q| + 1 - bits) / 2 := hle
      _ = 2 ^ Int.log 2 |q| / 2 ^ bits := by
          rw [zpow_sub₀ two_ne_zero, zpow_add_one₀ two_ne_zero, zpow_natCast]
          ring
      _ ≤ |q| / 2 ^ bits := by gcongr

/-- Rounding does not pass a power of two. -/
theorem zpow_le_roundTo (hbits : 0 < bits) {k : ℤ} (hq : 2 ^ k ≤ q) : 2 ^ k ≤ roundTo bits q := by
  have hpos : 0 < q := (zpow_pos two_pos k).trans_le hq
  have habs : |q| = q := abs_of_pos hpos
  obtain ⟨n, hn, hle⟩ := exists_roundTo_eq bits hpos.ne'
  have hlog : k ≤ Int.log 2 |q| := by
    rw [habs]
    exact (Int.zpow_le_iff_le_log one_lt_two hpos).mp (by exact_mod_cast hq)
  have hself : (2 : ℚ) ^ Int.log 2 |q| ≤ q := by
    rw [habs]
    exact_mod_cast Int.zpow_log_le_self one_lt_two hpos
  refine (zpow_le_zpow_right₀ one_le_two hlog).trans ?_
  set unit : ℚ := 2 ^ (Int.log 2 |q| + 1 - bits) with hunit
  have hunitPos : 0 < unit := zpow_pos two_pos _
  -- the power is a whole number of units
  have hwhole : (2 : ℚ) ^ Int.log 2 |q| = (2 ^ (bits - 1) : ℕ) * unit := by
    push_cast
    rw [hunit, ← zpow_natCast, ← zpow_add₀ two_ne_zero]
    congr 1
    omega
  rw [hwhole] at hself ⊢
  rw [hn] at hle ⊢
  have hgap : ((2 ^ (bits - 1) : ℕ) : ℚ) * unit < (n + 1) * unit := by
    linarith [(abs_le.mp hle).1]
  have hlt : ((2 ^ (bits - 1) : ℕ) : ℚ) < n + 1 := lt_of_mul_lt_mul_right hgap hunitPos.le
  have hcount : ((2 ^ (bits - 1) : ℕ) : ℤ) ≤ n := Int.lt_add_one_iff.mp (by exact_mod_cast hlt)
  apply mul_le_mul_of_nonneg_right _ hunitPos.le
  exact_mod_cast hcount

/-- Integers of no more than that many bits stay as they are. -/
theorem roundTo_natCast {n : ℕ} (hn : n < 2 ^ bits) : roundTo bits (n : ℚ) = n := by
  by_cases hzero : n = 0
  · subst hzero
    rfl
  · have hne : (n : ℚ) ≠ 0 := Nat.cast_ne_zero.mpr hzero
    have habs : |(n : ℚ)| = n := abs_of_nonneg n.cast_nonneg
    obtain ⟨m, hm, hle⟩ := exists_roundTo_eq bits hne
    have hlog : Int.log 2 |(n : ℚ)| < bits := by
      refine (Int.lt_zpow_iff_log_lt one_lt_two (abs_pos.mpr hne)).mp ?_
      rw [habs, zpow_natCast]
      exact_mod_cast hn
    -- the unit divides one, so the distance is a whole number of units below a half
    obtain ⟨k, hk⟩ : ∃ k : ℕ, Int.log 2 |(n : ℚ)| + 1 - bits = -(k : ℤ) :=
      ⟨(bits - (Int.log 2 |(n : ℚ)| + 1)).toNat, by omega⟩
    rw [hk, zpow_neg, zpow_natCast] at hm hle
    rw [hm] at hle ⊢
    have hpow : (0 : ℚ) < 2 ^ k := by positivity
    have hint : |((m - n * 2 ^ k : ℤ) : ℚ)| ≤ 1 / 2 := by
      have hscale : (m : ℚ) * (2 ^ k)⁻¹ - n = (m - n * 2 ^ k) * (2 ^ k)⁻¹ := by
        rw [sub_mul, mul_assoc, mul_inv_cancel₀ hpow.ne', mul_one]
      rw [hscale, abs_mul, abs_of_pos (inv_pos.mpr hpow)] at hle
      have := (mul_le_mul_iff_of_pos_right (inv_pos.mpr hpow)).mp
        (hle.trans_eq (by ring : _ = 1 / 2 * (2 ^ k : ℚ)⁻¹))
      push_cast
      exact this
    have hwhole : m - n * 2 ^ k = 0 := by
      rw [← Int.cast_abs] at hint
      have : |m - n * 2 ^ k| < 1 := by
        have : ((|m - n * 2 ^ k| : ℤ) : ℚ) < 1 := hint.trans_lt (by norm_num)
        exact_mod_cast this
      exact Int.abs_lt_one_iff.mp this
    have hm' : (m : ℚ) = n * 2 ^ k := by exact_mod_cast sub_eq_zero.mp hwhole
    rw [hm', mul_assoc, mul_inv_cancel₀ hpow.ne', mul_one]

/-! ## The nearest number -/

/-- A number of no more than that many bits. -/
def Representable (bits : ℕ) (d : ℚ) : Prop := ∃ (m : ℕ) (k : ℤ), m ≤ 2 ^ bits ∧ d = m * 2 ^ k

theorem representable_natCast {n : ℕ} (hn : n ≤ 2 ^ bits) : Representable bits (n : ℚ) :=
  ⟨n, 0, hn, by rw [zpow_zero, mul_one]⟩

theorem roundTo_nonneg (hq : 0 ≤ q) : 0 ≤ roundTo bits q := by
  have hle := abs_roundTo_sub_le bits q
  have hsmall : |q| / 2 ^ bits ≤ |q| := div_le_self (abs_nonneg q) (one_le_pow₀ one_le_two)
  rw [abs_of_nonneg hq] at hle hsmall
  linarith [(abs_le.mp hle).1]

theorem roundTo_nonpos (hq : q ≤ 0) : roundTo bits q ≤ 0 := by
  have hle := abs_roundTo_sub_le bits q
  have hsmall : |q| / 2 ^ bits ≤ |q| := div_le_self (abs_nonneg q) (one_le_pow₀ one_le_two)
  rw [abs_of_nonpos hq] at hle hsmall
  linarith [(abs_le.mp hle).2]

theorem representable_roundTo (hq : 0 ≤ q) : Representable bits (roundTo bits q) := by
  obtain rfl | hpos := hq.eq_or_lt
  · exact ⟨0, 0, Nat.zero_le _, by simp [roundTo]⟩
  obtain ⟨n, hn, hle⟩ := exists_roundTo_eq bits hpos.ne'
  set unit : ℚ := 2 ^ (Int.log 2 |q| + 1 - bits) with hunit
  have hunitPos : 0 < unit := zpow_pos two_pos _
  have hlt : q < 2 ^ bits * unit := by
    have hlog := Int.lt_zpow_succ_log_self one_lt_two |q|
    rw [abs_of_pos hpos] at hlog hunit
    have hexponent : (bits : ℤ) + (Int.log 2 q + 1 - bits) = Int.log 2 q + 1 := by ring
    rw [hunit, ← zpow_natCast, ← zpow_add₀ two_ne_zero, hexponent]
    exact_mod_cast hlog
  rw [hn] at hle
  have hbounds := abs_le.mp hle
  -- in units of the last place
  have hlow : (-1 : ℚ) < n := by
    have : (-1) * unit < n * unit := by linarith
    exact lt_of_mul_lt_mul_right this hunitPos.le
  have hhigh : (n : ℚ) < 2 ^ bits + 1 := by
    have : n * unit < (2 ^ bits + 1) * unit := by linarith
    exact lt_of_mul_lt_mul_right this hunitPos.le
  have hnonneg : 0 ≤ n := by
    have : (-1 : ℤ) < n := by exact_mod_cast hlow
    omega
  obtain ⟨m, rfl⟩ := Int.eq_ofNat_of_zero_le hnonneg
  refine ⟨m, Int.log 2 |q| + 1 - bits, ?_, by rw [hn, Int.cast_natCast]⟩
  have : m < 2 ^ bits + 1 := by exact_mod_cast hhigh
  omega

/-- No representable number is nearer. -/
theorem abs_roundTo_sub_le_of_representable (hbits : 0 < bits) (hq : 0 < q) {d : ℚ}
    (hd : Representable bits d) : |roundTo bits q - q| ≤ |d - q| := by
  obtain ⟨n, hn, hle⟩ := exists_roundTo_eq bits hq.ne'
  set unit : ℚ := 2 ^ (Int.log 2 |q| + 1 - bits) with hunit
  have hunitPos : 0 < unit := zpow_pos two_pos _
  have hmultiple : ∀ j : ℤ, |roundTo bits q - q| ≤ |j * unit - q| := by
    intro j
    by_cases hj : j = n
    · rw [hj, hn]
    · have hgap : unit ≤ |(j : ℚ) * unit - n * unit| := by
        rw [← sub_mul, abs_mul, abs_of_pos hunitPos]
        have hone : (1 : ℚ) ≤ |((j - n : ℤ) : ℚ)| := by
          rw [← Int.cast_abs]
          exact_mod_cast Int.one_le_abs (sub_ne_zero.mpr hj)
        push_cast at hone
        exact le_mul_of_one_le_left hunitPos.le hone
      have htriangle := abs_sub_le ((j : ℚ) * unit) q (n * unit)
      rw [abs_sub_comm q, ← hn] at htriangle
      rw [← hn] at hgap
      linarith
  obtain ⟨m, k, hm, rfl⟩ := hd
  by_cases hk : Int.log 2 |q| + 1 - bits ≤ k
  · -- the number is a multiple of the unit
    have hwhole : (m : ℚ) * 2 ^ k =
        ((m * 2 ^ (k - (Int.log 2 |q| + 1 - bits)).toNat : ℤ) : ℚ) * unit := by
      push_cast
      rw [hunit, mul_assoc, ← zpow_natCast, ← zpow_add₀ two_ne_zero]
      congr 2
      omega
    rw [hwhole]
    exact hmultiple _
  · -- it lies below the power of two below `q`
    have hself : (2 : ℚ) ^ Int.log 2 |q| ≤ q := by
      have hlog := Int.zpow_log_le_self one_lt_two (abs_pos.mpr hq.ne')
      rw [abs_of_pos hq] at hlog ⊢
      exact_mod_cast hlog
    have hbelow : (m : ℚ) * 2 ^ k ≤ 2 ^ Int.log 2 |q| := by
      calc (m : ℚ) * 2 ^ k ≤ 2 ^ bits * 2 ^ k := by
            apply mul_le_mul_of_nonneg_right _ (zpow_pos two_pos k).le
            exact_mod_cast hm
        _ = 2 ^ (bits + k) := by rw [zpow_add₀ two_ne_zero, zpow_natCast]
        _ ≤ 2 ^ Int.log 2 |q| := zpow_le_zpow_right₀ one_le_two (by omega)
    have hpower : (2 : ℚ) ^ Int.log 2 |q| = ((2 ^ (bits - 1) : ℤ) : ℚ) * unit := by
      push_cast
      rw [hunit, ← zpow_natCast, ← zpow_add₀ two_ne_zero]
      congr 1
      omega
    calc |roundTo bits q - q| ≤ |2 ^ Int.log 2 |q| - q| := by
          rw [hpower]
          exact hmultiple _
      _ = q - 2 ^ Int.log 2 |q| := by rw [abs_sub_comm, abs_of_nonneg (sub_nonneg.mpr hself)]
      _ ≤ q - m * 2 ^ k := sub_le_sub_left hbelow q
      _ = |m * 2 ^ k - q| := by
          rw [abs_sub_comm, abs_of_nonneg (sub_nonneg.mpr (hbelow.trans hself))]

theorem le_roundTo (hbits : 0 < bits) (hq : 0 < q) {d : ℚ} (hd : Representable bits d)
    (hle : d ≤ q) : d ≤ roundTo bits q := by
  have hnear := abs_roundTo_sub_le_of_representable hbits hq hd
  rw [abs_of_nonpos (sub_nonpos.mpr hle)] at hnear
  linarith [(abs_le.mp hnear).1]

theorem roundTo_le (hbits : 0 < bits) (hq : 0 < q) {d : ℚ} (hd : Representable bits d)
    (hle : q ≤ d) : roundTo bits q ≤ d := by
  have hnear := abs_roundTo_sub_le_of_representable hbits hq hd
  rw [abs_of_nonneg (sub_nonneg.mpr hle)] at hnear
  linarith [(abs_le.mp hnear).2]

/-- Rounding keeps the order. -/
theorem roundTo_mono (hbits : 0 < bits) {p : ℚ} (hp : 0 ≤ p) (hle : p ≤ q) :
    roundTo bits p ≤ roundTo bits q := by
  obtain rfl | hpos := hp.eq_or_lt
  · exact (roundTo_nonpos le_rfl).trans (roundTo_nonneg hle)
  have hq := hpos.trans_le hle
  by_contra! hlt
  have hnear := abs_roundTo_sub_le_of_representable hbits hq (representable_roundTo hp)
  have hnear' := abs_roundTo_sub_le_of_representable hbits hpos (representable_roundTo hq.le)
  -- the middle between the two lies above `q` and below `p`
  have hq' : q ≤ (roundTo bits p + roundTo bits q) / 2 := by
    by_contra! hmiddle
    have hfar := (le_abs_self (q - roundTo bits q)).trans_eq (abs_sub_comm q _)
    have hclose : |roundTo bits p - q| < q - roundTo bits q := by
      rw [abs_lt]
      constructor <;> linarith
    linarith
  have hp' : (roundTo bits p + roundTo bits q) / 2 ≤ p := by
    by_contra! hmiddle
    have hfar := le_abs_self (roundTo bits p - p)
    have hclose : |roundTo bits q - p| < roundTo bits p - p := by
      rw [abs_lt]
      constructor <;> linarith
    linarith
  have heq : p = q := le_antisymm hle (hq'.trans hp')
  rw [heq] at hlt
  exact lt_irrefl _ hlt

/-- Whole numbers stay whole. -/
theorem exists_roundTo_natCast (bits n : ℕ) : ∃ m : ℕ, roundTo bits (n : ℚ) = m := by
  by_cases hsmall : n < 2 ^ bits
  · exact ⟨n, roundTo_natCast hsmall⟩
  have hpos : 0 < n := (Nat.two_pow_pos bits).trans_le (not_lt.mp hsmall)
  have hne : (n : ℚ) ≠ 0 := Nat.cast_ne_zero.mpr hpos.ne'
  obtain ⟨j, hj, -⟩ := exists_roundTo_eq bits hne
  have hlog : (bits : ℤ) ≤ Int.log 2 |(n : ℚ)| := by
    rw [Nat.abs_cast]
    refine (Int.zpow_le_iff_le_log one_lt_two (Nat.cast_pos.mpr hpos)).mp ?_
    rw [zpow_natCast]
    exact_mod_cast not_lt.mp hsmall
  obtain ⟨k, hk⟩ : ∃ k : ℕ, Int.log 2 |(n : ℚ)| + 1 - bits = (k : ℤ) :=
    ⟨(Int.log 2 |(n : ℚ)| + 1 - bits).toNat, by omega⟩
  have hnonneg : 0 ≤ roundTo bits (n : ℚ) := roundTo_nonneg n.cast_nonneg
  rw [hk, zpow_natCast] at hj
  rw [hj] at hnonneg
  have hwhole : 0 ≤ j * 2 ^ k := by exact_mod_cast hnonneg
  obtain ⟨m, hm⟩ := Int.eq_ofNat_of_zero_le hwhole
  refine ⟨m, ?_⟩
  rw [hj]
  exact_mod_cast hm

end Uperf.Lib
