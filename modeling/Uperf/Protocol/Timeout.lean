import Uperf.Doubles
import Uperf.Workorder

/-!
# Poll timeouts

A profile gives the timeout of a flowop, which is kept in nanoseconds, and the protocols
divide it by `1.0e+6` for `poll`.  Where they are read over UDP the cast to `int` comes
before the division, and not behind it, so that the lower half of the nanoseconds is all
that counts.  The timeouts are the same below `2 ^ 31` nanoseconds (`sameTimeout_iff`).
-/

namespace Uperf

open Lib

/-- `generic_read`: the timeout, for which the quotient is converted to `int`. -/
def genericTimeout (options : Option FlowopOptions) : ℤ :=
  match options with
  | some fo => truncToInt (toDouble (toDouble fo.pollTimeout.toNat / 10 ^ 6))
  | none => 0

/-- `protocol_udp_read` and `protocol_udp_write`: the timeout, for which the dividend is
converted to `int`, and then the quotient. -/
def udpTimeout (options : Option FlowopOptions) : ℤ :=
  match options with
  | some fo => truncToInt (toDouble ((toInt fo.pollTimeout.toNat : ℚ) / 10 ^ 6))
  | none => 0

/-- What `generic_read` returns, where `generic_poll` and `read` return `poll` and `read`. -/
def genericRead (options : Option FlowopOptions) (poll read : Int32) : Int32 :=
  if 0 < genericTimeout options then
    if poll ≤ 0 then -1 else read
  else read

/-- Both timeouts are the nanoseconds in whole milliseconds. -/
def SameTimeout (fo : FlowopOptions) : Prop :=
  udpTimeout fo = genericTimeout fo ∧ genericTimeout fo = (fo.pollTimeout.toNat / 10 ^ 6 : ℕ)

theorem truncToInt_toDouble_div {n : ℕ} (hn : n < 2 ^ 31 * 10 ^ 6) :
    truncToInt (toDouble ((n : ℚ) / 10 ^ 6)) = (n / 10 ^ 6 : ℕ) := by
  have hfloor := floor_toDouble_div (n := n) (hn.trans (by norm_num))
  have hnonneg : 0 ≤ toDouble ((n : ℚ) / 10 ^ 6) := roundTo_nonneg (by positivity)
  have hlt : ⌊toDouble ((n : ℚ) / 10 ^ 6)⌋ < 2 ^ 31 := by
    have hdiv : n / 10 ^ 6 < 2 ^ 31 := by omega
    rw [hfloor]
    exact_mod_cast hdiv
  rw [truncToInt_of_nonneg hnonneg (by exact_mod_cast Int.floor_lt.mp hlt), hfloor]

/-- Below `2 ^ 31` milliseconds the generic timeout is right. -/
theorem genericTimeout_eq {fo : FlowopOptions} (hfo : fo.pollTimeout.toNat < 2 ^ 31 * 10 ^ 6) :
    genericTimeout fo = (fo.pollTimeout.toNat / 10 ^ 6 : ℕ) := by
  rw [genericTimeout, toDouble_natCast (hfo.trans (by norm_num)), truncToInt_toDouble_div hfo]

/-- A number of nanoseconds below `2 ^ 31` goes through the cast. -/
theorem udpTimeout_of_lt {fo : FlowopOptions} (hfo : fo.pollTimeout.toNat < 2 ^ 31) :
    udpTimeout fo = (fo.pollTimeout.toNat / 10 ^ 6 : ℕ) := by
  have hcast : toInt fo.pollTimeout.toNat = fo.pollTimeout.toNat := by
    rw [toInt, Int.bmod_eq_of_le] <;> omega
  rw [udpTimeout, hcast, Int.cast_natCast, truncToInt_toDouble_div (hfo.trans (by norm_num))]

/-- A dividend that is not positive is no timeout. -/
theorem udpTimeout_nonpos {fo : FlowopOptions} (hfo : toInt fo.pollTimeout.toNat ≤ 0) :
    udpTimeout fo ≤ 0 := by
  have hcast : (toInt fo.pollTimeout.toNat : ℚ) ≤ 0 := by exact_mod_cast hfo
  have hdouble : toDouble ((toInt fo.pollTimeout.toNat : ℚ) / 10 ^ 6) ≤ 0 :=
    roundTo_nonpos (div_nonpos_of_nonpos_of_nonneg hcast (by norm_num))
  by_contra! hpos
  exact absurd (truncToInt_of_pos hpos).2 (not_lt.mpr hdouble)

/-- The greatest `int` is a timeout of 2147 milliseconds. -/
theorem udpTimeout_le (fo : FlowopOptions) : udpTimeout fo ≤ 2147 := by
  obtain hneg | hpos := le_or_gt (toInt fo.pollTimeout.toNat) 0
  · exact (udpTimeout_nonpos hneg).trans (by norm_num)
  · obtain ⟨n, hn⟩ := Int.eq_ofNat_of_zero_le hpos.le
    have hlt : toInt fo.pollTimeout.toNat < 2 ^ 31 := by
      rw [toInt]
      exact Int.bmod_lt (by norm_num)
    have hn' : n < 2 ^ 31 := by omega
    rw [udpTimeout, hn, Int.cast_natCast,
      truncToInt_toDouble_div (hn'.trans (by norm_num))]
    have hdiv : n / 10 ^ 6 ≤ 2147 := by omega
    exact_mod_cast hdiv

/-- For timeouts below `2 ^ 31` milliseconds, the protocols agree exactly below `2 ^ 31`
nanoseconds. -/
theorem sameTimeout_iff {fo : FlowopOptions} (hfo : fo.pollTimeout.toNat < 2 ^ 31 * 10 ^ 6) :
    SameTimeout fo ↔ fo.pollTimeout.toNat < 2 ^ 31 := by
  constructor
  · rintro ⟨hsame, hgeneric⟩
    rw [hgeneric] at hsame
    by_contra! hle
    -- the sign bit makes the timeout negative, and above it the quotient is too large
    obtain hlt | hge := lt_or_ge fo.pollTimeout.toNat (2 ^ 32)
    · have hcast : toInt fo.pollTimeout.toNat ≤ 0 := by
        rw [toInt, Int.bmod_def]
        omega
      have hnonpos := udpTimeout_nonpos hcast
      omega
    · have hmax := udpTimeout_le fo
      omega
  · intro hlt
    exact ⟨(udpTimeout_of_lt hlt).trans (genericTimeout_eq hfo).symm, genericTimeout_eq hfo⟩

/-- A timeout of two seconds is the same everywhere. -/
theorem sameTimeout_twoSeconds : SameTimeout { pollTimeout := 2000000000 } :=
  (sameTimeout_iff (by decide)).mpr (by decide)

/-- A timeout of three seconds is none for UDP. -/
theorem not_sameTimeout_threeSeconds :
    ¬ ∀ fo : FlowopOptions, fo.pollTimeout.toNat < 2 ^ 31 * 10 ^ 6 → SameTimeout fo := by
  intro h
  have hsame := (h { pollTimeout := 3000000000 } (by decide)).1
  have hgeneric := (h { pollTimeout := 3000000000 } (by decide)).2
  rw [hgeneric] at hsame
  have hnonpos : udpTimeout (some { pollTimeout := 3000000000 }) ≤ 0 :=
    udpTimeout_nonpos (by decide)
  rw [hsame] at hnonpos
  exact absurd hnonpos (by decide)

end Uperf
