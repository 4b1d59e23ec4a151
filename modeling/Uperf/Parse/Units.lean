import Uperf.Parse.Numbers
import Uperf.Parse.Symbols

/-!
# Units of durations

A duration in a profile is a number with a unit.  `string_to_nsec` says by a zero
that it could not read one; `get_multiplier` says by `-1.0` that it does not know
the unit, and the caller multiplies by that.  Here is which texts come through,
with the multiplication taken as exact.
-/

namespace Uperf

open Lib

/-! ## The code over another arithmetic -/

/-- `string2nsec`, where `float` is what a value becomes when it is stored as one. -/
def string2nsecWith (float : ℚ → ℚ) (host : Host) (value : List UInt8) :
    UInt64 × List ErrorText :=
  let val := stringToNsecWith float host value
  (val, if val = 0 then [snprintf 1024 (str "Cannot convert " ++ value ++ str " to nsecs")]
    else [])

/-! ## Conversions to `uint64_t` -/

theorem ofInt_eq_zero_iff (z : ℤ) : UInt64.ofInt z = 0 ↔ (2 ^ 64 : ℤ) ∣ z := by
  rw [← UInt64.toNat_inj, UInt64.ofInt, UInt64.toNat_ofNat', UInt64.toNat_zero]
  omega

/-- A value vanishes if what is left of its magnitude is a multiple of `2 ^ 64`. -/
theorem uint64OfFloat_eq_zero_iff (q : ℚ) :
    uint64OfFloat q = 0 ↔ (2 ^ 64 : ℤ) ∣ ⌊|q|⌋ := by
  rw [uint64OfFloat, ofInt_eq_zero_iff]
  split
  · rename_i hnonneg
    rw [abs_of_nonneg hnonneg]
  · rename_i hneg
    rw [abs_of_neg (not_le.mp hneg), Int.floor_neg, dvd_neg]

theorem toNat_uint64OfFloat_natCast (n : ℕ) : (uint64OfFloat (n : ℚ)).toNat = n % 2 ^ 64 := by
  rw [uint64OfFloat, if_pos n.cast_nonneg, Int.floor_natCast, UInt64.ofInt, UInt64.toNat_ofNat']
  omega

/-! ## A number with a unit -/

/-- A duration as a profile writes it: the digits of a number that is not zero, and
whatever follows them. -/
structure DurationText where
  digits : List UInt8
  suffix : List UInt8
  isDigit_of_mem : ∀ c ∈ digits, isDigit c = true
  pos : 0 < digitsValue digits
  ends : ∀ c ∈ suffix.head?, isDigit c = false

namespace DurationText

/-- The text itself. -/
def text (d : DurationText) : List UInt8 := d.digits ++ d.suffix

/-- The number that the digits denote. -/
def number (d : DurationText) : ℕ := digitsValue d.digits

/-- There is no unit, or one of seconds, milliseconds, microseconds or nanoseconds. -/
def HasUnit (d : DurationText) : Prop := ∀ c ∈ d.suffix.head?, tolower c ∈ str "smun"

/-- The nanoseconds of a unit. -/
def unit (d : DurationText) : ℕ :=
  match d.suffix with
  | [] => 10 ^ 9
  | c :: _ =>
      if tolower c = 's'.toUInt8 then 10 ^ 9
      else if tolower c = 'm'.toUInt8 then 10 ^ 6
      else if tolower c = 'u'.toUInt8 then 10 ^ 3
      else 1

/-- The digits are the whole part of a fraction. -/
def HasPoint (d : DurationText) : Prop := d.suffix.head? = some '.'.toUInt8

instance (d : DurationText) : Decidable d.HasPoint := inferInstanceAs (Decidable (_ = _))

/-- The fraction is a `double`, and its nanoseconds, cut to an integer, are a multiple
of `2 ^ 64`: a fraction below one nanosecond is cut to zero. -/
def Vanishes (d : DurationText) : Prop :=
  outOfRange (strtod d.text).1 = false ∧
    (2 ^ 64 : ℤ) ∣ ⌊|toDouble (strtod d.text).1 * getMultiplier (strtod d.text).2|⌋

/-- A bad unit is rejected, and a good one is read. -/
structure UnitChecked (host : Host) (d : DurationText) : Prop where
  hasUnit : stringToNsecWith id host d.text ≠ 0 → d.HasUnit
  exact_of_fits : stringToNsecWith id host d.text ≠ 0 → d.number * d.unit < 2 ^ 64 →
    (stringToNsecWith id host d.text).toNat = d.number * d.unit
  rejected : ¬ d.HasUnit →
    stringToNsecWith id host d.text = 0 ∧ (string2nsecWith id host d.text).2 ≠ []

variable (d : DurationText)

theorem strtoll_text : strtoll d.text = (d.number, d.suffix) := by
  have hdrop : d.suffix.takeWhile isDigit = [] ∧ d.suffix.dropWhile isDigit = d.suffix := by
    cases hsuffix : d.suffix with
    | nil => simp
    | cons c rest => simp [d.ends c (by simp [hsuffix])]
  unfold strtoll text number
  rw [List.takeWhile_append_of_pos d.isDigit_of_mem, List.dropWhile_append_of_pos d.isDigit_of_mem,
    hdrop.1, hdrop.2, List.append_nil]

/-- The text begins with a digit. -/
theorem text_eq_cons : ∃ c rest, isDigit c = true ∧ d.text = c :: rest := by
  unfold text
  cases hdigits : d.digits with
  | nil =>
      have hpos := d.pos
      rw [hdigits] at hpos
      exact absurd hpos (by decide)
  | cons c rest => exact ⟨c, rest ++ d.suffix, d.isDigit_of_mem c (by simp [hdigits]), rfl⟩

theorem startsNumber_text : startsNumber d.text = true := by
  obtain ⟨c, rest, hc, htext⟩ := d.text_eq_cons
  simp [htext, startsNumber, hc]

theorem numberText_text (host : Host) : numberText host d.text = some d.text := by
  obtain ⟨c, rest, hc, htext⟩ := d.text_eq_cons
  unfold numberText
  rw [if_neg]
  rw [htext, List.head?_cons, Option.some.injEq]
  rintro rfl
  exact absurd hc (by decide)

/-- What `string_to_nsec` does with a number and its unit. -/
theorem stringToNsecWith_text (host : Host) :
    stringToNsecWith id host d.text =
      if llongMax < d.number then 0
      else if d.HasPoint then
        if outOfRange (strtod d.text).1 then UInt64.ofInt (-1)
        else uint64OfFloat (toDouble (strtod d.text).1 * getMultiplier (strtod d.text).2)
      else uint64OfFloat (d.number * getMultiplier d.suffix) := by
  simp only [stringToNsecWith, d.numberText_text, d.startsNumber_text, d.strtoll_text,
    not_true_eq_false, if_false, id_eq]
  rfl

/-! ## Good and bad units -/

theorem not_hasPoint_of_hasUnit (h : d.HasUnit) : ¬ d.HasPoint := by
  intro hpoint
  have hmem : tolower '.'.toUInt8 ∈ str "smun" := h _ hpoint
  exact absurd hmem (by decide)

theorem getMultiplier_of_hasUnit (h : d.HasUnit) : getMultiplier d.suffix = (d.unit : ℚ) := by
  unfold unit
  cases hsuffix : d.suffix with
  | nil => norm_num [getMultiplier]
  | cons c rest =>
      have hmem : tolower c ∈ str "smun" := h c (by simp [hsuffix])
      have hunits : str "smun" =
          ['s'.toUInt8, 'm'.toUInt8, 'u'.toUInt8, 'n'.toUInt8] := by decide
      simp only [hunits, List.mem_cons, List.not_mem_nil, or_false] at hmem
      simp only [getMultiplier]
      split_ifs with hs hm hu hn
      · norm_num
      · norm_num
      · norm_num
      · norm_num
      · simp [hs, hm, hu, hn] at hmem

theorem getMultiplier_of_not_hasUnit (h : ¬ d.HasUnit) : getMultiplier d.suffix = -1 := by
  unfold HasUnit at h
  cases hsuffix : d.suffix with
  | nil => simp [hsuffix] at h
  | cons c rest =>
      have hunits : str "smun" =
          ['s'.toUInt8, 'm'.toUInt8, 'u'.toUInt8, 'n'.toUInt8] := by decide
      have hmem : tolower c ∉ str "smun" := by simpa [hsuffix] using h
      simp only [hunits, List.mem_cons, List.not_mem_nil, or_false, not_or] at hmem
      simp [getMultiplier, hmem]

/-- A good unit is multiplied with, unless the number is too large for `strtoll`. -/
theorem toNat_stringToNsecWith_of_hasUnit (host : Host) (h : d.HasUnit) :
    (stringToNsecWith id host d.text).toNat =
      if llongMax < d.number then 0 else d.number * d.unit % 2 ^ 64 := by
  rw [d.stringToNsecWith_text, if_neg (d.not_hasPoint_of_hasUnit h), d.getMultiplier_of_hasUnit h]
  split
  · rfl
  · rw [← Nat.cast_mul]
    exact toNat_uint64OfFloat_natCast _

/-- Without a good unit the result is zero for numbers that are too large, and for
fractions that vanish. -/
theorem stringToNsecWith_eq_zero_iff (host : Host) (h : ¬ d.HasUnit) :
    stringToNsecWith id host d.text = 0 ↔
      llongMax < d.number ∨ (d.HasPoint ∧ d.Vanishes) := by
  rw [d.stringToNsecWith_text]
  by_cases hlarge : llongMax < d.number
  · simp [hlarge]
  by_cases hpoint : d.HasPoint
  · unfold Vanishes
    by_cases hrange : outOfRange (strtod d.text).1 = true
    · simp [hlarge, hpoint, hrange]
    · simp [hlarge, hpoint, hrange, uint64OfFloat_eq_zero_iff]
  · -- the number is multiplied by -1
    have hpos : 0 < d.number := d.pos
    have hmagnitude : |(d.number : ℚ) * getMultiplier d.suffix| = d.number := by
      rw [d.getMultiplier_of_not_hasUnit h, mul_neg_one, abs_neg, Nat.abs_cast]
    rw [if_neg hlarge, if_neg hpoint, uint64OfFloat_eq_zero_iff, hmagnitude, Int.floor_natCast]
    simp only [hlarge, hpoint, false_and, or_false, iff_false]
    unfold llongMax at hlarge
    omega

/-- Bad units are rejected just where the number in front of them is too large
anyway; with a good unit the number is multiplied by it, modulo `2 ^ 64`. -/
theorem unitChecked_iff (host : Host) :
    (UnitChecked host d ↔
      d.HasUnit ∨ llongMax < d.number ∨ (d.HasPoint ∧ d.Vanishes)) ∧
    (d.HasUnit → (stringToNsecWith id host d.text).toNat =
      if llongMax < d.number then 0 else d.number * d.unit % 2 ^ 64) := by
  refine ⟨⟨fun h => ?_, fun h => ?_⟩, d.toNat_stringToNsecWith_of_hasUnit host⟩
  · by_cases hunit : d.HasUnit
    · exact Or.inl hunit
    · right
      exact (d.stringToNsecWith_eq_zero_iff host hunit).mp (h.rejected hunit).1
  · by_cases hunit : d.HasUnit
    · refine ⟨fun _ => hunit, fun hne hfits => ?_, fun hbad => absurd hunit hbad⟩
      have hvalue := d.toNat_stringToNsecWith_of_hasUnit host hunit
      rw [Nat.mod_eq_of_lt hfits] at hvalue
      split at hvalue
      · exact absurd (UInt64.toNat_inj.mp hvalue) hne
      · exact hvalue
    · have hzero : stringToNsecWith id host d.text = 0 :=
        (d.stringToNsecWith_eq_zero_iff host hunit).mpr (h.resolve_left hunit)
      refine ⟨fun hne => absurd hzero hne, fun hne => absurd hzero hne, fun _ => ⟨hzero, ?_⟩⟩
      simp [string2nsecWith, hzero]

/-- Five of a unit that there is not. -/
def fiveX : DurationText where
  digits := str "5"
  suffix := str "x"
  isDigit_of_mem := by decide +kernel
  pos := by decide +kernel
  ends := by decide +kernel

theorem not_unitChecked_fiveX :
    ¬ UnitChecked bareHost fiveX ∧
      stringToNsecWith id bareHost fiveX.text = UInt64.ofNat (2 ^ 64 - 5) := by
  have hvalue : stringToNsecWith id bareHost fiveX.text = UInt64.ofNat (2 ^ 64 - 5) := by
    decide +kernel
  refine ⟨fun h => ?_, hvalue⟩
  have hbad : ¬ fiveX.HasUnit := by
    unfold HasUnit
    decide +kernel
  have hzero := (h.rejected hbad).1
  rw [hvalue] at hzero
  exact absurd hzero (by decide)

end DurationText

end Uperf
