import Uperf.Parse.Runnable
import Uperf.Strand.Library

/-!
# Sizes

A size in a profile is a number with a suffix, or two of them in `rand(...)`.
Here is which sizes `string_to_int` reads as what they denote, and which pairs of
bounds make a range that `my_random` can draw from.
-/

namespace Uperf

open Lib

/-! ## A number with a suffix -/

/-- `ends`: the suffixes, in lower case. -/
def suffixes : List UInt8 := str "bkmgtpez"

/-- A number as a profile writes it: digits, and one suffix or none. -/
structure SizeText where
  digits : List UInt8
  suffix : Option UInt8
  digits_ne_nil : digits ≠ []
  isDigit_of_mem : ∀ c ∈ digits, isDigit c = true
  suffix_mem : ∀ c ∈ suffix, tolower c ∈ suffixes

namespace SizeText

/-- The text itself. -/
def text (size : SizeText) : List UInt8 := size.digits ++ size.suffix.toList

/-- The number that the digits denote. -/
def number (size : SizeText) : ℕ := digitsValue size.digits

/-- The exponent of two that the suffix stands for. -/
def shift (size : SizeText) : ℕ :=
  match size.suffix with
  | none => 0
  | some c => 10 * suffixes.findIdx fun suffix => suffix = tolower c

/-- What the text denotes, where that is an `int`, and `-1` otherwise. -/
def value (size : SizeText) : ℤ :=
  if size.number * 2 ^ size.shift ≤ 2 ^ 31 - 1 then size.number * 2 ^ size.shift else -1

/-- The low 32 bits of the number, which are what the shift works on. -/
def low (size : SizeText) : ℕ := size.number % 2 ^ 32

/-- The number is read as what it denotes: the product is an `int`; or the number is too
large for `strtoll`; or its low 32 bits, as an `int`, are too large for the shift, or
they are `-1` and there is no shift.  With a suffix from `t` on it is any
number but zero. -/
def ReadExactly (size : SizeText) : Prop :=
  if 30 < size.shift then 0 < size.number
  else
    size.number * 2 ^ size.shift < 2 ^ 31 ∨ 2 ^ 63 ≤ size.number ∨
      (2 ^ 31 ≤ size.low * 2 ^ size.shift ∧ 2 ^ 31 < (2 ^ 32 - size.low) * 2 ^ size.shift) ∨
      (size.shift = 0 ∧ size.low = 2 ^ 32 - 1)

variable (size : SizeText)

theorem shift_eq : ∃ position < 8, size.shift = 10 * position := by
  unfold shift
  cases hsuffix : size.suffix with
  | none => exact ⟨0, by omega, rfl⟩
  | some c =>
      refine ⟨_, ?_, rfl⟩
      have hmem : tolower c ∈ suffixes := size.suffix_mem c hsuffix
      exact List.findIdx_lt_length_of_exists ⟨tolower c, hmem, by simp⟩

theorem str2shift_suffix : str2shift size.suffix.toList = some size.shift := by
  unfold shift
  cases hsuffix : size.suffix with
  | none => rfl
  | some c =>
      have hmem : tolower c ∈ suffixes := size.suffix_mem c hsuffix
      have hlt : suffixes.findIdx (fun suffix => suffix = tolower c) < suffixes.length :=
        List.findIdx_lt_length_of_exists ⟨tolower c, hmem, by simp⟩
      exact if_pos hlt

/-- A suffix is a letter. -/
theorem not_digit_of_suffix : ∀ c : UInt8, tolower c ∈ suffixes →
    isDigit c = false ∧ c ≠ '.'.toUInt8 := by
  decide +kernel

theorem strtoll_text : strtoll size.text = (size.number, size.suffix.toList) := by
  have hend : ∀ c ∈ size.suffix.toList.head?, isDigit c = false := by
    intro c hc
    refine (not_digit_of_suffix c (size.suffix_mem c ?_)).1
    cases hsuffix : size.suffix <;> simp_all
  have hdigits : size.text.takeWhile isDigit = size.digits ∧
      size.text.dropWhile isDigit = size.suffix.toList := by
    unfold text
    rw [List.takeWhile_append_of_pos size.isDigit_of_mem,
      List.dropWhile_append_of_pos size.isDigit_of_mem]
    cases hsuffix : size.suffix.toList with
    | nil => simp
    | cons c rest =>
        have hc : isDigit c = false := hend c (by simp [hsuffix])
        simp [hc]
  unfold strtoll number
  rw [hdigits.1, hdigits.2]

theorem startsNumber_text : startsNumber size.text = true := by
  unfold text
  cases hdigits : size.digits with
  | nil => exact absurd hdigits size.digits_ne_nil
  | cons c rest =>
      have hc : isDigit c = true := size.isDigit_of_mem c (by simp [hdigits])
      simp [startsNumber, hc]

theorem numberText_text (host : Host) : numberText host size.text = some size.text := by
  unfold numberText
  rw [if_neg]
  intro hhead
  have hstarts := size.startsNumber_text
  cases htext : size.text with
  | nil => simp [htext] at hhead
  | cons c rest =>
      rw [htext, List.head?_cons, Option.some.injEq] at hhead
      rw [htext, hhead] at hstarts
      exact absurd hstarts (by simp [startsNumber]; decide)

/-- What `string_to_int` computes from the number and the shift. -/
theorem stringToInt_text (host : Host) :
    stringToInt host size.text =
      if 2 ^ 63 ≤ size.number ∨ 32 < size.shift ∨
          shiftLeft (toInt size.number) size.shift / 2 ^ size.shift ≠ toInt size.number then -1
      else shiftLeft (toInt size.number) size.shift := by
  have hpoint : size.suffix.toList.head? ≠ some '.'.toUInt8 := by
    cases hsuffix : size.suffix with
    | none => simp
    | some c => simpa using (not_digit_of_suffix c (size.suffix_mem c hsuffix)).2
  have hrange : llongMax < size.number ↔ 2 ^ 63 ≤ size.number := by
    unfold llongMax
    omega
  unfold stringToInt
  rw [size.numberText_text host]
  simp only [size.startsNumber_text, not_true_eq_false, if_false, size.strtoll_text, hrange,
    hpoint, size.str2shift_suffix]
  by_cases hlarge : 2 ^ 63 ≤ size.number
  · simp only [hlarge, true_or, if_true]
  · simp only [hlarge, false_or, if_false]

end SizeText

theorem shiftLeft_of_fits {num : ℤ} {shift : ℕ} (hlow : -2 ^ 31 ≤ num * 2 ^ shift)
    (hhigh : num * 2 ^ shift < 2 ^ 31) : shiftLeft num shift = num * 2 ^ shift := by
  unfold shiftLeft toInt
  exact Int.bmod_eq_of_le (by simpa using hlow) (by simpa using hhigh)

/-- A shift that can be taken back did not lose a bit, and one that cannot did. -/
theorem shiftLeft_div_iff {num : ℤ} {shift : ℕ} (hshift : shift ≤ 32) :
    shiftLeft num shift / 2 ^ shift = num ↔
      -2 ^ 31 ≤ num * 2 ^ shift ∧ num * 2 ^ shift < 2 ^ 31 := by
  have hpos : (0 : ℤ) < 2 ^ shift := by positivity
  have hpow : (2 : ℤ) ^ shift ≤ 2 ^ 32 := pow_le_pow_right₀ (by omega) hshift
  have hlow : -2 ^ 31 ≤ shiftLeft num shift := Int.le_bmod (by decide)
  have hhigh : shiftLeft num shift < 2 ^ 31 := toInt_lt _
  constructor
  · intro hback
    -- the two differ by a multiple of `2 ^ 32`, and by less than `2 ^ shift`
    have hmod : (2 ^ 32 : ℤ) ∣ num * 2 ^ shift - shiftLeft num shift := by
      unfold shiftLeft toInt
      exact Int.dvd_self_sub_bmod
    have hge := Int.ediv_mul_le (shiftLeft num shift) hpos.ne'
    have hlt := Int.lt_ediv_add_one_mul_self (shiftLeft num shift) hpos
    rw [hback] at hge hlt
    rw [add_mul, one_mul] at hlt
    omega
  · rintro ⟨hge, hlt⟩
    rw [shiftLeft_of_fits hge hlt]
    exact Int.mul_ediv_cancel _ hpos.ne'

namespace SizeText

variable (size : SizeText)

/-- What `string_to_int` returns: the low 32 bits, shifted if that is possible. -/
theorem stringToInt_text_eq (host : Host) :
    stringToInt host size.text =
      if 2 ^ 63 ≤ size.number ∨ 30 < size.shift ∨
          ¬ (-2 ^ 31 ≤ toInt size.number * 2 ^ size.shift ∧
            toInt size.number * 2 ^ size.shift < 2 ^ 31) then -1
      else toInt size.number * 2 ^ size.shift := by
  obtain ⟨position, -, hshift⟩ := size.shift_eq
  rw [size.stringToInt_text host]
  by_cases hlarge : 30 < size.shift
  · have hlarge' : 32 < size.shift := by omega
    simp only [hlarge, hlarge', true_or, or_true, if_true]
  · have hsmall : size.shift ≤ 32 := by omega
    simp only [hlarge, not_lt.mpr hsmall, false_or, ne_eq, shiftLeft_div_iff hsmall]
    by_cases hfits : -2 ^ 31 ≤ toInt size.number * 2 ^ size.shift ∧
        toInt size.number * 2 ^ size.shift < 2 ^ 31
    · rw [shiftLeft_of_fits hfits.1 hfits.2]
    · simp only [hfits, not_false_eq_true, or_true, if_true]

/-- The low 32 bits as an `int`. -/
theorem toInt_number : toInt size.number =
    if size.low < 2 ^ 31 then (size.low : ℤ) else size.low - 2 ^ 32 := by
  unfold toInt low
  rw [Int.bmod_def]
  split <;> omega

/-- A size is read as what it denotes, or refused where that is no `int`, only under a
condition on the number and its suffix. -/
theorem stringToInt_eq_value_iff (host : Host) :
    stringToInt host size.text = size.value ↔ size.ReadExactly := by
  have hlow : size.low = size.number % 2 ^ 32 := rfl
  have hint := size.toInt_number
  obtain ⟨position, hposition, hshift⟩ := size.shift_eq
  rw [size.stringToInt_text_eq host]
  unfold value ReadExactly
  rw [hshift]
  generalize size.number = number at *
  generalize size.low = low at *
  generalize toInt number = num at *
  have hcases : position = 0 ∨ position = 1 ∨ position = 2 ∨ position = 3 ∨ 4 ≤ position := by
    omega
  rcases hcases with rfl | rfl | rfl | rfl | hposition
  · norm_num
    split_ifs <;> omega
  · norm_num
    split_ifs <;> omega
  · norm_num
    split_ifs <;> omega
  · norm_num
    split_ifs <;> omega
  · have hscale : 2 ^ 40 ≤ 2 ^ (10 * position) := Nat.pow_le_pow_right (by omega) (by omega)
    have hlarge : 30 < 10 * position := by omega
    simp only [hlarge, true_or, or_true, if_true]
    by_cases hzero : number = 0
    · simp [hzero]
    · have hproduct : 1 * 2 ^ 40 ≤ number * 2 ^ (10 * position) :=
        Nat.mul_le_mul (by omega) hscale
      rw [if_neg (by omega)]
      simpa using Nat.pos_of_ne_zero hzero

/-- `4294967297`, which is one more than `2 ^ 32`. -/
def wrapped : SizeText where
  digits := str "4294967297"
  suffix := none
  digits_ne_nil := by decide +kernel
  isDigit_of_mem := by decide +kernel
  suffix_mem := by simp

theorem stringToInt_wrapped : stringToInt bareHost wrapped.text = 1 := by decide +kernel

theorem not_eq_value_wrapped :
    ¬ ∀ (host : Host) (size : SizeText), stringToInt host size.text = size.value := by
  intro h
  have hvalue : wrapped.value = -1 := by decide +kernel
  have hread := (h bareHost wrapped).symm.trans stringToInt_wrapped
  rw [hvalue] at hread
  exact absurd hread (by decide)

end SizeText

/-! ## Random sizes -/

/-- The two bounds of `rand(a,b)` as they are written: what stands between `rand(` and
a comma, and between this and a parenthesis.  Either of these characters may be
repeated, and the last one may be missing. -/
def writtenBounds (value : List UInt8) : Option (List UInt8 × List UInt8) :=
  let low := (value.drop 5).dropWhile (· = ','.toUInt8)
  let high := (low.dropWhile (· ≠ ','.toUInt8)).tail.dropWhile (· = ')'.toUInt8)
  if high = [] then none
  else some (strip (low.takeWhile (· ≠ ','.toUInt8)), strip (high.takeWhile (· ≠ ')'.toUInt8)))

/-- The texts that `parse_size` takes for the bounds of a random size. -/
def boundTexts (value : List UInt8) : Option (List UInt8) × Option (List UInt8) :=
  let (cmin, rest) := strtok (str ",") (strtok (str "(") value).2
  (cmin.map strip, (strtok (str ")") rest).1.map strip)

/-- The random sizes are a range of positive sizes, and what is drawn lies in it. -/
structure DrawsInRange (o : FlowopOptions) : Prop where
  pos : 1 ≤ o.randSzMin
  le : o.randSzMin ≤ o.randSzMax
  fits : o.randSzMax.toNat ≤ 2 ^ 31 - 1
  draw : ∀ rand, ∃ size, myRandom rand o.randSzMin o.randSzMax = some size ∧
    o.randSzMin ≤ size ∧ size ≤ o.randSzMax

/-- Two sizes in order make a range. -/
theorem myRandom_of_le {x y : UInt32} (hle : x ≤ y) (hmin : 1 ≤ x) (rand : ℕ) :
    ∃ size, myRandom rand x y = some size ∧ x ≤ size ∧ size ≤ y := by
  have hx : x.toNat ≤ y.toNat := UInt32.le_iff_toNat_le.mp hle
  have hpos : 1 ≤ x.toNat := UInt32.le_iff_toNat_le.mp hmin
  have hy := y.toNat_lt
  have hrange : (y - x + 1).toNat = y.toNat - x.toNat + 1 := by
    rw [UInt32.toNat_add, UInt32.toNat_sub_of_le _ _ hle]
    simp only [UInt32.toNat_one]
    omega
  have hdraw : rand % (y.toNat - x.toNat + 1) < y.toNat - x.toNat + 1 :=
    Nat.mod_lt _ (Nat.succ_pos _)
  unfold myRandom
  simp only [hrange, Nat.succ_ne_zero, if_false]
  rw [if_neg (by omega)]
  refine ⟨_, rfl, ?_, ?_⟩
  · rw [UInt32.le_iff_toNat_le, UInt32.toNat_ofNat']
    omega
  · rw [UInt32.le_iff_toNat_le, UInt32.toNat_ofNat']
    omega

section

variable {host : Host} {value : List UInt8}

theorem strtok_singleton (delim : UInt8) (s : List UInt8) :
    strtok [delim] s =
      if s.dropWhile (· = delim) = [] then (none, [])
      else
        (some ((s.dropWhile (· = delim)).takeWhile (· ≠ delim)),
          ((s.dropWhile (· = delim)).dropWhile (· ≠ delim)).tail) := by
  have hcontains : ∀ c, [delim].contains c = decide (c = delim) := by simp
  simp only [strtok, hcontains, decide_eq_true_eq, ne_eq]

/-- The first token of a text that begins with `rand(` is `rand`. -/
theorem strtok_of_isRandom (hrandom : isRandom value = true) :
    (strtok (str "(") value).2 = value.drop 5 := by
  have hdelim : str "(" = [40] := by decide
  have hopen : ∀ c : UInt8, tolower c = 40 → c = 40 := by decide +kernel
  have hletter : ∀ c : UInt8, tolower c = 114 ∨ tolower c = 97 ∨ tolower c = 110 ∨
      tolower c = 100 → c ≠ 40 := by decide +kernel
  have hlower : (value.take 5).map tolower = [114, 97, 110, 100, 40] := by
    rw [strcasecmpEq_iff.mp hrandom]
    decide
  simp only [List.map_eq_cons_iff, List.map_eq_nil_iff] at hlower
  obtain ⟨r, _, htake, hr, a, _, rfl, ha, n, _, rfl, hn, d, _, rfl, hd, c, _, rfl, hc, rfl⟩ :=
    hlower
  have hr' := hletter r (by simp [hr])
  have ha' := hletter a (by simp [ha])
  have hn' := hletter n (by simp [hn])
  have hd' := hletter d (by simp [hd])
  have hc' := hopen c hc
  have hvalue : value = [r, a, n, d, c] ++ value.drop 5 := by
    rw [← htake, List.take_append_drop]
  rw [hdelim, strtok_singleton, hvalue]
  simp [hr', ha', hn', hd', hc']

/-- `parse_size` reads the random bounds from these texts. -/
theorem parseSize_of_boundTexts (hrandom : isRandom value = true) :
    parseSize host value =
      (if 0 < UInt32.ofInt (string2int host (boundTexts value).1).1 ∧
          0 < UInt32.ofInt (string2int host (boundTexts value).2).1 then 0 else -1,
        fun o => { o with
          randSzMin := .ofInt (string2int host (boundTexts value).1).1
          randSzMax := .ofInt (string2int host (boundTexts value).2).1
          flag := o.flag ||| oSizeRand },
        (string2int host (boundTexts value).1).2 ++ (string2int host (boundTexts value).2).2) := by
  have hsize : ¬ 0 < stringToInt host value := by
    rw [stringToInt_of_isRandom hrandom]
    decide
  unfold parseSize
  simp only [if_neg hsize]
  rw [if_pos (show strcasecmpEq (value.take 5) (str "rand(") = true from hrandom)]
  rfl

/-- Where both bounds are written, they are the texts. -/
theorem boundTexts_of_writtenBounds {low high : List UInt8} (hrandom : isRandom value = true)
    (hbounds : writtenBounds value = some (low, high)) :
    boundTexts value = (some low, some high) := by
  have hcomma : str "," = [','.toUInt8] := by decide
  have hparen : str ")" = [')'.toUInt8] := by decide
  unfold writtenBounds at hbounds
  simp only [Option.ite_none_left_eq_some, Option.some.injEq, Prod.mk.injEq] at hbounds
  obtain ⟨hhigh, rfl, rfl⟩ := hbounds
  have hlow : (value.drop 5).dropWhile (· = ','.toUInt8) ≠ [] := by
    intro hnil
    simp [hnil] at hhigh
  unfold boundTexts
  simp only [strtok_of_isRandom hrandom, hcomma, hparen, strtok_singleton, if_neg hlow,
    if_neg hhigh, Option.map_some]

/-- Two bounds are read as numbers, and become the random bounds. -/
theorem parseSize_of_writtenBounds {low high : List UInt8} (hrandom : isRandom value = true)
    (hbounds : writtenBounds value = some (low, high)) :
    parseSize host value =
      (if 0 < UInt32.ofInt (stringToInt host low) ∧ 0 < UInt32.ofInt (stringToInt host high)
        then 0 else -1,
        fun o => { o with
          randSzMin := .ofInt (stringToInt host low)
          randSzMax := .ofInt (stringToInt host high)
          flag := o.flag ||| oSizeRand },
        (string2int host (some low)).2 ++ (string2int host (some high)).2) := by
  rw [parseSize_of_boundTexts hrandom, boundTexts_of_writtenBounds hrandom hbounds]
  rfl

/-- Only a value that begins with `rand(` sets the flag. -/
theorem isRandom_of_foRandomSize {set : Setting} (hset : sizeBranch host value = .ok set)
    (hrand : ∀ f, (set.update f).options.foRandomSize = true) : isRandom value = true := by
  by_contra hrandom
  have hfresh : ({} : Flowop).options.foRandomSize = false := by decide
  have hshown : strcasecmpEq (value.take 5) (str "rand(") = false := by
    simpa [isRandom] using hrandom
  have hsame : (set.update {}).options.foRandomSize = ({} : Flowop).options.foRandomSize := by
    by_cases hsize : 0 < stringToInt host value
    · simp only [sizeBranch, parseSize, if_pos hsize] at hset
      cases hset
      rfl
    · simp only [sizeBranch, parseSize, if_neg hsize, hshown] at hset
      cases hset
      rfl
  exact absurd ((hrand {}).symm.trans (hsame.trans hfresh)) (by decide)

/-- Two bounds that are read without an error are positive. -/
theorem pos_of_errors_eq_nil {set : Setting} {low high : List UInt8}
    (hset : sizeBranch host value = .ok set) (hrandom : isRandom value = true)
    (hbounds : writtenBounds value = some (low, high)) (herrors : set.errors = []) :
    (0 < stringToInt host low ∧ 0 < stringToInt host high) ∧ ∀ f,
      (set.update f).options.randSzMin = .ofInt (stringToInt host low) ∧
        (set.update f).options.randSzMax = .ofInt (stringToInt host high) := by
  simp only [sizeBranch, parseSize_of_writtenBounds hrandom hbounds, Except.ok.injEq] at hset
  subst hset
  simp only [Setting.option, List.append_eq_nil_iff, string2int, ite_eq_right_iff,
    List.cons_ne_nil, imp_false, not_lt] at herrors
  obtain ⟨⟨hlow, hhigh⟩, hsize⟩ := herrors
  have hpos : 0 < UInt32.ofInt (stringToInt host low) ∧
      0 < UInt32.ofInt (stringToInt host high) := by
    by_contra hpos
    exact hsize fun h => absurd h hpos
  rw [pos_ofInt_iff hlow (stringToInt_lt host low),
    pos_ofInt_iff hhigh (stringToInt_lt host high)] at hpos
  exact ⟨hpos, fun f => ⟨rfl, rfl⟩⟩

theorem ofInt_le_ofInt_iff {a b : ℤ} (ha : 0 < a) (ha' : a < 2 ^ 31) (hb : 0 < b)
    (hb' : b < 2 ^ 31) : UInt32.ofInt a ≤ UInt32.ofInt b ↔ a ≤ b := by
  rw [UInt32.le_iff_toNat_le, UInt32.ofInt, UInt32.toNat_ofNat', UInt32.ofInt,
    UInt32.toNat_ofNat']
  omega

/-- A value that makes the sizes random without an error gives a range only if it has two
bounds, the first no greater than the second. -/
theorem drawsInRange_iff {set : Setting} (f : Flowop) (hset : sizeBranch host value = .ok set)
    (hrand : ∀ f, (set.update f).options.foRandomSize = true) (herrors : set.errors = []) :
    ((writtenBounds value).isSome ∧ DrawsInRange (set.update f).options) ↔
      ∃ low high, writtenBounds value = some (low, high) ∧
        stringToInt host low ≤ stringToInt host high := by
  have hrandom := isRandom_of_foRandomSize hset hrand
  cases hbounds : writtenBounds value with
  | none => simp
  | some bounds =>
      obtain ⟨low, high⟩ := bounds
      obtain ⟨⟨hlow, hhigh⟩, hfields⟩ := pos_of_errors_eq_nil hset hrandom hbounds herrors
      obtain ⟨hmin, hmax⟩ := hfields f
      have hlow' := stringToInt_lt host low
      have hhigh' := stringToInt_lt host high
      have hle := ofInt_le_ofInt_iff hlow hlow' hhigh hhigh'
      constructor
      · rintro ⟨-, hdraws⟩
        have hordered := hdraws.le
        rw [hmin, hmax] at hordered
        exact ⟨low, high, rfl, hle.mp hordered⟩
      · rintro ⟨low', high', hsame, hordered⟩
        cases hsame
        have hpos : 1 ≤ UInt32.ofInt (stringToInt host low) := by
          have hzero := (pos_ofInt_iff hlow.le hlow').mpr hlow
          rw [UInt32.lt_iff_toNat_lt] at hzero
          exact UInt32.le_iff_toNat_le.mpr hzero
        refine ⟨rfl, ?_⟩
        exact {
          pos := by rw [hmin]; exact hpos
          le := by rw [hmin, hmax]; exact hle.mpr hordered
          fits := by
            rw [hmax, UInt32.ofInt, UInt32.toNat_ofNat']
            omega
          draw := by
            rw [hmin, hmax]
            exact myRandom_of_le (hle.mpr hordered) hpos }

end

/-- Two positive bounds are a size without an error. -/
theorem sizeBranch_of_writtenBounds {host : Host} {value low high : List UInt8}
    (hrandom : isRandom value = true) (hbounds : writtenBounds value = some (low, high))
    (hlow : 0 < stringToInt host low) (hhigh : 0 < stringToInt host high) :
    ∃ set, sizeBranch host value = .ok set ∧
      (∀ f, (set.update f).options.foRandomSize = true) ∧ set.errors = [] := by
  have hpos : 0 < UInt32.ofInt (stringToInt host low) ∧
      0 < UInt32.ofInt (stringToInt host high) :=
    ⟨(pos_ofInt_iff hlow.le (stringToInt_lt host low)).mpr hlow,
      (pos_ofInt_iff hhigh.le (stringToInt_lt host high)).mpr hhigh⟩
  simp only [sizeBranch, parseSize_of_writtenBounds hrandom hbounds, if_pos hpos]
  refine ⟨_, rfl, fun _ => foRandomSize_or_oSizeRand, ?_⟩
  simp [Setting.option, string2int, not_lt.mpr hlow.le, not_lt.mpr hhigh.le]

theorem drawsInRange_upTo8k :
    ∃ set, sizeBranch bareHost (str "rand(1,8k)") = .ok set ∧
      (writtenBounds (str "rand(1,8k)")).isSome ∧ DrawsInRange (set.update {}).options := by
  have hbounds : writtenBounds (str "rand(1,8k)") = some (str "1", str "8k") := by decide +kernel
  have hvalues : stringToInt bareHost (str "1") = 1 ∧ stringToInt bareHost (str "8k") = 8192 := by
    decide +kernel
  obtain ⟨set, hset, hrand, herrors⟩ := sizeBranch_of_writtenBounds (by decide +kernel) hbounds
    (by rw [hvalues.1]; decide) (by rw [hvalues.2]; decide)
  refine ⟨set, hset, (drawsInRange_iff {} hset hrand herrors).mpr ⟨_, _, hbounds, ?_⟩⟩
  rw [hvalues.1, hvalues.2]
  decide

/-- The bounds of `rand(6,5)` are the wrong way round, and `my_random` divides by zero. -/
theorem not_drawsInRange_reversed :
    ¬ ∀ (host : Host) (value : List UInt8) (set : Setting) (f : Flowop),
      sizeBranch host value = .ok set → (∀ f, (set.update f).options.foRandomSize = true) →
      set.errors = [] →
      (writtenBounds value).isSome ∧ DrawsInRange (set.update f).options := by
  intro h
  obtain ⟨-, hdraws⟩ := h bareHost (str "rand(6,5)") _ {} rfl
    (fun _ => foRandomSize_or_oSizeRand) (by decide +kernel)
  obtain ⟨size, hsize, -⟩ := hdraws.draw 0
  have hzero : myRandom 0 (.ofInt (stringToInt bareHost (str "6")))
      (.ofInt (stringToInt bareHost (str "5"))) = none := by decide +kernel
  exact absurd (hzero.symm.trans hsize) (by simp)

/-! ## Sizes as integers -/

/-- The branch keeps a property of the flowop, whether it adds errors or not. -/
def BranchPreserves (P : Flowop → Prop) (branch : OptionBranch) : Prop :=
  ∀ value set, branch value = .ok set → ∀ f, P f → P (set.update f)

/-- The branch keeps a property of the flowop, where it adds no error. -/
def BranchKeeps (P : Flowop → Prop) (branch : OptionBranch) : Prop :=
  ∀ value set, branch value = .ok set → set.errors = [] → ∀ f, P f → P (set.update f)

section

variable {host : Host} {P : Flowop → Prop} {store : ℤ → FlowopOptions → FlowopOptions}

theorem BranchPreserves.keeps {branch : OptionBranch} (h : BranchPreserves P branch) :
    BranchKeeps P branch := fun value set hset _ => h value set hset

theorem preserves_string2intBranch
    (hstore : ∀ v f, P f → P { f with options := store v f.options }) :
    BranchPreserves P (string2intBranch host store) := by
  intro value set hset f hf
  cases hset
  exact hstore _ _ hf

theorem preserves_atoiBranch (hstore : ∀ v f, P f → P { f with options := store v f.options }) :
    BranchPreserves P (atoiBranch store) := by
  intro value set hset f hf
  cases hset
  exact hstore _ _ hf

theorem preserves_positiveBranch {key : String}
    (hstore : ∀ v f, P f → P { f with options := store v f.options }) :
    BranchPreserves P (positiveBranch key store) := by
  intro value set hset f hf
  unfold positiveBranch at hset
  split at hset
  · cases hset
    exact hf
  · cases hset
    exact hstore _ _ hf

theorem preserves_boundedBranch {key : String} {least most : ℤ}
    (hstore : ∀ v f, P f → P { f with options := store v f.options }) :
    BranchPreserves P (boundedBranch host key least most store) := by
  intro value set hset f hf
  simp only [boundedBranch] at hset
  split at hset
  · cases hset
    exact hstore _ _ hf
  · cases hset
    exact hf

theorem preserves_string2nsecBranch {key : String} {store : UInt64 → FlowopOptions → FlowopOptions}
    (hstore : ∀ v f, P f → P { f with options := store v f.options }) :
    BranchPreserves P (string2nsecBranch host key store) := by
  intro value set hset f hf
  cases hset
  exact hstore _ _ hf

theorem preserves_textBranch {store : List UInt8 → FlowopOptions → FlowopOptions}
    (hstore : ∀ v f, P f → P { f with options := store v f.options }) :
    BranchPreserves P (textBranch store) := by
  intro value set hset f hf
  cases hset
  exact hstore _ _ hf

theorem preserves_strcpyBranch {n : ℕ} {field : FlowopOptions → CharArray (n + 1)}
    {store : CharArray (n + 1) → FlowopOptions → FlowopOptions}
    (hstore : ∀ v f, P f → P { f with options := store v f.options }) :
    BranchPreserves P (strcpyBranch field store) := by
  intro value set hset f hf
  unfold strcpyBranch at hset
  split at hset
  · cases hset
    exact hstore _ _ hf
  · cases hset

theorem preserves_dirBranch (hstore : ∀ dir f, P f → P { f with options.dir := dir }) :
    BranchPreserves P (dirBranch host) := by
  intro value set hset f hf
  simp only [dirBranch] at hset
  split at hset
  · cases hset
    exact hstore _ _ hf
  · cases hset
  · cases hset
    exact hstore _ _ hf

theorem preserves_protocolBranch
    (hstore : ∀ protocol f, P f → P { f with options.protocol := protocol }) :
    BranchPreserves P (protocolBranch host) := by
  intro value set hset f hf
  cases hset
  exact hstore _ _ hf

theorem preserves_connBranch (hstore : ∀ pId f, P f → P { f with pId := pId }) :
    BranchPreserves P connBranch := by
  intro value set hset f hf
  cases hset
  exact hstore _ _ hf

/-- The branches preserve what does not depend on the options but for the two sizes, except
for those that set a size. -/
theorem row_preserves
    (hoptions : ∀ (f : Flowop) (options : FlowopOptions), options.size = f.options.size →
      options.rsize = f.options.rsize → P f → P { f with options := options })
    (hpId : ∀ pId f, P f → P { f with pId := pId }) :
    ∀ row ∈ optionBranches host, BranchPreserves P row.2 ∨ row.2 = sizeBranch host ∨
      row.2 = string2intBranch host fun v o => { o with rsize := UInt32.ofInt v } := by
  have hsctp : ∀ row ∈ sctpBranches host, BranchPreserves P row.2 := by
    unfold sctpBranches
    simp only [List.forall_mem_cons, List.not_mem_nil, false_imp_iff, implies_true, and_true]
    refine ⟨?_, ?_, ?_, ?_, ?_, ?_, ?_, ?_, ?_, ?_, ?_, ?_, ?_, ?_⟩
    all_goals first
      | exact preserves_boundedBranch fun _ f => hoptions f _ rfl rfl
      | exact preserves_textBranch fun _ f => hoptions f _ rfl rfl
  have hssl : ∀ row ∈ sslBranches, BranchPreserves P row.2 := by
    unfold sslBranches
    simp only [List.forall_mem_cons, List.not_mem_nil, false_imp_iff, implies_true, and_true]
    exact ⟨preserves_textBranch fun _ f => hoptions f _ rfl rfl,
      preserves_strcpyBranch fun _ f => hoptions f _ rfl rfl,
      preserves_strcpyBranch fun _ f => hoptions f _ rfl rfl⟩
  intro row hrow
  unfold optionBranches at hrow
  rw [List.mem_append, List.mem_append] at hrow
  obtain (hrow | hrow) | hrow := hrow
  · revert row
    simp only [List.forall_mem_cons, List.not_mem_nil, false_imp_iff, implies_true, and_true]
    refine ⟨.inr (.inl trivial), .inr (.inr trivial), .inl ?_, .inl ?_, .inl ?_, .inl ?_,
      .inl ?_, .inl ?_, .inl ?_, .inl ?_, .inl ?_, .inl ?_, .inl ?_, .inl ?_, .inl ?_, .inl ?_,
      .inl ?_, .inl ?_, .inl ?_⟩
    all_goals first
      | exact preserves_string2intBranch fun _ f => hoptions f _ rfl rfl
      | exact preserves_atoiBranch fun _ f => hoptions f _ rfl rfl
      | exact preserves_positiveBranch fun _ f => hoptions f _ rfl rfl
      | exact preserves_boundedBranch fun _ f => hoptions f _ rfl rfl
      | exact preserves_string2nsecBranch fun _ f => hoptions f _ rfl rfl
      | exact preserves_textBranch fun _ f => hoptions f _ rfl rfl
      | exact preserves_dirBranch fun _ f => hoptions f _ rfl rfl
      | exact preserves_protocolBranch fun _ f => hoptions f _ rfl rfl
      | exact preserves_connBranch hpId
  · split at hrow
    · exact .inl (hsctp row hrow)
    · cases hrow
  · split at hrow
    · exact .inl (hssl row hrow)
    · cases hrow

/-- The branches keep what does not depend on the options but for the two sizes. -/
theorem row_keeps
    (hoptions : ∀ (f : Flowop) (options : FlowopOptions), options.size = f.options.size →
      options.rsize = f.options.rsize → P f → P { f with options := options })
    (hpId : ∀ pId f, P f → P { f with pId := pId })
    (hsize : BranchKeeps P (sizeBranch host))
    (hrsize : BranchKeeps P
      (string2intBranch host fun v o => { o with rsize := UInt32.ofInt v })) :
    ∀ row ∈ optionBranches host, BranchKeeps P row.2 := by
  intro row hrow
  obtain hpreserves | heq | heq := row_preserves hoptions hpId row hrow
  · exact hpreserves.keeps
  · rw [heq]
    exact hsize
  · rw [heq]
    exact hrsize

/-- An option that is read sets a flag, or is a row of the table, or is not understood. -/
theorem parseOption_ok_cases {word : List UInt8} {set : Setting}
    (hset : parseOption host word = .ok set) :
    (∃ flag, set = .option (fun o => { o with flag := o.flag ||| flag }) []) ∨
      (∃ row ∈ optionBranches host, ∃ value, row.2 value = .ok set) ∨
      ∃ text, set = { errors := [text] } := by
  unfold parseOption at hset
  cases hpair : optionPair host word with
  | error flag =>
      rw [hpair] at hset
      cases hset
      obtain ⟨row, -, rfl⟩ | ⟨text, rfl⟩ := optionPair_error_cases hpair
      · exact Or.inl ⟨row.2, rfl⟩
      · exact Or.inr (Or.inr ⟨text, rfl⟩)
  | ok pair =>
      rw [hpair] at hset
      unfold keyBranch at hset
      cases hfind : (optionBranches host).find? fun row => strcasecmpEq pair.1 (str row.1) with
      | none =>
          simp only [hfind] at hset
          cases hset
          exact Or.inr (Or.inr ⟨_, rfl⟩)
      | some row =>
          simp only [hfind] at hset
          exact Or.inr (Or.inl ⟨row, List.mem_of_find?_eq_some hfind, pair.2, hset⟩)

/-- An option that is read without an error sets a flag, or is a row of the table. -/
theorem parseOption_cases {word : List UInt8} {set : Setting}
    (hset : parseOption host word = .ok set) (hclean : set.errors = []) :
    (∃ flag, set = .option (fun o => { o with flag := o.flag ||| flag }) []) ∨
      ∃ row ∈ optionBranches host, ∃ value, row.2 value = .ok set := by
  obtain hflag | hrow | ⟨text, rfl⟩ := parseOption_ok_cases hset
  · exact Or.inl hflag
  · exact Or.inr hrow
  · cases hclean

/-- A text of options preserves what all its branches do. -/
theorem flowopParseOptions_preserves
    (hflag : ∀ flag f, P f → P { f with options.flag := flag })
    (hbranches : ∀ host, ∀ row ∈ optionBranches host, BranchPreserves P row.2)
    (hdefaults : ∀ f, P f → P (optionDefaults f)) {text : List UInt8} {set : Setting}
    (hset : flowopParseOptions host text = .ok set) {f : Flowop} (hf : P f) :
    P (set.update f) := by
  unfold flowopParseOptions at hset
  split at hset
  · cases hset
  · refine loop_history (P := fun _ (set : Setting) => P (set.update f)) (hdefaults f hf) ?_ hset
    intro done read mid mid' hmid hstep
    obtain ⟨next, hnext, heq⟩ := bind_eq_ok_iff.mp hstep
    cases heq
    obtain ⟨flag, rfl⟩ | ⟨row, hrow, value, hvalue⟩ | ⟨text, rfl⟩ := parseOption_ok_cases hnext
    · exact hflag _ _ hmid
    · exact hbranches read.1 row hrow value next hvalue _ hmid
    · exact hmid

/-- A text of options keeps what all its branches keep. -/
theorem flowopParseOptions_keeps (hflag : ∀ flag f, P f → P { f with options.flag := flag })
    (hbranches : ∀ host, ∀ row ∈ optionBranches host, BranchKeeps P row.2)
    (hdefaults : ∀ f, P f → P (optionDefaults f)) {text : List UInt8} {set : Setting}
    (hset : flowopParseOptions host text = .ok set) (hclean : set.errors = []) {f : Flowop}
    (hf : P f) : P (set.update f) := by
  have hloop : ∀ (reads : List (Host × List UInt8)) (set set' : Setting),
      loop optionStep set reads = .ok set' → set'.errors = [] →
      set.errors = [] ∧ (P (set.update f) → P (set'.update f)) := by
    intro reads
    induction reads with
    | nil =>
        intro set set' hset hclean
        cases hset
        exact ⟨hclean, id⟩
    | cons read reads ih =>
        intro set set' hset hclean
        rw [loop] at hset
        obtain ⟨mid, hmid, hrest⟩ := bind_eq_ok_iff.mp hset
        obtain ⟨next, hnext, heq⟩ := bind_eq_ok_iff.mp hmid
        cases heq
        obtain ⟨herrors, hkeeps⟩ := ih _ _ hrest hclean
        obtain ⟨hbefore, hnew⟩ := List.append_eq_nil_iff.mp herrors
        refine ⟨hbefore, fun hP => hkeeps ?_⟩
        obtain ⟨flag, rfl⟩ | ⟨row, hrow, value, hvalue⟩ := parseOption_cases hnext hnew
        · exact hflag _ _ hP
        · exact hbranches read.1 row hrow value next hvalue hnew _ hP
  unfold flowopParseOptions at hset
  split at hset
  · cases hset
  · exact (hloop _ _ _ hset hclean).2 (hdefaults f hf)

end

/-- The sizes are numbers of an `int`. -/
structure IntSizes (f : Flowop) : Prop where
  size : f.options.size < 2 ^ 31
  rsize : f.options.rsize < 2 ^ 31

section

variable {host : Host}

theorem ofInt_lt_of_nonneg {n : ℤ} (hnonneg : 0 ≤ n) (hlt : n < 2 ^ 31) :
    UInt32.ofInt n < 2 ^ 31 := by
  have hbound : ((2 : UInt32) ^ 31).toNat = 2 ^ 31 := by decide
  rw [UInt32.lt_iff_toNat_lt, UInt32.ofInt, UInt32.toNat_ofNat', hbound]
  omega

theorem intSizes_sizeBranch : BranchKeeps IntSizes (sizeBranch host) := by
  intro value set hset hclean f hf
  by_cases hsize : 0 < stringToInt host value
  · simp only [sizeBranch, parseSize, if_pos hsize] at hset
    cases hset
    exact ⟨ofInt_lt_of_nonneg hsize.le (stringToInt_lt host value), hf.rsize⟩
  · by_cases hrandom : isRandom value = true
    · obtain ⟨min, max, errors, hparse⟩ := parseSize_of_isRandom hsize hrandom
      simp only [sizeBranch, hparse, Except.ok.injEq] at hset
      subst hset
      have hpos : 0 < UInt32.ofInt min ∧ 0 < UInt32.ofInt max := by
        by_contra hpos
        simp [Setting.option, hpos] at hclean
      have hzero : UInt32.ofInt 0 < 2 ^ 31 := by decide
      simp only [Setting.option, if_pos hpos]
      exact ⟨hzero, hf.rsize⟩
    · have hshown : strcasecmpEq (value.take 5) (str "rand(") = false := by
        simpa [isRandom] using hrandom
      simp only [sizeBranch, parseSize, if_neg hsize, hshown] at hset
      cases hset
      simp [Setting.option] at hclean

theorem intSizes_rsizeBranch :
    BranchKeeps IntSizes (string2intBranch host fun v o => { o with rsize := .ofInt v }) := by
  intro value set hset hclean f hf
  cases hset
  have hnonneg : 0 ≤ stringToInt host value := by
    by_contra hneg
    simp [Setting.option, not_le.mp hneg] at hclean
  exact ⟨hf.size, ofInt_lt_of_nonneg hnonneg (stringToInt_lt host value)⟩

theorem intSizes_row : ∀ row ∈ optionBranches host, BranchKeeps IntSizes row.2 := by
  apply row_keeps
  · intro f options hsize hrsize hf
    exact ⟨hsize.symm ▸ hf.size, hrsize.symm ▸ hf.rsize⟩
  · exact fun _ _ hf => ⟨hf.size, hf.rsize⟩
  · exact intSizes_sizeBranch
  · exact intSizes_rsizeBranch

theorem intSizes_flowopUpdate {s : Visit} {f : Flowop} (hclean : CleanSymbol s)
    (hf : IntSizes f) : IntSizes (flowopUpdate s f) := by
  unfold flowopUpdate
  split
  · exact ⟨hf.size, hf.rsize⟩
  · rename_i hoptions
    obtain ⟨set, hset, herrors⟩ := hclean.2.1 hoptions
    rw [hset]
    have hzero : (0 : UInt32) < 2 ^ 31 := by decide
    exact flowopParseOptions_keeps (fun _ _ h => ⟨h.size, h.rsize⟩) (fun _ => intSizes_row)
      (fun _ h => ⟨hzero, h.rsize⟩) hset herrors hf
  · exact hf

/-- The sizes in an accepted profile are numbers of an `int`. -/
theorem intSizes_of_accepted {file : List UInt8} {w : Workorder} {errors : List ErrorText}
    (hparse : parseAppProfile host file = .ok (some w, errors)) :
    ∀ g ∈ w.grp, ∀ f ∈ g.flowops, IntSizes f := by
  have hfile : file ≠ [] := by
    rintro rfl
    cases hparse
  obtain ⟨rfl, list, b, hlist, hrun, rfl⟩ := (parseAppProfile_eq_some_iff hfile).mp hparse
  have hclean := cleanSymbol_of_run hrun
  have hzero : (0 : UInt32) < 2 ^ 31 := by decide
  have hmade : ∀ f ∈ b.grp.flatMap Group.flowops, IntSizes f := by
    refine (forall_iff_of_forall₂ (Q := fun _ => True) (flowops_made hrun)
      fun body hbody f hmade => iff_of_true ?_ trivial).mpr fun _ _ => trivial
    obtain ⟨new, ⟨fid, rfl⟩, rfl⟩ := hmade
    refine List.foldlRecOn (motive := IntSizes) body _ ⟨hzero, hzero⟩
      fun f hf s hs => ?_
    exact intSizes_flowopUpdate (hclean s (mem_of_mem_sections hbody hs)) hf
  intro g hg f hf
  exact hmade f (List.mem_flatMap.mpr ⟨g, hg, hf⟩)

end

end Uperf
