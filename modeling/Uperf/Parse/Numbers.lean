import Uperf.Doubles
import Uperf.Lib.Decimal
import Uperf.Parse.Errors

/-!
# Numbers in a profile

`numbers.c`: sizes with a suffix and durations with a unit.  The C library
functions they use are here too.
-/

namespace Uperf

open Lib

/-! ## The C library -/

/-- `LLONG_MAX`. -/
def llongMax : ℕ := 2 ^ 63 - 1

/-- `strtoll` of a text that begins with a digit or a point: the value, before a
check of its range, and the rest. -/
def strtoll (tmp : List UInt8) : ℕ × List UInt8 :=
  (digitsValue (tmp.takeWhile isDigit), tmp.dropWhile isDigit)

/-- The exponent of a number, `e` with digits behind it; a text without one is
left as it is. -/
def exponent (text : List UInt8) : ℤ × List UInt8 :=
  match text with
  | [] => (0, [])
  | e :: rest =>
      let signed := match rest with
        | sign :: digits =>
            if sign = '-'.toUInt8 then (-1, digits)
            else if sign = '+'.toUInt8 then (1, digits)
            else (1, rest)
        | [] => ((1 : ℤ), [])
      let digits := signed.2.takeWhile isDigit
      if tolower e = 'e'.toUInt8 ∧ digits ≠ [] then
        (signed.1 * digitsValue digits, signed.2.dropWhile isDigit)
      else (0, text)

/-- `strtod` of a text that begins with a digit or a point and has a point behind
its first digits: the value before rounding and the rest. -/
def strtod (tmp : List UInt8) : ℚ × List UInt8 :=
  let whole := tmp.takeWhile isDigit
  let fraction := (tmp.dropWhile isDigit).tail.takeWhile isDigit
  if whole = [] ∧ fraction = [] then (0, tmp)
  else
    let (e, rest) := exponent ((tmp.dropWhile isDigit).tail.dropWhile isDigit)
    (digitsValue (whole ++ fraction) * (10 : ℚ) ^ (e - fraction.length), rest)

/-- `errno` is `ERANGE` after `strtod`. -/
def outOfRange (q : ℚ) : Bool := 2 ^ 1024 ≤ toDouble q || (0 < q && q < (2 : ℚ) ^ (-1022 : ℤ))

/-- `isspace`. -/
def isSpace (c : UInt8) : Bool := c = 32 || (9 ≤ c && c ≤ 13)

/-- `atoi`: blanks, a sign, and digits whose value is cut to `long` and then to
`int`. -/
def atoi (nptr : List UInt8) : ℤ :=
  let text := nptr.dropWhile isSpace
  let n : ℕ → ℕ := fun bound =>
    min bound (digitsValue ((if text.head? = some '-'.toUInt8 ∨ text.head? = some '+'.toUInt8
      then text.tail else text).takeWhile isDigit))
  if text.head? = some '-'.toUInt8 then toInt (-(n (llongMax + 1) : ℤ)) else toInt (n llongMax)

/-! ## Sizes -/

/-- `str2shift`; `none` is `-1`. -/
def str2shift (buf : List UInt8) : Option ℕ :=
  match buf with
  | [] => some 0
  | c :: _ =>
      let ends := (str "bkmgtpez").findIdx fun suffix => suffix = tolower c
      if ends < (str "bkmgtpez").length then some (10 * ends) else none

/-- `num << shift` in an `int`. -/
def shiftLeft (num : ℤ) (shift : ℕ) : ℤ := toInt (num * 2 ^ shift)

/-- The text a number is read from: `value`, or the variable that is named
`value`, its `$` included. -/
def numberText (host : Host) (value : List UInt8) : Option (List UInt8) :=
  if value.head? = some '$'.toUInt8 then host.getenv value else some value

/-- The text begins like a number. -/
def startsNumber (tmp : List UInt8) : Bool :=
  match tmp with
  | [] => false
  | c :: _ => isDigit c || c = '.'.toUInt8

/-- `string_to_int`. -/
def stringToInt (host : Host) (value : List UInt8) : ℤ :=
  match numberText host value with
  | none => -1
  | some tmp =>
      if ¬ startsNumber tmp then -1
      else
        let (n, rest) := strtoll tmp
        if llongMax < n then -1
        else if rest.head? = some '.'.toUInt8 then
          let (fval, rest) := strtod tmp
          match str2shift rest with
          | none => -1
          | some shift =>
              let fval := toDouble fval * 2 ^ shift
              if 2 ^ 32 - 1 < fval then -1 else intOfDouble fval
        else
          let num := toInt n
          match str2shift rest with
          | none => -1
          | some shift =>
              -- the shift back keeps the sign
              if 32 < shift ∨ shiftLeft num shift / 2 ^ shift ≠ num then -1
              else shiftLeft num shift

/-! ## Durations -/

/-- `get_multiplier`. -/
def getMultiplier (suffix : List UInt8) : ℚ :=
  match suffix with
  | [] => 10 ^ 9
  | c :: _ =>
      if tolower c = 's'.toUInt8 then 10 ^ 9
      else if tolower c = 'm'.toUInt8 then 10 ^ 6
      else if tolower c = 'u'.toUInt8 then 10 ^ 3
      else if tolower c = 'n'.toUInt8 then 1
      else -1

/-- `string_to_nsec`, where `float` is what a value becomes when it is stored as
one. -/
def stringToNsecWith (float : ℚ → ℚ) (host : Host) (value : List UInt8) : UInt64 :=
  match numberText host value with
  | none => UInt64.ofInt (-1)
  | some tmp =>
      if ¬ startsNumber tmp then 0
      else
        let (num, rest) := strtoll tmp
        if llongMax < num then 0
        else if rest.head? = some '.'.toUInt8 then
          let (val, rest) := strtod tmp
          if outOfRange val then UInt64.ofInt (-1)
          else uint64OfFloat (float (float (toDouble val) * getMultiplier rest))
        else uint64OfFloat (float (float num * getMultiplier rest))

/-- `string_to_nsec`. -/
def stringToNsec : Host → List UInt8 → UInt64 := stringToNsecWith toFloat

/-! ## Numbers with an error -/

/-- `string2int`: `NULL` gives `-1` without an error. -/
def string2int (host : Host) (value : Option (List UInt8)) : ℤ × List ErrorText :=
  match value with
  | none => (-1, [])
  | some value =>
      let val := stringToInt host value
      (val, if val < 0 then [snprintf 1024 (str "Cannot parse " ++ value)] else [])

/-- `string2nsec`. -/
def string2nsec (host : Host) (value : List UInt8) : UInt64 × List ErrorText :=
  let val := stringToNsec host value
  (val, if val = 0 then [snprintf 1024 (str "Cannot convert " ++ value ++ str " to nsecs")]
    else [])

/-! ## Blanks -/

theorem isSpace_of_isDigit {c : UInt8} (hc : isDigit c = true) : isSpace c = false := by
  have hlow : 48 ≤ c.toNat := by
    simp only [isDigit, Bool.and_eq_true, decide_eq_true_eq, UInt8.le_iff_toNat_le] at hc
    exact hc.1
  simp only [isSpace, Bool.or_eq_false_iff, Bool.and_eq_false_iff, decide_eq_false_iff_not,
    UInt8.le_iff_toNat_le, ← UInt8.toNat_inj]
  refine ⟨?_, Or.inr ?_⟩
  · show c.toNat ≠ 32
    omega
  · show ¬ c.toNat ≤ 13
    omega

/-- There is no blank in front of a printed number. -/
theorem dropWhile_isSpace_decimal (n : ℕ) : (decimal n).dropWhile isSpace = decimal n := by
  obtain ⟨c, digits, hcons, hc⟩ := decimal_eq_cons n
  simp [hcons, isSpace_of_isDigit hc]

/-! ## Ranges -/

theorem toInt_lt (n : ℤ) : toInt n < 2 ^ 31 := Int.bmod_lt (by decide)

theorem intOfDouble_lt (q : ℚ) : intOfDouble q < 2 ^ 31 := by
  unfold intOfDouble
  split
  · rename_i hq
    rw [Int.floor_lt]
    exact_mod_cast hq
  · decide

theorem stringToInt_lt (host : Host) (value : List UInt8) : stringToInt host value < 2 ^ 31 := by
  unfold stringToInt
  split
  · decide
  · split
    · decide
    · simp only
      split
      · decide
      · split
        · split
          · decide
          · split
            · decide
            · exact intOfDouble_lt _
        · split
          · decide
          · split
            · decide
            · exact toInt_lt _

theorem pos_ofInt_iff {n : ℤ} (hnonneg : 0 ≤ n) (hlt : n < 2 ^ 31) :
    0 < UInt32.ofInt n ↔ 0 < n := by
  have hval : (UInt32.ofInt n).toNat = n.toNat := by
    rw [UInt32.ofInt, UInt32.toNat_ofNat']
    omega
  rw [UInt32.lt_iff_toNat_lt, hval, UInt32.toNat_zero]
  omega

end Uperf
