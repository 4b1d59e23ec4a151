import Mathlib.Data.UInt
import Mathlib.Data.List.TakeWhile

/-!
# Decimal numerals

Numbers as the ASCII digits that print them, and the value of such a text.
-/

namespace Uperf.Lib

/-- `isdigit`. -/
def isDigit (c : UInt8) : Bool := 48 ≤ c && c ≤ 57

/-- The number that a digit stands for. -/
def digitValue (c : UInt8) : ℕ := c.toNat - 48

/-- The number that a text of digits stands for. -/
def digitsValue (digits : List UInt8) : ℕ :=
  digits.foldl (fun n c => n * 10 + digitValue c) 0

/-- The text of a number: its digits, the first of them not zero unless the
number is. -/
def decimal (n : ℕ) : List UInt8 := (Nat.toDigits 10 n).map fun c => UInt8.ofNat c.toNat

section

variable {n : ℕ} {c : Char}

theorem toNat_ofNat_of_isDigit (hc : c.isDigit = true) :
    (UInt8.ofNat c.toNat).toNat = c.toNat ∧ 48 ≤ c.toNat ∧ c.toNat ≤ 57 := by
  simp only [Char.isDigit, Bool.and_eq_true, decide_eq_true_eq, ge_iff_le,
    UInt32.le_iff_toNat_le] at hc
  have hlow : 48 ≤ c.toNat := hc.1
  have hhigh : c.toNat ≤ 57 := hc.2
  refine ⟨?_, hlow, hhigh⟩
  rw [UInt8.toNat_ofNat']
  omega

theorem isDigit_of_mem_decimal {byte : UInt8} (h : byte ∈ decimal n) : isDigit byte = true := by
  obtain ⟨c, hmem, rfl⟩ := List.mem_map.mp h
  obtain ⟨hval, hlow, hhigh⟩ :=
    toNat_ofNat_of_isDigit (Nat.isDigit_of_mem_toDigits (by omega) (by omega) hmem)
  simp [isDigit, UInt8.le_iff_toNat_le, hval, hlow, hhigh]

theorem decimal_ne_nil : decimal n ≠ [] := by
  simp [decimal, Nat.toDigits_ne_nil]

/-- The number of its digits bounds a number. -/
theorem length_decimal_le {n k : ℕ} (hk : 0 < k) (hn : n < 10 ^ k) : (decimal n).length ≤ k := by
  rw [decimal, List.length_map]
  exact (Nat.length_toDigits_le_iff (by omega) hk).mpr hn

/-- A printed number begins with a digit. -/
theorem decimal_eq_cons (n : ℕ) : ∃ c digits, decimal n = c :: digits ∧ isDigit c = true := by
  obtain ⟨c, digits, hcons⟩ := List.exists_cons_of_ne_nil (decimal_ne_nil (n := n))
  refine ⟨c, digits, hcons, ?_⟩
  apply isDigit_of_mem_decimal (n := n)
  rw [hcons]
  exact List.mem_cons_self

/-- A digit is none of the characters that a parser looks for. -/
theorem ne_of_isDigit {c d : UInt8} (hc : isDigit c = true) (hd : isDigit d = false) : c ≠ d := by
  rintro rfl
  rw [hc] at hd
  cases hd

/-- Nothing behind a number does not begin with a digit. -/
theorem head?_nil_isDigit : ∀ c ∈ ([] : List UInt8).head?, isDigit c = false := by simp

/-- Reading a printed number gives the number. -/
@[simp] theorem digitsValue_decimal (n : ℕ) : digitsValue (decimal n) = n := by
  have hread : ∀ (cs : List Char) (m : ℕ), (∀ c ∈ cs, c.isDigit = true) →
      (cs.map fun c => UInt8.ofNat c.toNat).foldl (fun n c => n * 10 + digitValue c) m =
        Nat.ofDigitChars 10 cs m := by
    intro cs
    induction cs with
    | nil => simp
    | cons c cs ih =>
        intro m hcs
        obtain ⟨hval, -⟩ := toNat_ofNat_of_isDigit (hcs c List.mem_cons_self)
        rw [List.map_cons, List.foldl_cons, ih _ fun d hd => hcs d (List.mem_cons_of_mem _ hd),
          Nat.ofDigitChars_cons]
        congr 1
        rw [digitValue, hval, Nat.mul_comm]
        rfl
  unfold digitsValue decimal
  rw [hread _ _ fun c hc => Nat.isDigit_of_mem_toDigits (by omega) (by omega) hc,
    Nat.ofDigitChars_toDigits (by omega) (by omega)]

end

/-- A number followed by something else is read up to where its digits end. -/
theorem takeWhile_decimal_append (n : ℕ) {rest : List UInt8}
    (hrest : ∀ c ∈ rest.head?, isDigit c = false) :
    (decimal n ++ rest).takeWhile isDigit = decimal n ∧
      (decimal n ++ rest).dropWhile isDigit = rest := by
  have hall : ∀ c ∈ decimal n, isDigit c = true := fun _ => isDigit_of_mem_decimal
  rw [List.takeWhile_append_of_pos hall, List.dropWhile_append_of_pos hall]
  cases rest with
  | nil => simp
  | cons c rest =>
      have hc : isDigit c = false := hrest c (by simp)
      simp [hc]

theorem takeWhile_isDigit_decimal (n : ℕ) : (decimal n).takeWhile isDigit = decimal n := by
  simpa using (takeWhile_decimal_append n head?_nil_isDigit).1

end Uperf.Lib
