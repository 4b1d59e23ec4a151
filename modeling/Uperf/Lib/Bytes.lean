import Mathlib.Data.Nat.ModEq
import Mathlib.Tactic.Ring

/-!
# Fixed-width byte images of naturals

A machine word of `w` bytes is stored as the `w` base-256 digits of a natural,
least significant first on a little-endian machine and most significant first
on a big-endian one.  This file has the digits (`bytesLE`, `ofBytesLE`), the
two byte orders, and `reverseBytes`, the value that a machine of the other
order reads.
-/

namespace Uperf.Lib

/-- A property of bytes is decided by trying all of them. -/
instance decidableForallByte {p : UInt8 → Prop} [DecidablePred p] : Decidable (∀ c, p c) :=
  decidable_of_iff (∀ n : Fin 256, p (UInt8.ofFin n)) ⟨fun h c => h c.toFin, fun h _ => h _⟩

/-- A number that is not negative is kept as it is where it is taken for an unsigned one. -/
theorem toNat_toUInt64 {x : Int64} {s : ℕ} (hs : x.toInt = s) : x.toUInt64.toNat = s := by
  have hx : 0 ≤ x := by
    rw [Int64.le_iff_toInt_le, hs]
    exact Int.natCast_nonneg s
  rw [Int64.toNat_toUInt64_of_le hx, ← Int64.toNat_toInt, hs, Int.toNat_natCast]

/-- The byte order of a machine. -/
inductive Endian
  | little
  | big
deriving DecidableEq, Repr

/-- The bytes in the order in which a machine stores them, given least
significant first; the same permutation recovers them. -/
def Endian.arrange : Endian → List UInt8 → List UInt8
  | .little, bytes => bytes
  | .big, bytes => bytes.reverse

/-- The `w` base-256 digits of `n`, least significant first. -/
def bytesLE : ℕ → ℕ → List UInt8
  | 0, _ => []
  | w + 1, n => UInt8.ofNat (n % 256) :: bytesLE w (n / 256)

/-- The natural with the given base-256 digits, least significant first. -/
def ofBytesLE : List UInt8 → ℕ
  | [] => 0
  | byte :: rest => byte.toNat + 256 * ofBytesLE rest

/-- The natural whose `w` bytes are those of `n` in the opposite order. -/
def reverseBytes (w n : ℕ) : ℕ := ofBytesLE (bytesLE w n).reverse

@[simp] theorem Endian.arrange_arrange (e : Endian) (bytes : List UInt8) :
    e.arrange (e.arrange bytes) = bytes := by
  cases e <;> simp [Endian.arrange]

@[simp] theorem Endian.length_arrange (e : Endian) (bytes : List UInt8) :
    (e.arrange bytes).length = bytes.length := by
  cases e <;> simp [Endian.arrange]

/-- Read in the other order, the bytes come out reversed. -/
theorem Endian.arrange_arrange_of_ne {e e' : Endian} (hne : e ≠ e') (bytes : List UInt8) :
    e'.arrange (e.arrange bytes) = bytes.reverse := by
  cases e <;> cases e' <;> simp_all [Endian.arrange]

/-! ## Digits -/

@[simp] theorem length_bytesLE (w n : ℕ) : (bytesLE w n).length = w := by
  induction w generalizing n with
  | zero => rfl
  | succ w ih => simp [bytesLE, ih]

theorem toNat_ofNat_mod (n : ℕ) : (UInt8.ofNat (n % 256)).toNat = n % 256 := by
  simp

theorem ofBytesLE_bytesLE (w n : ℕ) : ofBytesLE (bytesLE w n) = n % 256 ^ w := by
  induction w generalizing n with
  | zero => simp [bytesLE, ofBytesLE, Nat.mod_one]
  | succ w ih =>
      rw [bytesLE, ofBytesLE, ih, toNat_ofNat_mod, pow_succ', Nat.mod_mul]

theorem ofBytesLE_bytesLE_of_lt {w n : ℕ} (hn : n < 256 ^ w) :
    ofBytesLE (bytesLE w n) = n := by
  rw [ofBytesLE_bytesLE, Nat.mod_eq_of_lt hn]

theorem ofBytesLE_lt (bytes : List UInt8) : ofBytesLE bytes < 256 ^ bytes.length := by
  induction bytes with
  | nil => simp [ofBytesLE]
  | cons byte rest ih =>
      have hbyte : byte.toNat < 256 := byte.toNat_lt
      rw [ofBytesLE, List.length_cons, pow_succ]
      omega

theorem bytesLE_ofBytesLE (bytes : List UInt8) :
    bytesLE bytes.length (ofBytesLE bytes) = bytes := by
  induction bytes with
  | nil => rfl
  | cons byte rest ih =>
      have hbyte : byte.toNat < 256 := byte.toNat_lt
      have hlow : (byte.toNat + 256 * ofBytesLE rest) % 256 = byte.toNat := by omega
      have hhigh : (byte.toNat + 256 * ofBytesLE rest) / 256 = ofBytesLE rest := by omega
      rw [List.length_cons, bytesLE, ofBytesLE, hlow, hhigh, ih, UInt8.ofNat_toNat]

/-! ## Reversal -/

theorem reverseBytes_lt (w n : ℕ) : reverseBytes w n < 256 ^ w := by
  simpa [reverseBytes] using ofBytesLE_lt (bytesLE w n).reverse

theorem bytesLE_reverseBytes (w n : ℕ) :
    bytesLE w (reverseBytes w n) = (bytesLE w n).reverse := by
  have h := bytesLE_ofBytesLE (bytesLE w n).reverse
  rwa [List.length_reverse, length_bytesLE] at h

/-- Reversing the bytes twice gives the number back. -/
theorem reverseBytes_reverseBytes {w n : ℕ} (hn : n < 256 ^ w) :
    reverseBytes w (reverseBytes w n) = n := by
  rw [reverseBytes, bytesLE_reverseBytes, List.reverse_reverse, ofBytesLE_bytesLE_of_lt hn]

end Uperf.Lib
