import Uperf.Lib.Codec
import Mathlib.Data.Nat.Bitwise

/-!
# The byte-reversal macros of `uperf.h`

`BSWAP_8`, …, `BSWAP_64` are macros, so each is stated once over every word
type it is used at and unfolds in the arithmetic of that type.  At `uint16_t`,
`uint32_t` and `uint64_t` they compute what a machine of the other byte order
reads (`bswap16_eq`, `bswap32_eq`, `bswap64_eq`).
-/

namespace Uperf

open Lib

section Macros

variable {α : Type} [AndOp α] [OrOp α] [ShiftLeft α] [ShiftRight α] [∀ n, OfNat α n]

/-- `BSWAP_8`. -/
def bswap8 (x : α) : α := x &&& 0xff

/-- `BSWAP_16`. -/
def bswap16 (x : α) : α := (bswap8 x <<< 8) ||| bswap8 (x >>> 8)

/-- `BSWAP_32`. -/
def bswap32 (x : α) : α := (bswap16 x <<< 16) ||| bswap16 (x >>> 16)

/-- `BSWAP_64`. -/
def bswap64 (x : α) : α := (bswap32 x <<< 32) ||| bswap32 (x >>> 32)

end Macros

/-! ## The macros in arithmetic -/

/-- The last two bytes of `n`, exchanged. -/
private def exchange16 (n : ℕ) : ℕ := n % 256 * 2 ^ 8 + n / 2 ^ 8 % 256

/-- The last four bytes of `n`, reversed. -/
private def exchange32 (n : ℕ) : ℕ := exchange16 n * 2 ^ 16 + exchange16 (n / 2 ^ 16)

private theorem exchange16_lt (n : ℕ) : exchange16 n < 2 ^ 16 := by
  unfold exchange16
  omega

private theorem exchange32_lt (n : ℕ) : exchange32 n < 2 ^ 32 := by
  have hhigh := exchange16_lt n
  have hlow := exchange16_lt (n / 2 ^ 16)
  unfold exchange32
  omega

/-- Shifting left past `b` and joining with `b` is addition. -/
private theorem shiftLeft_lor {a b i w : ℕ} (hb : b < 2 ^ i) (hw : a * 2 ^ i < 2 ^ w) :
    (a <<< i) % 2 ^ w ||| b = a * 2 ^ i + b := by
  rw [Nat.shiftLeft_eq, Nat.mod_eq_of_lt hw, ← Nat.shiftLeft_eq,
    ← Nat.shiftLeft_add_eq_or_of_lt hb, Nat.shiftLeft_eq]

private theorem and_255 (n : ℕ) : n &&& 255 = n % 256 :=
  Nat.and_two_pow_sub_one_eq_mod n 8

private theorem toNat_bswap16_u16 (x : UInt16) : (bswap16 x).toNat = exchange16 x.toNat := by
  have hjoin := shiftLeft_lor (a := x.toNat % 256) (b := x.toNat / 2 ^ 8 % 256) (i := 8)
    (w := 16) (by omega) (by omega)
  simpa [bswap16, bswap8, and_255, exchange16, Nat.shiftRight_eq_div_pow] using hjoin

private theorem toNat_bswap16_u32 (x : UInt32) : (bswap16 x).toNat = exchange16 x.toNat := by
  have hjoin := shiftLeft_lor (a := x.toNat % 256) (b := x.toNat / 2 ^ 8 % 256) (i := 8)
    (w := 32) (by omega) (by omega)
  simpa [bswap16, bswap8, and_255, exchange16, Nat.shiftRight_eq_div_pow] using hjoin

private theorem toNat_bswap16_u64 (x : UInt64) : (bswap16 x).toNat = exchange16 x.toNat := by
  have hjoin := shiftLeft_lor (a := x.toNat % 256) (b := x.toNat / 2 ^ 8 % 256) (i := 8)
    (w := 64) (by omega) (by omega)
  simpa [bswap16, bswap8, and_255, exchange16, Nat.shiftRight_eq_div_pow] using hjoin

private theorem toNat_bswap32_u32 (x : UInt32) : (bswap32 x).toNat = exchange32 x.toNat := by
  have hhigh := exchange16_lt x.toNat
  have hjoin := shiftLeft_lor (a := exchange16 x.toNat) (w := 32)
    (exchange16_lt (x.toNat / 2 ^ 16)) (by omega)
  simpa [bswap32, toNat_bswap16_u32, exchange32, Nat.shiftRight_eq_div_pow] using hjoin

private theorem toNat_bswap32_u64 (x : UInt64) : (bswap32 x).toNat = exchange32 x.toNat := by
  have hhigh := exchange16_lt x.toNat
  have hjoin := shiftLeft_lor (a := exchange16 x.toNat) (w := 64)
    (exchange16_lt (x.toNat / 2 ^ 16)) (by omega)
  simpa [bswap32, toNat_bswap16_u64, exchange32, Nat.shiftRight_eq_div_pow] using hjoin

private theorem toNat_bswap64_u64 (x : UInt64) :
    (bswap64 x).toNat = exchange32 x.toNat * 2 ^ 32 + exchange32 (x.toNat / 2 ^ 32) := by
  have hhigh := exchange32_lt x.toNat
  have hjoin := shiftLeft_lor (a := exchange32 x.toNat) (w := 64)
    (exchange32_lt (x.toNat / 2 ^ 32)) (by omega)
  simpa [bswap64, toNat_bswap32_u64, Nat.shiftRight_eq_div_pow] using hjoin

/-! ## The macros reverse the image of a word -/

theorem bswap16_eq (x : UInt16) : bswap16 x = Codec.u16.swap x := by
  apply UInt16.toNat_inj.mp
  show _ = (UInt16.ofNat (reverseBytes 2 x.toNat)).toNat
  rw [UInt16.toNat_ofNat_of_lt' (reverseBytes_lt 2 _), toNat_bswap16_u16, exchange16]
  simp [reverseBytes, bytesLE, ofBytesLE]
  omega

theorem bswap32_eq (x : UInt32) : bswap32 x = Codec.u32.swap x := by
  apply UInt32.toNat_inj.mp
  show _ = (UInt32.ofNat (reverseBytes 4 x.toNat)).toNat
  rw [UInt32.toNat_ofNat_of_lt' (reverseBytes_lt 4 _), toNat_bswap32_u32, exchange32,
    exchange16, exchange16]
  simp only [reverseBytes, bytesLE, List.reverse_cons, List.reverse_nil, List.nil_append,
    List.cons_append, ofBytesLE, toNat_ofNat_mod, Nat.div_div_eq_div_mul, Nat.reduceMul,
    Nat.reducePow]
  ring

theorem bswap64_eq (x : UInt64) : bswap64 x = Codec.u64.swap x := by
  apply UInt64.toNat_inj.mp
  show _ = (UInt64.ofNat (reverseBytes 8 x.toNat)).toNat
  rw [UInt64.toNat_ofNat_of_lt' (reverseBytes_lt 8 _), toNat_bswap64_u64, exchange32,
    exchange32, exchange16, exchange16, exchange16, exchange16]
  simp only [reverseBytes, bytesLE, List.reverse_cons, List.reverse_nil, List.nil_append,
    List.cons_append, ofBytesLE, toNat_ofNat_mod, Nat.div_div_eq_div_mul, Nat.reduceMul,
    Nat.reducePow]
  ring

/-- Under the mask of a byte it does not matter whether a shift keeps the sign. -/
private theorem sshiftRight_and_255 (x : BitVec 32) {n : ℕ} (hn : n ≤ 24) :
    x.sshiftRight n &&& 255#32 = x >>> n &&& 255#32 := by
  have hmask : 255#32 = (BitVec.allOnes 8).setWidth 32 := by decide
  ext i hi
  rw [hmask]
  simp only [BitVec.getElem_and, BitVec.getElem_sshiftRight, BitVec.getElem_ushiftRight,
    BitVec.getElem_setWidth, BitVec.getLsbD_allOnes]
  by_cases hlow : i < 8
  · have hin : n + i < 32 := by omega
    simp [hin]
  · simp [hlow]

private theorem toBitVec_bswap32_i32 (x : Int32) :
    (bswap32 x).toBitVec = (bswap32 x.toUInt32).toBitVec := by
  have h8 : (Int32.toBitVec 8).smod 32 = 8#32 := by decide
  have h16 : (Int32.toBitVec 16).smod 32 = 16#32 := by decide
  have h8' : (UInt32.toBitVec 8) % 32 = 8#32 := by decide
  have h16' : (UInt32.toBitVec 16) % 32 = 16#32 := by decide
  have h255 : Int32.toBitVec 255 = 255#32 := by decide
  have h255' : UInt32.toBitVec 255 = 255#32 := by decide
  simp only [bswap32, bswap16, bswap8, Int32.toBitVec_or, Int32.toBitVec_and,
    Int32.toBitVec_shiftLeft, Int32.toBitVec_shiftRight, UInt32.toBitVec_or,
    UInt32.toBitVec_and, UInt32.toBitVec_shiftLeft, UInt32.toBitVec_shiftRight,
    Int32.toBitVec_toUInt32, h8, h16, h8', h16', h255, h255', BitVec.sshiftRight_eq']
  simp [sshiftRight_and_255, ← BitVec.sshiftRight_add, ← BitVec.shiftRight_add]

/-- The macro at `int`, whose right shifts keep the sign. -/
theorem bswap32_i32_eq (x : Int32) : bswap32 x = Codec.i32.swap x := by
  apply Int32.toBitVec_inj.mp
  rw [toBitVec_bswap32_i32, bswap32_eq]
  rfl

@[simp] theorem bswap16_bswap16 (x : UInt16) : bswap16 (bswap16 x) = x := by
  rw [bswap16_eq, bswap16_eq, Codec.u16_swap_swap]

@[simp] theorem bswap32_bswap32 (x : UInt32) : bswap32 (bswap32 x) = x := by
  rw [bswap32_eq, bswap32_eq, Codec.u32_swap_swap]

@[simp] theorem bswap64_bswap64 (x : UInt64) : bswap64 (bswap64 x) = x := by
  rw [bswap64_eq, bswap64_eq, Codec.u64_swap_swap]

@[simp] theorem bswap32_bswap32_i32 (x : Int32) : bswap32 (bswap32 x) = x := by
  rw [bswap32_i32_eq, bswap32_i32_eq, Codec.i32_swap_swap]

end Uperf
