import Uperf.Lib.Codec
import Mathlib.Data.List.TakeWhile

/-!
# Character arrays and C strings

The records of uperf hold their texts in arrays of a fixed size, and the code
compares and copies them as C strings.  `CharArray n` is a `char[n]` with all
its bytes, including those behind the terminator, because the records go over
the wire as they lie in memory; `cstr` is the string such an array holds.  The
copies are those of a build with `HAVE_STRLCPY`; without it `uperf.h` makes
`strlcpy` a `strncpy`, which leaves a text that fills its array without a
terminator.
-/

namespace Uperf

open Lib

/-- A `char[n]`. -/
structure CharArray (n : ℕ) where
  bytes : List UInt8
  length_bytes : bytes.length = n
deriving DecidableEq

/-- `MAXHOSTNAME`. -/
abbrev maxHostName : ℕ := 256

/-- An array that holds the name or the address of a host. -/
abbrev HostName := CharArray maxHostName

namespace CharArray

variable {n m : ℕ}

@[ext] theorem ext {a b : CharArray n} (h : a.bytes = b.bytes) : a = b := by
  cases a
  cases b
  congr

/-- An array of zero bytes, as `calloc` and `memset` leave it. -/
def zero (n : ℕ) : CharArray n := ⟨List.replicate n 0, by simp⟩

instance : Inhabited (CharArray n) := ⟨zero n⟩

/-- The string in the array: the bytes before the first NUL. -/
def cstr (a : CharArray n) : List UInt8 := a.bytes.takeWhile (· ≠ 0)

/-- The array holds a NUL-terminated string. -/
def Terminated (a : CharArray n) : Prop := 0 ∈ a.bytes

instance (a : CharArray n) : Decidable a.Terminated := inferInstanceAs (Decidable (0 ∈ a.bytes))

/-- `a[0] == '\0'`. -/
def isEmpty (a : CharArray n) : Bool := a.bytes.head? == some 0

/-- The first `n` bytes of a list, padded with NUL bytes. -/
def ofList (n : ℕ) (bytes : List UInt8) : CharArray n :=
  ⟨(bytes ++ List.replicate n 0).take n, by simp⟩

theorem ne_zero_of_mem_cstr {a : CharArray n} {byte : UInt8} (h : byte ∈ a.cstr) :
    byte ≠ 0 := by
  simpa using List.mem_takeWhile_imp h

theorem isEmpty_iff {a : CharArray (n + 1)} : a.isEmpty = true ↔ a.cstr = [] := by
  obtain ⟨bytes, hlen⟩ := a
  cases bytes with
  | nil => simp at hlen
  | cons byte rest => simp [isEmpty, cstr, List.takeWhile_cons]

theorem length_cstr_le (a : CharArray n) : a.cstr.length ≤ n := by
  calc a.cstr.length ≤ a.bytes.length := (List.takeWhile_prefix _).length_le
    _ = n := a.length_bytes

/-- A terminated string leaves room for its terminator. -/
theorem length_cstr_lt {a : CharArray n} (h : a.Terminated) : a.cstr.length < n := by
  refine lt_of_le_of_ne a.length_cstr_le fun hfull => ?_
  have hall : a.cstr = a.bytes :=
    (List.takeWhile_prefix _).eq_of_length (hfull.trans a.length_bytes.symm)
  have hmem : 0 ∈ a.cstr := by
    rw [hall]
    exact h
  exact ne_zero_of_mem_cstr hmem rfl

@[simp] theorem bytes_ofList (a : CharArray n) : ofList n a.bytes = a := by
  ext1
  simp [ofList, List.take_left' a.length_bytes]

/-- The image of a `char[n]`; no byte order changes it. -/
def codec (n : ℕ) : Codec (CharArray n) where
  size := n
  put _ a := a.bytes
  get _ bytes := ofList n bytes
  swap a := a
  length_put _ a := a.length_bytes
  get_put _ a := a.bytes_ofList
  get_put_of_ne a _ := a.bytes_ofList

@[simp] theorem swap_codec (a : CharArray n) : (codec n).swap a = a := rfl

end CharArray

/-- The NULs behind a text end no string that has ended before. -/
theorem takeWhile_append_zeros (bytes : List UInt8) (n : ℕ) :
    (bytes ++ List.replicate n 0).takeWhile (· ≠ 0) = bytes.takeWhile (· ≠ 0) := by
  have hzeros : (List.replicate n (0 : UInt8)).takeWhile (· ≠ 0) = [] := by
    rw [List.takeWhile_replicate]
    exact if_neg (by simp)
  rw [List.takeWhile_append, hzeros, List.append_nil]
  split
  · rename_i hfull
    exact ((List.takeWhile_prefix _).eq_of_length hfull).symm
  · rfl

theorem cstr_ofList (n : ℕ) (bytes : List UInt8) :
    (CharArray.ofList n bytes).cstr = (bytes.takeWhile (· ≠ 0)).take n := by
  rw [CharArray.cstr, CharArray.ofList, ← List.take_takeWhile, takeWhile_append_zeros]

/-- The bytes of a string literal. -/
def str (s : String) : List UInt8 := s.toUTF8.data.toList

/-! ## The string functions -/

/-- `strlcpy (dst, src, sizeof (dst))` with `HAVE_STRLCPY`: the copy is cut to fit
and always terminated, and the bytes behind it stay as they were. -/
def strlcpy {n : ℕ} (dst : CharArray (n + 1)) (src : List UInt8) : CharArray (n + 1) where
  bytes := src.take n ++ 0 :: dst.bytes.drop ((src.take n).length + 1)
  length_bytes := by
    have hfit : (src.take n).length ≤ n := List.length_take_le n src
    have hlen := dst.length_bytes
    simp only [List.length_append, List.length_cons, List.length_drop]
    omega

/-- `strcmp (a, b) == 0`. -/
def strcmpEq {n m : ℕ} (a : CharArray n) (b : CharArray m) : Bool := a.cstr == b.cstr

/-- `strncmp (a, b, len) == 0`. -/
def strncmpEq {n : ℕ} (a : CharArray n) (b : List UInt8) (len : ℕ) : Bool :=
  a.cstr.take len == b.take len

/-- `tolower` in the C locale. -/
def tolower (byte : UInt8) : UInt8 :=
  if 65 ≤ byte ∧ byte ≤ 90 then byte + 32 else byte

/-- `strncasecmp (a, b, len) == 0`. -/
def strncasecmpEq {n m : ℕ} (a : CharArray n) (b : CharArray m) (len : ℕ) : Bool :=
  (a.cstr.map tolower).take len == (b.cstr.map tolower).take len

section

variable {n m : ℕ} {a : CharArray n} {b : CharArray m}

@[simp] theorem strcmpEq_iff : strcmpEq a b = true ↔ a.cstr = b.cstr := by
  simp [strcmpEq]

/-- Over whole arrays the length limit of `strncasecmp` has no effect. -/
theorem strncasecmpEq_iff {a b : CharArray n} :
    strncasecmpEq a b n = true ↔ a.cstr.map tolower = b.cstr.map tolower := by
  have ha : (a.cstr.map tolower).length ≤ n := by simpa using a.length_cstr_le
  have hb : (b.cstr.map tolower).length ≤ n := by simpa using b.length_cstr_le
  simp [strncasecmpEq, List.take_of_length_le ha, List.take_of_length_le hb]

theorem cstr_append_zero {front rest : List UInt8} (hfront : ∀ byte ∈ front, byte ≠ 0) :
    (front ++ 0 :: rest).takeWhile (· ≠ 0) = front := by
  have hall : ∀ byte ∈ front, decide (byte ≠ 0) = true := by simpa using hfront
  rw [List.takeWhile_append_of_pos hall]
  simp

theorem ne_zero_of_all {src : List UInt8} (hall : src.all (fun byte => byte != 0) = true) :
    ∀ byte ∈ src, byte ≠ 0 := by
  simpa using hall

/-- What `strlcpy` copies. -/
theorem cstr_strlcpy (dst : CharArray (n + 1)) {src : List UInt8}
    (hsrc : ∀ byte ∈ src, byte ≠ 0) : (strlcpy dst src).cstr = src.take n :=
  cstr_append_zero fun byte hbyte => hsrc byte (List.mem_of_mem_take hbyte)

theorem terminated_strlcpy (dst : CharArray (n + 1)) (src : List UInt8) :
    (strlcpy dst src).Terminated := by
  simp [CharArray.Terminated, strlcpy]

/-- A terminated string of the same array size is copied whole. -/
theorem cstr_strlcpy_cstr (dst : CharArray (n + 1)) {src : CharArray (n + 1)}
    (hsrc : src.Terminated) : (strlcpy dst src.cstr).cstr = src.cstr := by
  rw [cstr_strlcpy dst fun _ => CharArray.ne_zero_of_mem_cstr]
  exact List.take_of_length_le (Nat.le_of_lt_succ (CharArray.length_cstr_lt hsrc))

@[simp] theorem CharArray.terminated_zero : (CharArray.zero (n + 1)).Terminated := by
  simp [CharArray.Terminated, CharArray.zero]

@[simp] theorem CharArray.terminated_default : (default : CharArray (n + 1)).Terminated :=
  CharArray.terminated_zero

end

/-- `strlcpy` from a string that fits, for instance one given as bytes. -/
def HostName.ofBytes (name : List UInt8) : HostName := strlcpy (CharArray.zero _) name

@[simp] theorem HostName.terminated_ofBytes (name : List UInt8) :
    (HostName.ofBytes name).Terminated :=
  terminated_strlcpy _ _

end Uperf
