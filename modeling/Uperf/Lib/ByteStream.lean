import Mathlib.Algebra.Order.Ring.Int
import Mathlib.Data.List.Basic

/-!
# Byte streams with short reads and short writes

A `Kernel` decides what each `read` or `write` call on a descriptor returns: any
number up to what was asked for, zero, or an error.  `Writer` and `Reader` are
the two ends of a stream, each with the number of calls made on it, so that the
kernel may answer every call differently.
-/

namespace Uperf.Lib

/-- The values returned by the successive calls on a descriptor, given the
number of the call and of the bytes asked for. -/
structure Kernel where
  ret : ℕ → ℕ → Int
  ret_le : ∀ call n, ret call n ≤ n

/-- Every call makes progress. -/
def Kernel.Positive (k : Kernel) : Prop := ∀ call n, 0 < n → 0 < k.ret call n

/-- The kernel that serves every call whole. -/
def Kernel.full : Kernel := ⟨fun _ n => n, fun _ _ => le_refl _⟩

theorem Kernel.full_positive : Kernel.full.Positive := fun _ _ hn => Int.natCast_pos.mpr hn

/-- The sending end: what the stream has taken so far. -/
structure Writer where
  calls : ℕ := 0
  sent : List UInt8 := []

/-- The receiving end: what has not been read yet. -/
structure Reader where
  calls : ℕ := 0
  stream : List UInt8 := []

/-- One `write` call. -/
def Kernel.write (k : Kernel) (bytes : List UInt8) (w : Writer) : Int × Writer :=
  let n := k.ret w.calls bytes.length
  (n, ⟨w.calls + 1, w.sent ++ bytes.take n.toNat⟩)

/-- One `read` call for at most `size` bytes; at the end of the stream it
returns no more than zero. -/
def Kernel.read (k : Kernel) (size : ℕ) (r : Reader) : Int × List UInt8 × Reader :=
  let n := min (k.ret r.calls size) r.stream.length
  (n, r.stream.take n.toNat, ⟨r.calls + 1, r.stream.drop n.toNat⟩)

/-- The stream holds what it held before, and more. -/
def Writer.Extends (w w' : Writer) : Prop := ∃ more, w'.sent = w.sent ++ more

theorem Writer.Extends.trans {w w' w'' : Writer} (h : w.Extends w') (h' : w'.Extends w'') :
    w.Extends w'' := by
  obtain ⟨more, hmore⟩ := h
  obtain ⟨more', hmore'⟩ := h'
  exact ⟨more ++ more', by rw [hmore', hmore, List.append_assoc]⟩

variable {k : Kernel}

theorem Kernel.write_fst_le (bytes : List UInt8) (w : Writer) :
    (k.write bytes w).1 ≤ bytes.length :=
  k.ret_le _ _

theorem Kernel.write_sent (bytes : List UInt8) (w : Writer) :
    (k.write bytes w).2.sent = w.sent ++ bytes.take (k.write bytes w).1.toNat := rfl

theorem Kernel.Positive.write (hk : k.Positive) {bytes : List UInt8} (hbytes : bytes ≠ [])
    (w : Writer) : 0 < (k.write bytes w).1 :=
  hk _ _ (List.length_pos_iff.mpr hbytes)

theorem Kernel.read_fst_le (size : ℕ) (r : Reader) : (k.read size r).1 ≤ size :=
  (min_le_left _ _).trans (k.ret_le _ _)

theorem Kernel.read_fst_le_length (size : ℕ) (r : Reader) :
    (k.read size r).1 ≤ r.stream.length :=
  min_le_right _ _

theorem Kernel.read_bytes (size : ℕ) (r : Reader) :
    (k.read size r).2.1 = r.stream.take (k.read size r).1.toNat := rfl

theorem Kernel.read_stream (size : ℕ) (r : Reader) :
    (k.read size r).2.2.stream = r.stream.drop (k.read size r).1.toNat := rfl

theorem Kernel.Positive.read (hk : k.Positive) {size : ℕ} (hsize : 0 < size) {r : Reader}
    (hstream : r.stream ≠ []) : 0 < (k.read size r).1 :=
  lt_min (hk _ _ hsize) (Int.natCast_pos.mpr (List.length_pos_iff.mpr hstream))

end Uperf.Lib
