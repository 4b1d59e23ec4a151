import Uperf.Logging

/-!
# The log in a goodbye

A slave sends the messages of its log in its goodbye.  `uperf_log_flush_to_string` prints
them into a buffer, one behind the other: `snprintf` cuts off what does not fit, and `strlen`
tells where the next one goes.

Once the buffer is full that place is its last byte, which is the terminator, and there is
still room for one byte.  So the buffer always holds as much of the text as fits, and zeros
behind it (`Printed`), and all the places are inside of it (`fits_uperfLogFlushToString`).
-/

namespace Uperf

open Lib

/-- The string that begins an array. -/
def cString (bytes : List UInt8) : List UInt8 := bytes.takeWhile (· ≠ 0)

/-! ## The functions -/

/-- `strlen`; without a result there is no terminator in the array. -/
def strlen (bytes : List UInt8) : Option ℕ :=
  if 0 ∈ bytes then some (cString bytes).length else none

/-- `snprintf (&buffer[index], n, ...)`, given the text that the format and its arguments
make; without a result it writes outside of the buffer. -/
def snprintfAt (buffer : List UInt8) (index : Int32) (n : UInt64) (text : List UInt8) :
    Option (List UInt8) :=
  if n = 0 then some buffer
  else
    let out := text.take (n.toNat - 1) ++ [0]
    let start := index.toInt.toNat
    if 0 ≤ index ∧ start + out.length ≤ buffer.length then
      some (buffer.take start ++ out ++ buffer.drop (start + out.length))
    else none

/-- The buffer and `index`, with the values of `index` at the calls of `snprintf` so far. -/
structure Flushing where
  buffer : List UInt8
  index : Int32 := 0
  positions : List Int32 := []
deriving DecidableEq

/-- A call of `snprintf`, and of `strlen` after it. -/
def printAt (size : Int32) (text : List UInt8) (st : Flushing) : Option Flushing := do
  let buffer ← snprintfAt st.buffer st.index (size - st.index).toInt64.toUInt64 text
  let index ← strlen buffer
  some { buffer := buffer, index := .ofNat index, positions := st.positions ++ [st.index] }

section

variable (strerror : Int32 → List UInt8)

/-- `e`. -/
def errorText (m : ErrStr) : List UInt8 :=
  if m.myerrno = 0 then str " " else cString (strerror m.myerrno)

/-- The body of the loop of `uperf_log_flush_to_string`. -/
def flushEntry (size : Int32) (st : Flushing) (m : ErrStr) : Option Flushing :=
  let e := errorText strerror m
  if (cString m.str).length = 0 then some st
  else if m.count > 2 then
    let t := if m.type = .warn then str "Warnings" else str "Errors"
    printAt size
      (printInt m.count ++ str " " ++ t ++ str "  " ++ cString m.str ++ str " " ++ e ++ str "\n") st
  else do
    let st ← printAt size (if m.type = .warn then str "Warning: " else str " ") st
    printAt size (cString m.str ++ str " " ++ e ++ str "\n") st

/-- `uperf_log_flush_to_string`. -/
def uperfLogFlushToString (msg : List ErrStr) (size : Int32) (buffer : List UInt8) :
    Option Flushing :=
  run (flushEntry strerror size) { buffer := buffer } msg

/-- The text of an entry. -/
def entryText (m : ErrStr) : List UInt8 :=
  let e := errorText strerror m
  if cString m.str = [] then []
  else if m.count > 2 then
    let t := if m.type = .warn then str "Warnings" else str "Errors"
    printInt m.count ++ str " " ++ t ++ str "  " ++ cString m.str ++ str " " ++ e ++ str "\n"
  else
    (if m.type = .warn then str "Warning: " else str " ") ++
      (cString m.str ++ str " " ++ e ++ str "\n")

end

/-- The place is in a buffer of that size, and what is left of it is a positive `int`. -/
def InBuffer (size index : Int32) : Prop := 0 ≤ index ∧ index < size ∧ 0 < size - index

/-- As much of a text as fits a buffer, beside the terminator. -/
def fitting (size : Int32) (text : List UInt8) : List UInt8 := text.take (size.toInt.toNat - 1)

/-- A buffer with a string in it and zeros behind that. -/
def zeroFilled (size : Int32) (string : List UInt8) : List UInt8 :=
  string ++ List.replicate (size.toInt.toNat - string.length) 0

/-- The buffer holds as much of the text as fits, and all the places were in it. -/
structure Flushing.Printed (size : Int32) (text : List UInt8) (st : Flushing) : Prop where
  buffer : st.buffer = zeroFilled size (fitting size text)
  index : st.index.toInt = (fitting size text).length
  positions : ∀ p ∈ st.positions, InBuffer size p

section

variable {strerror : Int32 → List UInt8} {size index : Int32} {done text string : List UInt8}
  {st : Flushing} {m : ErrStr}

/-! ## What fits -/

theorem length_fitting_lt (hsize : 1 ≤ size) (text : List UInt8) :
    (fitting size text).length < size.toInt.toNat := by
  have hpos := Int32.le_iff_toInt_le.mp hsize
  have hone : (1 : Int32).toInt = 1 := rfl
  have hlength := List.length_take_le (size.toInt.toNat - 1) text
  rw [fitting]
  omega

/-- A text is cut off at the same place, whether it comes in one piece or in two. -/
theorem fitting_append (size : Int32) (done text : List UInt8) :
    fitting size (done ++ text) =
      fitting size done ++ text.take (size.toInt.toNat - 1 - (fitting size done).length) := by
  rw [fitting, fitting, List.take_append, List.length_take]
  congr 2
  omega

theorem ne_zero_of_mem_fitting (size : Int32) (hdone : ∀ byte ∈ done, byte ≠ 0) :
    ∀ byte ∈ fitting size done, byte ≠ 0 :=
  fun byte hbyte => hdone byte (List.mem_of_mem_take hbyte)

/-- The place behind a string that fits is in the buffer. -/
theorem inBuffer_of_length (hindex : index.toInt = string.length)
    (hfits : string.length < size.toInt.toNat) : InBuffer size index := by
  have hzero : (0 : Int32).toInt = 0 := rfl
  have hrest : (size - index).toInt = size.toInt - index.toInt := by
    have hlow := Int32.le_toInt size
    have hhigh := Int32.toInt_lt size
    rw [Int32.toInt_sub, Int.bmod_eq_of_le] <;> omega
  refine ⟨?_, ?_, ?_⟩
  · rw [Int32.le_iff_toInt_le]
    omega
  · rw [Int32.lt_iff_toInt_lt]
    omega
  · rw [Int32.lt_iff_toInt_lt, hrest]
    omega

/-- The size that `snprintf` is given there. -/
theorem toNat_room (hindex : index.toInt = string.length)
    (hfits : string.length < size.toInt.toNat) :
    (size - index).toInt64.toUInt64.toNat = size.toInt.toNat - string.length := by
  have hlow := Int32.le_toInt size
  have hhigh := Int32.toInt_lt size
  have hrest : (size - index).toInt = (size.toInt.toNat - string.length : ℕ) := by
    rw [Int32.toInt_sub, Int.bmod_eq_of_le] <;> omega
  exact toNat_toUInt64 ((Int32.toInt_toInt64 _).trans hrest)

/-! ## One call -/

/-- In the room that is left, `snprintf` prints as much of the text as fits. -/
theorem snprintfAt_zeroFilled (hindex : index.toInt = string.length)
    (hfits : string.length < size.toInt.toNat) (text : List UInt8) :
    snprintfAt (zeroFilled size string) index (size - index).toInt64.toUInt64 text =
      some (zeroFilled size
        (string ++ text.take (size.toInt.toNat - 1 - string.length))) := by
  have hn := toNat_room hindex hfits
  have hsome : (size - index).toInt64.toUInt64 ≠ 0 := by
    intro hzero
    rw [hzero] at hn
    have hno : (0 : UInt64).toNat = 0 := rfl
    omega
  have hstart : index.toInt.toNat = string.length := by
    rw [hindex, Int.toNat_natCast]
  have hroom : size.toInt.toNat - string.length - 1 = size.toInt.toNat - 1 - string.length := by
    omega
  have hout := List.length_take_le (size.toInt.toNat - 1 - string.length) text
  have hinside : 0 ≤ index ∧ string.length +
      (text.take (size.toInt.toNat - 1 - string.length) ++ [0]).length ≤
        (zeroFilled size string).length := by
    refine ⟨(inBuffer_of_length hindex hfits).1, ?_⟩
    simp only [zeroFilled, List.length_append, List.length_replicate, List.length_singleton]
    omega
  unfold snprintfAt
  simp only
  rw [if_neg hsome, hstart, hn, hroom, if_pos hinside]
  -- behind the new terminator there are only zeros, as there were before
  congr 1
  rw [zeroFilled, zeroFilled, List.take_left, List.drop_append, List.drop_of_length_le (by omega),
    List.nil_append, List.append_assoc, List.append_assoc, List.append_assoc,
    List.singleton_append, List.drop_replicate, ← List.replicate_succ]
  congr 3
  simp only [List.length_append, List.length_singleton]
  omega

theorem strlen_zeroFilled (hstring : ∀ byte ∈ string, byte ≠ 0)
    (hfits : string.length < size.toInt.toNat) :
    strlen (zeroFilled size string) = some string.length ∧
      cString (zeroFilled size string) = string := by
  have hcstring : cString (zeroFilled size string) = string := by
    rw [cString, zeroFilled, takeWhile_append_zeros, List.takeWhile_eq_self_iff]
    simpa using hstring
  have hmem : 0 ∈ zeroFilled size string := by
    refine List.mem_append_right _ (List.mem_replicate.mpr ⟨?_, rfl⟩)
    omega
  refine ⟨?_, hcstring⟩
  rw [strlen, if_pos hmem, hcstring]

/-- A text is printed behind the others. -/
theorem Flushing.Printed.printAt (h : st.Printed size done) (hsize : 1 ≤ size)
    (hdone : ∀ byte ∈ done, byte ≠ 0) (htext : ∀ byte ∈ text, byte ≠ 0) :
    ∃ st', Uperf.printAt size text st = some st' ∧ st'.Printed size (done ++ text) := by
  obtain ⟨hbuffer, hindex, hpositions⟩ := h
  have hfits := length_fitting_lt hsize done
  have hall : ∀ byte ∈ done ++ text, byte ≠ 0 := by
    simpa [or_imp, forall_and] using ⟨hdone, htext⟩
  have hlength := length_fitting_lt hsize (done ++ text)
  have hstrlen := (strlen_zeroFilled (ne_zero_of_mem_fitting size hall) hlength).1
  have hprint := snprintfAt_zeroFilled hindex hfits text
  rw [← hbuffer, ← fitting_append] at hprint
  refine ⟨{
    buffer := zeroFilled size (fitting size (done ++ text))
    index := .ofNat (fitting size (done ++ text)).length
    positions := st.positions ++ [st.index] }, ?_, rfl, ?_, ?_⟩
  · rw [Uperf.printAt, hprint, Option.bind_eq_bind, Option.bind_some, hstrlen]
    rfl
  · have hhigh := Int32.toInt_lt size
    exact Int32.toInt_ofNat_of_lt (by omega)
  · intro p hp
    obtain hp | hp := List.mem_append.mp hp
    · exact hpositions p hp
    · rw [List.mem_singleton.mp hp]
      exact inBuffer_of_length hindex hfits

/-! ## The entries -/

theorem cString_ne_zero (bytes : List UInt8) : ∀ byte ∈ cString bytes, byte ≠ 0 := by
  intro byte hbyte
  simpa using List.mem_takeWhile_imp hbyte

theorem printInt_ne_zero (n : Int32) : ∀ byte ∈ printInt n, byte ≠ 0 := by
  have hdecimal : ∀ byte ∈ decimal n.toInt.natAbs, byte ≠ 0 := fun byte hbyte =>
    ne_of_isDigit (isDigit_of_mem_decimal hbyte) rfl
  have hsign : ∀ byte ∈ str "-", byte ≠ 0 := ne_zero_of_all rfl
  unfold printInt
  split
  · rw [List.forall_mem_append]
    exact ⟨hsign, hdecimal⟩
  · exact hdecimal

theorem errorText_ne_zero (strerror : Int32 → List UInt8) (m : ErrStr) :
    ∀ byte ∈ errorText strerror m, byte ≠ 0 := by
  unfold errorText
  split
  · exact ne_zero_of_all rfl
  · exact cString_ne_zero _

/-- There is no terminator in what is printed. -/
theorem entryText_ne_zero (strerror : Int32 → List UInt8) (m : ErrStr) :
    ∀ byte ∈ entryText strerror m, byte ≠ 0 := by
  have hcount := printInt_ne_zero m.count
  have hstr := cString_ne_zero m.str
  have herror := errorText_ne_zero strerror m
  have hblank : ∀ byte ∈ str " ", byte ≠ 0 := ne_zero_of_all rfl
  have hnewline : ∀ byte ∈ str "\n", byte ≠ 0 := ne_zero_of_all rfl
  unfold entryText
  split
  · exact fun byte hbyte => absurd hbyte List.not_mem_nil
  · split
    · have hkind : ∀ byte ∈ if m.type = .warn then str "Warnings" else str "Errors", byte ≠ 0 := by
        split <;> exact ne_zero_of_all rfl
      have hblanks : ∀ byte ∈ str "  ", byte ≠ 0 := ne_zero_of_all rfl
      simp only [List.forall_mem_append]
      exact ⟨⟨⟨⟨⟨⟨⟨hcount, hblank⟩, hkind⟩, hblanks⟩, hstr⟩, hblank⟩, herror⟩, hnewline⟩
    · have hkind : ∀ byte ∈ if m.type = .warn then str "Warning: " else str " ", byte ≠ 0 := by
        split <;> exact ne_zero_of_all rfl
      simp only [List.forall_mem_append]
      exact ⟨hkind, ⟨⟨hstr, hblank⟩, herror⟩, hnewline⟩

/-- What a round of the loop does. -/
theorem Flushing.Printed.flushEntry (h : st.Printed size done) (hsize : 1 ≤ size)
    (hdone : ∀ byte ∈ done, byte ≠ 0) (strerror : Int32 → List UInt8) (m : ErrStr) :
    ∃ st', Uperf.flushEntry strerror size st m = some st' ∧
      st'.Printed size (done ++ entryText strerror m) := by
  have htext := entryText_ne_zero strerror m
  unfold Uperf.flushEntry
  unfold entryText at htext ⊢
  simp only [List.length_eq_zero_iff] at htext ⊢
  by_cases hempty : cString m.str = []
  · rw [if_pos hempty, if_pos hempty, List.append_nil]
    exact ⟨st, rfl, h⟩
  rw [if_neg hempty] at htext ⊢
  rw [if_neg hempty]
  by_cases hmany : m.count > 2
  · rw [if_pos hmany] at htext ⊢
    rw [if_pos hmany]
    exact h.printAt hsize hdone htext
  · rw [if_neg hmany] at htext ⊢
    rw [if_neg hmany]
    -- the second call finds the text of the first one in the buffer
    rw [List.forall_mem_append] at htext
    obtain ⟨st₁, hfirst, hprinted⟩ := h.printAt hsize hdone htext.1
    have hdone₁ := List.forall_mem_append.mpr ⟨hdone, htext.1⟩
    obtain ⟨st₂, hsecond, hall⟩ := hprinted.printAt hsize hdone₁ htext.2
    rw [List.append_assoc] at hall
    exact ⟨st₂, by rw [hfirst]; exact hsecond, hall⟩

/-- What the loop does from any round on. -/
theorem Flushing.Printed.run (h : st.Printed size done) (hsize : 1 ≤ size)
    (hdone : ∀ byte ∈ done, byte ≠ 0) (strerror : Int32 → List UInt8) (msg : List ErrStr) :
    ∃ st', Lib.run (Uperf.flushEntry strerror size) st msg = some st' ∧
      st'.Printed size (done ++ msg.flatMap (entryText strerror)) := by
  induction msg generalizing st done with
  | nil => exact ⟨st, rfl, by simpa using h⟩
  | cons m msg ih =>
      obtain ⟨st₁, hround, hprinted⟩ := h.flushEntry hsize hdone strerror m
      have hdone₁ := List.forall_mem_append.mpr ⟨hdone, entryText_ne_zero strerror m⟩
      obtain ⟨st₂, hrest, hall⟩ := ih hprinted hdone₁
      refine ⟨st₂, run_cons.mpr ⟨st₁, hround, hrest⟩, ?_⟩
      rwa [List.flatMap_cons, ← List.append_assoc]

/-- Before the first entry. -/
theorem printed_zeros (size : Int32) :
    Flushing.Printed size [] { buffer := List.replicate size.toInt.toNat 0 } := by
  constructor <;> simp [fitting, zeroFilled]

theorem flatMap_entryText_ne_zero (strerror : Int32 → List UInt8) (msg : List ErrStr) :
    ∀ byte ∈ msg.flatMap (entryText strerror), byte ≠ 0 := by
  intro byte hbyte
  obtain ⟨m, -, hm⟩ := List.mem_flatMap.mp hbyte
  exact entryText_ne_zero strerror m byte hm

end

/-- Into a buffer of zeros, `uperf_log_flush_to_string` prints at places inside of it only.
The text ends in the buffer, and is what fits of that of all entries. -/
theorem fits_uperfLogFlushToString (strerror : Int32 → List UInt8) (msg : List ErrStr)
    {size : Int32} (hsize : 1 ≤ size) :
    ∃ st, uperfLogFlushToString strerror msg size (List.replicate size.toInt.toNat 0) = some st ∧
      (∀ p ∈ st.positions, InBuffer size p) ∧ InBuffer size st.index ∧
      st.buffer.length = size.toInt.toNat ∧ 0 ∈ st.buffer ∧
      cString st.buffer <+: msg.flatMap (entryText strerror) ∧
      cString st.buffer = fitting size (msg.flatMap (entryText strerror)) := by
  obtain ⟨st, hrun, hprinted⟩ :=
    (printed_zeros size).run hsize (fun _ hbyte => absurd hbyte List.not_mem_nil) strerror msg
  rw [List.nil_append] at hprinted
  have hfits := length_fitting_lt hsize (msg.flatMap (entryText strerror))
  have hstring := ne_zero_of_mem_fitting size (flatMap_entryText_ne_zero strerror msg)
  refine ⟨st, hrun, hprinted.positions, inBuffer_of_length hprinted.index hfits, ?_⟩
  rw [hprinted.buffer, (strlen_zeroFilled hstring hfits).2]
  refine ⟨?_, ?_, List.take_prefix _ _, rfl⟩
  · rw [zeroFilled, List.length_append, List.length_replicate]
    omega
  · refine List.mem_append_right _ (List.mem_replicate.mpr ⟨?_, rfl⟩)
    omega

/-- The entries of a warning and of an error that was logged three times. -/
def twoEntries : List ErrStr := [⟨0, .warn, 1, str "slow"⟩, ⟨2, .error, 3, str "read"⟩]

/-- In a buffer of twelve bytes the first one is cut off. -/
theorem fits_twoEntries :
    ∃ st, uperfLogFlushToString (fun _ => str "No such file") twoEntries 12
        (List.replicate (12 : Int32).toInt.toNat 0) = some st ∧
      (∀ p ∈ st.positions, InBuffer 12 p) ∧ InBuffer 12 st.index ∧
      st.buffer.length = (12 : Int32).toInt.toNat ∧ 0 ∈ st.buffer ∧
      cString st.buffer <+: twoEntries.flatMap (entryText fun _ => str "No such file") ∧
      cString st.buffer =
        fitting 12 (twoEntries.flatMap (entryText fun _ => str "No such file")) :=
  fits_uperfLogFlushToString _ _ (by decide)

end Uperf
