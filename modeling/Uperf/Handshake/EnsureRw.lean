import Uperf.Lib.ByteStream
import Uperf.Lib.Codec

/-!
# `ensure_read` and `ensure_write`

Both loops of `common.c` repeat the system call until the whole buffer is
through or a call returns no more than zero.  The callers treat a result of no
more than zero as a failure, also where it only says that the buffer is empty;
`tryWrite`, `tryRead` and `rxRecord` are the calls with that test.
-/

namespace Uperf

open Lib

variable {k : Kernel}

/-- The loop of `ensure_write`, with the local variable `sz`. -/
def ensureWriteLoop (k : Kernel) (buffer : List UInt8) (sz : ℕ) (w : Writer) : Int × Writer :=
  if sz < buffer.length then
    let n := (k.write (buffer.drop sz) w).1
    let w := (k.write (buffer.drop sz) w).2
    if n ≤ 0 then (n, w) else ensureWriteLoop k buffer (sz + n.toNat) w
  else (sz, w)
termination_by buffer.length - sz

/-- `ensure_write`. -/
def ensureWrite (k : Kernel) (buffer : List UInt8) (w : Writer) : Int × Writer :=
  ensureWriteLoop k buffer 0 w

/-- The loop of `ensure_read`; `buffer` holds the first `sz` bytes. -/
def ensureReadLoop (k : Kernel) (size : ℕ) (sz : ℕ) (buffer : List UInt8) (r : Reader) :
    Int × List UInt8 × Reader :=
  if sz < size then
    let n := (k.read (size - sz) r).1
    let bytes := (k.read (size - sz) r).2.1
    let r := (k.read (size - sz) r).2.2
    if n ≤ 0 then (n, buffer, r) else ensureReadLoop k size (sz + n.toNat) (buffer ++ bytes) r
  else (sz, buffer, r)
termination_by size - sz

/-- `ensure_read`. -/
def ensureRead (k : Kernel) (size : ℕ) (r : Reader) : Int × List UInt8 × Reader :=
  ensureReadLoop k size 0 [] r

/-- `ensure_write (p, buffer, size) <= 0` is a failure. -/
def tryWrite (k : Kernel) (buffer : List UInt8) (w : Writer) : Option Writer :=
  if (ensureWrite k buffer w).1 ≤ 0 then none else some (ensureWrite k buffer w).2

/-- `ensure_read (p, buffer, size) <= 0` is a failure. -/
def tryRead (k : Kernel) (size : ℕ) (r : Reader) : Option (List UInt8 × Reader) :=
  if (ensureRead k size r).1 ≤ 0 then none else some (ensureRead k size r).2

/-- Reading one record. -/
def rxRecord {α : Type} (k : Kernel) (codec : Codec α) (e : Endian) (r : Reader) :
    Option (α × Reader) := do
  let (bytes, r) ← tryRead k codec.size r
  some (codec.get e bytes, r)

/-- Reading `n` items, each by `rx`. -/
def rxMany {α : Type} (rx : Reader → Option (α × Reader)) : ℕ → Reader → Option (List α × Reader)
  | 0, r => some ([], r)
  | n + 1, r => do
      let (item, r) ← rx r
      let (items, r) ← rxMany rx n r
      some (item :: items, r)

/-! ## What a successful read returns -/

theorem ensureReadLoop_eq {size sz : ℕ} {buffer : List UInt8} {r : Reader} {n : ℤ}
    {bytes : List UInt8} {r' : Reader} (hsz : sz ≤ size)
    (hloop : ensureReadLoop k size sz buffer r = (n, bytes, r')) (hn : 0 < n) :
    ∃ got, bytes = buffer ++ got ∧ got.length = size - sz ∧ r.stream = got ++ r'.stream := by
  fun_induction ensureReadLoop k size sz buffer r with
  | case1 sz buffer r hlt m r'' hm =>
      have hmn : m = n := congrArg Prod.fst hloop
      omega
  | case2 sz buffer r hlt m piece r'' hm ih =>
      have hle : m ≤ (size - sz : ℕ) := k.read_fst_le _ _
      have havail : m ≤ r.stream.length := k.read_fst_le_length _ _
      obtain ⟨got, hbytes, hlen, hstream⟩ := ih (by omega) hloop
      have hpiece : piece = r.stream.take m.toNat := k.read_bytes _ _
      have hdrop : r''.stream = r.stream.drop m.toNat := k.read_stream _ _
      refine ⟨piece ++ got, by rw [hbytes, List.append_assoc], ?_, ?_⟩
      · rw [List.length_append, hlen, hpiece, List.length_take]
        omega
      · rw [List.append_assoc, ← hstream, hpiece, hdrop, List.take_append_drop]
  | case3 sz buffer r hge =>
      cases hloop
      exact ⟨[], by simp, by simp; omega, by simp⟩

/-- A successful read takes exactly the bytes asked for off the stream. -/
theorem tryRead_eq_some {size : ℕ} {r r' : Reader} {bytes : List UInt8}
    (hread : tryRead k size r = some (bytes, r')) :
    0 < size ∧ bytes.length = size ∧ r.stream = bytes ++ r'.stream := by
  unfold tryRead at hread
  split at hread
  · cases hread
  · rename_i hpos
    have hresult : ensureReadLoop k size 0 [] r = ((ensureRead k size r).1, bytes, r') :=
      Prod.ext rfl (Option.some_inj.mp hread)
    obtain ⟨got, rfl, hlen, hstream⟩ :=
      ensureReadLoop_eq (Nat.zero_le _) hresult (Int.not_le.mp hpos)
    refine ⟨Nat.pos_of_ne_zero fun hzero => hpos ?_, by simpa using hlen, by simpa using hstream⟩
    subst hzero
    simp [ensureRead, ensureReadLoop]

theorem rxRecord_stream_lt {α : Type} {codec : Codec α} {e : Endian} {r r' : Reader} {a : α}
    (hread : rxRecord k codec e r = some (a, r')) : r'.stream.length < r.stream.length := by
  obtain ⟨⟨bytes, r''⟩, htry, hget⟩ := Option.bind_eq_some_iff.mp hread
  cases hget
  obtain ⟨hpos, hlen, hstream⟩ := tryRead_eq_some htry
  rw [hstream, List.length_append]
  omega

theorem rxRecord_nil {α : Type} (codec : Codec α) (e : Endian) (calls : ℕ) :
    rxRecord k codec e ⟨calls, []⟩ = none := by
  cases hread : rxRecord k codec e ⟨calls, []⟩ with
  | none => rfl
  | some result => exact absurd (rxRecord_stream_lt hread) (Nat.not_lt_zero _)

/-- A record that is read is the next one on the stream. -/
theorem rxRecord_put_eq_some {α : Type} {codec : Codec α} {e e' : Endian} {a b : α}
    {rest : List UInt8} {r r' : Reader} (hstream : r.stream = codec.put e a ++ rest)
    (hread : rxRecord k codec e' r = some (b, r')) : b = codec.seen e e' a := by
  obtain ⟨⟨bytes, r''⟩, htry, hget⟩ := Option.bind_eq_some_iff.mp hread
  cases hget
  obtain ⟨-, hlen, hbytes⟩ := tryRead_eq_some htry
  have hsame : bytes = codec.put e a := by
    apply List.append_inj_left (hbytes.symm.trans hstream)
    rw [hlen, codec.length_put]
  rw [hsame]
  rfl

/-! ## What a write leaves on the stream -/

/-- A write that succeeds has sent the whole buffer. -/
theorem ensureWriteLoop_eq {buffer : List UInt8} {sz : ℕ} {w w' : Writer} {n : ℤ}
    (hsz : sz ≤ buffer.length) (hloop : ensureWriteLoop k buffer sz w = (n, w')) (hn : 0 < n) :
    w'.sent = w.sent ++ buffer.drop sz := by
  fun_induction ensureWriteLoop k buffer sz w with
  | case1 sz w hlt m w'' hm =>
      have hmn : m = n := congrArg Prod.fst hloop
      omega
  | case2 sz w hlt m w'' hm ih =>
      have hle : m ≤ (buffer.drop sz).length := k.write_fst_le _ _
      have hpiece : w''.sent = w.sent ++ (buffer.drop sz).take m.toNat := k.write_sent _ _
      rw [List.length_drop] at hle
      rw [ih (by omega) hloop, hpiece, List.append_assoc, ← List.drop_drop,
        List.take_append_drop]
  | case3 sz w hge =>
      cases hloop
      rw [List.drop_eq_nil_of_le (by omega), List.append_nil]

theorem tryWrite_eq_some {buffer : List UInt8} {w w' : Writer}
    (hwrite : tryWrite k buffer w = some w') : w'.sent = w.sent ++ buffer := by
  unfold tryWrite at hwrite
  split at hwrite
  · cases hwrite
  · rename_i hpos
    cases hwrite
    exact ensureWriteLoop_eq (Nat.zero_le _) rfl (Int.not_le.mp hpos)

theorem extends_tryWrite {buffer : List UInt8} {w w' : Writer}
    (hwrite : tryWrite k buffer w = some w') : w.Extends w' :=
  ⟨buffer, tryWrite_eq_some hwrite⟩

/-- A write that fails leaves a part of the buffer on the stream. -/
theorem ensureWriteLoop_prefix (k : Kernel) (buffer : List UInt8) (sz : ℕ) (w : Writer)
    (hsz : sz ≤ buffer.length) :
    ∃ n, (ensureWriteLoop k buffer sz w).2.sent = w.sent ++ (buffer.drop sz).take n := by
  fun_induction ensureWriteLoop k buffer sz w with
  | case1 sz w hlt m w' hm => exact ⟨m.toNat, k.write_sent _ _⟩
  | case2 sz w hlt m w' hm ih =>
      have hle : m ≤ (buffer.drop sz).length := k.write_fst_le _ _
      have hpiece : w'.sent = w.sent ++ (buffer.drop sz).take m.toNat := k.write_sent _ _
      rw [List.length_drop] at hle
      obtain ⟨n, hn⟩ := ih (by omega)
      refine ⟨m.toNat + n, ?_⟩
      rw [hn, hpiece, List.append_assoc, List.take_add, List.drop_drop]
  | case3 sz w hge => exact ⟨0, by simp⟩

/-! ## Nothing is lost under positive short calls -/

theorem ensureWriteLoop_positive (hk : k.Positive) (buffer : List UInt8) (sz : ℕ) (w : Writer)
    (hsz : sz ≤ buffer.length) : ∃ w',
    ensureWriteLoop k buffer sz w = ((buffer.length : ℤ), w') ∧
      w'.sent = w.sent ++ buffer.drop sz := by
  fun_induction ensureWriteLoop k buffer sz w with
  | case1 sz w hlt n w' hn =>
      have hne : buffer.drop sz ≠ [] := by simpa using hlt
      exact absurd (hk.write hne w) (Int.not_lt.mpr hn)
  | case2 sz w hlt n w' hn ih =>
      have hle : n ≤ (buffer.drop sz).length := k.write_fst_le _ _
      rw [List.length_drop] at hle
      obtain ⟨w'', hloop, hsent⟩ := ih (by omega)
      refine ⟨w'', hloop, ?_⟩
      rw [hsent, k.write_sent, List.append_assoc, ← List.drop_drop, List.take_append_drop]
  | case3 sz w hge =>
      have heq : sz = buffer.length := by omega
      subst heq
      exact ⟨w, rfl, by simp⟩

theorem ensureReadLoop_positive (hk : k.Positive) (size sz : ℕ) (buffer : List UInt8)
    (r : Reader) (hsz : sz ≤ size) (hstream : size - sz ≤ r.stream.length) : ∃ r',
    ensureReadLoop k size sz buffer r = ((size : ℤ), buffer ++ r.stream.take (size - sz), r') ∧
      r'.stream = r.stream.drop (size - sz) := by
  fun_induction ensureReadLoop k size sz buffer r with
  | case1 sz buffer r hlt n r' hn =>
      have hne : r.stream ≠ [] := List.ne_nil_of_length_pos (by omega)
      exact absurd (hk.read (by omega) hne) (Int.not_lt.mpr hn)
  | case2 sz buffer r hlt n bytes r' hn ih =>
      have hle : n ≤ (size - sz : ℕ) := k.read_fst_le _ _
      have hrest : r'.stream = r.stream.drop n.toNat := k.read_stream _ _
      have hbytes : bytes = r.stream.take n.toNat := k.read_bytes _ _
      have hsplit : size - sz = n.toNat + (size - (sz + n.toNat)) := by omega
      obtain ⟨r'', hloop, hdrop⟩ := ih (by omega) (by rw [hrest, List.length_drop]; omega)
      refine ⟨r'', ?_, ?_⟩
      · rw [hloop, hrest, hbytes, hsplit, List.take_add, List.append_assoc]
      · rw [hdrop, hrest, hsplit, List.drop_drop]
  | case3 sz buffer r hge =>
      have heq : sz = size := by omega
      subst heq
      exact ⟨r, by simp, by simp⟩

theorem ensureWrite_positive (hk : k.Positive) (buffer : List UInt8) (w : Writer) : ∃ w',
    ensureWrite k buffer w = ((buffer.length : ℤ), w') ∧ w'.sent = w.sent ++ buffer :=
  ensureWriteLoop_positive hk buffer 0 w (Nat.zero_le _)

/-- A buffer goes out whole, whatever the writes return. -/
theorem tryWrite_positive (hk : k.Positive) {buffer : List UInt8} (hbuffer : buffer ≠ [])
    (w : Writer) : ∃ w', tryWrite k buffer w = some w' ∧ w'.sent = w.sent ++ buffer := by
  obtain ⟨w', hwrite, hsent⟩ := ensureWrite_positive hk buffer w
  have hlen := List.length_pos_iff.mpr hbuffer
  refine ⟨w', ?_, hsent⟩
  rw [tryWrite, hwrite, if_neg (by omega)]

/-- A buffer comes in whole, whatever the reads return. -/
theorem tryRead_positive (hk : k.Positive) {bytes rest : List UInt8} (hbytes : bytes ≠ [])
    {r : Reader} (hstream : r.stream = bytes ++ rest) : ∃ r',
    tryRead k bytes.length r = some (bytes, r') ∧ r'.stream = rest := by
  obtain ⟨r', hloop, hdrop⟩ := ensureReadLoop_positive hk bytes.length 0 [] r (Nat.zero_le _)
    (by simp [hstream])
  have hlen := List.length_pos_iff.mpr hbytes
  refine ⟨r', ?_, by simpa [hstream] using hdrop⟩
  rw [tryRead, ensureRead, hloop, if_neg (by omega)]
  simp [hstream]

/-- A record written on a machine of order `e` and read on one of order `e'`. -/
theorem rxRecord_put {α : Type} (hk : k.Positive) (codec : Codec α) (hsize : 0 < codec.size)
    (e e' : Endian) (a : α) {rest : List UInt8} {r : Reader}
    (hstream : r.stream = codec.put e a ++ rest) : ∃ r',
    rxRecord k codec e' r = some (codec.get e' (codec.put e a), r') ∧ r'.stream = rest := by
  have hne : codec.put e a ≠ [] :=
    List.ne_nil_of_length_pos (by rw [codec.length_put]; exact hsize)
  obtain ⟨r', hread, hrest⟩ := tryRead_positive hk hne hstream
  rw [codec.length_put] at hread
  exact ⟨r', by rw [rxRecord, hread]; rfl, hrest⟩

/-- Items written one after the other come back in the same order. -/
theorem rxMany_flatMap {α β : Type} {rx : Reader → Option (α × Reader)} {image : β → List UInt8}
    {view : β → α} (items : List β)
    (hrx : ∀ item ∈ items, ∀ r rest, r.stream = image item ++ rest →
      ∃ r', rx r = some (view item, r') ∧ r'.stream = rest)
    {rest : List UInt8} {r : Reader} (hstream : r.stream = items.flatMap image ++ rest) : ∃ r',
    rxMany rx items.length r = some (items.map view, r') ∧ r'.stream = rest := by
  induction items generalizing r with
  | nil => exact ⟨r, rfl, by simpa using hstream⟩
  | cons item items ih =>
      rw [List.flatMap_cons, List.append_assoc] at hstream
      obtain ⟨r', hitem, hstream'⟩ := hrx item (by simp) r _ hstream
      obtain ⟨r'', hitems, hrest⟩ := ih (fun i hi => hrx i (by simp [hi])) hstream'
      refine ⟨r'', ?_, hrest⟩
      simp [rxMany, hitem, hitems]

/-- A loop that sends one image for each item of a list. -/
theorem foldlM_sent {β : Type} {tx : Writer → β → Option Writer} {image : β → List UInt8}
    (items : List β)
    (htx : ∀ item ∈ items, ∀ w, ∃ w', tx w item = some w' ∧ w'.sent = w.sent ++ image item)
    (w : Writer) : ∃ w', items.foldlM tx w = some w' ∧ w'.sent = w.sent ++ items.flatMap image := by
  induction items generalizing w with
  | nil => exact ⟨w, rfl, by simp⟩
  | cons item items ih =>
      obtain ⟨w', hitem, hsent⟩ := htx item (by simp) w
      obtain ⟨w'', hitems, hsent'⟩ := ih (fun i hi => htx i (by simp [hi])) w'
      refine ⟨w'', ?_, ?_⟩
      · simpa [hitem] using hitems
      · simp [hsent', hsent]

end Uperf
