import Uperf.Handshake.Transfer

/-!
# Complete work orders

The counts that `rx_group_t` reads say how many records are to follow.  Whatever
pieces the stream comes in, the group is refused if the stream ends before these
records, and otherwise its lists are as long as the counts say
(`rxGroupT_complete`).
-/

namespace Uperf

open Lib

/-! ## What the counts announce -/

/-- The bytes that `n` items need, when an item at the head of a stream needs `need`. -/
def announcedMany (need : List UInt8 → ℕ) : ℕ → List UInt8 → ℕ
  | 0, _ => 0
  | n + 1, stream => need stream + announcedMany need n (stream.drop (need stream))

/-- The bytes of a transaction and its flowops, by the count in its own record. -/
def announcedTxn (e : Endian) (bitswap : Bool) (stream : List UInt8) : ℕ :=
  let txn := TxnHead.codec.get e (stream.take TxnHead.codec.size)
  TxnHead.codec.size + (unswap32 bitswap txn.nflowop).toNat * FlowopHead.codec.size

/-- The endian markers of the sender and the receiver differ. -/
def announcedSwap (e : Endian) (myEndian : UInt32) (stream : List UInt8) : Bool :=
  decide (myEndian ≠ (GroupHead.codec.get e (stream.take GroupHead.codec.size)).endian)

/-- The number of transactions, by the record of the group. -/
def announcedNtxn (e : Endian) (myEndian : UInt32) (stream : List UInt8) : UInt32 :=
  unswap32 (announcedSwap e myEndian stream)
    (GroupHead.codec.get e (stream.take GroupHead.codec.size)).ntxn

/-- The bytes of a group and everything that its counts announce. -/
def announced (e : Endian) (myEndian : UInt32) (stream : List UInt8) : ℕ :=
  GroupHead.codec.size +
    announcedMany (announcedTxn e (announcedSwap e myEndian stream))
      (announcedNtxn e myEndian stream).toNat (stream.drop GroupHead.codec.size)

/-! ## Readers that take what they need -/

/-- A reader fails exactly if the stream is shorter than it needs, and otherwise takes
just that off the stream. -/
structure Takes {α : Type} (rx : Reader → Option (α × Reader)) (need : List UInt8 → ℕ) : Prop where
  none_iff : ∀ r, rx r = none ↔ r.stream.length < need r.stream
  rest : ∀ r a r', rx r = some (a, r') → r'.stream = r.stream.drop (need r.stream)

section

variable {α β : Type} {rx : Reader → Option (α × Reader)} {need : List UInt8 → ℕ}

theorem Takes.congr {rx' : Reader → Option (α × Reader)} {need' : List UInt8 → ℕ}
    (h : Takes rx need) (hrx : ∀ r, rx' r = rx r) (hneed : ∀ stream, need' stream = need stream) :
    Takes rx' need' := by
  have hrx' : rx' = rx := funext hrx
  have hneed' : need' = need := funext hneed
  rwa [hrx', hneed']

/-- What is done to an item after reading it takes nothing off the stream. -/
theorem Takes.map (h : Takes rx need) (f : α → β) :
    Takes (fun r => do let (a, r) ← rx r; some (f a, r)) need := by
  refine ⟨fun r => ?_, fun r b r' hread => ?_⟩
  · rw [← h.none_iff r]
    cases hrx : rx r <;> simp
  · obtain ⟨⟨a, r''⟩, hrx, hsome⟩ := Option.bind_eq_some_iff.mp hread
    cases hsome
    exact h.rest r a r' hrx

theorem takes_none (f : α → β) (a : α) : Takes (fun r => some (f a, r)) fun _ => 0 := by
  refine ⟨fun r => by simp, fun r b r' hread => ?_⟩
  cases hread
  rw [List.drop_zero]

/-- One item after the other. -/
theorem Takes.many (h : Takes rx need) (n : ℕ) : Takes (rxMany rx n) (announcedMany need n) := by
  induction n with
  | zero =>
      refine ⟨fun r => by simp [rxMany, announcedMany], fun r items r' hread => ?_⟩
      cases hread
      simp [announcedMany]
  | succ n ih =>
      refine ⟨fun r => ?_, fun r items r' hread => ?_⟩
      · rw [announcedMany]
        cases hrx : rx r with
        | none =>
            have hshort := (h.none_iff r).mp hrx
            simp only [rxMany, hrx, Option.bind_eq_bind, Option.bind_none, true_iff]
            omega
        | some result =>
            obtain ⟨a, r'⟩ := result
            have hlong : ¬ r.stream.length < need r.stream := by
              rw [← h.none_iff r, hrx]
              exact Option.some_ne_none _
            have hrest := h.rest r a r' hrx
            have hnone : rxMany rx (n + 1) r = none ↔ rxMany rx n r' = none := by
              cases hmany : rxMany rx n r' <;> simp [rxMany, hrx, hmany]
            rw [hnone, ih.none_iff, hrest, List.length_drop]
            omega
      · rw [rxMany] at hread
        obtain ⟨⟨a, r₁⟩, hrx, hread⟩ := Option.bind_eq_some_iff.mp hread
        obtain ⟨⟨as, r₂⟩, hmany, hsome⟩ := Option.bind_eq_some_iff.mp hread
        cases hsome
        rw [ih.rest _ _ _ hmany, h.rest _ _ _ hrx, List.drop_drop, announcedMany]

/-- Items of one size. -/
theorem announcedMany_const (size n : ℕ) (stream : List UInt8) :
    announcedMany (fun _ => size) n stream = n * size := by
  induction n generalizing stream with
  | zero => rw [announcedMany, Nat.zero_mul]
  | succ n ih => rw [announcedMany, ih, Nat.succ_mul, Nat.add_comm]

theorem length_of_rxMany {n : ℕ} {r r' : Reader} {items : List α}
    (hread : rxMany rx n r = some (items, r')) : items.length = n := by
  induction n generalizing r items with
  | zero =>
      cases hread
      rfl
  | succ n ih =>
      rw [rxMany] at hread
      obtain ⟨⟨a, r₁⟩, -, hread⟩ := Option.bind_eq_some_iff.mp hread
      obtain ⟨⟨as, r₂⟩, hmany, hsome⟩ := Option.bind_eq_some_iff.mp hread
      cases hsome
      rw [List.length_cons, ih hmany]

/-- Every item was read by the reader. -/
theorem exists_of_mem_rxMany {n : ℕ} {r r' : Reader} {items : List α}
    (hread : rxMany rx n r = some (items, r')) {a : α} (ha : a ∈ items) :
    ∃ before after, rx before = some (a, after) := by
  induction n generalizing r items with
  | zero =>
      cases hread
      exact absurd ha List.not_mem_nil
  | succ n ih =>
      rw [rxMany] at hread
      obtain ⟨⟨b, r₁⟩, hrx, hread⟩ := Option.bind_eq_some_iff.mp hread
      obtain ⟨⟨bs, r₂⟩, hmany, hsome⟩ := Option.bind_eq_some_iff.mp hread
      cases hsome
      obtain rfl | hmem := List.mem_cons.mp ha
      · exact ⟨r, r₁, hrx⟩
      · exact ih hmany hmem

end

section

variable {α β : Type} {k : Kernel} (hk : k.Positive) (e : Endian)
include hk

/-- A record that is complete is read, however the stream is cut. -/
theorem rxRecord_of_length (codec : Codec α) (hsize : 0 < codec.size) {r : Reader}
    (hlength : codec.size ≤ r.stream.length) : ∃ r',
    rxRecord k codec e r = some (codec.get e (r.stream.take codec.size), r') ∧
      r'.stream = r.stream.drop codec.size := by
  have htake : (r.stream.take codec.size).length = codec.size := by
    rw [List.length_take, min_eq_left hlength]
  have hsplit : r.stream = r.stream.take codec.size ++ r.stream.drop codec.size :=
    (List.take_append_drop _ _).symm
  have hne : r.stream.take codec.size ≠ [] := List.ne_nil_of_length_pos (by omega)
  obtain ⟨r', hread, hrest⟩ := tryRead_positive hk hne hsplit
  rw [htake] at hread
  exact ⟨r', by rw [rxRecord, hread]; rfl, hrest⟩

theorem rxRecord_eq_none_iff (codec : Codec α) (hsize : 0 < codec.size) (r : Reader) :
    rxRecord k codec e r = none ↔ r.stream.length < codec.size := by
  by_cases hlength : r.stream.length < codec.size
  · simp only [hlength, iff_true]
    cases hread : rxRecord k codec e r with
    | none => rfl
    | some result =>
        obtain ⟨⟨bytes, r'⟩, htry, -⟩ := Option.bind_eq_some_iff.mp hread
        obtain ⟨-, hbytes, hstream⟩ := tryRead_eq_some htry
        rw [hstream, List.length_append] at hlength
        omega
  · obtain ⟨r', hread, -⟩ := rxRecord_of_length hk e codec hsize (not_lt.mp hlength)
    simp [hread, hlength]

/-- A record, and what is read under the counts in it. -/
theorem takes_record (codec : Codec α) (hsize : 0 < codec.size)
    {f : α → Reader → Option (β × Reader)} {need : α → List UInt8 → ℕ}
    (hf : ∀ a, Takes (f a) (need a)) :
    Takes (fun r => do let (a, r) ← rxRecord k codec e r; f a r)
      fun stream => codec.size +
        need (codec.get e (stream.take codec.size)) (stream.drop codec.size) := by
  refine ⟨fun r => ?_, fun r b r' hread => ?_⟩
  · by_cases hlength : r.stream.length < codec.size
    · have hnone := (rxRecord_eq_none_iff hk e codec hsize r).mpr hlength
      simp only [hnone, Option.bind_eq_bind, Option.bind_none, true_iff]
      omega
    · obtain ⟨r', hread, hrest⟩ := rxRecord_of_length hk e codec hsize (not_lt.mp hlength)
      simp only [hread, Option.bind_eq_bind, Option.bind_some]
      rw [(hf _).none_iff, hrest, List.length_drop]
      omega
  · obtain ⟨⟨a, r₁⟩, hrecord, hread⟩ := Option.bind_eq_some_iff.mp hread
    have hlength : ¬ r.stream.length < codec.size := by
      rw [← rxRecord_eq_none_iff hk e codec hsize r, hrecord]
      exact Option.some_ne_none _
    obtain ⟨r₂, hrecord', hrest⟩ := rxRecord_of_length hk e codec hsize (not_lt.mp hlength)
    rw [hrecord'] at hrecord
    cases hrecord
    rw [(hf _).rest _ _ _ hread, hrest, List.drop_drop]

/-! ## The group -/

variable (p : Protocol) (bitswap : Bool)

theorem takes_rxFlowop : Takes (rxFlowop k e p bitswap) fun _ => FlowopHead.codec.size := by
  have h := takes_record hk e FlowopHead.codec (by decide)
    fun f => takes_none (FlowopHead.received p bitswap) f
  exact h.congr (fun _ => rfl) fun _ => rfl

theorem takes_rxTxn : Takes (rxTxn k e p bitswap) (announcedTxn e bitswap) := by
  have h := takes_record hk e TxnHead.codec (by decide)
    fun txn : TxnHead =>
      (((takes_rxFlowop hk e p bitswap).many (unswap32 bitswap txn.nflowop).toNat).map fun flist =>
        ({ txn with nflowop := unswap32 bitswap txn.nflowop, flist := flist } : Txn))
  refine h.congr (fun _ => rfl) fun stream => ?_
  rw [announcedTxn, announcedMany_const]

end

/-- The counts of a transaction are those of its list. -/
theorem nflowop_of_rxTxn {k : Kernel} {e : Endian} {p : Protocol} {bitswap : Bool} {r r' : Reader}
    {txn : Txn} (hread : rxTxn k e p bitswap r = some (txn, r')) :
    txn.nflowop.toNat = txn.flist.length := by
  obtain ⟨⟨head, r₁⟩, -, hread⟩ := Option.bind_eq_some_iff.mp hread
  obtain ⟨⟨flist, r₂⟩, hmany, hsome⟩ := Option.bind_eq_some_iff.mp hread
  cases hsome
  exact (length_of_rxMany hmany).symm

/-- The group is refused exactly if the stream ends before the records that its counts
announce; otherwise the lists are as long as the counts say, and what follows on the
stream is left there. -/
theorem rxGroupT_complete {k : Kernel} (hk : k.Positive) (e : Endian) (p : Protocol)
    (myEndian : UInt32) (r : Reader) :
    (rxGroupT k e p myEndian r = none ↔ r.stream.length < announced e myEndian r.stream) ∧
    ∀ g r', rxGroupT k e p myEndian r = some (g, r') →
      g.ntxn = announcedNtxn e myEndian r.stream ∧ g.Counted ∧
        r'.stream = r.stream.drop (announced e myEndian r.stream) := by
  have h := takes_record hk e GroupHead.codec (by decide)
    fun worklist : GroupHead =>
      (((takes_rxTxn hk e p (decide (myEndian ≠ worklist.endian))).many
        (unswap32 (decide (myEndian ≠ worklist.endian)) worklist.ntxn).toNat).map fun tlist =>
          ({ worklist with
            ntxn := unswap32 (decide (myEndian ≠ worklist.endian)) worklist.ntxn
            tlist := tlist } : Group))
  have htakes : Takes (rxGroupT k e p myEndian) (announced e myEndian) :=
    h.congr (fun _ => rfl) fun _ => rfl
  refine ⟨htakes.none_iff r, fun g r' hread => ⟨?_, ⟨?_, ?_⟩, htakes.rest r g r' hread⟩⟩
  · have hlength : ¬ r.stream.length < GroupHead.codec.size := by
      have hlong : ¬ r.stream.length < announced e myEndian r.stream := by
        rw [← htakes.none_iff r, hread]
        exact Option.some_ne_none _
      unfold announced at hlong
      omega
    obtain ⟨r₁, hrecord, -⟩ := rxRecord_of_length hk e GroupHead.codec (by decide)
      (not_lt.mp hlength)
    rw [rxGroupT, hrecord, Option.bind_eq_bind, Option.bind_some] at hread
    obtain ⟨⟨tlist, r₂⟩, -, hsome⟩ := Option.bind_eq_some_iff.mp hread
    cases hsome
    rfl
  · obtain ⟨⟨worklist, r₁⟩, -, hread⟩ := Option.bind_eq_some_iff.mp hread
    obtain ⟨⟨tlist, r₂⟩, hmany, hsome⟩ := Option.bind_eq_some_iff.mp hread
    cases hsome
    exact (length_of_rxMany hmany).symm
  · obtain ⟨⟨worklist, r₁⟩, -, hread⟩ := Option.bind_eq_some_iff.mp hread
    obtain ⟨⟨tlist, r₂⟩, hmany, hsome⟩ := Option.bind_eq_some_iff.mp hread
    cases hsome
    intro txn htxn
    obtain ⟨before, after, htx⟩ := exists_of_mem_rxMany hmany htxn
    exact nflowop_of_rxTxn htx

/-- The stream that a master of the same byte order sends for `connectGroup`. -/
def connectGroupSent : Reader := { stream := connectGroup.image .little }

theorem rxGroupT_complete_connectGroup :
    (rxGroupT .full .little masterAtSlave uperfEndianValue connectGroupSent = none ↔
      connectGroupSent.stream.length <
        announced .little uperfEndianValue connectGroupSent.stream) ∧
    ∀ g r', rxGroupT .full .little masterAtSlave uperfEndianValue connectGroupSent =
        some (g, r') →
      g.ntxn = announcedNtxn .little uperfEndianValue connectGroupSent.stream ∧ g.Counted ∧
        r'.stream = connectGroupSent.stream.drop
          (announced .little uperfEndianValue connectGroupSent.stream) :=
  rxGroupT_complete Kernel.full_positive .little masterAtSlave uperfEndianValue connectGroupSent

end Uperf
