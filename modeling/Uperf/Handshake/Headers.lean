import Uperf.Handshake.Outcome

/-!
# The answers of `slave_handshake`

The slave reads headers until one asks for phase 2, and answers the others.  Its
variable `status` is set when a header is found wrong and not reset for the next
one: after a wrong header the slave stays in its loop, and it answers a correct
header that asks for phase 2 with `OK` and waits for another one.
-/

namespace Uperf

open Lib

/-- A header as a machine of either byte order sends it, with its mark for the
byte order set. -/
structure PeerHeader where
  endian : Endian
  header : HsPhase1
  marked : header.endian = uperfEndianValue

/-- The protocols that a header asks for are known. -/
def KnownProtocols (table : ProtocolTable) (protocol : Vector UInt32 numProtocols) : Prop :=
  ∀ i : Fin numProtocols, protocol.get i ≠ 0 → table.valid i = true

instance (table : ProtocolTable) (protocol : Vector UInt32 numProtocols) :
    Decidable (KnownProtocols table protocol) :=
  inferInstanceAs (Decidable (∀ _ : Fin numProtocols, _))

/-- The header has the right magic and version and asks for known protocols only. -/
def HsPhase1.Valid (table : ProtocolTable) (h : HsPhase1) : Prop :=
  h.magic.cstr = uperfMagic ∧ h.version.cstr = uperfDataVersion ∧
    KnownProtocols table h.protocol

instance (table : ProtocolTable) (h : HsPhase1) : Decidable (h.Valid table) :=
  inferInstanceAs (Decidable (_ ∧ _ ∧ _))

namespace PeerHeader

/-- The header is valid. -/
def Valid (table : ProtocolTable) (p : PeerHeader) : Prop := p.header.Valid table

/-- The header is one that ends the loop: valid, and asking for phase 2. -/
def Accepted (table : ProtocolTable) (p : PeerHeader) : Prop :=
  p.Valid table ∧ p.header.phase = handshakePhase2Code

instance (table : ProtocolTable) (p : PeerHeader) : Decidable (p.Valid table) :=
  inferInstanceAs (Decidable (p.header.Valid table))

instance (table : ProtocolTable) (p : PeerHeader) : Decidable (p.Accepted table) :=
  inferInstanceAs (Decidable (_ ∧ _))

/-- The header as a slave of order `e` has it after its byte swap. -/
def received (e : Endian) (p : PeerHeader) : HsPhase1 :=
  (HsPhase1.codec.seen p.endian e p.header).native

/-- Several headers on the wire. -/
def stream (headers : List PeerHeader) : List UInt8 :=
  headers.flatMap fun p => HsPhase1.codec.put p.endian p.header

end PeerHeader

/-! ## The checks of a header -/

section

variable {table : ProtocolTable} {h : HsPhase1}

theorem strncmpEq_magic_iff :
    strncmpEq h.magic uperfMagic (uperfMagic.length + 1) = true ↔ h.magic.cstr = uperfMagic := by
  rw [strncmpEq, beq_iff_eq, List.take_of_length_le (Nat.le_succ _)]
  constructor
  · intro heq
    -- one more character than the magic has is compared
    have hlen := congrArg List.length heq
    rw [List.length_take] at hlen
    rw [← heq]
    exact (List.take_of_length_le (by omega)).symm
  · intro heq
    rw [heq, List.take_of_length_le (Nat.le_succ _)]

theorem strncmpEq_version_iff :
    strncmpEq h.version uperfDataVersion 16 = true ↔ h.version.cstr = uperfDataVersion := by
  have hlen := h.version.length_cstr_le
  have hshort : uperfDataVersion.length ≤ 16 := by decide
  rw [strncmpEq, beq_iff_eq, List.take_of_length_le hlen, List.take_of_length_le hshort]

theorem cstr_ok : (strlcpy (CharArray.zero 64) uperfOk).cstr = uperfOk := by
  rw [cstr_strlcpy _ (ne_zero_of_all (by decide))]
  decide

theorem cstr_notOk (status : CharArray 64) : (strlcpy status uperfNotOk).cstr = uperfNotOk := by
  rw [cstr_strlcpy _ (ne_zero_of_all (by decide))]
  decide

/-- The body of the loop over the protocols. -/
def checkProtocol (table : ProtocolTable) (protocol : Vector UInt32 numProtocols)
    (st : Bool × HsPhase1Ack) (i : Fin numProtocols) : Bool × HsPhase1Ack :=
  if protocol.get i = 0 ∨ table.valid i then st
  else
    (false,
      { status := strlcpy st.2.status uperfNotOk
        message := strlcpy st.2.message (str "Unsupported protocol:" ++ table.name i) })

theorem checkProtocols_eq_foldl (protocol : Vector UInt32 numProtocols) (status : Bool)
    (hsp1a : HsPhase1Ack) :
    checkProtocols table protocol status hsp1a =
      (List.finRange numProtocols).foldl (checkProtocol table protocol) (status, hsp1a) := rfl

/-- The loop over the protocols leaves its variables alone, unless it finds a
protocol that is not known. -/
theorem checkProtocols_cases (table : ProtocolTable) (protocol : Vector UInt32 numProtocols)
    (status : Bool) (hsp1a : HsPhase1Ack) :
    (KnownProtocols table protocol ∧
        checkProtocols table protocol status hsp1a = (status, hsp1a)) ∨
      (¬ KnownProtocols table protocol ∧
        (checkProtocols table protocol status hsp1a).1 = false ∧
        (checkProtocols table protocol status hsp1a).2.status.cstr = uperfNotOk) := by
  have hall : KnownProtocols table protocol ↔
      ∀ i ∈ List.finRange numProtocols, protocol.get i ≠ 0 → table.valid i = true := by
    simp [KnownProtocols]
  rw [hall, checkProtocols_eq_foldl]
  induction List.finRange numProtocols generalizing status hsp1a with
  | nil =>
      left
      exact ⟨by simp, rfl⟩
  | cons i rest ih =>
      rw [List.foldl_cons, List.forall_mem_cons]
      by_cases hi : protocol.get i = 0 ∨ table.valid i = true
      · rw [checkProtocol, if_pos hi]
        have hknown : protocol.get i ≠ 0 → table.valid i = true := fun hne => hi.resolve_left hne
        rcases ih status hsp1a with ⟨hrest, heq⟩ | ⟨hrest, hstatus, hack⟩
        · exact .inl ⟨⟨hknown, hrest⟩, heq⟩
        · exact .inr ⟨fun h => hrest h.2, hstatus, hack⟩
      · rw [checkProtocol, if_neg hi]
        right
        refine ⟨fun h => hi (or_iff_not_imp_left.mpr h.1), ?_⟩
        rcases ih false _ with ⟨-, heq⟩ | ⟨-, hstatus, hack⟩
        · rw [heq]
          exact ⟨rfl, cstr_notOk _⟩
        · exact ⟨hstatus, hack⟩

/-- What the slave makes of a header: its answer says whether the header is valid,
and its variable `status` whether all headers so far were. -/
theorem checkHeader_eq (table : ProtocolTable) (h : HsPhase1) (status : Bool) :
    ((checkHeader table h status).1 = true ↔ status = true ∧ h.Valid table) ∧
      ((checkHeader table h status).2.status.cstr = uperfOk ↔ h.Valid table) := by
  have hok : uperfNotOk ≠ uperfOk := by decide
  unfold checkHeader HsPhase1.Valid
  by_cases hmagic : h.magic.cstr = uperfMagic
  · rw [if_neg (not_not_intro (strncmpEq_magic_iff.mpr hmagic))]
    by_cases hversion : h.version.cstr = uperfDataVersion
    · rw [if_neg (not_not_intro (strncmpEq_version_iff.mpr hversion))]
      rcases checkProtocols_cases table h.protocol status
        { status := strlcpy (CharArray.zero 64) uperfOk } with
        ⟨hknown, heq⟩ | ⟨hknown, hstatus, hack⟩
      · rw [heq]
        simp [hmagic, hversion, cstr_ok, hknown]
      · rw [hstatus, hack]
        simp [hok, hknown]
    · rw [if_pos (mt strncmpEq_version_iff.mp hversion)]
      simp [cstr_notOk, hok, hversion]
  · rw [if_pos (mt strncmpEq_magic_iff.mp hmagic)]
    simp [cstr_notOk, hok, hmagic]

/-! ## Headers from both kinds of machine -/

namespace PeerHeader

variable (p : PeerHeader) (e : Endian)

/-- The slave swaps the header if the peer has the other byte order. -/
theorem differs_seen :
    (HsPhase1.codec.seen p.endian e p.header).differs = decide (p.endian ≠ e) := by
  by_cases hne : p.endian = e
  · subst hne
    rw [Codec.seen_same]
    simp [HsPhase1.differs, p.marked]
  · have hdiffers : bswap32 uperfEndianValue ≠ uperfEndianValue := by decide
    rw [Codec.seen_of_ne _ hne, HsPhase1.swap_codec]
    simp [HsPhase1.differs, p.marked, hdiffers, hne]

/-- What the slave looks at in a header is what the peer means. -/
theorem received_eq (table : ProtocolTable) :
    (p.received e).phase = p.header.phase ∧
      ((p.received e).Valid table ↔ p.Valid table) := by
  unfold received HsPhase1.native
  rw [p.differs_seen e]
  by_cases hne : p.endian = e
  · subst hne
    simp [Valid]
  · rw [Codec.seen_of_ne _ hne, HsPhase1.swap_codec]
    simp [hne, HsPhase1.swapped, Valid, HsPhase1.Valid, KnownProtocols, Vector.get]
    exact fun _ _ => Iff.rfl

end PeerHeader

/-! ## The loop -/

/-- The answers say `OK` exactly to the valid ones of the headers. -/
def Answers (table : ProtocolTable) (headers : List PeerHeader) (acks : List HsPhase1Ack) : Prop :=
  List.Forall₂ (fun (p : PeerHeader) ack => ack.status.cstr = uperfOk ↔ p.Valid table) headers acks

variable {s : SlaveEnv} {p : PeerHeader} {headers : List PeerHeader}

/-- One round of the loop: it ends, or the slave has answered. -/
theorem slaveHandshakeLoop_cons (hrx : s.rx.Positive) (htx : s.tx.Positive) (status bitswap : Bool)
    {r : Reader} (hstream : r.stream = PeerHeader.stream (p :: headers)) (w : Writer) :
    ∃ r' : Reader, r'.stream = PeerHeader.stream headers ∧
      ((status = true ∧ p.Accepted s.table ∧
          slaveHandshakeLoop s status bitswap r w =
            (some (p.received s.endian, bitswap || decide (p.endian ≠ s.endian), r'), w)) ∨
        (¬ (status = true ∧ p.Accepted s.table) ∧
          ∃ (ack : HsPhase1Ack) (w' : Writer),
            (ack.status.cstr = uperfOk ↔ p.Valid s.table) ∧
            w'.sent = w.sent ++ HsPhase1Ack.codec.put s.endian ack ∧
            slaveHandshakeLoop s status bitswap r w =
              slaveHandshakeLoop s (status && decide (p.Valid s.table))
                (bitswap || decide (p.endian ≠ s.endian)) r' w')) := by
  have hcons : r.stream = HsPhase1.codec.put p.endian p.header ++ PeerHeader.stream headers := by
    rw [hstream, PeerHeader.stream, List.flatMap_cons]
    rfl
  obtain ⟨r', hread, hrest⟩ := rxRecord_put hrx HsPhase1.codec (by decide) p.endian s.endian _ hcons
  obtain ⟨hphase, hvalid⟩ := p.received_eq s.endian s.table
  obtain ⟨hstatus, hack⟩ := checkHeader_eq s.table (p.received s.endian) status
  rw [hvalid] at hstatus hack
  have hdiffers := p.differs_seen s.endian
  rw [← Codec.seen] at hread
  refine ⟨r', hrest, ?_⟩
  by_cases haccepted : status = true ∧ p.Accepted s.table
  · left
    obtain ⟨rfl, haccept⟩ := haccepted
    refine ⟨rfl, haccept, ?_⟩
    rw [← hdiffers]
    exact slaveHandshakeLoop_of_valid hread (hphase.trans haccept.2)
      (hstatus.mpr ⟨rfl, haccept.1⟩)
  · right
    have hstay : ¬ ((p.received s.endian).phase = handshakePhase2Code ∧
        (checkHeader s.table (p.received s.endian) status).1 = true) := by
      rw [hphase, hstatus]
      exact fun h => haccepted ⟨h.2.1, h.2.2, h.1⟩
    obtain ⟨w', hwrite, hsent⟩ := ensureWrite_positive htx
      (HsPhase1Ack.codec.put s.endian (checkHeader s.table (p.received s.endian) status).2) w
    have hpos : ¬ ((HsPhase1Ack.codec.put s.endian
        (checkHeader s.table (p.received s.endian) status).2).length : ℤ) ≤ 0 := by
      rw [HsPhase1Ack.codec.length_put]
      decide
    have hnext : (checkHeader s.table (p.received s.endian) status).1 =
        (status && decide (p.Valid s.table)) := by
      rw [Bool.eq_iff_iff, hstatus]
      simp
    refine ⟨haccepted, _, w', hack, hsent, ?_⟩
    rw [slaveHandshakeLoop]
    split
    · rename_i hnone
      rw [hread] at hnone
      cases hnone
    · rename_i hsome
      rw [hread] at hsome
      cases hsome
      rw [hdiffers]
      unfold PeerHeader.received at hstay hwrite hpos hnext
      rw [if_neg hstay, hwrite, if_neg hpos, hnext]

theorem slaveHandshakeLoop_nil (status bitswap : Bool) {r : Reader} (hstream : r.stream = [])
    (w : Writer) : slaveHandshakeLoop s status bitswap r w = (none, w) := by
  have hr : r = ⟨r.calls, []⟩ := congrArg (Reader.mk r.calls) hstream
  have hnone : rxRecord s.rx HsPhase1.codec s.endian r = none := by
    rw [hr]
    exact rxRecord_nil _ _ _
  rw [slaveHandshakeLoop]
  split
  · rfl
  · rename_i hsome
    rw [hnone] at hsome
    cases hsome

/-- After a wrong header no header ends the loop, and all are answered. -/
theorem slaveHandshakeLoop_false (hrx : s.rx.Positive) (htx : s.tx.Positive) (bitswap : Bool)
    {r : Reader} (hstream : r.stream = PeerHeader.stream headers) (w : Writer) :
    ∃ acks, Answers s.table headers acks ∧
      (slaveHandshakeLoop s false bitswap r w).1 = none ∧
      (slaveHandshakeLoop s false bitswap r w).2.sent =
        w.sent ++ acks.flatMap (HsPhase1Ack.codec.put s.endian) := by
  induction headers generalizing bitswap r w with
  | nil =>
      rw [slaveHandshakeLoop_nil false bitswap hstream w]
      exact ⟨[], .nil, rfl, by simp⟩
  | cons p rest ih =>
      obtain ⟨r', hrest, hround⟩ := slaveHandshakeLoop_cons hrx htx false bitswap hstream w
      rcases hround with ⟨hfalse, -, -⟩ | ⟨-, ack, w', hack, hsent, hloop⟩
      · cases hfalse
      · obtain ⟨acks, hacks, hleft, hsent'⟩ :=
          ih (bitswap || decide (p.endian ≠ s.endian)) hrest w'
        rw [hloop, Bool.false_and]
        refine ⟨ack :: acks, .cons hack hacks, hleft, ?_⟩
        rw [hsent', hsent, List.flatMap_cons, List.append_assoc]

/-- Valid headers that do not ask for phase 2 are answered. -/
theorem slaveHandshakeLoop_append (hrx : s.rx.Positive) (htx : s.tx.Positive) (bitswap : Bool)
    {before : List PeerHeader} (hvalid : ∀ p ∈ before, p.Valid s.table)
    (hstay : ∀ p ∈ before, ¬ p.Accepted s.table) {r : Reader}
    (hstream : r.stream = PeerHeader.stream (before ++ headers)) (w : Writer) :
    ∃ (acks : List HsPhase1Ack) (bitswap' : Bool) (r' : Reader) (w' : Writer),
      Answers s.table before acks ∧ r'.stream = PeerHeader.stream headers ∧
      w'.sent = w.sent ++ acks.flatMap (HsPhase1Ack.codec.put s.endian) ∧
      slaveHandshakeLoop s true bitswap r w = slaveHandshakeLoop s true bitswap' r' w' := by
  induction before generalizing bitswap r w with
  | nil => exact ⟨[], bitswap, r, w, .nil, hstream, by simp, rfl⟩
  | cons p rest ih =>
      obtain ⟨r₁, hrest, hround⟩ := slaveHandshakeLoop_cons hrx htx true bitswap hstream w
      rcases hround with ⟨-, haccepted, -⟩ | ⟨-, ack, w₁, hack, hsent, hloop⟩
      · exact absurd haccepted (hstay p List.mem_cons_self)
      · obtain ⟨acks, bitswap', r', w', hacks, hr', hw', heq⟩ :=
          ih (bitswap || decide (p.endian ≠ s.endian))
            (fun q hq => hvalid q (List.mem_cons_of_mem p hq))
            (fun q hq => hstay q (List.mem_cons_of_mem p hq)) hrest w₁
        have hp : decide (p.Valid s.table) = true :=
          decide_eq_true (hvalid p List.mem_cons_self)
        refine ⟨ack :: acks, bitswap', r', w', .cons hack hacks, hr', ?_, ?_⟩
        · rw [hw', hsent, List.flatMap_cons, List.append_assoc]
        · rw [hloop, hp]
          exact heq

/-- A wrong header keeps the slave in its loop for good. -/
theorem slaveHandshakeLoop_wrong (hrx : s.rx.Positive) (htx : s.tx.Positive) (bitswap : Bool)
    {before : List PeerHeader} (hvalid : ∀ p ∈ before, p.Valid s.table)
    (hstay : ∀ p ∈ before, ¬ p.Accepted s.table) (hwrong : ¬ p.Valid s.table) {r : Reader}
    (hstream : r.stream = PeerHeader.stream (before ++ p :: headers)) (w : Writer) :
    ∃ acks, Answers s.table (before ++ p :: headers) acks ∧
      (slaveHandshakeLoop s true bitswap r w).1 = none ∧
      (slaveHandshakeLoop s true bitswap r w).2.sent =
        w.sent ++ acks.flatMap (HsPhase1Ack.codec.put s.endian) := by
  obtain ⟨first, bitswap', r', w', hfirst, hr', hw', heq⟩ :=
    slaveHandshakeLoop_append hrx htx bitswap hvalid hstay hstream w
  obtain ⟨r₁, hr₁, hround⟩ := slaveHandshakeLoop_cons hrx htx true bitswap' hr' w'
  rcases hround with ⟨-, haccepted, -⟩ | ⟨-, ack, w₁, hack, hw₁, hloop⟩
  · exact absurd haccepted.1 hwrong
  · rw [Bool.true_and, decide_eq_false hwrong] at hloop
    obtain ⟨last, hlast, hleft, hsent⟩ := slaveHandshakeLoop_false hrx htx
      (bitswap' || decide (p.endian ≠ s.endian)) hr₁ w₁
    refine ⟨first ++ ack :: last, List.rel_append hfirst (.cons hack hlast), ?_, ?_⟩
    · rw [heq, hloop, hleft]
    · rw [heq, hloop, hsent, hw₁, hw', List.flatMap_append, List.flatMap_cons]
      simp only [List.append_assoc]

/-- The first wrong header. -/
theorem exists_first_wrong {table : ProtocolTable} (h : ¬ ∀ p ∈ headers, p.Valid table) :
    ∃ first p rest, headers = first ++ p :: rest ∧ (∀ q ∈ first, q.Valid table) ∧
      ¬ p.Valid table := by
  induction headers with
  | nil => exact absurd (by simp) h
  | cons q rest ih =>
      by_cases hq : q.Valid table
      · rw [List.forall_mem_cons, not_and] at h
        obtain ⟨first, p, last, rfl, hfirst, hp⟩ := ih (h hq)
        exact ⟨q :: first, p, last, rfl, List.forall_mem_cons.mpr ⟨hq, hfirst⟩, hp⟩
      · exact ⟨[], q, rest, rfl, by simp, hq⟩

/-! ## What a peer is told -/

/-- The headers before the first that is valid and asks for phase 2. -/
def PeerHeader.before (table : ProtocolTable) (headers : List PeerHeader) : List PeerHeader :=
  headers.takeWhile fun p => ¬ p.Accepted table

/-- That header, and those behind it. -/
def PeerHeader.onward (table : ProtocolTable) (headers : List PeerHeader) : List PeerHeader :=
  headers.dropWhile fun p => ¬ p.Accepted table

/-- The slave answers the headers before the first that is valid and asks for phase
2, each with `OK` exactly if it is valid, and leaves its loop at that header. -/
def FollowsHeaders (s : SlaveEnv) (headers : List PeerHeader) : Prop :=
  let (left, w) := slaveHandshakeLoop s true false ⟨0, PeerHeader.stream headers⟩ {}
  (∃ acks, Answers s.table (PeerHeader.before s.table headers) acks ∧
      w.sent = acks.flatMap (HsPhase1Ack.codec.put s.endian)) ∧
    match PeerHeader.onward s.table headers with
    | [] => left = none
    | p :: rest => ∃ (bitswap : Bool) (r : Reader),
        left = some (p.received s.endian, bitswap, r) ∧ r.stream = PeerHeader.stream rest

/-- The slave follows the headers exactly if none before the first valid one that
asks for phase 2 is wrong, or there is no such header. -/
theorem followsHeaders_iff (hrx : s.rx.Positive) (htx : s.tx.Positive)
    (headers : List PeerHeader) :
    FollowsHeaders s headers ↔
      (PeerHeader.onward s.table headers ≠ [] →
        ∀ p ∈ PeerHeader.before s.table headers, p.Valid s.table) := by
  have hsplit : headers = PeerHeader.before s.table headers ++
      PeerHeader.onward s.table headers := List.takeWhile_append_dropWhile.symm
  have hstay : ∀ p ∈ PeerHeader.before s.table headers, ¬ p.Accepted s.table := by
    intro p hp
    simpa using List.mem_takeWhile_imp hp
  have hhead : ∀ p rest, PeerHeader.onward s.table headers = p :: rest → p.Accepted s.table := by
    intro p rest honward
    have hnot := List.head?_dropWhile_not (fun p : PeerHeader => ¬ p.Accepted s.table) headers
    rw [show headers.dropWhile _ = p :: rest from honward] at hnot
    simpa using hnot
  unfold FollowsHeaders
  generalize PeerHeader.before s.table headers = before at hsplit hstay ⊢
  generalize PeerHeader.onward s.table headers = onward at hsplit hhead ⊢
  subst hsplit
  have hstream : (⟨0, PeerHeader.stream (before ++ onward)⟩ : Reader).stream =
      PeerHeader.stream (before ++ onward) := rfl
  by_cases hall : ∀ p ∈ before, p.Valid s.table
  · obtain ⟨acks, bitswap, r, w, hacks, hr, hw, heq⟩ :=
      slaveHandshakeLoop_append hrx htx false hall hstay hstream {}
    rw [List.nil_append] at hw
    apply iff_of_true _ fun _ => hall
    simp only [heq]
    cases onward with
    | nil =>
        rw [slaveHandshakeLoop_nil true bitswap hr]
        exact ⟨⟨acks, hacks, hw⟩, rfl⟩
    | cons p rest =>
        have haccepted := hhead p rest rfl
        obtain ⟨r', hr', hround⟩ := slaveHandshakeLoop_cons hrx htx true bitswap hr w
        rcases hround with ⟨-, -, hloop⟩ | ⟨hnot, -⟩
        · rw [hloop]
          exact ⟨⟨acks, hacks, hw⟩, _, r', rfl, hr'⟩
        · exact absurd ⟨rfl, haccepted⟩ hnot
  · obtain ⟨first, p, rest, rfl, hfirst, hwrong⟩ := exists_first_wrong hall
    rw [List.append_assoc, List.cons_append] at hstream ⊢
    obtain ⟨acks, hacks, hleft, hw⟩ := slaveHandshakeLoop_wrong hrx htx false hfirst
      (fun q hq => hstay q (List.mem_append_left _ hq)) hwrong hstream {}
    rw [List.nil_append] at hw
    simp only [hleft, hw]
    cases onward with
    | nil =>
        rw [List.append_nil] at hacks
        simp only [ne_eq, not_true_eq_false, false_implies, iff_true, and_true]
        exact ⟨acks, hacks, rfl⟩
    | cons q rest' =>
        simp only [hall, reduceCtorEq, false_and, exists_false, and_false, ne_eq,
          not_false_eq_true, imp_false, not_true_eq_false]

end

/-! ## A slave that knows TCP only -/

/-- A slave on a machine of the same byte order, over a connection that never cuts. -/
def tcpSlave : SlaveEnv where
  endian := .little
  table := ⟨fun q => q == 1, fun _ => []⟩
  control := masterAtSlave
  listen := fun _ p _ => p.port
  rx := .full
  tx := .full
  masterRx := .full
  masterTx := .full
  stack := {}
  strerror := []

/-- A header of a version of uperf that asks for a phase. -/
def headerFrom (endian : Endian) (version : List UInt8) (phase : UInt32) : PeerHeader where
  endian := endian
  header := {
    magic := strlcpy default uperfMagic
    endian := uperfEndianValue
    phase := phase
    version := strlcpy default version }
  marked := rfl

/-- Masters of both byte orders, each with a header for both phases. -/
theorem followsHeaders_twoPhases :
    FollowsHeaders tcpSlave
      [headerFrom .big uperfDataVersion 1, headerFrom .big uperfDataVersion 2] :=
  (followsHeaders_iff Kernel.full_positive Kernel.full_positive _).mpr
    fun _ => by decide +kernel

/-- A master that tries an old version first. -/
def oldThenNew : List PeerHeader :=
  [headerFrom .little (str "0.2") 1, headerFrom .little uperfDataVersion 2]

/-- The second header asks for phase 2 and is answered with `OK`, and the slave waits
for another one. -/
theorem not_followsHeaders_oldThenNew : ¬ FollowsHeaders tcpSlave oldThenNew := by
  have honward : PeerHeader.onward tcpSlave.table oldThenNew =
      [headerFrom .little uperfDataVersion 2] := by
    rw [PeerHeader.onward, oldThenNew, List.dropWhile_cons_of_pos (by decide +kernel),
      List.dropWhile_cons_of_neg (by decide +kernel)]
  have hwrong : ¬ (headerFrom .little (str "0.2") 1).Valid tcpSlave.table := by decide +kernel
  have hstream : (⟨0, PeerHeader.stream oldThenNew⟩ : Reader).stream = PeerHeader.stream
      ([] ++ headerFrom .little (str "0.2") 1 :: [headerFrom .little uperfDataVersion 2]) := rfl
  obtain ⟨-, -, hleft, -⟩ := slaveHandshakeLoop_wrong Kernel.full_positive Kernel.full_positive
    false (by simp) (by simp) hwrong hstream {}
  intro h
  unfold FollowsHeaders at h
  rw [honward] at h
  obtain ⟨-, bitswap, r, hsome, -⟩ := h
  simp only [hleft] at hsome
  cases hsome

end Uperf
