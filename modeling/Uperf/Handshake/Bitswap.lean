import Uperf.Handshake.Transfer

/-!
# Work orders between machines of different byte order

`rx_group_t` swaps the counts and the flowop types while it reads, and
`group_bitswap` swaps the rest of what the slave uses, field by field.  Two
fields are missing from its list, the connection id `p_id` and the option
`bblog`, so a slave of the other byte order has the master's numbers exactly
when reversing these two changes nothing (`usedIntegers_groupBitswap_iff`).
-/

namespace Uperf

open Lib

/-- The inner loop body of `group_bitswap`. -/
def FlowopOptions.bitswap (fo : FlowopOptions) : FlowopOptions :=
  { fo with
    size := bswap32 fo.size
    randSzMin := bswap32 fo.randSzMin
    randSzMax := bswap32 fo.randSzMax
    rsize := bswap32 fo.rsize
    protocol := bswap32 fo.protocol
    port := bswap32 fo.port
    flag := bswap32 fo.flag
    nfiles := bswap32 fo.nfiles
    duration := bswap64 fo.duration
    wndsz := bswap64 fo.wndsz
    count := bswap64 fo.count
    repeats := bswap64 fo.repeats
    batchSize := bswap64 fo.batchSize
    pollTimeout := bswap64 fo.pollTimeout
    encapsPort := bswap32 fo.encapsPort
    sctpRtoMin := bswap32 fo.sctpRtoMin
    sctpRtoMax := bswap32 fo.sctpRtoMax
    sctpRtoInitial := bswap32 fo.sctpRtoInitial
    sctpSackDelay := bswap32 fo.sctpSackDelay
    sctpSackFrequency := bswap32 fo.sctpSackFrequency
    sctpMaxBurstSize := bswap32 fo.sctpMaxBurstSize
    sctpMaxFragmentSize := bswap32 fo.sctpMaxFragmentSize
    sctpHbInterval := bswap32 fo.sctpHbInterval
    sctpPathMtu := bswap32 fo.sctpPathMtu
    sctpOutStreams := bswap16 fo.sctpOutStreams
    sctpInStreams := bswap16 fo.sctpInStreams
    sctpStreamId := bswap16 fo.sctpStreamId
    sctpPadding := bswap16 fo.sctpPadding
    sctpPrValue := bswap32 fo.sctpPrValue }

def Flowop.bitswap (f : Flowop) : Flowop := { f with options := f.options.bitswap }

/-- The outer loop body of `group_bitswap`. -/
def Txn.bitswap (txn : Txn) : Txn :=
  { txn with
    iter := bswap64 txn.iter
    txnid := bswap32 txn.txnid
    duration := bswap64 txn.duration
    rateCount := bswap32 txn.rateCount
    flist := txn.flist.map Flowop.bitswap }

/-- `group_bitswap`. -/
def groupBitswap (grp : Group) : Group :=
  { grp with
    nthreads := bswap32 grp.nthreads
    maxAsync := bswap32 grp.maxAsync
    tlist := grp.tlist.map Txn.bitswap }

/-! ## The numbers that the slave uses -/

/-- The integer members of `flowop_options`. -/
def FlowopOptions.integers (o : FlowopOptions) : List ℕ :=
  [o.size.toNat, o.randSzMin.toNat, o.randSzMax.toNat, o.rsize.toNat, o.protocol.toNat,
    o.port.toNat, o.flag.toNat, o.nfiles.toNat, o.duration.toNat, o.wndsz.toNat, o.count.toNat,
    o.repeats.toNat, o.batchSize.toNat, o.pollTimeout.toNat, o.encapsPort.toNat, o.bblog.toNat,
    o.sctpRtoMin.toNat, o.sctpRtoMax.toNat, o.sctpRtoInitial.toNat, o.sctpSackDelay.toNat,
    o.sctpSackFrequency.toNat, o.sctpMaxBurstSize.toNat, o.sctpMaxFragmentSize.toNat,
    o.sctpHbInterval.toNat, o.sctpPathMtu.toNat, o.sctpOutStreams.toNat, o.sctpInStreams.toNat,
    o.sctpStreamId.toNat, o.sctpPadding.toNat, o.sctpPrValue.toNat]

def Flowop.integers (f : Flowop) : List ℕ :=
  f.type.code.toNat :: f.pId.toNat :: f.options.integers

def Txn.integers (txn : Txn) : List ℕ :=
  [txn.nflowop.toNat, txn.iter.toNat, txn.txnid.toNat, txn.duration.toNat, txn.rateCount.toNat]

def Group.integers (g : Group) : List ℕ := [g.nthreads.toNat, g.ntxn.toNat]

/-- All numbers of a work order that its slave uses, in their places. -/
def Group.usedIntegers (g : Group) : List ℕ × List (List ℕ × List (List ℕ)) :=
  (g.integers, g.tlist.map fun txn => (txn.integers, txn.flist.map Flowop.integers))

/-! ## Swapping what the other machine reads -/

theorem FlowopOptions.swap_codec (o : FlowopOptions) :
    FlowopOptions.codec.swap o = { o.bitswap with bblog := bswap32 o.bblog } := by
  simp only [FlowopOptions.bitswap, bswap16_eq, bswap32_eq, bswap64_eq]
  rfl

/-- One more swap repairs every option but `bblog`. -/
theorem FlowopOptions.bitswap_swap_codec (o : FlowopOptions) :
    (FlowopOptions.codec.swap o).bitswap = { o with bblog := bswap32 o.bblog } := by
  simp [swap_codec, FlowopOptions.bitswap]

theorem FlowopOptions.integers_bitswap_received (p : Protocol) (o : FlowopOptions) :
    (o.received p).bitswap.integers = o.bitswap.integers := by
  unfold received
  split <;> rfl

theorem FlowopOptions.integers_received (p : Protocol) (o : FlowopOptions) :
    (o.received p).integers = o.integers := by
  unfold received
  split <;> rfl

theorem FlowopOptions.integers_bblog_iff (o : FlowopOptions) (bblog : UInt32) :
    { o with bblog := bblog }.integers = o.integers ↔ bblog = o.bblog := by
  simp [integers, UInt32.toNat_inj]

section

variable {e e' : Endian} (hne : e ≠ e') (p p' : Protocol)
include hne

theorem Flowop.integers_bitswap_view (f : Flowop) :
    (f.view e e' p').bitswap.integers =
      f.type.code.toNat :: (bswap32 f.pId).toNat ::
        { f.options with bblog := bswap32 f.options.bblog }.integers := by
  have htype : unswap32 (decide (e ≠ e')) (bswap32 f.type.code) = f.type.code := by
    simp [unswap32, hne]
  rw [Flowop.view, Codec.seen_of_ne _ hne, FlowopHead.swap_codec, Flowop.integers,
    Flowop.bitswap, FlowopHead.received]
  simp only [FlowopOptions.integers_bitswap_received, FlowopOptions.bitswap_swap_codec,
    FlowopType.code_ofCode, htype]

theorem Flowop.integers_bitswap_view_iff (f : Flowop) :
    (f.view e e' p').bitswap.integers = (f.view e e p).integers ↔
      bswap32 f.pId = f.pId ∧ bswap32 f.options.bblog = f.options.bblog := by
  have hsame : (f.view e e p).integers =
      f.type.code.toNat :: f.pId.toNat :: f.options.integers := by
    simp [Flowop.view, FlowopHead.received, Flowop.integers, unswap32,
      FlowopOptions.integers_received]
  rw [integers_bitswap_view hne, hsame]
  simp only [List.cons.injEq, FlowopOptions.integers_bblog_iff, UInt32.toNat_inj, true_and]

theorem Txn.integers_bitswap_view (txn : Txn) :
    (txn.view e e' p').bitswap.integers = (txn.view e e p).integers := by
  simp [Txn.view, Txn.bitswap, Txn.integers, Codec.seen_of_ne _ hne, TxnHead.swap_codec]

theorem Group.integers_groupBitswap_view (g : Group) :
    (groupBitswap (g.view e e' p')).integers = (g.view e e p).integers := by
  simp [Group.view, groupBitswap, Group.integers, Codec.seen_of_ne _ hne, GroupHead.swap_codec]

/-- The swapped work order has the master's numbers exactly when the two
fields that `group_bitswap` leaves out read the same in both orders. -/
theorem usedIntegers_groupBitswap_iff (g : Group) :
    (groupBitswap (g.view e e' p')).usedIntegers = (g.view e e p).usedIntegers ↔
      ∀ f ∈ g.flowops, bswap32 f.pId = f.pId ∧ bswap32 f.options.bblog = f.options.bblog := by
  have htxn : ∀ txn : Txn,
      ((txn.view e e' p').bitswap.integers, (txn.view e e' p').bitswap.flist.map Flowop.integers) =
        ((txn.view e e p).integers, (txn.view e e p).flist.map Flowop.integers) ↔
      ∀ f ∈ txn.flist, bswap32 f.pId = f.pId ∧ bswap32 f.options.bblog = f.options.bblog := by
    intro txn
    rw [Prod.mk.injEq, and_iff_right (Txn.integers_bitswap_view hne p p' txn)]
    simp only [Txn.bitswap, Txn.view, List.map_map, List.map_inj_left, Function.comp_apply,
      Flowop.integers_bitswap_view_iff hne]
  rw [Group.usedIntegers, Group.usedIntegers, Prod.mk.injEq,
    and_iff_right (Group.integers_groupBitswap_view hne p p' g)]
  simp only [groupBitswap, Group.view, List.map_map, List.map_inj_left, Function.comp_apply,
    htxn, Group.flowops, List.mem_flatMap]
  grind

end

/-! ## The work order of a slave -/

def Flowop.decoded (e e' : Endian) (p : Protocol) (f : Flowop) : Flowop :=
  if e = e' then f.view e e' p else (f.view e e' p).bitswap

/-- What `slave_handshake` makes of the group `g`: it comes from `rx_group_t`
and goes through `group_bitswap` when the byte orders differ. -/
def Group.decoded (e e' : Endian) (p : Protocol) (g : Group) : Group :=
  if e = e' then g.view e e' p else groupBitswap (g.view e e' p)

section

variable (e e' : Endian) (p : Protocol)

theorem flowops_decoded (g : Group) :
    (g.decoded e e' p).flowops = g.flowops.map (Flowop.decoded e e' p) := by
  unfold Group.decoded Flowop.decoded
  split_ifs
  · simp [Group.view, Txn.view, Group.flowops, List.flatMap_map, List.map_flatMap]
  · simp [groupBitswap, Txn.bitswap, Group.view, Txn.view, Group.flowops, List.flatMap_map,
      List.map_flatMap, Function.comp_def]

theorem Group.nthreads_decoded (g : Group) : (g.decoded e e' p).nthreads = g.nthreads := by
  unfold decoded
  split_ifs with heq
  · simp [heq, view]
  · simp [view, groupBitswap, Codec.seen_of_ne _ heq, GroupHead.swap_codec]

theorem Group.ntxn_decoded (g : Group) : (g.decoded e e' p).ntxn = g.ntxn := by
  unfold decoded
  split_ifs <;> rfl

theorem Flowop.type_decoded (f : Flowop) : (f.decoded e e' p).type = f.type := by
  unfold decoded
  split_ifs with heq
  · simp [heq, view, FlowopHead.received, unswap32]
  · simp [heq, view, Flowop.bitswap, FlowopHead.received, unswap32, Codec.seen_of_ne _ heq,
      FlowopHead.swap_codec]

/-- The hosts do not matter to the swap. -/
theorem FlowopOptions.bitswap_received (o : FlowopOptions) :
    (o.received p).bitswap = o.bitswap.received p := by
  unfold received
  by_cases hset : o.localhost.isEmpty
  · have hset' : o.bitswap.localhost.isEmpty = true := hset
    simp only [hset, hset', not_true_eq_false, if_false]
    rfl
  · have hset' : ¬ o.bitswap.localhost.isEmpty = true := hset
    simp only [hset, hset']
    rfl

theorem Flowop.options_decoded (f : Flowop) : ∃ bblog,
    (f.decoded e e' p).options = { f.options with bblog := bblog }.received p := by
  unfold decoded
  split_ifs with heq
  · exact ⟨f.options.bblog, by simp [heq, view, FlowopHead.received]⟩
  · refine ⟨bswap32 f.options.bblog, ?_⟩
    simp only [view, Flowop.bitswap, FlowopHead.received, Codec.seen_of_ne _ heq,
      FlowopHead.swap_codec, FlowopOptions.bitswap_received, FlowopOptions.bitswap_swap_codec]

@[simp] theorem Flowop.protocol_decoded (f : Flowop) :
    (f.decoded e e' p).options.protocol = f.options.protocol := by
  obtain ⟨bblog, h⟩ := f.options_decoded e e' p
  rw [h, FlowopOptions.received]
  split <;> rfl

/-- The host that the slave's flowop names. -/
theorem Flowop.remotehost_decoded (hp : p.host.Terminated) (f : Flowop)
    (hlocal : f.options.localhost.Terminated) :
    (f.decoded e e' p).options.remotehost.cstr =
      if f.options.localhost.isEmpty then p.host.cstr else f.options.localhost.cstr := by
  obtain ⟨bblog, h⟩ := f.options_decoded e e' p
  rw [h, FlowopOptions.received]
  by_cases hset : f.options.localhost.isEmpty
  · simp only [hset, not_true_eq_false, if_false, if_true]
    exact cstr_strlcpy_cstr _ hp
  · simp only [hset]
    exact cstr_strlcpy_cstr _ hlocal

end

/-- The endian marker reads differently on a machine of the other byte order. -/
theorem endian_seen_ne_iff (e e' : Endian) {g : GroupHead} (hg : g.endian = uperfEndianValue) :
    uperfEndianValue ≠ (GroupHead.codec.seen e e' g).endian ↔ e ≠ e' := by
  by_cases hne : e = e'
  · simp [hne, hg]
  · have hswap : uperfEndianValue ≠ bswap32 uperfEndianValue := by decide
    simp [hne, Codec.seen_of_ne _ hne, GroupHead.swap_codec, hg, hswap]

/-- A work order that `tx_group_t` sends to `host` reaches a slave of the other
byte order with the numbers that a slave of the same order gets if and only if
every connection id and every `bblog` is unchanged by byte reversal. -/
theorem rxGroupT_groupBitswap_iff {g : Group} (hg : g.Counted)
    (hendian : g.endian = uperfEndianValue) {e e' : Endian} (hne : e ≠ e')
    {out inp inp' : Kernel} (hout : out.Positive) (hinp : inp.Positive) (hinp' : inp'.Positive)
    (host : HostName) (p p' : Protocol) (w : Writer) :
    ∃ w' bytes, txGroupT out e g host w = some w' ∧ w'.sent = w.sent ++ bytes ∧
      ∀ r r' rest, r.stream = bytes ++ rest → r'.stream = bytes ++ rest →
        ∃ same other rs rs',
          rxGroupT inp e p uperfEndianValue r = some (same, rs) ∧
          rxGroupT inp' e' p' uperfEndianValue r' = some (other, rs') ∧
          ((groupBitswap other).usedIntegers = same.usedIntegers ↔
            ∀ f ∈ g.flowops, bswap32 f.pId = f.pId ∧
              bswap32 f.options.bblog = f.options.bblog) := by
  obtain ⟨w', htx, hsent⟩ := txGroupT_positive hout e g host w
  refine ⟨w', (txCopy g host).image e, htx, hsent, fun r r' rest hstream hstream' => ?_⟩
  have hmark : (txCopy g host).endian = uperfEndianValue := by simpa [txCopy_eq] using hendian
  obtain ⟨rs, hrx, -⟩ := rxGroupT_image hinp e e p (hg.txCopy host)
    (endian_seen_ne_iff e e hmark) r rest hstream
  obtain ⟨rs', hrx', -⟩ := rxGroupT_image hinp' e e' p' (hg.txCopy host)
    (endian_seen_ne_iff e e' hmark) r' rest hstream'
  refine ⟨_, _, rs, rs', hrx, hrx', ?_⟩
  rw [usedIntegers_groupBitswap_iff hne, flowops_txCopy]
  simp

theorem rxGroupT_groupBitswap_iff_connectGroup :
    ∃ w' bytes, txGroupT .full .little connectGroup (HostName.ofBytes [104, 49]) {} = some w' ∧
      w'.sent = [] ++ bytes ∧
      ∀ r r' rest, r.stream = bytes ++ rest → r'.stream = bytes ++ rest →
        ∃ same other rs rs',
          rxGroupT .full .little masterAtSlave uperfEndianValue r = some (same, rs) ∧
          rxGroupT .full .big masterAtSlave uperfEndianValue r' = some (other, rs') ∧
          ((groupBitswap other).usedIntegers = same.usedIntegers ↔
            ∀ f ∈ connectGroup.flowops, bswap32 f.pId = f.pId ∧
              bswap32 f.options.bblog = f.options.bblog) :=
  rxGroupT_groupBitswap_iff connectGroup_counted rfl (by decide) Kernel.full_positive
    Kernel.full_positive Kernel.full_positive _ _ _ {}

/-- A big-endian slave of `connectGroup` does not get the connection id 1. -/
theorem rxGroupT_groupBitswap_connectGroup_ne :
    ∃ w' same other rs rs',
      txGroupT .full .little connectGroup (HostName.ofBytes [104, 49]) {} = some w' ∧
      rxGroupT .full .little masterAtSlave uperfEndianValue ⟨0, w'.sent⟩ = some (same, rs) ∧
      rxGroupT .full .big masterAtSlave uperfEndianValue ⟨0, w'.sent⟩ = some (other, rs') ∧
      (groupBitswap other).usedIntegers ≠ same.usedIntegers := by
  have hcounted := connectGroup_counted.txCopy (HostName.ofBytes [104, 49])
  obtain ⟨w', htx, hsent⟩ := txGroupT_positive Kernel.full_positive .little connectGroup
    (HostName.ofBytes [104, 49]) {}
  obtain ⟨rs, hrx, -⟩ := rxGroupT_image Kernel.full_positive .little .little masterAtSlave
    hcounted (endian_seen_ne_iff _ _ rfl) ⟨0, w'.sent⟩ [] (by simp [hsent])
  obtain ⟨rs', hrx', -⟩ := rxGroupT_image Kernel.full_positive .little .big masterAtSlave
    hcounted (endian_seen_ne_iff _ _ rfl) ⟨0, w'.sent⟩ [] (by simp [hsent])
  refine ⟨w', _, _, rs, rs', htx, hrx, hrx', ?_⟩
  rw [Ne, usedIntegers_groupBitswap_iff (by decide), flowops_txCopy]
  simp only [List.forall_mem_map, Flowop.pId_nopOther, Flowop.pId_forSlave]
  intro hsame
  exact absurd (hsame _ (List.mem_singleton.mpr rfl)).1 (by decide)

end Uperf
