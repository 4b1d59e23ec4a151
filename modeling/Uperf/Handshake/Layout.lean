import Uperf.Workorder
import Uperf.Bswap

/-!
# The records on the wire

A work order goes over the control connection as `SIZEOF_GROUP_T`,
`SIZEOF_TXN_T` and `SIZEOF_FLOWOP_T` bytes of the records as they lie in memory.
Each of the three parts is the sequence of its fields without gaps, because the
fields are ordered by alignment and padded by hand.
-/

namespace Uperf

open Lib

/-- The image of `flowop_type_t`. -/
def FlowopType.codec : Codec FlowopType :=
  Codec.u32.iso FlowopType.code FlowopType.ofCode FlowopType.ofCode_code

section

open Codec

/-- The image of `struct flowop_options`. -/
def FlowopOptions.codec : Codec FlowopOptions :=
  iso
    (u32.pair <| u32.pair <| u32.pair <| u32.pair <| u32.pair <| u32.pair <| u32.pair <|
      u32.pair <| u64.pair <| u64.pair <| u64.pair <| u64.pair <| u64.pair <| u64.pair <|
      u32.pair <| u32.pair <| u32.pair <| u32.pair <| u32.pair <| u32.pair <| u32.pair <|
      u32.pair <| u32.pair <| u32.pair <| u32.pair <| u16.pair <| u16.pair <| u16.pair <|
      u16.pair <| u32.pair <| (CharArray.codec 8).pair <| (CharArray.codec 32).pair <|
      (CharArray.codec 32).pair <| (CharArray.codec 128).pair <|
      (CharArray.codec maxHostName).pair <| (CharArray.codec maxHostName).pair <|
      (CharArray.codec 20).pair <| (CharArray.codec 50).pair <|
      (CharArray.codec 5).pair (CharArray.codec 5))
    (fun o => (o.size, o.randSzMin, o.randSzMax, o.rsize, o.protocol, o.port, o.flag, o.nfiles,
      o.duration, o.wndsz, o.count, o.repeats, o.batchSize, o.pollTimeout, o.encapsPort, o.bblog,
      o.sctpRtoMin, o.sctpRtoMax, o.sctpRtoInitial, o.sctpSackDelay, o.sctpSackFrequency,
      o.sctpMaxBurstSize, o.sctpMaxFragmentSize, o.sctpHbInterval, o.sctpPathMtu,
      o.sctpOutStreams, o.sctpInStreams, o.sctpStreamId, o.sctpPadding, o.sctpPrValue,
      o.sctpPrPolicy, o.cc, o.stack, o.dir, o.remotehost, o.localhost, o.engine, o.cipher,
      o.method, o.padding))
    (fun (size, randSzMin, randSzMax, rsize, protocol, port, flag, nfiles, duration, wndsz,
        count, repeats, batchSize, pollTimeout, encapsPort, bblog, sctpRtoMin, sctpRtoMax,
        sctpRtoInitial, sctpSackDelay, sctpSackFrequency, sctpMaxBurstSize,
        sctpMaxFragmentSize, sctpHbInterval, sctpPathMtu, sctpOutStreams, sctpInStreams,
        sctpStreamId, sctpPadding, sctpPrValue, sctpPrPolicy, cc, stack, dir, remotehost,
        localhost, engine, cipher, method, padding) =>
      { size, randSzMin, randSzMax, rsize, protocol, port, flag, nfiles, duration, wndsz,
        count, repeats, batchSize, pollTimeout, encapsPort, bblog, sctpRtoMin, sctpRtoMax,
        sctpRtoInitial, sctpSackDelay, sctpSackFrequency, sctpMaxBurstSize,
        sctpMaxFragmentSize, sctpHbInterval, sctpPathMtu, sctpOutStreams, sctpInStreams,
        sctpStreamId, sctpPadding, sctpPrValue, sctpPrPolicy, cc, stack, dir, remotehost,
        localhost, engine, cipher, method, padding })
    (fun _ => rfl)

/-- The image of a flowop, `SIZEOF_FLOWOP_T` bytes. -/
def FlowopHead.codec : Codec FlowopHead :=
  iso (FlowopOptions.codec.pair <| FlowopType.codec.pair <| u32.pair <| u32.pair u32)
    (fun f => (f.options, f.type, f.pId, f.statid1, f.errors))
    (fun (options, type, pId, statid1, errors) => { options, type, pId, statid1, errors })
    (fun _ => rfl)

/-- The image of a transaction, `SIZEOF_TXN_T` bytes. -/
def TxnHead.codec : Codec TxnHead :=
  iso
    (u32.pair <| u32.pair <| u32.pair <| u32.pair <| u32.pair <| u32.pair <| u64.pair <|
      u64.pair (CharArray.codec 128))
    (fun t => (t.nflowop, t.txnid, t.statid1, t.unused, t.rateCount, t.dummy, t.iter, t.duration,
      t.rateStr))
    (fun (nflowop, txnid, statid1, unused, rateCount, dummy, iter, duration, rateStr) =>
      { nflowop, txnid, statid1, unused, rateCount, dummy, iter, duration, rateStr })
    (fun _ => rfl)

/-- The image of a group, `SIZEOF_GROUP_T` bytes. -/
def GroupHead.codec : Codec GroupHead :=
  iso (u32.pair <| u32.pair <| u32.pair <| u32.pair <| u32.pair u32)
    (fun g => (g.endian, g.strandFlag, g.nthreads, g.ntxn, g.maxAsync, g.groupid))
    (fun (endian, strandFlag, nthreads, ntxn, maxAsync, groupid) =>
      { endian, strandFlag, nthreads, ntxn, maxAsync, groupid })
    (fun _ => rfl)

end

/-! ## The sizes -/

theorem FlowopHead.size_codec : FlowopHead.codec.size = 944 := rfl

theorem TxnHead.size_codec : TxnHead.codec.size = 168 := rfl

theorem GroupHead.size_codec : GroupHead.codec.size = 24 := rfl

/-! ## What the other machine reads -/

@[simp] theorem FlowopType.swap_codec (type : FlowopType) :
    FlowopType.codec.swap type = ofCode (bswap32 type.code) := by
  rw [bswap32_eq]
  rfl

theorem FlowopHead.swap_codec (f : FlowopHead) :
    FlowopHead.codec.swap f =
      { options := FlowopOptions.codec.swap f.options
        type := FlowopType.ofCode (bswap32 f.type.code)
        pId := bswap32 f.pId
        statid1 := bswap32 f.statid1
        errors := bswap32 f.errors } := by
  simp only [bswap32_eq]
  rfl

theorem TxnHead.swap_codec (t : TxnHead) :
    TxnHead.codec.swap t =
      { t with
        nflowop := bswap32 t.nflowop
        txnid := bswap32 t.txnid
        statid1 := bswap32 t.statid1
        unused := bswap32 t.unused
        rateCount := bswap32 t.rateCount
        dummy := bswap32 t.dummy
        iter := bswap64 t.iter
        duration := bswap64 t.duration } := by
  simp only [bswap32_eq, bswap64_eq]
  rfl

theorem GroupHead.swap_codec (g : GroupHead) :
    GroupHead.codec.swap g =
      { endian := bswap32 g.endian
        strandFlag := bswap32 g.strandFlag
        nthreads := bswap32 g.nthreads
        ntxn := bswap32 g.ntxn
        maxAsync := bswap32 g.maxAsync
        groupid := bswap32 g.groupid } := by
  simp only [bswap32_eq]
  rfl

end Uperf
