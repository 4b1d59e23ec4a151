import Uperf.Accepts
import Uperf.Handshake.Layout

/-!
# The messages of the handshake

The headers and acknowledgements of `handshake.h`, and `slave_info_t` as it is
sent, an array with one entry for each thread.
-/

namespace Uperf

open Lib

/-- `struct hs_phase1`, also the only member of `struct hs_phase2`. -/
structure HsPhase1 where
  magic : CharArray 32 := default
  endian : UInt32 := 0
  phase : UInt32 := 0
  noSlaveInfo : UInt32 := 0
  padding : UInt32 := 0
  protocol : Vector UInt32 numProtocols := Vector.replicate numProtocols 0
  version : CharArray 16 := default
  host : HostName := default

/-- `struct hs_phase1_ack`. -/
structure HsPhase1Ack where
  status : CharArray 64 := default
  message : CharArray 128 := default

/-- `struct hs_phase2_ack`. -/
structure HsPhase2Ack where
  p1a : HsPhase1Ack := {}
  noSlaveInfo : UInt32 := 0

section

open Codec

def HsPhase1.codec : Codec HsPhase1 :=
  iso
    ((CharArray.codec 32).pair <| u32.pair <| u32.pair <| u32.pair <| u32.pair <|
      (u32.vector numProtocols).pair <| (CharArray.codec 16).pair (CharArray.codec maxHostName))
    (fun h => (h.magic, h.endian, h.phase, h.noSlaveInfo, h.padding, h.protocol, h.version,
      h.host))
    (fun (magic, endian, phase, noSlaveInfo, padding, protocol, version, host) =>
      { magic, endian, phase, noSlaveInfo, padding, protocol, version, host })
    (fun _ => rfl)

def HsPhase1Ack.codec : Codec HsPhase1Ack :=
  iso ((CharArray.codec 64).pair (CharArray.codec 128)) (fun a => (a.status, a.message))
    (fun (status, message) => { status, message }) (fun _ => rfl)

def HsPhase2Ack.codec : Codec HsPhase2Ack :=
  iso (HsPhase1Ack.codec.pair u32) (fun a => (a.p1a, a.noSlaveInfo))
    (fun (p1a, noSlaveInfo) => { p1a, noSlaveInfo }) (fun _ => rfl)

def SlaveInfo.codec : Codec SlaveInfo :=
  iso ((CharArray.codec maxHostName).pair (i32.vector numProtocols)) (fun si => (si.host, si.port))
    (fun (host, port) => { host, port }) (fun _ => rfl)

end

/-- `UPERF_MAGIC`. -/
def uperfMagic : List UInt8 := str "0xbadcafedeadbeef"

/-- `UPERF_DATA_VERSION`. -/
def uperfDataVersion : List UInt8 := str "0.3.1"

/-- `UPERF_OK`. -/
def uperfOk : List UInt8 := str "OK"

/-- `UPERF_NOT_OK`. -/
def uperfNotOk : List UInt8 := str "Not OK"

/-! ## What the other machine reads -/

theorem HsPhase1.swap_codec (h : HsPhase1) :
    HsPhase1.codec.swap h =
      { h with
        endian := bswap32 h.endian
        phase := bswap32 h.phase
        noSlaveInfo := bswap32 h.noSlaveInfo
        padding := bswap32 h.padding
        protocol := h.protocol.map bswap32 } := by
  simp only [funext bswap32_eq]
  rfl

theorem HsPhase2Ack.swap_codec (a : HsPhase2Ack) :
    HsPhase2Ack.codec.swap a = { a with noSlaveInfo := bswap32 a.noSlaveInfo } := by
  simp only [bswap32_eq]
  rfl

theorem SlaveInfo.swap_codec (si : SlaveInfo) :
    SlaveInfo.codec.swap si = { si with port := si.port.map bswap32 } := by
  simp only [funext bswap32_i32_eq]
  rfl

/-! ## Arrays of `slave_info_t` -/

/-- The image of the first `n` entries. -/
def slaveInfoImage (e : Endian) (si : SlaveInfos) (n : ℕ) : List UInt8 :=
  ((List.range n).map si).flatMap (SlaveInfo.codec.put e)

theorem length_slaveInfoImage (e : Endian) (si : SlaveInfos) (n : ℕ) :
    (slaveInfoImage e si n).length = n * SlaveInfo.codec.size := by
  rw [slaveInfoImage, Codec.length_flatMap_put, List.length_map, List.length_range]

theorem entry_slaveInfoImage (e e' : Endian) (si : SlaveInfos) {n i : ℕ} (hi : i < n) :
    SlaveInfo.codec.entry e' (slaveInfoImage e si n) i = SlaveInfo.codec.seen e e' (si i) := by
  rw [slaveInfoImage, Codec.entry_flatMap_put _ _ _ _ (by simpa using hi)]
  simp

end Uperf
