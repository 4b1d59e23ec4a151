import Uperf.Handshake.Bitswap
import Uperf.Handshake.Messages

/-!
# Phase 2 of the handshake

The master sends each slave of each group a header, the work order and, if its
own threads accept, the ports they listen on; the slave opens the ports for its
accept flowops and answers with them.  Each side waits for the other, so the
two programs are run one after the other on the bytes exchanged.
-/

namespace Uperf

open Lib

/-- The table `plist` of a build: the protocols it knows and their names. -/
structure ProtocolTable where
  valid : ℕ → Bool
  name : ℕ → List UInt8

/-- A slave process and its control connection: its byte order, what the system
calls of both ends return, its `listen`, and what the stack holds where
`slave_handshake_p2_success` and `slave_handshake_p2_failure` put `hsp2a`. -/
structure SlaveEnv where
  endian : Endian
  table : ProtocolTable
  control : Protocol
  listen : Listen
  rx : Kernel
  tx : Kernel
  masterRx : Kernel
  masterTx : Kernel
  stack : HsPhase2Ack
  strerror : List UInt8

/-- The master process. -/
structure MasterEnv where
  endian : Endian
  listen : Listen

/-! ## The slave -/

/-- `HANDSHAKE_PHASE_2`. -/
def handshakePhase2Code : UInt32 := 2

/-- The header as `slave_handshake` uses it after its byte swap. -/
def HsPhase1.swapped (hsp1 : HsPhase1) : HsPhase1 :=
  { hsp1 with
    phase := bswap32 hsp1.phase
    noSlaveInfo := bswap32 hsp1.noSlaveInfo
    protocol := hsp1.protocol.map bswap32 }

/-- The sender of the header has the other byte order. -/
def HsPhase1.differs (hsp1 : HsPhase1) : Bool := hsp1.endian ≠ uperfEndianValue

/-- The header as the slave reads it. -/
def HsPhase1.native (hsp1 : HsPhase1) : HsPhase1 := if hsp1.differs then hsp1.swapped else hsp1

/-- The loop of `slave_handshake` over the protocols that a header asks for. -/
def checkProtocols (table : ProtocolTable) (protocol : Vector UInt32 numProtocols)
    (status : Bool) (hsp1a : HsPhase1Ack) : Bool × HsPhase1Ack :=
  (List.finRange numProtocols).foldl
    (fun (status, hsp1a) i =>
      if protocol.get i = 0 ∨ table.valid i then (status, hsp1a)
      else
        (false,
          { status := strlcpy hsp1a.status uperfNotOk
            message := strlcpy hsp1a.message (str "Unsupported protocol:" ++ table.name i) }))
    (status, hsp1a)

/-- The checks of `slave_handshake` on a header: the new value of its variable
`status` and the answer.  Of a version without a terminator the message here has the
16 bytes of the array, where `snprintf` goes on into the fields behind it. -/
def checkHeader (table : ProtocolTable) (hsp1 : HsPhase1) (status : Bool) : Bool × HsPhase1Ack :=
  let hsp1a : HsPhase1Ack := { status := strlcpy (CharArray.zero 64) uperfOk }
  if ¬ strncmpEq hsp1.magic uperfMagic (uperfMagic.length + 1) then
    (false,
      { message := strlcpy hsp1a.message (str "Wrong magic")
        status := strlcpy hsp1a.status uperfNotOk })
  else if ¬ strncmpEq hsp1.version uperfDataVersion 16 then
    (false,
      { message := strlcpy hsp1a.message
          (str "Version " ++ uperfDataVersion ++
            str " is incompatible with master data version " ++ hsp1.version.cstr)
        status := strlcpy hsp1a.status uperfNotOk })
  else checkProtocols table hsp1.protocol status hsp1a

/-- The loop of `slave_handshake`, with `status` and `shm->bitswap`: the header
that ends it, or nothing when the connection fails. -/
def slaveHandshakeLoop (s : SlaveEnv) (status bitswap : Bool) (r : Reader) (w : Writer) :
    Option (HsPhase1 × Bool × Reader) × Writer :=
  match _hread : rxRecord s.rx HsPhase1.codec s.endian r with
  | none => (none, w)
  | some (hsp1, r') =>
      let bitswap := bitswap || hsp1.differs
      let checked := checkHeader s.table hsp1.native status
      if hsp1.native.phase = handshakePhase2Code ∧ checked.1 = true then
        (some (hsp1.native, bitswap, r'), w)
      else
        let sent := ensureWrite s.tx (HsPhase1Ack.codec.put s.endian checked.2) w
        if sent.1 ≤ 0 then (none, sent.2)
        else slaveHandshakeLoop s checked.1 bitswap r' sent.2
termination_by r.stream.length
decreasing_by exact rxRecord_stream_lt _hread

/-- `slave_handshake`. -/
def slaveHandshake (s : SlaveEnv) (r : Reader) (w : Writer) : Option (Shm × Reader) × Writer :=
  let (header, w) := slaveHandshakeLoop s true false r w
  let result := do
    let (hsp1, bitswap, r) ← header
    let (worklist, r) ← rxGroupT s.rx s.endian s.control uperfEndianValue r
    let worklist := if bitswap then groupBitswap worklist else worklist
    let shm : Shm :=
      { bitswap := bitswap, rxNoSlaveInfo := hsp1.noSlaveInfo, worklist := worklist }
    some (shm, r)
  (result, w)

/-- Reading `no` entries of `slave_info_t`. -/
def rxSlaveInfos (k : Kernel) (e : Endian) (no : UInt32) (r : Reader) :
    Option (SlaveInfos × Reader) := do
  let (bytes, r) ← tryRead k (no.toNat * SlaveInfo.codec.size) r
  some (SlaveInfo.codec.entry e bytes, r)

/-- `slave_handshake_p2_complete`. -/
def slaveHandshakeP2Complete (s : SlaveEnv) (shm : Shm) (r : Reader) : Option (Shm × Reader) := do
  let (si, r) ← rxSlaveInfos s.rx s.endian shm.rxNoSlaveInfo r
  let si : SlaveInfos := fun i =>
    if i < shm.rxNoSlaveInfo.toNat ∧ shm.bitswap then { si i with port := (si i).port.map bswap32 }
    else si i
  some (updateStrandWithSlaveInfo shm si s.control.host shm.worklist.nthreads.toNat 0, r)

/-- The swap of the ports in `slave_handshake_p2_success`. -/
def SlaveInfo.swapPositive (si : SlaveInfo) : SlaveInfo :=
  { si with port := si.port.map fun port => if port > 0 then bswap32 port else port }

/-- The variable `hsp2a` of `slave_handshake_p2_success` when it is sent. -/
def ackOf (s : SlaveEnv) (bitswap : Bool) (no : UInt32) : HsPhase2Ack where
  p1a := { s.stack.p1a with status := strlcpy s.stack.p1a.status uperfOk }
  noSlaveInfo := if bitswap then bswap32 no else no

/-- The array of `slave_handshake_p2_success` when it is sent. -/
def swappedFor (bitswap : Bool) (no : UInt32) (sl : SlaveInfos) : SlaveInfos := fun i =>
  if i < no.toNat ∧ bitswap then (sl i).swapPositive else sl i

/-- `slave_handshake_p2_success`. -/
def slaveHandshakeP2Success (s : SlaveEnv) (sl : SlaveInfos) (no : UInt32) (bitswap : Bool)
    (w : Writer) : Bool × Writer :=
  let sent := ensureWrite s.tx (HsPhase2Ack.codec.put s.endian (ackOf s bitswap no)) w
  if sent.1 ≤ 0 then (false, sent.2)
  else if no = 0 then (true, sent.2)
  else
    let sl := swappedFor bitswap no sl
    let sent := ensureWrite s.tx (slaveInfoImage s.endian sl no.toNat) sent.2
    (decide (0 < sent.1), sent.2)

/-- `slave_handshake_p2_failure`. -/
def slaveHandshakeP2Failure (s : SlaveEnv) (message : List UInt8) (w : Writer) : Writer :=
  let p1a := { s.stack.p1a with message := strlcpy s.stack.p1a.message message }
  (ensureWrite s.tx (HsPhase2Ack.codec.put s.endian { s.stack with p1a := p1a }) w).2

/-- `slave_master` up to the end of phase 2: its `shm` if it gets there, and
what it has written. -/
def slaveMaster (s : SlaveEnv) (stream : List UInt8) : Option Shm × List UInt8 :=
  match slaveHandshake s ⟨0, stream⟩ {} with
  | (none, w) => (none, w.sent)
  | (some (shm, r), w) =>
      match if shm.rxNoSlaveInfo > 0 then slaveHandshakeP2Complete s shm r else some (shm, r) with
      | none => (none, (slaveHandshakeP2Failure s (str "error in strand_init_all") w).sent)
      | some (shm, _) =>
          match preprocessAccepts s.listen shm shm.worklist 0 with
          | none =>
              (none,
                (slaveHandshakeP2Failure s (str "Error creating ports: " ++ s.strerror) w).sent)
          | some (shm, sl) =>
              if shm.worklist.ntxn.toNat > numBarrier then (none, w.sent)
              else
                let (done, w) :=
                  slaveHandshakeP2Success s (sl.getD fun _ => {}) shm.txNoSlaveInfo shm.bitswap w
                (if done then some shm else none, w.sent)

/-! ## The master -/

/-- The header that `handshake_p2_with_slave` sends. -/
def hsPhase2Header (si : Option SlaveInfos) (g : Group) : HsPhase1 where
  phase := handshakePhase2Code
  magic := strlcpy (CharArray.zero 32) uperfMagic
  endian := uperfEndianValue
  version := strlcpy (CharArray.zero 16) uperfDataVersion
  noSlaveInfo := if si.isSome then g.nthreads else 0

/-- What `handshake_p2_with_slave` writes after its own `preprocess_accepts`. -/
def txPhase2 (k : Kernel) (e : Endian) (si : Option SlaveInfos) (g : Group) (host : HostName)
    (w : Writer) : Option Writer := do
  let w ← tryWrite k (HsPhase1.codec.put e (hsPhase2Header si g)) w
  let w ← txGroupT k e g host w
  match si with
  | some si => tryWrite k (slaveInfoImage e si g.nthreads.toNat) w
  | none => some w

/-- What `handshake_p2_with_slave` does with the answer of the slave. -/
def rxPhase2 (k : Kernel) (e : Endian) (shm : Shm) (host : HostName) (g : Group) (ssid : ℕ)
    (r : Reader) : Option Shm := do
  let (hsp2a, r) ← rxRecord k HsPhase2Ack.codec e r
  if hsp2a.p1a.status.cstr ≠ uperfOk then none
  else if hsp2a.noSlaveInfo > 0 then do
    let (si, _) ← rxSlaveInfos k e hsp2a.noSlaveInfo r
    some (updateStrandWithSlaveInfo shm si host g.nthreads.toNat ssid)
  else some shm

/-- `handshake_p2_with_slave`, with the slave at the other end. -/
def handshakeP2WithSlave (m : MasterEnv) (s : SlaveEnv) (shm : Shm) (host : HostName) (g : Group)
    (ssid : ℕ) : Option (Shm × Option Shm) := do
  let (shm, si) ← preprocessAccepts m.listen shm g ssid
  let w ← txPhase2 s.masterTx m.endian si g host {}
  let (slave, reply) := slaveMaster s w.sent
  let shm ← rxPhase2 s.masterRx m.endian shm host g ssid ⟨0, reply⟩
  some (shm, slave)

/-- The inner loop of `handshake_phase2`, from the `c`-th control connection on. -/
def handshakePhase2Group (m : MasterEnv) (slave : ℕ → SlaveEnv) (g : Group) (id : ℕ) :
    ℕ → List Protocol → Shm → Option (Shm × List (Option Shm))
  | _, [], shm => some (shm, [])
  | c, p :: rest, shm => do
      let (shm, s) ← handshakeP2WithSlave m (slave c) shm p.host g id
      let (shm, slaves) ← handshakePhase2Group m slave g id (c + 1) rest shm
      some (shm, s :: slaves)

/-- The outer loop of `handshake_phase2`, from the `i`-th group on. -/
def handshakePhase2Groups (m : MasterEnv) (slave : ℕ → ℕ → SlaveEnv) :
    ℕ → ℕ → List Group → Shm → Option (Shm × List (List (Option Shm)))
  | _, _, [], shm => some (shm, [])
  | i, id, g :: rest, shm => do
      let (shm, slaves) ← handshakePhase2Group m (slave i) g id 0 g.control shm
      let (shm, others) ←
        handshakePhase2Groups m slave (i + 1) (id + g.nthreads.toNat) rest shm
      some (shm, slaves :: others)

/-- `handshake_phase2`: the master's `shm` and those of the slaves, for each
group in the order of its control connections. -/
def handshakePhase2 (m : MasterEnv) (slave : ℕ → ℕ → SlaveEnv) (shm : Shm) (w : Workorder) :
    Option (Shm × List (List (Option Shm))) :=
  handshakePhase2Groups m slave 0 0 w.grp shm

end Uperf
