import Uperf.Flowops
import Uperf.CString

/-!
# Work orders

The records of `workorder.h` and the functions of `workorder.c` that walk over
them.  Each record is split where the source splits it: the fields before its
`next` (or `tlist`) pointer are the part that goes over the wire, here the
`Head` structures, and the rest lives in the process only.  Linked lists are
lists.
-/

namespace Uperf

/-- `role_t`. -/
inductive Role
  | master
  | slave
deriving DecidableEq, Repr

/-- The role at the other end. -/
def Role.peer : Role → Role
  | .master => .slave
  | .slave => .master

@[simp] theorem Role.peer_peer (role : Role) : role.peer.peer = role := by cases role <;> rfl

/-- A data connection between one strand and its counterpart, named by the side
that called `connect` and the number of connections it had opened before. -/
structure Conn where
  opener : Role
  number : ℕ
deriving DecidableEq, Repr

/-- `NUM_PROTOCOLS`. -/
abbrev numProtocols : ℕ := 8

/-- `NUM_BARRIER`. -/
def numBarrier : ℕ := 100

/-- `UPERF_NAME_LEN`. -/
abbrev uperfNameLen : ℕ := 32

/-- `NAMELEN`. -/
abbrev nameLen : ℕ := 128

/-- `MAXTHREADGROUPS`. -/
def maxThreadGroups : ℕ := 1024

/-- `UPERF_ENDIAN_VALUE`. -/
def uperfEndianValue : UInt32 := 0xBADC

/-- `UPERF_SLAVE_READ_SIZE`. -/
def uperfSlaveReadSize : UInt32 := 64 * 1024

/-- `struct flowop_options`. -/
structure FlowopOptions where
  size : UInt32 := 0
  randSzMin : UInt32 := 0
  randSzMax : UInt32 := 0
  rsize : UInt32 := 0
  protocol : UInt32 := 0
  port : UInt32 := 0
  flag : UInt32 := 0
  nfiles : UInt32 := 0
  duration : UInt64 := 0
  wndsz : UInt64 := 0
  count : UInt64 := 0
  repeats : UInt64 := 0
  batchSize : UInt64 := 0
  pollTimeout : UInt64 := 0
  encapsPort : UInt32 := 0
  bblog : UInt32 := 0
  sctpRtoMin : UInt32 := 0
  sctpRtoMax : UInt32 := 0
  sctpRtoInitial : UInt32 := 0
  sctpSackDelay : UInt32 := 0
  sctpSackFrequency : UInt32 := 0
  sctpMaxBurstSize : UInt32 := 0
  sctpMaxFragmentSize : UInt32 := 0
  sctpHbInterval : UInt32 := 0
  sctpPathMtu : UInt32 := 0
  sctpOutStreams : UInt16 := 0
  sctpInStreams : UInt16 := 0
  sctpStreamId : UInt16 := 0
  sctpPadding : UInt16 := 0
  sctpPrValue : UInt32 := 0
  sctpPrPolicy : CharArray 8 := default
  cc : CharArray 32 := default
  stack : CharArray 32 := default
  dir : CharArray 128 := default
  remotehost : HostName := default
  localhost : HostName := default
  engine : CharArray 20 := default
  cipher : CharArray 50 := default
  method : CharArray 5 := default
  padding : CharArray 5 := default
deriving DecidableEq

/-- `O_CANFAIL`. -/
def oCanfail : UInt32 := (1 : UInt32) <<< 2

/-- `O_SIZE_RAND`. -/
def oSizeRand : UInt32 := (1 : UInt32) <<< 6

/-- `FO_CANFAIL`. -/
def FlowopOptions.foCanfail (fo : FlowopOptions) : Bool := fo.flag &&& oCanfail ≠ 0

/-- `FO_RANDOM_SIZE`. -/
def FlowopOptions.foRandomSize (fo : FlowopOptions) : Bool := fo.flag &&& oSizeRand ≠ 0

/-- The fields of `struct flowop` before `next`. -/
structure FlowopHead where
  options : FlowopOptions := {}
  type : FlowopType := .error
  pId : UInt32 := 0
  statid1 : UInt32 := 0
  errors : UInt32 := 0
deriving DecidableEq

/-- `struct flowop`. -/
structure Flowop extends FlowopHead where
  execute : Option ExecuteFunc := none
  connection : Option Conn := none
  id : UInt32 := 0
  name : CharArray uperfNameLen := default
deriving DecidableEq

/-- The fields of `struct transaction` before `next`. -/
structure TxnHead where
  nflowop : UInt32 := 0
  txnid : UInt32 := 0
  statid1 : UInt32 := 0
  unused : UInt32 := 0
  rateCount : UInt32 := 0
  dummy : UInt32 := 0
  iter : UInt64 := 0
  duration : UInt64 := 0
  rateStr : CharArray nameLen := default
deriving DecidableEq

/-- `struct transaction`. -/
structure Txn extends TxnHead where
  flist : List Flowop := []
  name : CharArray uperfNameLen := default
deriving DecidableEq

/-- The fields of `struct thg` before `tlist`. -/
structure GroupHead where
  endian : UInt32 := 0
  strandFlag : UInt32 := 0
  nthreads : UInt32 := 0
  ntxn : UInt32 := 0
  maxAsync : UInt32 := 0
  groupid : UInt32 := 0
deriving DecidableEq

/-- The fields of `protocol_t` that decide where it leads: a connected or
listening object, or a control connection. -/
structure Protocol where
  type : UInt32
  port : Int32
  host : HostName
deriving DecidableEq

/-- `PROTOCOL_TCP`, `PROTOCOL_UDP` and `PROTOCOL_RDS`. -/
def protocolTcp : UInt32 := 1

@[inherit_doc protocolTcp]
def protocolUdp : UInt32 := 3

@[inherit_doc protocolTcp]
def protocolRds : UInt32 := 4

/-- `create_protocol`: an object not connected yet.  `protocol_udp_create` has
the name and the port in its private record only and leaves `host` empty; the
port is the one of that record.  The callers never pass an empty name. -/
def createProtocol (type : UInt32) (host : List UInt8) (port : Int32) : Protocol where
  type := type
  port := port
  host :=
    if type = protocolUdp then CharArray.zero maxHostName
    else strlcpy (CharArray.zero maxHostName) host

/-- `struct thg`. -/
structure Group extends GroupHead where
  tlist : List Txn := []
  control : List Protocol := []
  protocols : Vector UInt32 numProtocols := Vector.replicate numProtocols 0
  name : CharArray uperfNameLen := default
deriving DecidableEq

/-- `workorder_t`. -/
structure Workorder where
  name : CharArray nameLen := default
  grp : List Group
deriving DecidableEq

/-- All flowops of a group, in the order of the program. -/
def Group.flowops (g : Group) : List Flowop := g.tlist.flatMap Txn.flist

/-- The counts of a group are those of its lists. -/
structure Group.Counted (g : Group) : Prop where
  ntxn : g.ntxn.toNat = g.tlist.length
  nflowop : ∀ txn ∈ g.tlist, txn.nflowop.toNat = txn.flist.length

/-- The host names of a group are C strings. -/
structure Group.HostsTerminated (g : Group) : Prop where
  remotehost : ∀ f ∈ g.flowops, f.options.remotehost.Terminated
  localhost : ∀ f ∈ g.flowops, f.options.localhost.Terminated

/-- What the parser promises about the groups it builds; it also numbers the
transactions in order and sets the endian marker. -/
structure Group.WellFormed (g : Group) : Prop extends g.Counted, g.HostsTerminated where
  endian : g.endian = uperfEndianValue
  txnid : ∀ i (h : i < g.tlist.length), (g.tlist[i]).txnid.toNat = i

/-! ## Counting -/

/-- `workorder_num_strands`. -/
def workorderNumStrands (w : Workorder) : ℕ := (w.grp.map fun g => g.nthreads.toNat).sum

/-- `workorder_max_txn`. -/
def workorderMaxTxn (w : Workorder) : ℕ :=
  w.grp.foldl (fun no g => max no g.ntxn.toNat) 0

theorem foldl_max_ntxn (groups : List Group) (no : ℕ) :
    groups.foldl (fun no g => max no g.ntxn.toNat) no =
      max no (groups.foldl (fun no g => max no g.ntxn.toNat) 0) := by
  induction groups generalizing no with
  | nil => simp
  | cons g rest ih =>
      rw [List.foldl_cons, List.foldl_cons, ih, ih (max 0 g.ntxn.toNat)]
      omega

theorem ntxn_le_workorderMaxTxn {w : Workorder} {g : Group} (hg : g ∈ w.grp) :
    g.ntxn.toNat ≤ workorderMaxTxn w := by
  unfold workorderMaxTxn
  generalize w.grp = groups at hg
  induction groups with
  | nil => simp at hg
  | cons head rest ih =>
      rw [List.foldl_cons, foldl_max_ntxn]
      rcases List.mem_cons.mp hg with rfl | hg
      · omega
      · exact (ih hg).trans (le_max_right _ _)

/-! ## Clones -/

/-- The copy that `group_clone` makes of a transaction. -/
def Txn.clone (txn : Txn) : Txn :=
  { txn with flist := txn.flist.map fun f => { f with } }

/-- `group_clone`. -/
def groupClone (g : Group) : Group :=
  { g with tlist := g.tlist.map Txn.clone }

/-- A clone shares no memory with the group and has the same contents. -/
@[simp] theorem groupClone_eq (g : Group) : groupClone g = g := by
  have hclone : Txn.clone = id := by
    funext txn
    simp [Txn.clone]
  simp [groupClone, hclone]

end Uperf
