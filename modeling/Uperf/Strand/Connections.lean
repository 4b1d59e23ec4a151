import Uperf.Lib.LinkedList
import Uperf.Workorder

/-!
# The connections of a strand

A strand keeps the connections it has opened in a doubly linked list, the pool,
and the last ones it has looked up in a small cache.  The flowops of the
transaction that runs remember the connection they use.  Connections are objects
in memory, here numbered in the order in which `create_protocol` and `accept`
make them.
-/

namespace Uperf

open Lib

/-- `STRAND_CONNECTION_CACHE_SIZE`. -/
def strandConnectionCacheSize : ℕ := 8

/-- The protocols whose `accept` returns the listening object itself. -/
def acceptsItself (protocol : UInt32) : Bool := protocol = protocolUdp ∨ protocol = protocolRds

/-- The fields of `protocol_t` that matter here, and what has happened to the
object: whether it has been opened and not disconnected, and whether it has been
passed to `destroy_protocol` since it was last opened. -/
structure ProtocolObj where
  type : UInt32 := 0
  pId : Int32 := 0
  opened : Bool := false
  destroyed : Bool := false
deriving DecidableEq

/-- The fields of `strand_t` that hold connections, the memory they point to,
the static variable `current_replacement` of the cache, and the `connection`
fields of the flowops of the transaction by their positions. -/
structure StrandConns where
  objs : ℕ → ProtocolObj := fun _ => {}
  links : Links ℕ := ⟨fun _ => none, fun _ => none⟩
  allocated : ℕ := 0
  listenConn : UInt32 → Option ℕ := fun _ => none
  cpool : Option ℕ := none
  ccache : ℕ → Option ℕ := fun _ => none
  ccacheSize : ℕ := 0
  currentReplacement : ℕ := 0
  connection : ℕ → Option ℕ := fun _ => none

def StrandConns.setObj (s : StrandConns) (p : ℕ) (obj : ProtocolObj) : StrandConns :=
  { s with objs := Function.update s.objs p obj }

@[simp] theorem StrandConns.objs_setObj (s : StrandConns) (p : ℕ) (obj : ProtocolObj) :
    (s.setObj p obj).objs = Function.update s.objs p obj := rfl

/-! ## `strand.c` -/

/-- `strand_add_connection`. -/
def strandAddConnection (s : StrandConns) (p : ℕ) : StrandConns :=
  { s with links := s.links.push s.cpool p, cpool := some p }

/-- The walk over the pool to the first connection with the number `id`.  It
does not end when the pool has a cycle without one. -/
def StrandConns.scan (s : StrandConns) (id : Int32) : Option (Option ℕ) :=
  s.links.walk (fun p => (s.objs p).pId = id) s.allocated s.cpool

/-- `destroy_protocol`. -/
def destroyProtocol (s : StrandConns) (p : ℕ) : StrandConns :=
  s.setObj p { s.objs p with destroyed := true }

/-- The connection `p` is unlinked and destroyed, and the cache is flushed. -/
def StrandConns.remove (s : StrandConns) (p : ℕ) : StrandConns :=
  let s := { s with links := s.links.unlink p, cpool := s.links.unlinkHead s.cpool p }
  { destroyProtocol s p with ccacheSize := 0 }

/-- `strand_delete_connection`. -/
def strandDeleteConnection (s : StrandConns) (id : Int32) : Option (Int32 × StrandConns) :=
  match s.scan id with
  | none => none
  | some none => some (1, s)
  | some (some p) => some (0, s.remove p)

/-- `strand_put_connection_in_cache`. -/
def strandPutConnectionInCache (s : StrandConns) (p : ℕ) : StrandConns :=
  if s.ccacheSize = strandConnectionCacheSize - 1 then
    { s with
      ccache := Function.update s.ccache s.currentReplacement (some p)
      currentReplacement := (s.currentReplacement + 1) % strandConnectionCacheSize }
  else
    { s with
      ccache := Function.update s.ccache s.ccacheSize (some p)
      ccacheSize := s.ccacheSize + 1 }

/-- The connection that the cache has for the number `id`. -/
def StrandConns.cached (s : StrandConns) (id : Int32) : Option ℕ :=
  (List.range s.ccacheSize).findSome? fun i =>
    match s.ccache i with
    | none => none
    | some p => if (s.objs p).pId = id ∨ id = -1 then some p else none

/-- `strand_get_connection`. -/
def strandGetConnection (s : StrandConns) (id : Int32) : Option (Option ℕ × StrandConns) :=
  if s.cpool = none then some (none, s)
  else
    match s.cached id with
    | some p => some (some p, s)
    | none =>
        match s.scan id with
        | none => none
        | some none => some (none, s)
        | some (some p) => some (some p, strandPutConnectionInCache s p)

/-! ## `flowops_library.c` -/

/-- An object made by `create_protocol` or by `accept`. -/
def StrandConns.allocate (s : StrandConns) (obj : ProtocolObj) : StrandConns :=
  { s with
    objs := Function.update s.objs s.allocated obj
    links :=
      ⟨Function.update s.links.next s.allocated none,
        Function.update s.links.prev s.allocated none⟩
    allocated := s.allocated + 1 }

/-- The loop at the end of `flowop_connect`, `flowop_accept` and
`flowop_disconnect`: the flowop at `j` and those after it have to look up their
connections again. -/
def StrandConns.resetFrom (s : StrandConns) (j : ℕ) : StrandConns :=
  { s with connection := fun k => if j ≤ k then none else s.connection k }

/-- `f->p_id` as the `int` that the functions of `strand.c` take. -/
def Flowop.connId (f : Flowop) : Int32 := f.pId.toInt32

/-- How far a call of `flowop_connect` gets. -/
inductive ConnectOutcome
  /-- `strand_get_port` or `create_protocol` fails -/
  | failed
  /-- the `connect` function of the protocol fails -/
  | refused
  | connected
deriving DecidableEq, Repr

/-- `flowop_connect`. -/
def flowopConnect (s : StrandConns) (j : ℕ) (f : Flowop) (outcome : ConnectOutcome) :
    Int32 × StrandConns :=
  let datap := s.allocated
  let obj : ProtocolObj := { type := f.options.protocol, pId := f.connId }
  match outcome with
  | .failed => (-1, s)
  | .refused => (-1, destroyProtocol (s.allocate obj) datap)
  | .connected =>
      (0, (strandAddConnection (s.allocate { obj with opened := true }) datap).resetFrom j)

/-- `flowop_accept`; `accepted` says whether the `accept` function of the
protocol succeeds.  It asserts that the strand has a listening object. -/
def flowopAccept (s : StrandConns) (j : ℕ) (f : Flowop) (accepted : Bool) :
    Option (Int32 × StrandConns) :=
  match s.listenConn f.options.protocol with
  | none => none
  | some cntrp =>
      if accepted then
        if acceptsItself f.options.protocol then
          let s := s.setObj cntrp
            { s.objs cntrp with pId := f.connId, opened := true, destroyed := false }
          some (0, (strandAddConnection s cntrp).resetFrom j)
        else
          let newp := s.allocated
          let obj : ProtocolObj :=
            { type := f.options.protocol, pId := f.connId, opened := true }
          some (0, (strandAddConnection (s.allocate obj) newp).resetFrom j)
      else some (-1, s)

/-- What the `disconnect` function of a protocol does to the object. -/
def StrandConns.close (s : StrandConns) (p : ℕ) : StrandConns :=
  s.setObj p { s.objs p with opened := false }

/-- `flowop_disconnect`; `closed` says whether the `disconnect` function of the
protocol succeeds. -/
def flowopDisconnect (s : StrandConns) (j : ℕ) (f : Flowop) (closed : Bool) :
    Option (Int32 × StrandConns) :=
  match strandGetConnection s f.connId with
  | none => none
  | some (none, s) => some (-1, s)
  | some (some datap, s) =>
      let error : Int32 := if closed then 0 else -1
      match strandDeleteConnection (s.close datap) f.connId with
      | none => none
      | some (_, s) => some (error, s.resetFrom j)

/-- The beginning of `flowop_rw` and `flowop_sendfilev`: the flowop at `j` gets
its connection. -/
def flowopLookup (s : StrandConns) (j : ℕ) (f : Flowop) : Option (Option ℕ × StrandConns) :=
  match s.connection j with
  | some p => some (some p, s)
  | none =>
      match strandGetConnection s f.connId with
      | none => none
      | some (p, s) => some (p, { s with connection := Function.update s.connection j p })

/-! ## Sequences of flowops -/

/-- What happens on a strand: its flowops, each at its position in the
transaction, the beginning of a transaction, and the moves of the shared cursor
by other strands. -/
inductive ConnAct
  | connect (j : ℕ) (f : Flowop) (outcome : ConnectOutcome)
  | accept (j : ℕ) (f : Flowop) (accepted : Bool)
  | disconnect (j : ℕ) (f : Flowop) (closed : Bool)
  | rw (j : ℕ) (f : Flowop)
  | begin
  | others (cursor : Fin strandConnectionCacheSize)
deriving DecidableEq

/-- One step of a strand, with what the flowop returns. -/
def connStep (s : StrandConns) : ConnAct → Option (Int32 × StrandConns)
  | .connect j f outcome => some (flowopConnect s j f outcome)
  | .accept j f accepted => flowopAccept s j f accepted
  | .disconnect j f closed => flowopDisconnect s j f closed
  | .rw j f => (flowopLookup s j f).map fun (p, s) => (if p = none then -1 else 0, s)
  | .begin => some (0, { s with connection := fun _ => none })
  | .others cursor => some (0, { s with currentReplacement := cursor })

/-- The strand after the step. -/
def StrandConns.step (s : StrandConns) (act : ConnAct) : Option StrandConns :=
  (connStep s act).map Prod.snd

end Uperf
