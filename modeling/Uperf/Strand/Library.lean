import Uperf.Strand.Connections
import Uperf.Strand.Execute

/-!
# The functions that execute flowops

The `execute` functions of `flowops_library.c` work on the connections of the
strand and call the functions of the protocols, which are outside.  The machine
of a strand executes them, and keeps a record of the flowops it has executed.
-/

namespace Uperf

open Lib

/-- What is outside of a strand: the signals it gets, `errno`, the random numbers,
the other strands that use the cache cursor, and what the functions of the
protocols return. -/
structure StrandEnv (ε : Type) where
  signalled : StateM ε Bool
  errno : StateM ε Int32
  setErrno : Int32 → StateM ε Unit
  rand : StateM ε ℕ
  cursor : StateM ε (Fin strandConnectionCacheSize)
  connect : Flowop → StateM ε ConnectOutcome
  accept : Flowop → StateM ε Bool
  disconnect : Flowop → StateM ε Bool
  /-- whether the connection has the function that the flowop needs -/
  supports : Flowop → ℕ → Bool
  /-- `read`, `write`, `send` or `recv` on a connection, at an offset of the buffer
  and for a number of bytes -/
  transfer : Flowop → ℕ → ℕ → ℕ → StateM ε Int32
  /-- `do_sendfile` and `do_sendfilev` -/
  sendfile : Flowop → ℕ → StateM ε Int32
  /-- `uperf_spin` and `uperf_sleep` -/
  think : Flowop → StateM ε Int32

/-- A flowop that is executed: in which iteration, at which position, what it does
with connections, if anything, and the connections before it. -/
structure Execution where
  iter : ℕ
  pos : ℕ
  act : Option ConnAct
  before : StrandConns

/-- A strand that executes a transaction. -/
structure StrandWorld (ε : Type) where
  env : ε
  conns : StrandConns := {}
  iter : ℕ := 0
  log : List Execution := []

section

variable {ε : Type} (E : StrandEnv ε)

/-- A program on the outside. -/
def outside {α : Type} (x : StateM ε α) : Exec (StrandWorld ε) α :=
  Exec.onPart StrandWorld.env (fun env w => { w with env }) x

def StrandWorld.record (w : StrandWorld ε) (j : ℕ) (act : Option ConnAct) : StrandWorld ε :=
  { w with log := w.log ++ [{ iter := w.iter, pos := j, act, before := w.conns }] }

/-- The flowop at `j` does `act` with the connections. -/
def perform (j : ℕ) (act : ConnAct) : Exec (StrandWorld ε) Int32 := do
  Exec.change fun w => w.record j (some act)
  let w ← Exec.state
  match connStep w.conns act with
  | none => failure
  | some (ret, conns) =>
      Exec.change fun w => { w with conns }
      pure ret

/-- `my_random`, with the value of `rand ()`; there is none for an empty range. -/
def myRandom (rand : ℕ) (x y : UInt32) : Option UInt32 :=
  let range := (y - x + 1).toNat
  if range = 0 then none
  else
    let d := x.toNat + rand % range
    some (if d > y.toNat then y else UInt32.ofNat d)

/-- The size of a data flowop: a random one on transmit, the greatest one on
receive, or the one that was given. -/
def flowopSize (f : Flowop) : Exec (StrandWorld ε) UInt32 :=
  if f.options.foRandomSize then
    if f.type = .write ∨ f.type = .send then do
      match myRandom (← outside E.rand) f.options.randSzMin f.options.randSzMax with
      | none => failure
      | some size => pure size
    else pure f.options.randSzMax
  else pure f.options.size

/-- The loop of `flowop_rw`: `sz` bytes are done.  Every round but the last does at
least one. -/
def rwLoop (f : Flowop) (c size : ℕ) : ℕ → ℕ → Exec (StrandWorld ε) Int32
  | 0, sz => pure (Int32.ofNat sz)
  | rounds + 1, sz =>
      if sz < size then do
        if ← outside E.signalled then pure (-1)
        else
          let n ← outside (E.transfer f c sz (size - sz))
          if n = 0 then
            outside (E.setErrno eintr)
            pure (-1)
          else if n < 0 then pure (-1)
          else if f.options.foRandomSize then pure (Int32.ofNat (sz + n.toInt.toNat))
          else rwLoop f c size rounds (sz + n.toInt.toNat)
      else pure (Int32.ofNat sz)

/-- `flowop_rw`. -/
def flowopRw (j : ℕ) (f : Flowop) : Exec (StrandWorld ε) Int32 := do
  let ret ← perform j (.rw j f)
  let w ← Exec.state
  match w.conns.connection j with
  | none => pure ret
  | some c =>
      let size ← flowopSize E f
      if E.supports f c = false then pure (-1)
      else if size = 0 then failure
      else rwLoop E f c size.toNat size.toNat 0

/-- `flowop_sendfilev`. -/
def flowopSendfilev (j : ℕ) (f : Flowop) : Exec (StrandWorld ε) Int32 := do
  let ret ← perform j (.rw j f)
  let w ← Exec.state
  match w.conns.connection j with
  | none => pure ret
  | some c => outside (E.sendfile f c)

/-- `fp->execute (sp, fp)`. -/
def executeFlowop (j : ℕ) (f : Flowop) : Exec (StrandWorld ε) Int32 := do
  let cursor ← outside E.cursor
  Exec.change fun w => { w with conns := { w.conns with currentReplacement := cursor } }
  match f.execute with
  | some .flowopRw => flowopRw E j f
  | some .flowopConnect => do perform j (.connect j f (← outside (E.connect f)))
  | some .flowopAccept => do perform j (.accept j f (← outside (E.accept f)))
  | some .flowopDisconnect => do perform j (.disconnect j f (← outside (E.disconnect f)))
  | some .flowopSendfilev => flowopSendfilev E j f
  | some .flowopNop => do
      Exec.change fun w => w.record j none
      pure 0
  | some .flowopThink => do
      Exec.change fun w => w.record j none
      outside (E.think f)
  | some .flowopUnknown => do
      Exec.change fun w => w.record j none
      pure (-1)
  | none => failure

/-- A strand as `execute.c` sees it, without statistics. -/
def strandMachine : Machine (StrandWorld ε) where
  signalled := outside E.signalled
  errno := outside E.errno
  execute := executeFlowop E
  flowopBegin _ := pure ()
  flowopEnd _ _ _ := pure ()
  txnBegin := Exec.change fun w => { w with iter := w.iter + 1 }
  txnEnd := pure ()

/-! ## The run of a strand -/

/-- What is outside of a strand while it executes a transaction with a duration. -/
structure StrandClock (ε : Type) where
  txnBegin : StateM ε UInt64
  calloutRegister : UInt64 → StateM ε Unit
  /-- whether the rate limiter calls the transaction once more -/
  again : StateM ε Bool

variable (C : StrandClock ε)

/-- The calls that a rate limiter makes, at most `rounds`, until one of them fails. -/
def limitedCalls (callback : Exec (StrandWorld ε) Int32) : ℕ → Exec (StrandWorld ε) Int32
  | 0 => pure 0
  | rounds + 1 => do
      if ← outside C.again then
        let error ← callback
        if error = 0 then limitedCalls callback rounds else pure error
      else pure 0

/-- The clock of the strand, for limiters of any rate. -/
def StrandClock.timing (rounds : ℕ) : Timing (StrandWorld ε) where
  txnBegin := outside C.txnBegin
  calloutRegister stop := outside (C.calloutRegister stop)
  rateExecute _ callback := limitedCalls C callback rounds

/-- The flowops of the transaction behind the barrier have no connections yet. -/
def passBarrier : Exec (StrandWorld ε) Unit :=
  Exec.change fun w => { w with conns := { w.conns with connection := fun _ => none } }

/-- `group_execute`, unless one of its loops is done more than `rounds` times. -/
def groupExecute (rounds : ℕ) (g : Group) : Exec (StrandWorld ε) (Option Int32) :=
  groupTxns (fun _ _ => strandMachine E) (C.timing rounds) passBarrier rounds 0 0 g.tlist 0

end

end Uperf
