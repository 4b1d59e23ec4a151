import Uperf.Command
import Uperf.Logging
import Uperf.Workorder

/-!
# Commands to all slaves

`send_command_to_slaves` writes one command to every control connection of the master,
the next transaction as well as the abort with which it shuts down.  It stops at the first
write that fails, so what is behind that slave gets nothing (`reached_iff_takes`).
-/

namespace Uperf

open Lib

/-- An entry of `slaves`, with what its `write` returns and what it has taken. -/
structure SlaveConn where
  p : Protocol
  kernel : Kernel
  writer : Writer

namespace SlaveConn

/-- The call of `uperf_send_command` for one slave: what it returns, and the connection
after it. -/
def send (e : Endian) (sent : SentCommand) (slave : SlaveConn) : ℤ × SlaveConn :=
  let (ret, writer) :=
    slave.kernel.write (UperfCommand.codec.put e (uperfSendCommand sent)) slave.writer
  (ret, { slave with writer := writer })

/-- The next write to the slave does not fail. -/
def Takes (slave : SlaveConn) : Prop :=
  0 < slave.kernel.ret slave.writer.calls UperfCommand.codec.size

/-- The next write to the slave goes through whole. -/
def Working (slave : SlaveConn) : Prop :=
  slave.kernel.ret slave.writer.calls UperfCommand.codec.size = UperfCommand.codec.size

instance (slave : SlaveConn) : Decidable slave.Takes := inferInstanceAs (Decidable (_ < _))

end SlaveConn

/-- The message for a slave that a command cannot be sent to.  The array is long enough
for it, and the number in it is the value of the command. -/
def couldNotSend (value : Int32) (p : Protocol) : List UInt8 :=
  str "Could not send command " ++ printInt value ++ str " to " ++ p.host.cstr ++ str ":" ++
    printInt p.port ++ str " "

/-- What `send_command_to_slaves` returns, the slaves after it, and what it logs as a
warning. -/
structure SentToSlaves where
  ret : ℤ
  slaves : List SlaveConn
  warning : Option (ℤ × List UInt8)

/-- The loop of `send_command_to_slaves` from index `i`; `stack` is what the calls of
`uperf_send_command` find where they put the magic. -/
def sendCommandLoop (e : Endian) (cmd : UperfCmd) (value : Int32) (stack : ℕ → CharArray 64) :
    ℕ → ℤ → List SlaveConn → SentToSlaves
  | _, ret, [] => { ret := ret, slaves := [], warning := none }
  | i, _, slave :: rest =>
      let sent := slave.send e ⟨cmd, value.toUInt32, stack i⟩
      if sent.1 ≤ 0 then
        { ret := sent.1
          slaves := sent.2 :: rest
          warning := some (sent.1, couldNotSend value slave.p) }
      else
        let last := sendCommandLoop e cmd value stack (i + 1) sent.1 rest
        { last with slaves := sent.2 :: last.slaves }

/-- `send_command_to_slaves`. -/
def sendCommandToSlaves (e : Endian) (cmd : UperfCmd) (value : Int32)
    (stack : ℕ → CharArray 64) (slaves : List SlaveConn) : SentToSlaves :=
  sendCommandLoop e cmd value stack 0 0 slaves

/-- The command has been tried once on the slave, which has received it if its connection
works. -/
structure Reached (e : Endian) (sent : SentCommand) (slave slave' : SlaveConn) : Prop where
  once : slave'.writer.calls = slave.writer.calls + 1
  receives : slave.Working →
    slave'.writer.sent = slave.writer.sent ++ UperfCommand.codec.put e (uperfSendCommand sent)

/-- Every slave of the first list is reached, as the one in its place in the second. -/
def AllReached (e : Endian) (sent : ℕ → SentCommand) (slaves slaves' : List SlaveConn) : Prop :=
  ∀ i slave, slaves[i]? = some slave →
    ∃ slave', slaves'[i]? = some slave' ∧ Reached e (sent i) slave slave'

section

variable {e : Endian} {slave slave' : SlaveConn} {rest rest' : List SlaveConn}

theorem SlaveConn.send_fst (e : Endian) (sent : SentCommand) (slave : SlaveConn) :
    (slave.send e sent).1 = slave.kernel.ret slave.writer.calls UperfCommand.codec.size := by
  show slave.kernel.ret _ (UperfCommand.codec.put e (uperfSendCommand sent)).length = _
  rw [Codec.length_put]

/-- A command that is tried reaches the slave. -/
theorem reached_send (e : Endian) (sent : SentCommand) (slave : SlaveConn) :
    Reached e sent slave (slave.send e sent).2 := by
  refine ⟨rfl, fun hworking => ?_⟩
  have hsent : (slave.send e sent).2.writer.sent = slave.writer.sent ++
      (UperfCommand.codec.put e (uperfSendCommand sent)).take (slave.send e sent).1.toNat := rfl
  rw [hsent, SlaveConn.send_fst, hworking, Int.toNat_natCast, List.take_of_length_le]
  rw [Codec.length_put]

/-- A slave that nothing is tried on is not reached. -/
theorem not_reached_self (sent : SentCommand) : ¬ Reached e sent slave slave := fun h =>
  Nat.succ_ne_self _ h.once.symm

theorem allReached_cons {sent : ℕ → SentCommand} :
    AllReached e sent (slave :: rest) (slave' :: rest') ↔
      Reached e (sent 0) slave slave' ∧ AllReached e (fun i => sent (i + 1)) rest rest' := by
  constructor
  · intro h
    refine ⟨?_, fun i next hnext => h (i + 1) next hnext⟩
    obtain ⟨first, hfirst, hreached⟩ := h 0 slave rfl
    cases hfirst
    exact hreached
  · rintro ⟨hfirst, hrest⟩ i next hnext
    cases i with
    | zero =>
        cases hnext
        exact ⟨slave', rfl, hfirst⟩
    | succ i => exact hrest i next hnext

theorem allReached_self_iff {sent : ℕ → SentCommand} {slaves : List SlaveConn} :
    AllReached e sent slaves slaves ↔ slaves = [] := by
  constructor
  · intro h
    cases slaves with
    | nil => rfl
    | cons slave rest => exact absurd (allReached_cons.mp h).1 (not_reached_self _)
  · rintro rfl i slave hslave
    cases hslave

/-- The loop goes on behind a slave that takes the command. -/
theorem slaves_sendCommandLoop_cons (e : Endian) (cmd : UperfCmd) (value : Int32)
    (stack : ℕ → CharArray 64) (i : ℕ) (ret : ℤ) (slave : SlaveConn) (rest : List SlaveConn) :
    (sendCommandLoop e cmd value stack i ret (slave :: rest)).slaves =
      (slave.send e ⟨cmd, value.toUInt32, stack i⟩).2 ::
        if slave.Takes then
          (sendCommandLoop e cmd value stack (i + 1)
            (slave.send e ⟨cmd, value.toUInt32, stack i⟩).1 rest).slaves
        else rest := by
  have htakes : slave.Takes ↔ 0 < (slave.send e ⟨cmd, value.toUInt32, stack i⟩).1 := by
    rw [SlaveConn.send_fst]
    exact Iff.rfl
  rw [sendCommandLoop]
  simp only
  by_cases hpos : slave.Takes
  · rw [if_pos hpos, if_neg (not_le.mpr (htakes.mp hpos))]
  · rw [if_neg hpos, if_pos (not_lt.mp fun hsent => hpos (htakes.mpr hsent))]

/-- From any index the loop reaches all slaves exactly if those before the last take the
command. -/
theorem allReached_sendCommandLoop_iff (e : Endian) (cmd : UperfCmd) (value : Int32)
    (stack : ℕ → CharArray 64) (i : ℕ) (ret : ℤ) (slaves : List SlaveConn) :
    AllReached e (fun j => ⟨cmd, value.toUInt32, stack (i + j)⟩) slaves
        (sendCommandLoop e cmd value stack i ret slaves).slaves ↔
      ∀ slave ∈ slaves.dropLast, slave.Takes := by
  induction slaves generalizing i ret with
  | nil => exact iff_of_true (allReached_self_iff.mpr rfl) (by simp)
  | cons slave rest ih =>
      have hnext := ih (i + 1) (slave.send e ⟨cmd, value.toUInt32, stack i⟩).1
      simp only [Nat.add_assoc, Nat.add_comm 1] at hnext
      rw [slaves_sendCommandLoop_cons, allReached_cons]
      simp only [Nat.add_zero]
      rw [and_iff_right (reached_send e ⟨cmd, value.toUInt32, stack i⟩ slave)]
      split_ifs with htakes
      · rw [hnext]
        cases rest with
        | nil => simp
        | cons next rest => simp [htakes]
      · rw [allReached_self_iff]
        cases rest with
        | nil => simp
        | cons next rest => simp [htakes]

end

/-- A command is tried once on every slave, and received by all whose connection works,
exactly if no write fails before the last slave. -/
theorem reached_iff_takes (e : Endian) (cmd : UperfCmd) (value : Int32)
    (stack : ℕ → CharArray 64) (slaves : List SlaveConn) :
    AllReached e (fun i => ⟨cmd, value.toUInt32, stack i⟩) slaves
        (sendCommandToSlaves e cmd value stack slaves).slaves ↔
      ∀ slave ∈ slaves.dropLast, slave.Takes := by
  have hloop := allReached_sendCommandLoop_iff e cmd value stack 0 0 slaves
  simp only [Nat.zero_add] at hloop
  exact hloop

/-- A control connection on which every write fails. -/
def brokenKernel : Kernel where
  ret _ _ := -1
  ret_le _ n := by omega

/-- The second slave works, and never hears of the abort. -/
theorem not_allReached_broken :
    ¬ ∀ (e : Endian) (cmd : UperfCmd) (value : Int32) (stack : ℕ → CharArray 64)
      (slaves : List SlaveConn),
        AllReached e (fun i => ⟨cmd, value.toUInt32, stack i⟩) slaves
          (sendCommandToSlaves e cmd value stack slaves).slaves := by
  intro h
  let p := createProtocol protocolTcp (str "h") 0
  have hfirst : ¬ (SlaveConn.mk p brokenKernel {}).Takes := by decide
  have hall := h .little .abort 0 (fun _ => default) [⟨p, brokenKernel, {}⟩, ⟨p, Kernel.full, {}⟩]
  have hloop := slaves_sendCommandLoop_cons .little .abort 0 (fun _ => default) 0 0
    ⟨p, brokenKernel, {}⟩ [⟨p, Kernel.full, {}⟩]
  rw [if_neg hfirst] at hloop
  rw [sendCommandToSlaves, hloop, allReached_cons, allReached_self_iff] at hall
  exact absurd hall.2 (List.cons_ne_nil _ _)

end Uperf
