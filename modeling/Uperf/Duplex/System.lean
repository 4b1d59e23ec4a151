import Uperf.Duplex.Calls
import Uperf.Lib.Dual
import Uperf.Lib.Transition

/-!
# Two strands and the network between them

A strand of the master and its counterpart on the slave run at the same time.  A
step lets the kernel of one side answer the call in which the strand waits: a
connection goes into the backlog of the other side, a transfer moves some of the
bytes that it still has to move, and the master, at a barrier, tells the slave to
go on.  The bytes on a connection keep their order, and are known by the transfer
of the sender and the place in its buffer.  The runs are those in which no strand is
signalled: a slave finds its strand in the barrier when it obeys the command.
-/

namespace Uperf

open Lib

instance : TwoSides Role where
  other := Role.peer
  other_other := Role.peer_peer
  other_ne s := by cases s <;> decide
  eq_or s t := by cases s <;> cases t <;> decide

/-- A byte on its way. -/
structure Sent where
  transfer : ℕ
  place : ℕ
deriving DecidableEq

/-- The bytes of a transfer from a place of the buffer on. -/
def sentBytes (transfer off count : ℕ) : List Sent :=
  (List.range count).map fun t => ⟨transfer, off + t⟩

/-- One side: what its kernel has answered, the connection of which its `n`-th is
one end, and how many transfers and barriers are behind it. -/
structure End where
  answers : List ℕ := []
  links : List Conn := []
  transfers : ℕ := 0
  passed : ℕ := 0

def End.opens (e : End) (link : Conn) : End :=
  { e with answers := e.answers ++ [0], links := e.links ++ [link] }

/-- Of a transfer with `size` bytes left, `k` are moved. -/
def End.moves (e : End) (size k : ℕ) : End :=
  { e with
    answers := e.answers ++ [k]
    transfers := if k < size then e.transfers else e.transfers + 1 }

def End.passes (e : End) : End :=
  { e with answers := e.answers ++ [0], passed := e.passed + 1 }

/-- How many connections a side keeps that are not accepted yet, and how many bytes
of a connection that are not read yet. -/
structure Room where
  backlog : ℕ
  buffer : ℕ
  backlog_pos : 0 < backlog
  buffer_pos : 0 < buffer

/-- The two sides, and what is on its way to each of them.  Commands are those that
the slave has not read yet. -/
structure Duplex where
  ends : Role → End := fun _ => {}
  backlog : Role → UInt32 → List Conn := fun _ _ => []
  queue : Role → Conn → List Sent := fun _ _ => []
  commands : ℕ := 0

namespace Duplex

variable (thread : Role → Thread) (room : Room) (st : Duplex) (s : Role)

def setEnd (e : End) : Duplex := { st with ends := Function.update st.ends s e }

def setBacklog (protocol : UInt32) (links : List Conn) : Duplex :=
  { st with
    backlog := Function.update st.backlog s (Function.update (st.backlog s) protocol links) }

def setQueue (link : Conn) (bytes : List Sent) : Duplex :=
  { st with queue := Function.update st.queue s (Function.update (st.queue s) link bytes) }

/-- The barrier in which the strand of `s` waits is unlocked.  The master tells the
slave, and the slave has been told. -/
def release : Duplex :=
  { st with
    commands :=
      match s with
      | .master => st.commands + 1
      | .slave => st.commands - 1 }.setEnd s (st.ends s).passes

/-- The kernel of `s` answers the call in which the strand waits; `k` is the number
of bytes if that is a transfer. -/
def step (act : Role × ℕ) : Option Duplex :=
  let (s, k) := act
  let e := st.ends s
  match (thread s).asks e.answers with
  | none => none
  | some (.connect protocol) =>
      let link : Conn := ⟨s, e.links.length⟩
      let waiting := st.backlog s.peer protocol
      if waiting.length < room.backlog then
        some ((st.setBacklog s.peer protocol (waiting ++ [link])).setEnd s (e.opens link))
      else none
  | some (.accept protocol) =>
      match st.backlog s protocol with
      | [] => none
      | link :: waiting => some ((st.setBacklog s protocol waiting).setEnd s (e.opens link))
  | some (.send conn off size) =>
      match e.links[conn]? with
      | none => none
      | some link =>
          let bytes := st.queue s.peer link
          if 0 < k ∧ k ≤ size ∧ bytes.length + k ≤ room.buffer then
            some ((st.setQueue s.peer link (bytes ++ sentBytes e.transfers off k)).setEnd s
              (e.moves size k))
          else none
  | some (.recv conn _ size) =>
      match e.links[conn]? with
      | none => none
      | some link =>
          let bytes := st.queue s link
          if 0 < k ∧ k ≤ size ∧ k ≤ bytes.length then
            some ((st.setQueue s link (bytes.drop k)).setEnd s (e.moves size k))
          else none
  | some .barrier =>
      match s with
      | .master => some (st.release .master)
      | .slave => if 0 < st.commands then some (st.release .slave) else none

end Duplex

/-! ## Scripts as acts -/

/-- The queues that lead to a side.  Connections are known by their numbers. -/
inductive Key
  | backlog (protocol : UInt32)
  | data (conn : ℕ)
  | command
deriving DecidableEq

inductive Item
  | link (number : ℕ)
  | byte (sent : Sent)
  | command
deriving DecidableEq

/-- At a barrier the master sends a command, and the slave waits for it. -/
def barrierAct : Role → Act Key Item
  | .master => .put .command .command
  | .slave => .take .command .command

/-- The acts of a side that has opened some connections and done some transfers. -/
def units (s : Role) : ℕ → ℕ → List Call → List (Act Key Item)
  | _, _, [] => []
  | opened, moved, .connect protocol :: rest =>
      .put (.backlog protocol) (.link opened) :: units s (opened + 1) moved rest
  | opened, moved, .accept protocol :: rest =>
      .take (.backlog protocol) (.link opened) :: units s (opened + 1) moved rest
  | opened, moved, .send conn off size :: rest =>
      ((sentBytes moved off size).map Item.byte).map (.put (.data conn)) ++
        units s opened (moved + 1) rest
  | opened, moved, .recv conn off size :: rest =>
      ((sentBytes moved off size).map Item.byte).map (.take (.data conn)) ++
        units s opened (moved + 1) rest
  | opened, moved, .barrier :: rest =>
      barrierAct s :: units s opened moved rest

/-- Every transfer is over a connection that is open when it begins. -/
def Scoped : ℕ → List Call → Prop
  | _, [] => True
  | opened, .connect _ :: rest | opened, .accept _ :: rest => Scoped (opened + 1) rest
  | opened, .send conn _ _ :: rest | opened, .recv conn _ _ :: rest =>
      conn < opened ∧ Scoped opened rest
  | opened, .barrier :: rest => Scoped opened rest

section

variable {s : Role} {opened moved : ℕ} {calls : List Call}

theorem barrierAct_dual (s : Role) : barrierAct s.peer = (barrierAct s).dual := by
  cases s <;> rfl

/-- Dual scripts consist of dual acts. -/
theorem units_dual (s : Role) (opened moved : ℕ) (calls : List Call) :
    units s.peer opened moved (calls.map Call.dual) =
      (units s opened moved calls).map Act.dual := by
  induction calls generalizing opened moved with
  | nil => rfl
  | cons call calls ih =>
      cases call with
      | connect protocol | accept protocol =>
          simp only [List.map_cons, Call.dual, units, ih, Act.dual_put, Act.dual_take]
      | send conn off size | recv conn off size =>
          simp [Call.dual, units, ih, Function.comp_def]
      | barrier =>
          simp only [List.map_cons, Call.dual, units, ih, barrierAct_dual]

/-- The connections that are still to be opened have greater numbers. -/
theorem le_of_mem_units {protocol : UInt32} {n : ℕ}
    (h : .take (.backlog protocol) (.link n) ∈ units s opened moved calls) : opened ≤ n := by
  induction calls generalizing opened moved with
  | nil => cases h
  | cons call calls ih =>
      cases call with
      | connect protocol' =>
          rw [units, List.mem_cons] at h
          rcases h with h | h
          · cases h
          · exact (Nat.le_succ _).trans (ih h)
      | accept protocol' =>
          rw [units, List.mem_cons] at h
          rcases h with h | h
          · cases h
            exact le_refl _
          · exact (Nat.le_succ _).trans (ih h)
      | send conn off size | recv conn off size =>
          rw [units, List.mem_append] at h
          rcases h with h | h
          · simp at h
          · exact ih h
      | barrier =>
          rw [units, List.mem_cons] at h
          rcases h with h | h
          · cases s <;> cases h
          · exact ih h

theorem sentBytes_add (moved off k size : ℕ) (hle : k ≤ size) :
    sentBytes moved off size =
      sentBytes moved off k ++ sentBytes moved (off + k) (size - k) := by
  obtain ⟨more, rfl⟩ := Nat.exists_eq_add_of_le hle
  simp [sentBytes, List.range_add, Nat.add_assoc]

theorem sentBytes_succ (moved off size : ℕ) :
    sentBytes moved off (size + 1) = ⟨moved, off⟩ :: sentBytes moved (off + 1) size := by
  rw [sentBytes_add moved off 1 (size + 1) (Nat.le_add_left 1 size)]
  rfl

@[simp] theorem length_sentBytes (moved off size : ℕ) :
    (sentBytes moved off size).length = size := by
  simp [sentBytes]

end

end Uperf
