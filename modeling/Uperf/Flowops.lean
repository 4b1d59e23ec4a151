import Mathlib.Data.UInt

/-!
# Flowop types

`flowop_type_t` and the tables of `flowops.c` and `flowops_library.c` that are
indexed by it.  A work order arrives over the wire, where the type is a plain
32-bit word, so `FlowopType` has a constructor for every word: the twelve named
types and `other`.
-/

namespace Uperf

/-- `flowop_type_t`. -/
inductive FlowopType
  | error
  | read
  | write
  | connect
  | disconnect
  | accept
  | nop
  | think
  | send
  | recv
  | sendfilev
  | sendfile
  | other (word : {word : UInt32 // 12 ≤ word})
deriving DecidableEq

/-- Which function `flowop_get_execute_func` returns. -/
inductive ExecuteFunc
  | flowopUnknown
  | flowopRw
  | flowopConnect
  | flowopDisconnect
  | flowopAccept
  | flowopNop
  | flowopThink
  | flowopSendfilev
deriving DecidableEq, Repr

namespace FlowopType

/-- The word that represents a type. -/
def code : FlowopType → UInt32
  | error => 0
  | read => 1
  | write => 2
  | connect => 3
  | disconnect => 4
  | accept => 5
  | nop => 6
  | think => 7
  | send => 8
  | recv => 9
  | sendfilev => 10
  | sendfile => 11
  | other word => word.1

/-- The types with a name, in the order of their codes. -/
def named : List FlowopType :=
  [error, read, write, connect, disconnect, accept, nop, think, send, recv, sendfilev, sendfile]

/-- The type that a word represents. -/
def ofCode (word : UInt32) : FlowopType :=
  if h : word.toNat < named.length then named.get ⟨word.toNat, h⟩
  else other ⟨word, UInt32.le_iff_toNat_le.mpr (Nat.le_of_not_lt h)⟩

theorem code_named : ∀ i : Fin named.length, (named.get i).code = UInt32.ofNat i := by decide

@[simp] theorem ofCode_code (type : FlowopType) : ofCode type.code = type := by
  cases type with
  | other word =>
      have hlarge : ¬ word.1.toNat < named.length :=
        Nat.not_lt.mpr (UInt32.le_iff_toNat_le.mp word.2)
      simp [code, ofCode, hlarge]
  | _ => decide

@[simp] theorem code_ofCode (word : UInt32) : (ofCode word).code = word := by
  unfold ofCode
  split
  · rename_i h
    rw [code_named ⟨word.toNat, h⟩, UInt32.ofNat_toNat]
  · rfl

/-- The flowop opens a connection. -/
def opens : FlowopType → Bool
  | connect | accept => true
  | _ => false

/-- The flowop moves data over a connection. -/
def moves : FlowopType → Bool
  | read | write | send | recv => true
  | _ => false

/-- The flowop needs a connection that is already open. -/
def uses : FlowopType → Bool
  | read | write | send | recv | disconnect => true
  | _ => false

end FlowopType

/-- `opp_flowopsp`. -/
def oppFlowopsp : List (FlowopType × FlowopType) :=
  [(.read, .write), (.send, .recv), (.accept, .connect), (.sendfile, .read),
    (.sendfilev, .read)]

/-- The loop of `flowop_opposite` over its table. -/
def flowopOppositeIn : List (FlowopType × FlowopType) → FlowopType → FlowopType
  | [], type => type
  | (fop, oppositeFop) :: rest, type =>
      if type = fop then oppositeFop
      else if type = oppositeFop then fop
      else flowopOppositeIn rest type

/-- `flowop_opposite`: what the other side does while this side executes `type`. -/
def flowopOpposite (type : FlowopType) : FlowopType := flowopOppositeIn oppFlowopsp type

/-- `flowop_get_execute_func`. -/
def flowopGetExecuteFunc : FlowopType → ExecuteFunc
  | .write | .read | .send | .recv => .flowopRw
  | .connect => .flowopConnect
  | .disconnect => .flowopDisconnect
  | .accept => .flowopAccept
  | .nop => .flowopNop
  | .think => .flowopThink
  | .sendfilev | .sendfile => .flowopSendfilev
  | .error | .other _ => .flowopUnknown

/-! ## The opposite of each type -/

@[simp] theorem flowopOpposite_read : flowopOpposite .read = .write := by decide
@[simp] theorem flowopOpposite_write : flowopOpposite .write = .read := by decide
@[simp] theorem flowopOpposite_send : flowopOpposite .send = .recv := by decide
@[simp] theorem flowopOpposite_recv : flowopOpposite .recv = .send := by decide
@[simp] theorem flowopOpposite_accept : flowopOpposite .accept = .connect := by decide
@[simp] theorem flowopOpposite_connect : flowopOpposite .connect = .accept := by decide
@[simp] theorem flowopOpposite_disconnect : flowopOpposite .disconnect = .disconnect := by decide
@[simp] theorem flowopOpposite_nop : flowopOpposite .nop = .nop := by decide
@[simp] theorem flowopOpposite_think : flowopOpposite .think = .think := by decide
@[simp] theorem flowopOpposite_error : flowopOpposite .error = .error := by decide
@[simp] theorem flowopOpposite_sendfile : flowopOpposite .sendfile = .read := by decide
@[simp] theorem flowopOpposite_sendfilev : flowopOpposite .sendfilev = .read := by decide

@[simp] theorem flowopOpposite_other (word : {word : UInt32 // 12 ≤ word}) :
    flowopOpposite (.other word) = .other word := by
  simp [flowopOpposite, flowopOppositeIn, oppFlowopsp]

/-- A flowop opens a connection exactly when its opposite does. -/
@[simp] theorem opens_flowopOpposite (type : FlowopType) :
    (flowopOpposite type).opens = type.opens := by
  cases type <;> simp [FlowopType.opens]

@[simp] theorem flowopOpposite_eq_nop {type : FlowopType} :
    flowopOpposite type = .nop ↔ type = .nop := by
  cases type <;> simp

@[simp] theorem flowopOpposite_eq_connect {type : FlowopType} :
    flowopOpposite type = .connect ↔ type = .accept := by
  cases type <;> simp

end Uperf
