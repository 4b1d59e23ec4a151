import Uperf.Lib.Transition
import Uperf.Run.Barriers

/-!
# The master, its slaves and their strands

`master_poll` opens the barriers of the master one after the other and tells the
slaves to open theirs; `slave_master_poll` waits for these commands.  A run is
any sequence of steps of the master loop, the slave loops and the strands of all
processes.  Commands that the master has written wait in the queue of the slave.
-/

namespace Uperf

/-- `uperf_cmd` and the value that comes with it. -/
inductive Command
  | nextTxn (value : ℕ)
  | abort
  | sendStats
deriving DecidableEq, Repr

/-! ## A slave -/

/-- Where a slave is in `slave_master_poll`. -/
inductive SlavePc
  /-- before `generic_poll` -/
  | poll
  /-- in the loop of `wait_unlock_barrier` -/
  | barrier (txn waitTime : ℕ)
  /-- before `shm_process_callouts` -/
  | callouts
  /-- out of the loop -/
  | stopped
deriving DecidableEq, Repr

/-- A slave process.  The last three fields record the commands it has received
and the barriers that `wait_unlock_barrier` has looked at and unlocked. -/
structure SlaveRun where
  shm : RunShm := {}
  worklist : Group := {}
  pc : SlavePc := .poll
  queue : List Command := []
  received : List ℕ := []
  touched : List ℕ := []
  unlocked : List ℕ := []

inductive SlaveAct
  /-- no command comes in time -/
  | idle
  | receive
  /-- the control connection breaks -/
  | lost
  | wait (signalled answered : Bool)
  | callouts (answered : Bool)
deriving DecidableEq, Repr

/-- What `slave_master_poll` does with a command. -/
def slaveCommand (now : ℕ) (s : SlaveRun) : Command → SlaveRun
  | .nextTxn value =>
      let s := { s with
        shm := { s.shm with txnBegin := now }, received := s.received ++ [value] }
      if value > s.worklist.ntxn.toNat then { s with pc := .callouts }
      else { s with pc := .barrier value 5, touched := s.touched ++ [value] }
  | .abort | .sendStats => { s with pc := .stopped }

/-- One turn of the loop of `wait_unlock_barrier`. -/
def waitUnlockBarrier (now : ℕ) (s : SlaveRun) (txn waitTime : ℕ) (signalled answered : Bool) :
    SlaveRun :=
  if barrierNotreached (s.shm.bar txn) then
    if s.shm.globalError > 0 then { s with pc := .stopped }
    else
      let shm := signalAllStrands s.shm none
      if ¬ signalled then { s with shm := shm, pc := .stopped }
      else
        let shm := shmProcessCallouts shm 1 now answered
        if shm.globalError > 0 ∨ waitTime = 0 then { s with shm := shm, pc := .stopped }
        else { s with shm := shm, pc := .barrier txn (waitTime - 1) }
  else
    let bar := Function.update s.shm.bar txn (unlockBarrier (s.shm.bar txn))
    { s with
      shm := { s.shm with bar := bar }
      pc := .callouts
      unlocked := s.unlocked ++ [txn] }

/-- The steps of `slave_master_poll`. -/
def slaveStep (now : ℕ) (s : SlaveRun) (act : SlaveAct) : Option SlaveRun :=
  match act, s.pc with
  | .idle, .poll =>
      some { s with pc := if s.shm.globalError > 0 then .stopped else .callouts }
  | .receive, .poll =>
      if s.shm.globalError > 0 then some { s with pc := .stopped }
      else
        match s.queue with
        | [] => none
        | command :: queue => some (slaveCommand now { s with queue := queue } command)
  | .lost, .poll => some { s with pc := .stopped }
  | .wait signalled answered, .barrier txn waitTime =>
      some (waitUnlockBarrier now s txn waitTime signalled answered)
  | .callouts answered, .callouts =>
      some { s with shm := shmProcessCallouts s.shm 1 now answered, pc := .poll }
  | _, _ => none

/-- The steps of a slave's loop, one by one. -/
inductive SlaveMoves (now : ℕ) (s : SlaveRun) : SlaveRun → Prop
  | idle (hpc : s.pc = .poll) {pc : SlavePc} (hnew : pc = .stopped ∨ pc = .callouts) :
      SlaveMoves now s { s with pc := pc }
  | skip (hpc : s.pc = .poll) {value : ℕ} {queue : List Command}
      (hqueue : s.queue = .nextTxn value :: queue) (hbig : value > s.worklist.ntxn.toNat) :
      SlaveMoves now s
        { s with
          shm := { s.shm with txnBegin := now }
          queue := queue
          received := s.received ++ [value]
          pc := .callouts }
  | command (hpc : s.pc = .poll) {value : ℕ} {queue : List Command}
      (hqueue : s.queue = .nextTxn value :: queue) (hsmall : value ≤ s.worklist.ntxn.toNat) :
      SlaveMoves now s
        { s with
          shm := { s.shm with txnBegin := now }
          queue := queue
          received := s.received ++ [value]
          touched := s.touched ++ [value]
          pc := .barrier value 5 }
  | stop (hpc : s.pc = .poll) {command : Command} {queue : List Command}
      (hqueue : s.queue = command :: queue) (hcommand : ∀ value, command ≠ .nextTxn value) :
      SlaveMoves now s { s with queue := queue, pc := .stopped }
  | turn {txn waitTime : ℕ} (hpc : s.pc = .barrier txn waitTime) {shm : RunShm}
      (hshm : shm = s.shm ∨ ∃ signalled, shm = signalAllStrands s.shm none ∨
        shm = shmProcessCallouts (signalAllStrands s.shm none) 1 now signalled)
      {pc : SlavePc} (hnew : pc = .stopped ∨ ∃ waitTime, pc = .barrier txn waitTime) :
      SlaveMoves now s { s with shm := shm, pc := pc }
  | unlock {txn waitTime : ℕ} (hpc : s.pc = .barrier txn waitTime)
      (hfull : barrierNotreached (s.shm.bar txn) = false) :
      SlaveMoves now s
        { s with
          shm := { s.shm with
            bar := Function.update s.shm.bar txn (unlockBarrier (s.shm.bar txn)) }
          unlocked := s.unlocked ++ [txn]
          pc := .callouts }
  | callouts (hpc : s.pc = .callouts) (answered : Bool) :
      SlaveMoves now s { s with shm := shmProcessCallouts s.shm 1 now answered, pc := .poll }

theorem waitUnlockBarrier_moves {now : ℕ} {s : SlaveRun} {txn waitTime : ℕ}
    (hpc : s.pc = .barrier txn waitTime) (signalled answered : Bool) :
    SlaveMoves now s (waitUnlockBarrier now s txn waitTime signalled answered) := by
  by_cases hfull : barrierNotreached (s.shm.bar txn) = true
  · simp only [waitUnlockBarrier, if_pos hfull]
    split_ifs
    · exact .turn hpc (.inl rfl) (.inl rfl)
    · exact .turn hpc (.inr ⟨answered, .inr rfl⟩) (.inl rfl)
    · exact .turn hpc (.inr ⟨answered, .inr rfl⟩) (.inr ⟨_, rfl⟩)
    · exact .turn hpc (.inr ⟨false, .inl rfl⟩) (.inl rfl)
  · simp only [waitUnlockBarrier, if_neg hfull]
    exact .unlock hpc (by simpa using hfull)

theorem slaveStep_cases {now : ℕ} {s s' : SlaveRun} {act : SlaveAct}
    (hstep : slaveStep now s act = some s') : SlaveMoves now s s' := by
  unfold slaveStep at hstep
  split at hstep
  · rename_i hpc
    cases hstep
    refine .idle hpc ?_
    split_ifs
    · exact .inl rfl
    · exact .inr rfl
  · rename_i hpc
    split at hstep
    · cases hstep
      exact .idle hpc (.inl rfl)
    · split at hstep
      · cases hstep
      · rename_i command queue hqueue
        cases hstep
        cases command with
        | nextTxn value =>
            by_cases hbig : value > s.worklist.ntxn.toNat
            · simp only [slaveCommand, if_pos hbig]
              exact .skip hpc hqueue hbig
            · simp only [slaveCommand, if_neg hbig]
              exact .command hpc hqueue (not_lt.mp hbig)
        | abort | sendStats => exact .stop hpc hqueue (by simp)
  · rename_i hpc
    cases hstep
    exact .idle hpc (.inl rfl)
  · rename_i hpc
    cases hstep
    exact waitUnlockBarrier_moves hpc _ _
  · rename_i hpc
    cases hstep
    exact .callouts hpc _
  · cases hstep

/-! ## The master -/

/-- Where the master is in `master_poll`. -/
inductive MasterPc
  /-- at the head of the first loop -/
  | loop (currTxn : ℕ)
  /-- before the test of the barrier -/
  | check (currTxn : ℕ)
  /-- in `send_command_to_slaves`, before the slave `k` -/
  | send (currTxn k : ℕ)
  /-- before `unlock_barrier` -/
  | unlock (currTxn : ℕ)
  /-- at the head of the second loop -/
  | waiting
  | returned (code : ℕ)
deriving DecidableEq, Repr

/-- All processes of a run, and the clock.  `errorStats` is the option of that
name. -/
structure System where
  now : ℕ := 0
  errorStats : Bool := false
  master : RunShm := {}
  pc : MasterPc := .loop 0
  noSlaves : ℕ := 0
  slaves : ℕ → SlaveRun := fun _ => {}

inductive MasterAct
  | poll (message answered : Bool)
  | check
  | send (sent : Bool)
  | unlock
  | wait (answered sent : Bool)
deriving DecidableEq, Repr

/-- A command written to the control connection of one slave. -/
def System.sendTo (st : System) (k : ℕ) (command : Command) : System :=
  let s := st.slaves k
  { st with slaves := Function.update st.slaves k { s with queue := s.queue ++ [command] } }

/-- `send_command_to_slaves` when every write succeeds. -/
def System.sendToAll (st : System) (command : Command) : System :=
  { st with slaves := fun k =>
      let s := st.slaves k
      if k < st.noSlaves then { s with queue := s.queue ++ [command] } else s }

/-- What `master_poll` does after its loops. -/
def masterLeave (st : System) (sent : Bool) : System :=
  if st.master.globalError > 0 then { st.sendToAll .abort with pc := .returned 1 }
  else if st.errorStats then
    if sent then { st.sendToAll .sendStats with pc := .returned 0 }
    else { st with pc := .returned 1 }
  else { st with pc := .returned 0 }

/-- The steps of `master_poll`. -/
def masterStep (w : Workorder) (st : System) (act : MasterAct) : Option System :=
  match act, st.pc with
  | .poll message answered, .loop currTxn =>
      if ¬ currTxn < workorderMaxTxn w ∨ st.master.globalError > 0 then
        some { st with pc := .waiting }
      else if message then
        some
          { st with
            master := { st.master with globalError := st.master.globalError + 1 }
            pc := .waiting }
      else
        some
          { st with
            master := shmProcessCallouts st.master w.grp.length st.now answered
            pc := .check currTxn }
  | .check, .check currTxn =>
      if barrierNotreached (st.master.bar currTxn) then some { st with pc := .loop currTxn }
      else some { st with pc := .send currTxn 0 }
  | .send sent, .send currTxn k =>
      if k < st.noSlaves ∧ sent then
        some { st.sendTo k (.nextTxn currTxn) with pc := .send currTxn (k + 1) }
      else some { st with pc := .unlock currTxn }
  | .unlock, .unlock currTxn =>
      let bar := Function.update st.master.bar currTxn (unlockBarrier (st.master.bar currTxn))
      some
        { st with
          master := { st.master with txnBegin := st.now, bar := bar }
          pc := .loop (currTxn + 1) }
  | .wait answered sent, .waiting =>
      if st.master.globalError = 0 ∧ st.master.finished = 0 then
        some { st with master := shmProcessCallouts st.master w.grp.length st.now answered }
      else some (masterLeave st sent)
  | _, _ => none

/-- The steps of the master's loops, one by one. -/
inductive MasterMoves (w : Workorder) (st : System) : System → Prop
  | leave {currTxn : ℕ} (hpc : st.pc = .loop currTxn)
      (hend : ¬ currTxn < workorderMaxTxn w ∨ st.master.globalError > 0) :
      MasterMoves w st { st with pc := .waiting }
  | message {currTxn : ℕ} (hpc : st.pc = .loop currTxn) :
      MasterMoves w st
        { st with
          master := { st.master with globalError := st.master.globalError + 1 }
          pc := .waiting }
  | callouts {currTxn : ℕ} (hpc : st.pc = .loop currTxn) (hlt : currTxn < workorderMaxTxn w)
      (answered : Bool) :
      MasterMoves w st
        { st with
          master := shmProcessCallouts st.master w.grp.length st.now answered
          pc := .check currTxn }
  | again {currTxn : ℕ} (hpc : st.pc = .check currTxn) :
      MasterMoves w st { st with pc := .loop currTxn }
  | full {currTxn : ℕ} (hpc : st.pc = .check currTxn)
      (hfull : barrierNotreached (st.master.bar currTxn) = false) :
      MasterMoves w st { st with pc := .send currTxn 0 }
  | send {currTxn k : ℕ} (hpc : st.pc = .send currTxn k) (hk : k < st.noSlaves) :
      MasterMoves w st { st.sendTo k (.nextTxn currTxn) with pc := .send currTxn (k + 1) }
  | sent {currTxn k : ℕ} (hpc : st.pc = .send currTxn k) :
      MasterMoves w st { st with pc := .unlock currTxn }
  | unlock {currTxn : ℕ} (hpc : st.pc = .unlock currTxn) :
      MasterMoves w st
        { st with
          master := { st.master with
            txnBegin := st.now
            bar := Function.update st.master.bar currTxn
              (unlockBarrier (st.master.bar currTxn)) }
          pc := .loop (currTxn + 1) }
  | wait (hpc : st.pc = .waiting) (herror : st.master.globalError = 0)
      (hfinished : st.master.finished = 0) (answered : Bool) :
      MasterMoves w st
        { st with master := shmProcessCallouts st.master w.grp.length st.now answered }
  | left (hpc : st.pc = .waiting)
      (hleave : ¬ (st.master.globalError = 0 ∧ st.master.finished = 0)) (sent : Bool) :
      MasterMoves w st (masterLeave st sent)

theorem masterStep_cases {w : Workorder} {st st' : System} {act : MasterAct}
    (hstep : masterStep w st act = some st') : MasterMoves w st st' := by
  unfold masterStep at hstep
  split at hstep
  · rename_i message answered currTxn hpc
    by_cases hend : ¬ currTxn < workorderMaxTxn w ∨ st.master.globalError > 0
    · rw [if_pos hend] at hstep
      cases hstep
      exact .leave hpc hend
    · rw [if_neg hend] at hstep
      obtain ⟨hlt, -⟩ := not_or.mp hend
      cases message with
      | true =>
          cases hstep
          exact .message hpc
      | false =>
          cases hstep
          exact .callouts hpc (not_not.mp hlt) answered
  · rename_i currTxn hpc
    split at hstep
    · cases hstep
      exact .again hpc
    · rename_i hfull
      cases hstep
      exact .full hpc (by simpa using hfull)
  · rename_i sent currTxn k hpc
    split at hstep
    · rename_i hsend
      cases hstep
      exact .send hpc hsend.1
    · cases hstep
      exact .sent hpc
  · rename_i currTxn hpc
    cases hstep
    exact .unlock hpc
  · rename_i answered sent hpc
    split at hstep
    · rename_i hwait
      cases hstep
      exact .wait hpc hwait.1 hwait.2 answered
    · rename_i hleave
      cases hstep
      exact .left hpc hleave sent
  · cases hstep

/-! ## Runs -/

inductive Action
  | tick (time : ℕ)
  | master (act : MasterAct)
  | masterStrand (i : ℕ) (act : StrandAct)
  | slave (k : ℕ) (act : SlaveAct)
  | slaveStrand (k i : ℕ) (act : StrandAct)
deriving DecidableEq, Repr

/-- One step of one of the parties. -/
def System.step (w : Workorder) (st : System) : Action → Option System
  | .tick time => some { st with now := st.now + time }
  | .master act => masterStep w st act
  | .masterStrand i act => (strandStep st.master i act).map fun shm => { st with master := shm }
  | .slave k act =>
      if k < st.noSlaves then
        (slaveStep st.now (st.slaves k) act).map fun s =>
          { st with slaves := Function.update st.slaves k s }
      else none
  | .slaveStrand k i act =>
      if k < st.noSlaves then
        (strandStep (st.slaves k).shm i act).map fun shm =>
          { st with
            slaves := Function.update st.slaves k { st.slaves k with shm := shm } }
      else none

/-- The steps of the parties, one by one. -/
inductive Moves (w : Workorder) (st : System) : Action → System → Prop
  | tick (time : ℕ) : Moves w st (.tick time) { st with now := st.now + time }
  | master {act : MasterAct} {st' : System} (hmoves : MasterMoves w st st') :
      Moves w st (.master act) st'
  | masterStrand {i : ℕ} {act : StrandAct} {shm : RunShm}
      (hstrand : strandStep st.master i act = some shm) :
      Moves w st (.masterStrand i act) { st with master := shm }
  | slave {k : ℕ} {act : SlaveAct} {s : SlaveRun} (hk : k < st.noSlaves)
      (hmoves : SlaveMoves st.now (st.slaves k) s) :
      Moves w st (.slave k act) { st with slaves := Function.update st.slaves k s }
  | slaveStrand {k i : ℕ} {act : StrandAct} {shm : RunShm} (hk : k < st.noSlaves)
      (hstrand : strandStep (st.slaves k).shm i act = some shm) :
      Moves w st (.slaveStrand k i act)
        { st with slaves := Function.update st.slaves k { st.slaves k with shm := shm } }

theorem System.step_cases {w : Workorder} {st st' : System} {act : Action}
    (hstep : st.step w act = some st') : Moves w st act st' := by
  cases act with
  | tick time =>
      cases hstep
      exact .tick time
  | master act => exact .master (masterStep_cases hstep)
  | masterStrand i act =>
      obtain ⟨shm, hstrand, rfl⟩ := Option.map_eq_some_iff.mp hstep
      exact .masterStrand hstrand
  | slave k act =>
      obtain ⟨hk, hstep⟩ := Option.ite_none_right_eq_some.mp hstep
      obtain ⟨s, hs, rfl⟩ := Option.map_eq_some_iff.mp hstep
      exact .slave hk (slaveStep_cases hs)
  | slaveStrand k i act =>
      obtain ⟨hk, hstep⟩ := Option.ite_none_right_eq_some.mp hstep
      obtain ⟨shm, hstrand, rfl⟩ := Option.map_eq_some_iff.mp hstep
      exact .slaveStrand hk hstrand

/-- A run from `st`. -/
def System.run (w : Workorder) (st : System) (acts : List Action) : Option System :=
  Lib.run (System.step w) st acts

/-- A slave that got the work order `g`, before its first command. -/
def slaveRunStart (g : Group) : Option SlaveRun :=
  (slaveStart g).map fun shm => { shm := shm, worklist := g }

/-- All processes before the first command: the master of the work order `w`
and one slave for each control connection. -/
def systemStart (w : Workorder) (slaves : List Group) (errorStats : Bool) : Option System := do
  let master ← masterStart w
  let slaves ← slaves.mapM slaveRunStart
  some
    { errorStats := errorStats
      master := master
      noSlaves := slaves.length
      slaves := fun k => slaves[k]?.getD {} }

end Uperf
