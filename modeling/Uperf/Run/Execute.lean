import Uperf.Lib.Phases
import Uperf.Workorder

/-!
# Strands at their barriers

The strands of one process, the master or a slave, go through the transactions
of their groups (`group_execute`).  Before each of them they wait at the barrier
that has the number of the transaction.  The leader of a group asks for a
callout when it begins a transaction that has a duration, and
`shm_process_callouts` signals the strands of the group when the time has come.
`StrandMoves.phases` says that for the barriers every step of a strand is
a step of the phases of `Lib.Phases`, or none.
-/

namespace Uperf

open Lib

/-- `barrier_t`.  The lock is held until the barrier is opened. -/
structure Barrier where
  count : ℕ := 0
  limit : ℕ := 0
  locked : Bool := false
deriving DecidableEq

/-- `init_barrier`. -/
def initBarrier (threshold : ℕ) : Barrier where
  count := 0
  limit := threshold
  locked := true

/-- `unlock_barrier`. -/
def unlockBarrier (bar : Barrier) : Barrier := { bar with locked := false }

/-- `BARRIER_NOTREACHED`. -/
def barrierNotreached (bar : Barrier) : Bool := bar.limit ≠ bar.count

/-- Where a strand is in the loop of `group_execute`. -/
inductive StrandPhase
  /-- at the head of the loop -/
  | arriving
  /-- counted by `wait_barrier` and waiting for the lock, `STRAND_STATE_AT_BARRIER` -/
  | waiting
  /-- released from the barrier -/
  | passed
  /-- in the loops of `txn_execute` -/
  | executing
  /-- out of the loop, after `UPERF_FAILURE` -/
  | failed
  /-- out of the loop, because the process has several errors -/
  | quit
deriving DecidableEq, Repr

/-- The fields of `strand_t` that matter here, with its clone of the group and
the position in the list of transactions. -/
structure StrandRun where
  worklist : Group := {}
  leader : Bool := false
  txn : ℕ := 0
  phase : StrandPhase := .arriving
  signalled : Bool := false
  exited : Bool := false

/-- The transaction that the strand is at. -/
def StrandRun.current (s : StrandRun) : Option Txn := s.worklist.tlist[s.txn]?

/-- The fields of `uperf_shm_t` that matter here. -/
structure RunShm where
  bar : ℕ → Barrier := fun _ => {}
  callouts : ℕ → ℕ := fun _ => 0
  txnBegin : ℕ := 0
  finished : ℕ := 0
  globalError : ℕ := 0
  noStrands : ℕ := 0
  strands : ℕ → StrandRun := fun _ => {}

def RunShm.setStrand (shm : RunShm) (i : ℕ) (s : StrandRun) : RunShm :=
  { shm with strands := Function.update shm.strands i s }

/-! ## Callouts -/

/-- `CALLOUT_GRANURALITY`. -/
def calloutGranurality : ℕ := 1000000000

/-- `shm_callout_register`. -/
def shmCalloutRegister (shm : RunShm) (stop groupId : ℕ) : RunShm :=
  if shm.callouts groupId = 0 then
    { shm with callouts := Function.update shm.callouts groupId (stop / calloutGranurality) }
  else shm

/-- `signal_all_strands`, for one group or for all: the strands that are not at
a barrier find `signalled` set.  A strand in phase `passed` is signalled here, also
where its `strand_state` is still `STRAND_STATE_AT_BARRIER` and the source leaves it
out: the model has more signals than the source. -/
def signalAllStrands (shm : RunShm) (groupid : Option ℕ) : RunShm :=
  { shm with strands := fun i =>
      let s := shm.strands i
      if s.phase = .waiting then s
      else if groupid.all (· = s.worklist.groupid.toNat) then { s with signalled := true }
      else s }

/-- The loop of `shm_process_callouts`.  It ends early with an error when the
signalled strands do not answer. -/
def fireCallouts (now : ℕ) (answered : Bool) : List ℕ → RunShm → RunShm
  | [], shm => shm
  | i :: rest, shm =>
      if 0 < shm.callouts i ∧ shm.callouts i ≤ now / calloutGranurality then
        let signalled := signalAllStrands shm (some i)
        if answered then
          fireCallouts now answered rest
            { signalled with callouts := Function.update shm.callouts i 0 }
        else { signalled with globalError := shm.globalError + 1 }
      else fireCallouts now answered rest shm

/-- `shm_process_callouts`. -/
def shmProcessCallouts (shm : RunShm) (noGroups now : ℕ) (answered : Bool) : RunShm :=
  fireCallouts now answered (List.range noGroups) shm

/-! ## The steps of a strand -/

/-- What `txn_execute` returns. -/
inductive TxnResult
  | success
  | failure
  | expired
deriving DecidableEq, Repr

inductive StrandAct
  | arrive
  | pass
  | start
  | finish (result : TxnResult)
  | exit
deriving DecidableEq, Repr

/-- A strand calls `wait_barrier` and is counted. -/
def strandArrive (shm : RunShm) (i : ℕ) : Option RunShm :=
  let s := shm.strands i
  match s.current with
  | none => none
  | some txn =>
      let b := shm.bar txn.txnid.toNat
      if s.phase = .arriving ∧ 0 < b.limit then
        some
          { shm.setStrand i { s with phase := .waiting } with
            bar := Function.update shm.bar txn.txnid.toNat { b with count := b.count + 1 } }
      else none

/-- A strand gets the read lock of its barrier. -/
def strandPass (shm : RunShm) (i : ℕ) : Option RunShm :=
  let s := shm.strands i
  match s.current with
  | none => none
  | some txn =>
      if s.phase = .waiting ∧ (shm.bar txn.txnid.toNat).locked = false then
        some (shm.setStrand i { s with phase := if shm.globalError > 1 then .quit else .passed })
      else none

/-- The time that `txn_duration` computes, as an `hrtime_t`. -/
def txnStop (shm : RunShm) (txn : Txn) : ℕ := (shm.txnBegin + txn.duration.toNat) % 2 ^ 64

/-- A strand begins `txn_execute`; for a transaction with a duration the leader
registers the callout of its group. -/
def strandStart (shm : RunShm) (i : ℕ) : Option RunShm :=
  let s := shm.strands i
  match s.current with
  | none => none
  | some txn =>
      if s.phase = .passed then
        let shm :=
          if txn.duration > 0 ∧ s.leader = true then
            shmCalloutRegister shm (txnStop shm txn) s.worklist.groupid.toNat
          else shm
        some (shm.setStrand i { s with phase := .executing })
      else none

/-- `txn_execute` returns; `duration_execute` never does so with success. -/
def strandFinish (shm : RunShm) (i : ℕ) (result : TxnResult) : Option RunShm :=
  let s := shm.strands i
  match s.current with
  | none => none
  | some txn =>
      if s.phase = .executing ∧ (txn.duration > 0 → result ≠ .success) then
        some (shm.setStrand i
          (if result = .failure then { s with phase := .failed, signalled := false }
            else { s with txn := s.txn + 1, phase := .arriving, signalled := false }))
      else none

/-- The strand is out of the loop of `group_execute`. -/
def StrandRun.done (s : StrandRun) : Prop :=
  (s.phase = .arriving ∧ s.current = none) ∨ s.phase = .failed ∨ s.phase = .quit

instance (s : StrandRun) : Decidable s.done := inferInstanceAs (Decidable (_ ∨ _ ∨ _))

/-- The end of `strand_run`: an error is flagged, and the strand is counted as
finished. -/
def strandExit (shm : RunShm) (i : ℕ) : Option RunShm :=
  let s := shm.strands i
  if s.done ∧ s.exited = false then
    some
      { shm.setStrand i { s with exited := true } with
        globalError := if s.phase = .failed then shm.globalError + 1 else shm.globalError
        finished := shm.finished + 1 }
  else none

/-- The steps of the strand `i`. -/
def strandStep (shm : RunShm) (i : ℕ) (act : StrandAct) : Option RunShm :=
  if i < shm.noStrands then
    match act with
    | .arrive => strandArrive shm i
    | .pass => strandPass shm i
    | .start => strandStart shm i
    | .finish result => strandFinish shm i result
    | .exit => strandExit shm i
  else none

/-! ## Strands as threads of phases -/

/-- How many barriers the strand has arrived at. -/
def StrandRun.arrived (s : StrandRun) : ℕ := if s.phase = .arriving then s.txn else s.txn + 1

/-- How many transactions the strand has begun, the one it is released for
included. -/
def StrandRun.passed (s : StrandRun) : ℕ :=
  if s.phase = .arriving ∨ s.phase = .waiting ∨ s.phase = .quit then s.txn else s.txn + 1

/-- What the barriers and strands of a process are for. -/
def RunShm.phases (shm : RunShm) : Phases ℕ where
  length i := (shm.strands i).worklist.tlist.length
  arrived i := (shm.strands i).arrived
  passed i := (shm.strands i).passed
  count b := (shm.bar b).count
  limit b := (shm.bar b).limit
  opened b := (shm.bar b).locked = false

/-- The strands that run. -/
def RunShm.threads (shm : RunShm) : Finset ℕ := Finset.range shm.noStrands

/-- The transactions of the strands are numbered in order. -/
def RunShm.Numbered (shm : RunShm) : Prop :=
  ∀ i j, ∀ txn : Txn, (shm.strands i).worklist.tlist[j]? = some txn → txn.txnid.toNat = j

/-! ## What each step does -/

/-- The steps of the strand `i`, one by one. -/
inductive StrandMoves (shm : RunShm) (i : ℕ) : StrandAct → RunShm → Prop
  | arrive {txn : Txn} (htxn : (shm.strands i).current = some txn)
      (hphase : (shm.strands i).phase = .arriving) :
      StrandMoves shm i .arrive
        { shm.setStrand i { shm.strands i with phase := .waiting } with
          bar := Function.update shm.bar txn.txnid.toNat
            { shm.bar txn.txnid.toNat with count := (shm.bar txn.txnid.toNat).count + 1 } }
  | pass {txn : Txn} (htxn : (shm.strands i).current = some txn)
      (hphase : (shm.strands i).phase = .waiting)
      (hopen : (shm.bar txn.txnid.toNat).locked = false) :
      StrandMoves shm i .pass (shm.setStrand i { shm.strands i with phase := .passed })
  | quit (hphase : (shm.strands i).phase = .waiting) (herror : 1 < shm.globalError) :
      StrandMoves shm i .pass (shm.setStrand i { shm.strands i with phase := .quit })
  | startTimed {txn : Txn} (htxn : (shm.strands i).current = some txn)
      (hphase : (shm.strands i).phase = .passed) (htimed : txn.duration > 0)
      (hleader : (shm.strands i).leader = true) :
      StrandMoves shm i .start
        ((shmCalloutRegister shm (txnStop shm txn)
            (shm.strands i).worklist.groupid.toNat).setStrand i
          { shm.strands i with phase := .executing })
  | start {txn : Txn} (htxn : (shm.strands i).current = some txn)
      (hphase : (shm.strands i).phase = .passed)
      (hno : ¬ (txn.duration > 0 ∧ (shm.strands i).leader = true)) :
      StrandMoves shm i .start (shm.setStrand i { shm.strands i with phase := .executing })
  | finish {txn : Txn} {result : TxnResult} (htxn : (shm.strands i).current = some txn)
      (hphase : (shm.strands i).phase = .executing) (hresult : result ≠ .failure) :
      StrandMoves shm i (.finish result)
        (shm.setStrand i
          { shm.strands i with
            txn := (shm.strands i).txn + 1, phase := .arriving, signalled := false })
  | fail (hphase : (shm.strands i).phase = .executing) :
      StrandMoves shm i (.finish .failure)
        (shm.setStrand i { shm.strands i with phase := .failed, signalled := false })
  | exit (hdone : (shm.strands i).done) (hexited : (shm.strands i).exited = false) :
      StrandMoves shm i .exit
        { shm.setStrand i { shm.strands i with exited := true } with
          globalError :=
            if (shm.strands i).phase = .failed then shm.globalError + 1 else shm.globalError
          finished := shm.finished + 1 }

theorem strandStep_cases {shm shm' : RunShm} {i : ℕ} {act : StrandAct}
    (hstep : strandStep shm i act = some shm') :
    i < shm.noStrands ∧ StrandMoves shm i act shm' := by
  simp only [strandStep, Option.ite_none_right_eq_some] at hstep
  obtain ⟨hi, hstep⟩ := hstep
  refine ⟨hi, ?_⟩
  cases act with
  | arrive =>
      simp only [strandArrive] at hstep
      split at hstep
      · cases hstep
      · rename_i txn htxn
        obtain ⟨⟨hphase, -⟩, hshm⟩ := Option.ite_none_right_eq_some.mp hstep
        cases hshm
        exact .arrive htxn hphase
  | pass =>
      simp only [strandPass] at hstep
      split at hstep
      · cases hstep
      · rename_i txn htxn
        obtain ⟨⟨hphase, hopen⟩, hshm⟩ := Option.ite_none_right_eq_some.mp hstep
        cases hshm
        by_cases herror : shm.globalError > 1
        · simp only [if_pos herror]
          exact .quit hphase herror
        · simp only [if_neg herror]
          exact .pass htxn hphase hopen
  | start =>
      simp only [strandStart] at hstep
      split at hstep
      · cases hstep
      · rename_i txn htxn
        obtain ⟨hphase, hshm⟩ := Option.ite_none_right_eq_some.mp hstep
        cases hshm
        by_cases htimed : txn.duration > 0 ∧ (shm.strands i).leader = true
        · simp only [if_pos htimed]
          exact .startTimed htxn hphase htimed.1 htimed.2
        · simp only [if_neg htimed]
          exact .start htxn hphase htimed
  | finish result =>
      simp only [strandFinish] at hstep
      split at hstep
      · cases hstep
      · rename_i txn htxn
        obtain ⟨⟨hphase, -⟩, hshm⟩ := Option.ite_none_right_eq_some.mp hstep
        cases hshm
        by_cases hresult : result = .failure
        · subst hresult
          exact .fail hphase
        · simp only [if_neg hresult]
          exact .finish htxn hphase hresult
  | exit =>
      simp only [strandExit] at hstep
      obtain ⟨⟨hdone, hexited⟩, hshm⟩ := Option.ite_none_right_eq_some.mp hstep
      cases hshm
      exact .exit hdone hexited

/-! ## Steps and phases -/

section

variable {shm shm' : RunShm} {i : ℕ}

theorem phases_setStrand {s : StrandRun} (hworklist : s.worklist = (shm.strands i).worklist) :
    (shm.setStrand i s).phases =
      { shm.phases with
        arrived := Function.update shm.phases.arrived i s.arrived
        passed := Function.update shm.phases.passed i s.passed } := by
  have hlength : (shm.setStrand i s).phases.length = shm.phases.length := by
    funext j
    by_cases hj : j = i
    · subst hj
      simp [RunShm.phases, RunShm.setStrand, hworklist]
    · simp [RunShm.phases, RunShm.setStrand, hj]
  have hupdate : ∀ f : StrandRun → ℕ, (fun j => f ((shm.setStrand i s).strands j)) =
      Function.update (fun j => f (shm.strands j)) i (f s) := by
    intro f
    funext j
    by_cases hj : j = i
    · subst hj
      simp [RunShm.setStrand]
    · simp [RunShm.setStrand, hj]
  simp only [RunShm.phases, Phases.mk.injEq] at hlength ⊢
  exact ⟨hlength, hupdate _, hupdate _, rfl, rfl, rfl⟩

/-- A strand whose counts stay as they are. -/
theorem phases_setStrand_of_same {s : StrandRun}
    (hworklist : s.worklist = (shm.strands i).worklist)
    (harrived : s.arrived = (shm.strands i).arrived)
    (hpassed : s.passed = (shm.strands i).passed) : (shm.setStrand i s).phases = shm.phases := by
  have ha : s.arrived = shm.phases.arrived i := harrived
  have hp : s.passed = shm.phases.passed i := hpassed
  rw [phases_setStrand hworklist, ha, hp, Function.update_eq_self, Function.update_eq_self]

@[simp] theorem phases_shmCalloutRegister (stop g : ℕ) :
    (shmCalloutRegister shm stop g).phases = shm.phases := by
  unfold shmCalloutRegister
  split_ifs <;> rfl

@[simp] theorem strands_shmCalloutRegister (stop g : ℕ) :
    (shmCalloutRegister shm stop g).strands = shm.strands := by
  unfold shmCalloutRegister
  split_ifs <;> rfl

theorem StrandRun.current_lt {s : StrandRun} {txn : Txn} (htxn : s.current = some txn) :
    s.txn < s.worklist.tlist.length :=
  (List.getElem?_eq_some_iff.mp htxn).1

/-- A strand that is counted arrives at its gate. -/
theorem phases_arrive {txn : Txn} (hnumber : txn.txnid.toNat = (shm.strands i).txn)
    (hphase : (shm.strands i).phase = .arriving) :
    RunShm.phases
        { shm.setStrand i { shm.strands i with phase := .waiting } with
          bar := Function.update shm.bar txn.txnid.toNat
            { shm.bar txn.txnid.toNat with count := (shm.bar txn.txnid.toNat).count + 1 } } =
      shm.phases.arrive i := by
  have hset : (shm.setStrand i { shm.strands i with phase := .waiting }).phases = _ :=
    phases_setStrand rfl
  have harrived : shm.phases.arrived i = (shm.strands i).txn := by
    simp [RunShm.phases, StrandRun.arrived, hphase]
  have hpassed : shm.phases.passed i = (shm.strands i).txn := by
    simp [RunShm.phases, StrandRun.passed, hphase]
  have hgate : ∀ {α : Type} (f : Barrier → α),
      f { shm.bar txn.txnid.toNat with count := (shm.bar txn.txnid.toNat).count + 1 } =
        f (shm.bar txn.txnid.toNat) →
      (fun b => f (Function.update shm.bar txn.txnid.toNat
        { shm.bar txn.txnid.toNat with count := (shm.bar txn.txnid.toNat).count + 1 } b)) =
        fun b => f (shm.bar b) :=
    fun f hf => funext (update_field f hf)
  have hone : ({ shm.strands i with phase := .waiting } : StrandRun).arrived =
      (shm.strands i).txn + 1 := by simp [StrandRun.arrived]
  have hsame : ({ shm.strands i with phase := .waiting } : StrandRun).passed =
      shm.phases.passed i := by simp [StrandRun.passed, hpassed]
  rw [hone, hsame, Function.update_eq_self] at hset
  have hlength := congrArg Phases.length hset
  have harrive := congrArg Phases.arrived hset
  have hpass := congrArg Phases.passed hset
  refine Phases.ext hlength ?_ hpass ?_ ?_ ?_
  · rw [Phases.arrive, harrived]
    exact harrive
  · funext b
    rw [Phases.arrive, harrived, ← hnumber]
    by_cases hb : b = txn.txnid.toNat
    · subst hb
      simp [RunShm.phases]
    · simp [RunShm.phases, hb]
  · exact hgate Barrier.limit rfl
  · exact hgate (fun b => b.locked = false) rfl

/-- A step of a strand is a step of the phases or changes nothing about them. -/
theorem StrandMoves.phases {act : StrandAct} (hnumbered : shm.Numbered)
    (hi : i < shm.noStrands) (hmoves : StrandMoves shm i act shm') :
    Phases.Step shm.threads shm.phases shm'.phases ∨ shm'.phases = shm.phases := by
  have hmem : i ∈ shm.threads := Finset.mem_range.mpr hi
  cases hmoves with
  | arrive htxn hphase =>
      have hnumber := hnumbered i _ _ htxn
      have harrived : shm.phases.arrived i = (shm.strands i).txn := by
        simp [RunShm.phases, StrandRun.arrived, hphase]
      have hpassed : shm.phases.passed i = (shm.strands i).txn := by
        simp [RunShm.phases, StrandRun.passed, hphase]
      refine .inl ?_
      rw [phases_arrive hnumber hphase]
      refine .arrive hmem (harrived.trans hpassed.symm) ?_
      rw [harrived]
      exact StrandRun.current_lt htxn
  | pass htxn hphase hopen =>
      have hnumber := hnumbered i _ _ htxn
      have harrived : shm.phases.arrived i = (shm.strands i).txn + 1 := by
        simp [RunShm.phases, StrandRun.arrived, hphase]
      have hpassed : shm.phases.passed i = (shm.strands i).txn := by
        simp [RunShm.phases, StrandRun.passed, hphase]
      refine .inl ?_
      have hpass : (shm.setStrand i { shm.strands i with phase := .passed }).phases =
          shm.phases.pass i := by
        rw [phases_setStrand (by rfl), Phases.pass, hpassed]
        simp only [StrandRun.arrived, StrandRun.passed, reduceCtorEq, or_self, if_false]
        rw [← harrived, Function.update_eq_self]
      rw [hpass]
      refine .pass hmem (by rw [harrived, hpassed]) ?_
      rw [hpassed, ← hnumber]
      exact hopen
  | quit hphase herror =>
      refine .inr (phases_setStrand_of_same rfl ?_ ?_)
      · simp [StrandRun.arrived, hphase]
      · simp [StrandRun.passed, hphase]
  | startTimed htxn hphase htimed hleader =>
      refine .inr ((phases_setStrand_of_same ?_ ?_ ?_).trans (phases_shmCalloutRegister _ _)) <;>
        rw [strands_shmCalloutRegister]
      · simp [StrandRun.arrived, hphase]
      · simp [StrandRun.passed, hphase]
  | start htxn hphase hno =>
      refine .inr (phases_setStrand_of_same rfl ?_ ?_)
      · simp [StrandRun.arrived, hphase]
      · simp [StrandRun.passed, hphase]
  | finish htxn hphase hresult =>
      refine .inr (phases_setStrand_of_same rfl ?_ ?_)
      · simp [StrandRun.arrived, hphase]
      · simp [StrandRun.passed, hphase]
  | fail hphase =>
      refine .inr (phases_setStrand_of_same rfl ?_ ?_)
      · simp [StrandRun.arrived, hphase]
      · simp [StrandRun.passed, hphase]
  | exit hdone hexited => exact .inr (phases_setStrand_of_same rfl rfl rfl)

end

end Uperf
