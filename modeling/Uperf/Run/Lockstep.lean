import Uperf.Run.System

/-!
# Transactions run in lockstep

A barrier of the master is opened when all strands that need it are there, and
the command for a slave is written only then.  So whatever a slave does with a
command, the strands of the master have got to the barrier of that number
(`Synchronized`), and no strand of any process begins a transaction before the
others have finished the one before (`System.run_lockstep`).
-/

namespace Uperf

open Lib

/-! ## Steps of one process -/

/-- What the processes of a run may do to their strands and barriers. -/
structure ShmStep (shm shm' : RunShm) : Prop where
  noStrands : shm'.noStrands = shm.noStrands
  worklist : ∀ i, (shm'.strands i).worklist = (shm.strands i).worklist
  phases : Phases.Step shm.threads shm.phases shm'.phases ∨ shm'.phases = shm.phases

/-- A process whose strands are threads of phases. -/
structure RunShm.Ordered (shm : RunShm) : Prop where
  numbered : shm.Numbered
  inv : Phases.Inv shm.threads shm.phases

/-- All strands of the process that have a transaction `b` have arrived at its
barrier. -/
def RunShm.Gathered (shm : RunShm) (b : ℕ) : Prop := Phases.Gathered shm.threads shm.phases b

section

variable {shm shm' : RunShm}

theorem ShmStep.refl (shm : RunShm) : ShmStep shm shm := ⟨rfl, fun _ => rfl, .inr rfl⟩

theorem ShmStep.threads (h : ShmStep shm shm') : shm'.threads = shm.threads := by
  rw [RunShm.threads, RunShm.threads, h.noStrands]

theorem ShmStep.ordered (h : ShmStep shm shm') (hshm : shm.Ordered) : shm'.Ordered where
  numbered i j txn htxn := by
    rw [h.worklist] at htxn
    exact hshm.numbered i j txn htxn
  inv := by
    rw [h.threads]
    rcases h.phases with hstep | hsame
    · exact hshm.inv.step hstep
    · rw [hsame]
      exact hshm.inv

theorem ShmStep.gathered (h : ShmStep shm shm') {b : ℕ} (hb : shm.Gathered b) :
    shm'.Gathered b := by
  rw [RunShm.Gathered, h.threads]
  rcases h.phases with hstep | hsame
  · exact Phases.Gathered.step hb hstep
  · rw [hsame]
    exact hb

/-- A field other than the flag is the same after signals. -/
theorem signalled_field {α : Type} (f : StrandRun → α)
    (hf : ∀ s signalled, f { s with signalled := signalled } = f s)
    (hstrands : ∀ i, ∃ signalled, shm'.strands i = { shm.strands i with signalled := signalled })
    (i : ℕ) : f (shm'.strands i) = f (shm.strands i) := by
  obtain ⟨signalled, hi⟩ := hstrands i
  rw [hi, hf]

/-- Steps that only move the clock, callouts, signals or errors. -/
theorem ShmStep.of_strands (hno : shm'.noStrands = shm.noStrands) (hbar : shm'.bar = shm.bar)
    (hstrands : ∀ i, ∃ signalled, shm'.strands i = { shm.strands i with signalled := signalled }) :
    ShmStep shm shm' := by
  refine ⟨hno, signalled_field StrandRun.worklist (fun _ _ => rfl) hstrands, .inr ?_⟩
  apply Phases.ext
  · exact funext (signalled_field (fun s => s.worklist.tlist.length) (fun _ _ => rfl) hstrands)
  · exact funext (signalled_field StrandRun.arrived (fun _ _ => rfl) hstrands)
  · exact funext (signalled_field StrandRun.passed (fun _ _ => rfl) hstrands)
  all_goals
    simp only [RunShm.phases, hbar]

theorem signalAllStrands_strands (shm : RunShm) (groupid : Option ℕ) (i : ℕ) :
    ∃ signalled, (signalAllStrands shm groupid).strands i =
      { shm.strands i with signalled := signalled } := by
  simp only [signalAllStrands]
  split_ifs
  · exact ⟨_, rfl⟩
  · exact ⟨true, rfl⟩
  · exact ⟨_, rfl⟩

/-- What the loop over the callouts leaves alone. -/
theorem fireCallouts_frame (shm : RunShm) (now : ℕ) (answered : Bool) (groups : List ℕ) :
    (fireCallouts now answered groups shm).noStrands = shm.noStrands ∧
      (fireCallouts now answered groups shm).bar = shm.bar ∧
      ∀ i, ∃ signalled, (fireCallouts now answered groups shm).strands i =
        { shm.strands i with signalled := signalled } := by
  induction groups generalizing shm with
  | nil => exact ⟨rfl, rfl, fun i => ⟨_, rfl⟩⟩
  | cons g rest ih =>
      simp only [fireCallouts]
      split_ifs
      · obtain ⟨hno, hbar, hstrands⟩ := ih
          { signalAllStrands shm (some g) with callouts := Function.update shm.callouts g 0 }
        refine ⟨hno, hbar, fun i => ?_⟩
        obtain ⟨signalled, hi⟩ := hstrands i
        obtain ⟨before, hbefore⟩ := signalAllStrands_strands shm (some g) i
        refine ⟨signalled, ?_⟩
        rw [hi]
        simp only [hbefore]
      · exact ⟨rfl, rfl, signalAllStrands_strands shm (some g)⟩
      · exact ih shm

theorem shmProcessCallouts_step (shm : RunShm) (noGroups now : ℕ) (answered : Bool) :
    ShmStep shm (shmProcessCallouts shm noGroups now answered) := by
  obtain ⟨hno, hbar, hstrands⟩ :=
    fireCallouts_frame shm now answered (List.range noGroups)
  exact .of_strands hno hbar hstrands

theorem signalAllStrands_step (shm : RunShm) (groupid : Option ℕ) :
    ShmStep shm (signalAllStrands shm groupid) :=
  .of_strands rfl rfl (signalAllStrands_strands shm groupid)

/-- A full barrier may be opened. -/
theorem ShmStep.unlock {b : ℕ} (hfull : barrierNotreached (shm.bar b) = false) (txnBegin : ℕ) :
    ShmStep shm
      { shm with
        txnBegin := txnBegin
        bar := Function.update shm.bar b (unlockBarrier (shm.bar b)) } := by
  have hlimit : (shm.bar b).limit = (shm.bar b).count := by
    simpa [barrierNotreached] using hfull
  have hcount : shm.phases.count b = shm.phases.limit b := hlimit.symm
  refine ⟨rfl, fun _ => rfl, .inl ?_⟩
  convert (Phases.Step.unlock hcount : Phases.Step shm.threads _ _) using 1
  refine Phases.ext rfl rfl rfl ?_ ?_ ?_
  · funext b'
    by_cases hb : b' = b
    · subst hb
      simp [RunShm.phases, Phases.unlock, unlockBarrier]
    · simp [RunShm.phases, Phases.unlock, hb]
  · funext b'
    by_cases hb : b' = b
    · subst hb
      simp [RunShm.phases, Phases.unlock, unlockBarrier]
    · simp [RunShm.phases, Phases.unlock, hb]
  · funext b'
    by_cases hb : b' = b
    · subst hb
      simp [RunShm.phases, Phases.unlock, unlockBarrier]
    · simp [RunShm.phases, Phases.unlock, hb]

theorem strandStep_step {i : ℕ} {act : StrandAct} (hnumbered : shm.Numbered)
    (hstep : strandStep shm i act = some shm') : ShmStep shm shm' := by
  obtain ⟨hi, hmoves⟩ := strandStep_cases hstep
  refine ⟨?_, fun j => ?_, hmoves.phases hnumbered hi⟩
  · cases hmoves with
    | startTimed => simp [RunShm.setStrand, shmCalloutRegister, apply_ite RunShm.noStrands]
    | _ => rfl
  · cases hmoves with
    | startTimed =>
        simp only [RunShm.setStrand, strands_shmCalloutRegister]
        exact update_field StrandRun.worklist (by rfl) j
    | _ => exact update_field StrandRun.worklist (by rfl) j

end

/-! ## A slave and its commands -/

/-- What holds of a slave when the master has the strands of `G v` at its
barrier `v`: commands come, and barriers are opened, only for such `v`. -/
structure SlaveRun.Follows (G : ℕ → Prop) (s : SlaveRun) : Prop where
  ordered : s.shm.Ordered
  uniform : ∀ i ∈ s.shm.threads, s.shm.phases.length i = s.worklist.tlist.length
  queue : ∀ v, .nextTxn v ∈ s.queue → G v
  barrier : ∀ v waitTime, s.pc = .barrier v waitTime → G v
  opened : ∀ b < s.worklist.tlist.length, s.shm.phases.opened b → G b

section

variable {G G' : ℕ → Prop} {s s' : SlaveRun}

theorem SlaveRun.Follows.mono (h : s.Follows G) (hG : ∀ v, G v → G' v) : s.Follows G' where
  ordered := h.ordered
  uniform := h.uniform
  queue v hv := hG v (h.queue v hv)
  barrier v waitTime hpc := hG v (h.barrier v waitTime hpc)
  opened b hb hopen := hG b (h.opened b hb hopen)

theorem length_of_step {shm shm' : RunShm} (hstep : ShmStep shm shm') (i : ℕ) :
    shm'.phases.length i = shm.phases.length i := by
  show (shm'.strands i).worklist.tlist.length = (shm.strands i).worklist.tlist.length
  rw [hstep.worklist]

/-- A step of the slave's process that opens no barrier. -/
theorem SlaveRun.Follows.shm (h : s.Follows G) {shm : RunShm} (hstep : ShmStep s.shm shm)
    (hopened : ∀ b, shm.phases.opened b → s.shm.phases.opened b) :
    ({ s with shm := shm } : SlaveRun).Follows G where
  ordered := hstep.ordered h.ordered
  uniform i hi := by
    rw [length_of_step hstep, h.uniform i (by rwa [← hstep.threads])]
  queue := h.queue
  barrier := h.barrier
  opened b hb hopen := h.opened b hb (hopened b hopen)

theorem SlaveRun.Follows.moves (h : s.Follows G) {now : ℕ} (hmoves : SlaveMoves now s s') :
    s'.Follows G := by
  have hnow : ∀ txnBegin, ShmStep s.shm { s.shm with txnBegin := txnBegin } :=
    fun _ => ⟨rfl, fun _ => rfl, .inr rfl⟩
  cases hmoves with
  | idle hpc hnew =>
      refine ⟨h.ordered, h.uniform, h.queue, fun v waitTime hbarrier => ?_, h.opened⟩
      rcases hnew with rfl | rfl <;> cases hbarrier
  | skip hpc hqueue hbig =>
      have hshm := h.shm (hnow now) fun _ hopen => hopen
      refine ⟨hshm.ordered, hshm.uniform, fun v hv => ?_, by simp, hshm.opened⟩
      exact h.queue v (by rw [hqueue]; exact List.mem_cons_of_mem _ hv)
  | command hpc hqueue hsmall =>
      have hshm := h.shm (hnow now) fun _ hopen => hopen
      refine ⟨hshm.ordered, hshm.uniform, fun v hv => ?_, ?_, hshm.opened⟩
      · exact h.queue v (by rw [hqueue]; exact List.mem_cons_of_mem _ hv)
      · intro v waitTime hbarrier
        cases hbarrier
        exact h.queue _ (by rw [hqueue]; exact List.mem_cons_self)
  | stop hpc hqueue hcommand =>
      refine ⟨h.ordered, h.uniform, fun v hv => ?_, by simp, h.opened⟩
      exact h.queue v (by rw [hqueue]; exact List.mem_cons_of_mem _ hv)
  | turn hpc hshm hnew =>
      rename_i txn waitTime shm pc
      have hstep : ShmStep s.shm shm ∧ shm.bar = s.shm.bar := by
        rcases hshm with rfl | ⟨answered, rfl | rfl⟩
        · exact ⟨.refl _, rfl⟩
        · exact ⟨signalAllStrands_step _ none, rfl⟩
        · obtain ⟨hno, hbar, hstrands⟩ := fireCallouts_frame
            (signalAllStrands s.shm none) now answered (List.range 1)
          refine ⟨.of_strands hno hbar fun i => ?_, hbar⟩
          obtain ⟨signalled, hi⟩ := hstrands i
          obtain ⟨before, hbefore⟩ := signalAllStrands_strands s.shm none i
          exact ⟨signalled, by rw [shmProcessCallouts, hi, hbefore]⟩
      have hfollows := h.shm hstep.1 fun b hopen => by
        simpa only [RunShm.phases, hstep.2] using hopen
      refine ⟨hfollows.ordered, hfollows.uniform, h.queue, ?_, hfollows.opened⟩
      intro v waitTime' hbarrier
      rcases hnew with rfl | ⟨waitTime'', rfl⟩
      · cases hbarrier
      · cases hbarrier
        exact h.barrier _ _ hpc
  | unlock hpc hfull =>
      rename_i txn waitTime
      have hstep := ShmStep.unlock hfull s.shm.txnBegin
      refine ⟨hstep.ordered h.ordered, fun i hi => ?_, h.queue, by simp, ?_⟩
      · rw [length_of_step hstep, h.uniform i (by rwa [← hstep.threads])]
      · intro b hb hopen
        by_cases hbtxn : b = txn
        · rw [hbtxn]
          exact h.barrier _ _ hpc
        · refine h.opened b hb ?_
          simpa [RunShm.phases, Function.update_of_ne hbtxn] using hopen
  | callouts hpc answered =>
      have hstep := shmProcessCallouts_step s.shm 1 now answered
      have hbar := (fireCallouts_frame s.shm now answered (List.range 1)).2.1
      have hfollows := h.shm hstep fun b hopen => by
        simpa only [RunShm.phases, shmProcessCallouts, hbar] using hopen
      exact ⟨hfollows.ordered, hfollows.uniform, h.queue, by simp, hfollows.opened⟩

theorem strandStep_opened {shm shm' : RunShm} {i : ℕ} {act : StrandAct}
    (hstep : strandStep shm i act = some shm') (b : ℕ) :
    shm'.phases.opened b ↔ shm.phases.opened b := by
  obtain ⟨-, hmoves⟩ := strandStep_cases hstep
  cases hmoves with
  | arrive htxn hphase =>
      rename_i txn
      by_cases hb : b = txn.txnid.toNat
      · subst hb
        simp [RunShm.phases]
      · simp [RunShm.phases, RunShm.setStrand, hb]
  | startTimed =>
      simp only [RunShm.phases, RunShm.setStrand, shmCalloutRegister]
      split_ifs <;> rfl
  | _ => rfl

theorem SlaveRun.Follows.strand (h : s.Follows G) {i : ℕ} {act : StrandAct} {shm : RunShm}
    (hstep : strandStep s.shm i act = some shm) :
    ({ s with shm := shm } : SlaveRun).Follows G :=
  h.shm (strandStep_step h.ordered.numbered hstep) fun b => (strandStep_opened hstep b).mp

end

/-! ## The whole system -/

/-- Every command that is written, waits or is carried out, and every open
barrier of a slave, is one for which the master's strands have arrived. -/
structure System.Synchronized (st : System) : Prop where
  master : st.master.Ordered
  sending : ∀ currTxn, (st.pc = .unlock currTxn ∨ ∃ k, st.pc = .send currTxn k) →
    st.master.Gathered currTxn
  slaves : ∀ k, (st.slaves k).Follows st.master.Gathered

section

variable {w : Workorder} {st st' : System}

/-- A step of the master's process moves the slaves nowhere. -/
theorem System.Synchronized.shm (h : st.Synchronized) {shm : RunShm}
    (hstep : ShmStep st.master shm) {pc : MasterPc}
    (hpc : ∀ currTxn, (pc = .unlock currTxn ∨ ∃ k, pc = .send currTxn k) →
      st.master.Gathered currTxn) :
    ({ st with master := shm, pc := pc } : System).Synchronized where
  master := hstep.ordered h.master
  sending currTxn hsending := hstep.gathered (hpc currTxn hsending)
  slaves k := (h.slaves k).mono fun _ hv => hstep.gathered hv

/-- New commands are for gathered barriers. -/
theorem System.Synchronized.queues (h : st.Synchronized) {slaves : ℕ → SlaveRun} {pc : MasterPc}
    (hpc : ∀ currTxn, (pc = .unlock currTxn ∨ ∃ k, pc = .send currTxn k) →
      st.master.Gathered currTxn)
    (hslaves : ∀ k, ∃ queue, slaves k = { st.slaves k with queue := queue } ∧
      ∀ v, .nextTxn v ∈ queue → .nextTxn v ∈ (st.slaves k).queue ∨ st.master.Gathered v) :
    ({ st with slaves := slaves, pc := pc } : System).Synchronized where
  master := h.master
  sending := hpc
  slaves k := by
    obtain ⟨queue, hk, hqueue⟩ := hslaves k
    have hfollows := h.slaves k
    show (slaves k).Follows _
    rw [hk]
    refine ⟨hfollows.ordered, hfollows.uniform, fun v hv => ?_, hfollows.barrier,
      hfollows.opened⟩
    exact (hqueue v hv).elim (hfollows.queue v) id

theorem System.sendToAll_queue (st : System) {command : Command}
    (hcommand : ∀ v, command ≠ .nextTxn v) (k : ℕ) :
    ∃ queue, (st.sendToAll command).slaves k = { st.slaves k with queue := queue } ∧
      ∀ v, .nextTxn v ∈ queue → .nextTxn v ∈ (st.slaves k).queue := by
  by_cases hk : k < st.noSlaves
  · refine ⟨(st.slaves k).queue ++ [command], by simp [System.sendToAll, hk], fun v hv => ?_⟩
    rcases List.mem_append.mp hv with hv | hv
    · exact hv
    · exact absurd (List.mem_singleton.mp hv).symm (hcommand v)
  · exact ⟨(st.slaves k).queue, by simp [System.sendToAll, hk], fun v hv => hv⟩

theorem System.Synchronized.left (h : st.Synchronized) (sent : Bool) :
    (masterLeave st sent).Synchronized := by
  have hall : ∀ {command : Command} (code : ℕ), (∀ v, command ≠ .nextTxn v) →
      ({ st.sendToAll command with pc := .returned code } : System).Synchronized := by
    intro command code hcommand
    refine h.queues (by simp) fun k => ?_
    obtain ⟨queue, hk, hqueue⟩ := st.sendToAll_queue hcommand k
    exact ⟨queue, hk, fun v hv => .inl (hqueue v hv)⟩
  have hnone : ∀ code, ({ st with pc := .returned code } : System).Synchronized :=
    fun code => h.shm (.refl _) (by simp)
  unfold masterLeave
  split_ifs
  · exact hall 1 (by simp)
  · exact hall 0 (by simp)
  · exact hnone 1
  · exact hnone 0

/-- A command is written for a transaction whose barrier is gathered. -/
theorem System.Synchronized.send (h : st.Synchronized) {currTxn k : ℕ}
    (hpc : st.pc = .send currTxn k) :
    ({ st.sendTo k (.nextTxn currTxn) with
      pc := .send currTxn (k + 1) } : System).Synchronized := by
  have hgathered := h.sending currTxn (.inr ⟨k, hpc⟩)
  refine h.queues ?_ fun k' => ?_
  · rintro currTxn' (hunlock | ⟨k', hsend⟩)
    · cases hunlock
    · cases hsend
      exact hgathered
  · by_cases hk' : k' = k
    · subst hk'
      refine ⟨_, Function.update_self _ _ _, fun v hv => ?_⟩
      rcases List.mem_append.mp hv with hv | hv
      · exact .inl hv
      · cases List.mem_singleton.mp hv
        exact .inr hgathered
    · exact ⟨_, Function.update_of_ne hk' _ _, fun v hv => .inl hv⟩

theorem System.Synchronized.master_moves (h : st.Synchronized) (hmoves : MasterMoves w st st') :
    st'.Synchronized := by
  cases hmoves with
  | leave hpc hend => exact h.shm (.refl _) (by simp)
  | message hpc =>
      have hstep : ShmStep st.master
          { st.master with globalError := st.master.globalError + 1 } :=
        ⟨rfl, fun _ => rfl, .inr rfl⟩
      exact h.shm hstep (by simp)
  | callouts hpc hlt answered => exact h.shm (shmProcessCallouts_step _ _ _ _) (by simp)
  | again hpc => exact h.shm (.refl _) (by simp)
  | full hpc hfull =>
      rename_i currTxn
      have hlimit : (st.master.bar currTxn).limit = (st.master.bar currTxn).count := by
        simpa [barrierNotreached] using hfull
      refine h.shm (.refl _) ?_
      rintro currTxn' (hunlock | ⟨k, hsend⟩)
      · cases hunlock
      · cases hsend
        exact h.master.inv.gathered_of_full hlimit.symm
  | send hpc hk => exact h.send hpc
  | sent hpc =>
      refine h.shm (.refl _) ?_
      rintro currTxn (hunlock | ⟨k, hsend⟩)
      · cases hunlock
        exact h.sending _ (.inr ⟨_, hpc⟩)
      · cases hsend
  | unlock hpc =>
      rename_i currTxn
      refine h.shm (ShmStep.unlock ?_ _) (by simp)
      have hfull := h.master.inv.full_of_gathered (h.sending currTxn (.inl hpc))
      have hcount : (st.master.bar currTxn).count = (st.master.bar currTxn).limit := hfull
      simp [barrierNotreached, hcount]
  | wait hpc herror hfinished answered =>
      exact h.shm (shmProcessCallouts_step _ _ _ _) h.sending
  | left hpc hleave sent => exact h.left sent

/-- The slave `k` moves. -/
theorem System.Synchronized.slave (h : st.Synchronized) (k : ℕ) {s : SlaveRun}
    (hs : s.Follows st.master.Gathered) :
    ({ st with slaves := Function.update st.slaves k s } : System).Synchronized where
  master := h.master
  sending := h.sending
  slaves k' := by
    by_cases hk : k' = k
    · subst hk
      show (Function.update st.slaves k' s k').Follows _
      rw [Function.update_self]
      exact hs
    · show (Function.update st.slaves k s k').Follows _
      rw [Function.update_of_ne hk]
      exact h.slaves k'

/-- Every step of every party keeps the system synchronized. -/
theorem System.Synchronized.step (h : st.Synchronized) {act : Action}
    (hstep : st.step w act = some st') : st'.Synchronized := by
  cases System.step_cases hstep with
  | tick => exact ⟨h.master, h.sending, h.slaves⟩
  | master hmoves => exact h.master_moves hmoves
  | masterStrand hstrand => exact h.shm (strandStep_step h.master.numbered hstrand) h.sending
  | slave hk hmoves => exact h.slave _ ((h.slaves _).moves hmoves)
  | slaveStrand hk hstrand => exact h.slave _ ((h.slaves _).strand hstrand)

theorem slaveStart_worklist {g : Group} {shm : RunShm} (hstart : slaveStart g = some shm)
    (i : ℕ) (hi : i ∈ shm.threads) : shm.phases.length i = g.tlist.length := by
  obtain ⟨shm₀, -, hshm⟩ := Option.bind_eq_some_iff.mp hstart
  cases hshm
  have hlt : i < (spawnStrandsGroup g).length := by
    simpa [spawnStrandsGroup] using Finset.mem_range.mp hi
  show (strandArray (spawnStrandsGroup g) i).worklist.tlist.length = _
  rw [strandArray, List.getElem?_eq_getElem hlt]
  simp [spawnStrandsGroup]

theorem slaveStart_closed {g : Group} (hg : g.Executable) {shm : RunShm}
    (hstart : slaveStart g = some shm) (b : ℕ) (hb : b < g.tlist.length) :
    ¬ shm.phases.opened b := by
  obtain ⟨shm₀, hinit, hshm⟩ := Option.bind_eq_some_iff.mp hstart
  cases hshm
  simp only [shmInitBarriersSlave, Option.ite_none_left_eq_some, Option.some.injEq] at hinit
  obtain ⟨-, rfl⟩ := hinit
  rw [← hg.ntxn] at hb
  simp [RunShm.phases, hb, initBarrier]

/-- A slave at the start follows any master. -/
theorem slaveRunStart_follows {g : Group} (hg : g.Executable) {s : SlaveRun}
    (hstart : slaveRunStart g = some s) (G : ℕ → Prop) : s.Follows G := by
  obtain ⟨shm, hshm, rfl⟩ := Option.map_eq_some_iff.mp hstart
  obtain ⟨hnumbered, hinv⟩ := slaveStart_inv hg hshm
  exact
    { ordered := ⟨hnumbered, hinv⟩
      uniform := slaveStart_worklist hshm
      queue := by simp
      barrier := by simp
      opened := fun b hb hopen => absurd hopen (slaveStart_closed hg hshm b hb) }

/-- A place of the array with no slave. -/
theorem noSlave_follows (G : ℕ → Prop) : ({} : SlaveRun).Follows G where
  ordered :=
    { numbered := by
        intro i j txn htxn
        simp at htxn
      inv := by
        refine Phases.Inv.start (fun b => ?_) fun b _ i _ => Nat.zero_le b
        simp }
  uniform i hi := by simp [RunShm.threads] at hi
  queue := by simp
  barrier := by simp
  opened b hb := by simp at hb

/-- All processes are synchronized at the start. -/
theorem systemStart_synchronized {slaves : List Group} {errorStats : Bool}
    (hw : ∀ g ∈ w.grp, g.Executable) (hslaves : ∀ g ∈ slaves, g.Executable)
    (hstart : systemStart w slaves errorStats = some st) : st.Synchronized := by
  obtain ⟨master, hmaster, hstart⟩ := Option.bind_eq_some_iff.mp hstart
  obtain ⟨runs, hruns, hst⟩ := Option.bind_eq_some_iff.mp hstart
  cases hst
  obtain ⟨hnumbered, hinv⟩ := masterStart_inv hw hmaster
  refine ⟨⟨hnumbered, hinv⟩, by simp, fun k => ?_⟩
  cases hk : runs[k]? with
  | none =>
      simp only [hk, Option.getD_none]
      exact noSlave_follows _
  | some s =>
      simp only [hk, Option.getD_some]
      obtain ⟨g, hg, hs⟩ := mem_of_mapM hruns (List.mem_of_getElem? hk)
      exact slaveRunStart_follows (hslaves g hg) hs _

end

/-! ## Lockstep -/

/-- The strand has a transaction `b`. -/
def StrandRun.HasTxn (s : StrandRun) (b : ℕ) : Prop := b < s.worklist.tlist.length

/-- The strand has begun transaction `b`. -/
def StrandRun.Started (s : StrandRun) (b : ℕ) : Prop := b < s.passed

/-- The strand has finished transaction `b`. -/
def StrandRun.Finished (s : StrandRun) (b : ℕ) : Prop := b < s.txn

/-- Strands that have arrived at a barrier have finished all transactions
before it. -/
theorem RunShm.Gathered.finished {shm : RunShm} {b : ℕ} (h : shm.Gathered (b + 1)) {t : ℕ}
    (ht : t < shm.noStrands) (htxn : (shm.strands t).HasTxn (b + 1)) :
    (shm.strands t).Finished b := by
  have harrived : b + 1 < (shm.strands t).arrived := h t (Finset.mem_range.mpr ht) htxn
  unfold StrandRun.arrived at harrived
  unfold StrandRun.Finished
  split_ifs at harrived <;> omega

/-- No strand begins transaction `i + 1` before all strands of the master that
have one have finished transaction `i`, and no strand of a slave before all
strands of its slave have. -/
structure System.Lockstep (st : System) (i : ℕ) : Prop where
  master : ∀ s < st.master.noStrands, (st.master.strands s).Started (i + 1) →
    ∀ t < st.master.noStrands, (st.master.strands t).HasTxn (i + 1) →
      (st.master.strands t).Finished i
  slaveOfMaster : ∀ k, ∀ s < (st.slaves k).shm.noStrands,
    ((st.slaves k).shm.strands s).Started (i + 1) →
      ∀ t < st.master.noStrands, (st.master.strands t).HasTxn (i + 1) →
        (st.master.strands t).Finished i
  slave : ∀ k, ∀ s < (st.slaves k).shm.noStrands,
    ((st.slaves k).shm.strands s).Started (i + 1) →
      ∀ t < (st.slaves k).shm.noStrands, ((st.slaves k).shm.strands t).Finished i

/-- A slave whose strand has begun a transaction: the slave's own strands and
those of the master have arrived at its barrier. -/
theorem SlaveRun.Follows.gathered {G : ℕ → Prop} {sl : SlaveRun} (h : sl.Follows G) {s b : ℕ}
    (hs : s < sl.shm.noStrands) (hstarted : (sl.shm.strands s).Started b) :
    b < sl.worklist.tlist.length ∧ sl.shm.Gathered b ∧ G b := by
  have hmem := Finset.mem_range.mpr hs
  have hopen := h.ordered.inv.opened s hmem b hstarted
  have hlength : b < sl.worklist.tlist.length := by
    calc b < sl.shm.phases.passed s := hstarted
      _ ≤ sl.shm.phases.arrived s := h.ordered.inv.passed_le s hmem
      _ ≤ sl.shm.phases.length s := h.ordered.inv.arrived_le s hmem
      _ = sl.worklist.tlist.length := h.uniform s hmem
  exact ⟨hlength, h.ordered.inv.arrived_of_passed hmem hstarted, h.opened b hlength hopen⟩

theorem System.Synchronized.lockstep {st : System} (h : st.Synchronized) (i : ℕ) :
    st.Lockstep i where
  master s hs hstarted t ht htxn := by
    have hgathered : st.master.Gathered (i + 1) :=
      h.master.inv.arrived_of_passed (Finset.mem_range.mpr hs) hstarted
    exact hgathered.finished ht htxn
  slaveOfMaster k s hs hstarted t ht htxn := by
    obtain ⟨-, -, hmaster⟩ := (h.slaves k).gathered hs hstarted
    exact hmaster.finished ht htxn
  slave k s hs hstarted t ht := by
    obtain ⟨hlength, hgathered, -⟩ := (h.slaves k).gathered hs hstarted
    -- all strands of a slave have the same transactions
    have huniform := (h.slaves k).uniform t (Finset.mem_range.mpr ht)
    exact hgathered.finished ht (hlength.trans_eq huniform.symm)

/-- In every run no strand of the master or of a slave begins a transaction
before all strands of the master that have it, and all strands of the same
slave, have finished the one before. -/
theorem System.run_lockstep {w : Workorder} {slaves : List Group} {errorStats : Bool}
    {st st' : System} {acts : List Action} (hw : ∀ g ∈ w.grp, g.Executable)
    (hslaves : ∀ g ∈ slaves, g.Executable)
    (hstart : systemStart w slaves errorStats = some st) (hrun : st.run w acts = some st')
    (i : ℕ) : st'.Lockstep i := by
  have hsync : st'.Synchronized := run_invariant (fun _ _ _ h hstep => h.step hstep)
    (systemStart_synchronized hw hslaves hstart) hrun
  exact hsync.lockstep i

/-! ## A run with groups of different length -/

/-- A transaction of one flowop, executed once. -/
def onceTxn (txnid : UInt32) : Txn where
  nflowop := 1
  txnid := txnid
  iter := 1
  flist := [{ type := .nop }]

/-- A group of one transaction and one of two, of one thread each. -/
def shortAndLong : Workorder where
  grp :=
    [{ nthreads := 1, ntxn := 1, tlist := [onceTxn 0] },
      { nthreads := 1, ntxn := 2, tlist := [onceTxn 0, onceTxn 1] }]

theorem shortAndLong_executable : ∀ g ∈ shortAndLong.grp, g.Executable := by
  have hone : ∀ {g : Group}, g.tlist = [onceTxn 0] → g.ntxn = 1 → g.Executable := by
    intro g htlist hntxn
    refine ⟨⟨by rw [htlist, hntxn]; rfl, by rw [htlist]; decide⟩, ?_⟩
    intro j txn htxn
    rw [htlist] at htxn
    match j with
    | 0 => cases htxn; rfl
    | j + 1 => cases htxn
  have htwo : ∀ {g : Group}, g.tlist = [onceTxn 0, onceTxn 1] → g.ntxn = 2 →
      g.Executable := by
    intro g htlist hntxn
    refine ⟨⟨by rw [htlist, hntxn]; rfl, by rw [htlist]; decide⟩, ?_⟩
    intro j txn htxn
    rw [htlist] at htxn
    match j with
    | 0 => cases htxn; rfl
    | 1 => cases htxn; rfl
    | j + 2 => cases htxn
  intro g hg
  rcases List.mem_cons.mp hg with rfl | hg
  · exact hone rfl rfl
  · cases List.mem_singleton.mp hg
    exact htwo rfl rfl

/-- The master finds its barrier full, commands two slaves and opens it. -/
def masterRound : List Action :=
  [.master (.poll false true), .master .check, .master (.send true), .master (.send true),
    .master (.send true), .master .unlock]

/-- A slave carries out a command. -/
def slaveRound (k : ℕ) : List Action :=
  [.slave k .receive, .slave k (.wait true true), .slave k (.callouts true)]

/-- A strand is released from its barrier and executes its transaction. -/
def strandRound (step : StrandAct → Action) : List Action :=
  [step .pass, step .start, step (.finish .success)]

/-- Both rounds of `shortAndLong`. -/
def twoRounds : List Action :=
  [.masterStrand 0 .arrive, .masterStrand 1 .arrive, .slaveStrand 0 0 .arrive,
    .slaveStrand 1 0 .arrive] ++
  masterRound ++ slaveRound 0 ++ slaveRound 1 ++
  strandRound (.masterStrand 0) ++ strandRound (.masterStrand 1) ++
  strandRound (.slaveStrand 1 0) ++
  [.masterStrand 1 .arrive, .slaveStrand 1 0 .arrive] ++
  masterRound ++ slaveRound 0 ++ slaveRound 1 ++ [.masterStrand 1 .pass, .slaveStrand 1 0 .pass]

/-- In the end the strands of the long group are in their second transaction,
and the slave of the short group has received both indices. -/
theorem twoRounds_run : ∃ st st',
    systemStart shortAndLong shortAndLong.grp false = some st ∧
    st.run shortAndLong twoRounds = some st' ∧
    (st'.master.strands 1).Started 1 ∧ ((st'.slaves 1).shm.strands 0).Started 1 ∧
    (st'.slaves 0).received = [0, 1] := by
  have hrun : ((systemStart shortAndLong shortAndLong.grp false).bind fun st =>
      (st.run shortAndLong twoRounds).map fun st =>
        ((st.master.strands 1).passed, ((st.slaves 1).shm.strands 0).passed,
          (st.slaves 0).received)) = some (2, 2, [0, 1]) := by rfl
  obtain ⟨st, hst, hrun⟩ := Option.bind_eq_some_iff.mp hrun
  obtain ⟨st', hst', hseen⟩ := Option.map_eq_some_iff.mp hrun
  obtain ⟨hmaster, hslave, hreceived⟩ : _ ∧ _ ∧ _ := by simpa only [Prod.mk.injEq] using hseen
  refine ⟨st, st', hst, hst', ?_, ?_, hreceived⟩
  · rw [StrandRun.Started, hmaster]
    decide
  · rw [StrandRun.Started, hslave]
    decide

theorem System.run_lockstep_shortAndLong : ∃ st st',
    systemStart shortAndLong shortAndLong.grp false = some st ∧
    st.run shortAndLong twoRounds = some st' ∧
    (st'.master.strands 1).Started 1 ∧ ((st'.slaves 1).shm.strands 0).Started 1 ∧
    st'.Lockstep 0 := by
  obtain ⟨st, st', hstart, hrun, hmaster, hslave, -⟩ := twoRounds_run
  exact ⟨st, st', hstart, hrun, hmaster, hslave,
    System.run_lockstep shortAndLong_executable shortAndLong_executable hstart hrun 0⟩

end Uperf
