import Uperf.Run.Callouts

/-!
# Callouts at the end of a run

When `master_poll` leaves its second loop, nothing fires callouts any more.  It
leaves the loop when one strand has finished, so the others may still be in
a timed transaction.  They are not when every group ends with a transaction
that has no duration, or when all strands belong to one group and stay in their
timed transactions until they are signalled (`System.run_serviced`).
-/

namespace Uperf

open Lib

/-! ## Finished strands -/

/-- The strand has executed all its transactions. -/
def StrandRun.Complete (s : StrandRun) : Prop := s.phase = .arriving ∧ s.current = none

/-- Without an error only complete strands are counted as finished. -/
structure RunShm.Accounted (shm : RunShm) : Prop where
  finished : 0 < shm.finished →
    0 < shm.globalError ∨ ∃ i < shm.noStrands, (shm.strands i).Complete
  quit : ∀ i, (shm.strands i).phase = .quit → 0 < shm.globalError

/-- What the steps of a process never take back. -/
structure RunShm.Later (shm shm' : RunShm) : Prop where
  step : ShmStep shm shm'
  error : shm.globalError ≤ shm'.globalError
  complete : ∀ i, (shm.strands i).Complete → (shm'.strands i).Complete

section

variable {shm shm' : RunShm}

/-- Steps that leave the phases of the strands alone. -/
theorem RunShm.Later.accounted (h : shm.Later shm') (hshm : shm.Accounted)
    (hfinished : shm'.finished = shm.finished)
    (hphase : ∀ i, (shm'.strands i).phase = (shm.strands i).phase) : shm'.Accounted where
  finished := by
    rw [hfinished]
    intro hpos
    rcases hshm.finished hpos with herror | ⟨i, hi, hcomplete⟩
    · exact .inl (herror.trans_le h.error)
    · exact .inr ⟨i, by rwa [h.step.noStrands], h.complete i hcomplete⟩
  quit i hi := by
    rw [hphase] at hi
    exact (hshm.quit i hi).trans_le h.error

/-- A step of the loops of the master or of a slave. -/
theorem RunShm.Later.of_same (hstep : ShmStep shm shm')
    (herror : shm.globalError ≤ shm'.globalError) (hstrands : shm'.strands = shm.strands) :
    shm.Later shm' :=
  ⟨hstep, herror, fun i hcomplete => by rwa [hstrands]⟩

theorem RunShm.Later.refl (shm : RunShm) : shm.Later shm :=
  .of_same (.refl shm) le_rfl rfl

theorem fireCallouts_later (shm : RunShm) (now : ℕ) (answered : Bool) (groups : List ℕ) :
    shm.globalError ≤ (fireCallouts now answered groups shm).globalError ∧
      (fireCallouts now answered groups shm).finished = shm.finished := by
  induction groups generalizing shm with
  | nil => exact ⟨le_rfl, rfl⟩
  | cons g rest ih =>
      simp only [fireCallouts]
      split_ifs
      · exact ih { signalAllStrands shm (some g) with callouts := Function.update shm.callouts g 0 }
      · exact ⟨Nat.le_succ _, rfl⟩
      · exact ih shm

theorem shmProcessCallouts_later (noGroups now : ℕ) (answered : Bool) :
    shm.Later (shmProcessCallouts shm noGroups now answered) where
  step := shmProcessCallouts_step _ _ _ _
  error := (fireCallouts_later shm now answered _).1
  complete i hcomplete := by
    obtain ⟨signalled, hi⟩ := (fireCallouts_frame shm now answered _).2.2 i
    rw [shmProcessCallouts, hi]
    exact hcomplete

theorem RunShm.Accounted.shmProcessCallouts (h : shm.Accounted) (noGroups now : ℕ)
    (answered : Bool) : (shmProcessCallouts shm noGroups now answered).Accounted := by
  refine (shmProcessCallouts_later noGroups now answered).accounted h
    (fireCallouts_later shm now answered _).2 fun i => ?_
  obtain ⟨signalled, hi⟩ := (fireCallouts_frame shm now answered _).2.2 i
  rw [Uperf.shmProcessCallouts, hi]

/-! ## Steps of a strand -/

theorem StrandMoves.later {i : ℕ} {act : StrandAct} (hnumbered : shm.Numbered)
    (hstep : strandStep shm i act = some shm') : shm.Later shm' := by
  refine ⟨strandStep_step hnumbered hstep, ?_, fun j hcomplete => ?_⟩
  · obtain ⟨-, hmoves⟩ := strandStep_cases hstep
    cases hmoves with
    | startTimed => simp [RunShm.setStrand, shmCalloutRegister, apply_ite RunShm.globalError]
    | exit =>
        dsimp only
        split_ifs <;> simp
    | _ => exact le_rfl
  · obtain ⟨-, hmoves⟩ := strandStep_cases hstep
    by_cases hj : j = i
    · subst hj
      obtain ⟨hphase, hcurrent⟩ := hcomplete
      cases hmoves with
      | exit hdone hexited =>
          simp only [RunShm.setStrand, Function.update_self]
          exact ⟨hphase, hcurrent⟩
      | arrive htxn => simp [hcurrent] at htxn
      | pass htxn => simp [hcurrent] at htxn
      | startTimed htxn => simp [hcurrent] at htxn
      | start htxn => simp [hcurrent] at htxn
      | finish htxn => simp [hcurrent] at htxn
      | quit hphase' => simp [hphase] at hphase'
      | fail hphase' => simp [hphase] at hphase'
    · cases hmoves with
      | startTimed => simpa [RunShm.setStrand, Function.update_of_ne hj] using hcomplete
      | _ => simpa [RunShm.setStrand, Function.update_of_ne hj] using hcomplete

theorem RunShm.Accounted.strand (h : shm.Accounted) {i : ℕ} {act : StrandAct}
    (hnumbered : shm.Numbered) (hstep : strandStep shm i act = some shm') : shm'.Accounted := by
  have hlater := StrandMoves.later hnumbered hstep
  obtain ⟨hi, hmoves⟩ := strandStep_cases hstep
  have hkeep : shm'.finished = shm.finished → 0 < shm'.finished →
      0 < shm'.globalError ∨ ∃ i < shm'.noStrands, (shm'.strands i).Complete := by
    intro hfinished hpos
    rw [hfinished] at hpos
    rcases h.finished hpos with herror | ⟨j, hj, hcomplete⟩
    · exact .inl (herror.trans_le hlater.error)
    · exact .inr ⟨j, by rwa [hlater.step.noStrands], hlater.complete j hcomplete⟩
  -- only one phase changes, and it becomes `quit` only after errors
  have hquit : ∀ s : StrandRun, shm'.strands = Function.update shm.strands i s →
      (s.phase = .quit → 0 < shm'.globalError) → ∀ j, (shm'.strands j).phase = .quit →
        0 < shm'.globalError := by
    intro s hstrands hs j hj
    rw [hstrands] at hj
    by_cases hji : j = i
    · subst hji
      rw [Function.update_self] at hj
      exact hs hj
    · rw [Function.update_of_ne hji] at hj
      exact (h.quit j hj).trans_le hlater.error
  cases hmoves with
  | arrive | pass | start | finish | fail =>
      exact ⟨hkeep rfl, hquit _ rfl (by simp)⟩
  | quit hphase herror =>
      exact ⟨hkeep rfl, hquit _ rfl fun _ => Nat.zero_lt_of_lt herror⟩
  | startTimed =>
      refine ⟨hkeep ?_, hquit { shm.strands i with phase := .executing } ?_ (by simp)⟩
      · simp [RunShm.setStrand, shmCalloutRegister, apply_ite RunShm.finished]
      · simp only [RunShm.setStrand, strands_shmCalloutRegister]
  | exit hdone hexited =>
      refine ⟨fun _ => ?_, hquit _ rfl fun hphase => ?_⟩
      · rcases hdone with ⟨hphase, hcurrent⟩ | hfailed | hquit'
        · exact .inr ⟨i, hi, hlater.complete i ⟨hphase, hcurrent⟩⟩
        · simp [hfailed]
        · exact .inl ((h.quit i hquit').trans_le hlater.error)
      · exact (h.quit i hphase).trans_le hlater.error

end

/-! ## The loops of the master -/

/-- The transaction that the first loop of the master is at. -/
def MasterPc.currTxn : MasterPc → Option ℕ
  | .loop currTxn | .check currTxn | .send currTxn _ | .unlock currTxn => some currTxn
  | .waiting | .returned _ => none

/-- Without an error the master leaves its first loop with all barriers
reached, and its second loop with a complete strand. -/
structure System.Progressed (w : Workorder) (st : System) : Prop where
  accounted : st.master.Accounted
  looping : ∀ currTxn, st.pc.currTxn = some currTxn → ∀ b < currTxn, st.master.Gathered b
  waiting : st.pc = .waiting →
    0 < st.master.globalError ∨ ∀ b < workorderMaxTxn w, st.master.Gathered b
  returned : st.pc = .returned 0 → (∀ b < workorderMaxTxn w, st.master.Gathered b) ∧
    ∃ i < st.master.noStrands, (st.master.strands i).Complete

section

variable {w : Workorder} {st st' : System}

/-- A step of the master's process that leaves its loops where they are. -/
theorem System.Progressed.shm (h : st.Progressed w) {shm : RunShm}
    (hlater : st.master.Later shm) (haccounted : shm.Accounted) :
    ({ st with master := shm } : System).Progressed w where
  accounted := haccounted
  looping currTxn hpc b hb := hlater.step.gathered (h.looping currTxn hpc b hb)
  waiting hpc := (h.waiting hpc).imp (fun herror => herror.trans_le hlater.error)
    fun hall b hb => hlater.step.gathered (hall b hb)
  returned hpc := by
    obtain ⟨hall, i, hi, hcomplete⟩ := h.returned hpc
    refine ⟨fun b hb => hlater.step.gathered (hall b hb), i, ?_, hlater.complete i hcomplete⟩
    rwa [show shm.noStrands = st.master.noStrands from hlater.step.noStrands]

/-- The first loop goes on with the same transaction. -/
theorem System.Progressed.pc (h : st.Progressed w) {pc : MasterPc} {slaves : ℕ → SlaveRun}
    {currTxn : ℕ} (hbefore : st.pc.currTxn = some currTxn) (hpc : pc.currTxn = some currTxn) :
    ({ st with pc := pc, slaves := slaves } : System).Progressed w where
  accounted := h.accounted
  looping currTxn' hpc' := by
    obtain rfl : currTxn = currTxn' := Option.some.inj (hpc.symm.trans hpc')
    exact h.looping currTxn hbefore
  waiting hwaiting := by
    dsimp only at hwaiting
    rw [hwaiting] at hpc
    cases hpc
  returned hreturned := by
    dsimp only at hreturned
    rw [hreturned] at hpc
    cases hpc

/-- The master leaves its second loop. -/
theorem System.Progressed.left (h : st.Progressed w) (hpc : st.pc = .waiting)
    (hleave : ¬ (st.master.globalError = 0 ∧ st.master.finished = 0)) (sent : Bool) :
    (masterLeave st sent).Progressed w := by
  have hfailed : ∀ slaves,
      ({ st with slaves := slaves, pc := .returned 1 } : System).Progressed w :=
    fun slaves => ⟨h.accounted, by simp [MasterPc.currTxn], by simp, by simp⟩
  have hdone : ¬ st.master.globalError > 0 → ∀ slaves,
      ({ st with slaves := slaves, pc := .returned 0 } : System).Progressed w := by
    intro hno slaves
    have hzero : st.master.globalError = 0 := Nat.eq_zero_of_not_pos hno
    have hfinished : 0 < st.master.finished :=
      Nat.pos_of_ne_zero fun hfinished => hleave ⟨hzero, hfinished⟩
    refine ⟨h.accounted, by simp [MasterPc.currTxn], by simp, fun _ => ⟨?_, ?_⟩⟩
    · exact (h.waiting hpc).resolve_left hno
    · exact (h.accounted.finished hfinished).resolve_left hno
  unfold masterLeave
  split_ifs with herror
  · exact hfailed _
  · exact hdone herror _
  · exact hfailed _
  · exact hdone herror _

theorem System.Progressed.master_moves (h : st.Progressed w) (hsync : st.Synchronized)
    (hmoves : MasterMoves w st st') : st'.Progressed w := by
  cases hmoves with
  | leave hpc hend =>
      refine ⟨h.accounted, by simp [MasterPc.currTxn], fun _ => ?_, by simp⟩
      rcases hend with hend | herror
      · exact .inr fun b hb => h.looping _ (by rw [hpc]; rfl) b (hb.trans_le (not_lt.mp hend))
      · exact .inl herror
  | message hpc =>
      have hlater : st.master.Later { st.master with globalError := st.master.globalError + 1 } :=
        .of_same ⟨rfl, fun _ => rfl, .inr rfl⟩ (Nat.le_succ _) rfl
      exact
        { accounted := hlater.accounted h.accounted rfl fun _ => rfl
          looping := by simp [MasterPc.currTxn]
          waiting := fun _ => .inl (Nat.succ_pos _)
          returned := by simp }
  | callouts hpc hlt answered =>
      rename_i currTxn
      have hcheck : ({ st with pc := .check currTxn } : System).Progressed w :=
        h.pc (by rw [hpc]; rfl) rfl
      exact hcheck.shm (shmProcessCallouts_later _ _ _) (h.accounted.shmProcessCallouts _ _ _)
  | again hpc => exact h.pc (by rw [hpc]; rfl) rfl
  | full hpc hfull => exact h.pc (by rw [hpc]; rfl) rfl
  | send hpc hk => exact h.pc (by rw [hpc]; rfl) rfl
  | sent hpc => exact h.pc (by rw [hpc]; rfl) rfl
  | unlock hpc =>
      rename_i currTxn
      have hgathered := hsync.sending currTxn (.inl hpc)
      have hfull := hsync.master.inv.full_of_gathered hgathered
      have hcount : (st.master.bar currTxn).count = (st.master.bar currTxn).limit := hfull
      have hreached : barrierNotreached (st.master.bar currTxn) = false := by
        simp [barrierNotreached, hcount]
      have hstep := ShmStep.unlock hreached st.now
      have hlater := RunShm.Later.of_same hstep le_rfl rfl
      refine ⟨hlater.accounted h.accounted rfl fun _ => rfl, ?_, by simp, by simp⟩
      intro currTxn' hpc' b hb
      cases hpc'
      refine hstep.gathered ?_
      rcases Nat.lt_succ_iff_lt_or_eq.mp hb with hlt | rfl
      · exact h.looping currTxn (by rw [hpc]; rfl) b hlt
      · exact hgathered
  | wait hpc herror hfinished answered =>
      exact h.shm (shmProcessCallouts_later _ _ _) (h.accounted.shmProcessCallouts _ _ _)
  | left hpc hleave sent => exact h.left hpc hleave sent

theorem System.Progressed.step (h : st.Progressed w) (hsync : st.Synchronized) {act : Action}
    (hstep : st.step w act = some st') : st'.Progressed w := by
  cases System.step_cases hstep with
  | master hmoves => exact h.master_moves hsync hmoves
  | masterStrand hstrand =>
      have hnumbered := hsync.master.numbered
      exact h.shm (StrandMoves.later hnumbered hstrand) (h.accounted.strand hnumbered hstrand)
  | tick | slave | slaveStrand => exact ⟨h.accounted, h.looping, h.waiting, h.returned⟩

end

/-! ## Strands and their groups -/

/-- Every strand of the master runs a group of the work order. -/
def System.Assigned (w : Workorder) (st : System) : Prop :=
  ∀ i < st.master.noStrands, ∃ g ∈ w.grp, 0 < g.nthreads.toNat ∧
    (st.master.strands i).worklist.tlist = g.tlist

theorem System.Synchronized.shmStep {w : Workorder} {st st' : System} (hsync : st.Synchronized)
    {act : Action} (hstep : st.step w act = some st') : ShmStep st.master st'.master := by
  cases System.step_cases hstep with
  | master hmoves =>
      cases hmoves with
      | callouts | wait => exact shmProcessCallouts_step _ _ _ _
      | message => exact ⟨rfl, fun _ => rfl, .inr rfl⟩
      | unlock hpc =>
          refine ShmStep.unlock ?_ _
          have hfull := hsync.master.inv.full_of_gathered (hsync.sending _ (.inl hpc))
          have hcount : ∀ b, (st.master.phases.count b = st.master.phases.limit b) →
              (st.master.bar b).count = (st.master.bar b).limit := fun _ h => h
          simp [barrierNotreached, hcount _ hfull]
      | left =>
          unfold masterLeave
          split_ifs <;> exact .refl _
      | _ => exact .refl _
  | masterStrand hstrand => exact strandStep_step hsync.master.numbered hstrand
  | tick | slave | slaveStrand => exact .refl _

theorem System.Assigned.step {w : Workorder} {st st' : System} (h : st.Assigned w)
    (hstep : ShmStep st.master st'.master) : st'.Assigned w := by
  intro i hi
  rw [hstep.noStrands] at hi
  rw [hstep.worklist]
  exact h i hi

/-- What the master starts with. -/
structure RunShm.Started (w : Workorder) (shm : RunShm) : Prop where
  noStrands : shm.noStrands = workorderNumStrands w
  strands : shm.strands = strandArray (spawnStrands 0 w.grp)
  callouts : shm.callouts = fun _ => 0
  finished : shm.finished = 0

theorem masterStart_started {w : Workorder} {shm : RunShm} (hstart : masterStart w = some shm) :
    shm.Started w := by
  obtain ⟨shm₀, hinit, hshm⟩ := Option.bind_eq_some_iff.mp hstart
  cases hshm
  simp only [shmInitBarriersMaster, Option.ite_none_left_eq_some, Option.some.injEq] at hinit
  obtain ⟨-, rfl⟩ := hinit
  exact ⟨rfl, rfl, rfl, rfl⟩

section

variable {w : Workorder} {shm : RunShm}

theorem RunShm.Started.mem (h : shm.Started w) {i : ℕ} (hi : i < shm.noStrands) :
    shm.strands i ∈ spawnStrands 0 w.grp := by
  have hlt : i < (spawnStrands 0 w.grp).length := by
    rw [length_spawnStrands]
    exact hi.trans_eq h.noStrands
  rw [h.strands, strandArray, List.getElem?_eq_getElem hlt]
  exact List.getElem_mem hlt

theorem RunShm.Started.assigned (h : shm.Started w) {i : ℕ} (hi : i < shm.noStrands) :
    ∃ g ∈ w.grp, 0 < g.nthreads.toNat ∧ (shm.strands i).worklist.tlist = g.tlist := by
  obtain ⟨n, g, hg, hpos, hworklist⟩ := mem_spawnStrands (h.mem hi)
  exact ⟨g, List.mem_of_getElem? hg, hpos, by rw [hworklist]⟩

theorem RunShm.Started.new (h : shm.Started w) (i : ℕ) :
    (shm.strands i).txn = 0 ∧ (shm.strands i).phase = .arriving := by
  rw [h.strands]
  rcases strandArray_cases (spawnStrands 0 w.grp) i with hmem | hempty
  · exact new_of_mem_spawnStrands hmem
  · rw [hempty]
    exact ⟨rfl, rfl⟩

end

/-! ## One group -/

/-- At most one group has threads. -/
def Workorder.OneThreadedGroup (w : Workorder) : Prop :=
  (w.grp.filter fun g => decide (0 < g.nthreads.toNat)).length ≤ 1

instance (w : Workorder) : Decidable w.OneThreadedGroup := inferInstanceAs (Decidable (_ ≤ 1))

theorem spawnStrands_of_no_threads {groups : List Group} {i : ℕ}
    (hnone : (groups.filter fun g => decide (0 < g.nthreads.toNat)) = []) :
    spawnStrands i groups = [] := by
  induction groups generalizing i with
  | nil => rfl
  | cons g rest ih =>
      have hall := List.filter_eq_nil_iff.mp hnone
      have hzero : g.nthreads.toNat = 0 := by simpa using hall g (by simp)
      have hrest := ih (i := i + 1) (List.filter_eq_nil_iff.mpr fun g' hg' =>
        hall g' (List.mem_cons_of_mem g hg'))
      simp [spawnStrands, spawnStrandsGroup, hzero, hrest]

/-- All strands are those of the one group that has threads. -/
theorem spawnStrands_of_one {groups : List Group} {i : ℕ}
    (hone : (groups.filter fun g => decide (0 < g.nthreads.toNat)).length ≤ 1) :
    ∃ g, spawnStrands i groups = spawnStrandsGroup g := by
  induction groups generalizing i with
  | nil => exact ⟨{}, by simp [spawnStrands, spawnStrandsGroup]⟩
  | cons g rest ih =>
      by_cases hg : 0 < g.nthreads.toNat
      · rw [List.filter_cons_of_pos (by simpa using hg), List.length_cons] at hone
        have hrest := spawnStrands_of_no_threads (i := i + 1)
          (List.length_eq_zero_iff.mp (Nat.le_zero.mp (Nat.le_of_succ_le_succ hone)))
        exact ⟨_, by rw [spawnStrands, hrest, List.append_nil]⟩
      · have hzero : g.nthreads.toNat = 0 := Nat.eq_zero_of_not_pos hg
        rw [List.filter_cons_of_neg (by simpa using hg)] at hone
        obtain ⟨g', hg'⟩ := ih (i := i + 1) hone
        refine ⟨g', ?_⟩
        simp [spawnStrands, hg', spawnStrandsGroup, hzero]

theorem RunShm.Started.paced {w : Workorder} {shm : RunShm} (h : shm.Started w)
    (hone : w.OneThreadedGroup) (hpos : 0 < shm.noStrands) :
    ∃ worklist, shm.Paced 0 worklist := by
  obtain ⟨g, hg⟩ := spawnStrands_of_one (i := 0) hone
  have hlength : shm.noStrands = g.nthreads.toNat := by
    rw [h.noStrands, workorderNumStrands, ← length_spawnStrands w.grp 0, hg]
    simp [spawnStrandsGroup]
  have hstrand : ∀ i < shm.noStrands,
      shm.strands i = { worklist := groupClone g, leader := decide (i = 0) } := by
    intro i hi
    rw [h.strands, hg, strandArray, List.getElem?_eq_getElem (by simp [spawnStrandsGroup]; omega)]
    simp [spawnStrandsGroup]
  refine ⟨groupClone g, hpos, ?_, ?_, ?_, ?_, ?_⟩
  · intro i hi
    rw [hstrand i hi]
  · intro i hi hleader
    rw [hstrand i hi] at hleader
    simpa using hleader
  · intro hregistered
    rw [h.callouts] at hregistered
    exact absurd rfl hregistered
  · intro _ _ i _
    rw [(h.new i).1, (h.new 0).1]
  · intro i hi hsignal
    rw [hstrand i hi] at hsignal
    cases hsignal

/-- A strand of the master leaves a timed transaction only when it is signalled. -/
def ExpiresBySignal (st : System) (act : Action) : Prop :=
  ∀ i result, act = .masterStrand i (.finish result) → (st.master.strands i).Timed →
    (st.master.strands i).signalled = true

/-- The strands of the master keep pace with their callout, or an error will
make the master fail. -/
def System.KeepsPace (worklist : Group) (st : System) : Prop :=
  (0 < st.master.globalError ∧ st.pc ≠ .returned 0) ∨ st.master.Paced 0 worklist

section

variable {w : Workorder} {worklist : Group} {st st' : System}

theorem System.KeepsPace.master_moves (h : st.KeepsPace worklist)
    (hmoves : MasterMoves w st st') : st'.KeepsPace worklist := by
  rcases h with ⟨herror, hpc⟩ | hpaced
  · refine .inl ?_
    cases hmoves with
    | callouts | wait =>
        refine ⟨herror.trans_le (fireCallouts_later _ _ _ _).1, ?_⟩
        simp_all
    | message => exact ⟨Nat.succ_pos _, by simp⟩
    | left =>
        simp only [masterLeave, if_pos herror]
        exact ⟨herror, by simp⟩
    | _ => exact ⟨herror, by simp⟩
  · cases hmoves with
    | callouts hpc hlt answered =>
        rcases hpaced.fireCallouts st.now answered (List.range w.grp.length) with hpaced | herror
        · exact .inr hpaced
        · exact .inl ⟨herror, by simp⟩
    | wait hpc herror hfinished answered =>
        rcases hpaced.fireCallouts st.now answered (List.range w.grp.length) with hpaced | herror
        · exact .inr hpaced
        · exact .inl ⟨herror, by simp [hpc]⟩
    | message | unlock => exact .inr (hpaced.congr rfl rfl rfl)
    | left hpc hleave sent =>
        refine .inr ?_
        unfold masterLeave
        split_ifs <;> exact hpaced
    | _ => exact .inr hpaced

theorem System.KeepsPace.step (h : st.KeepsPace worklist) (hsync : st.Synchronized)
    {act : Action} (hsignal : ExpiresBySignal st act) (hstep : st.step w act = some st') :
    st'.KeepsPace worklist := by
  cases System.step_cases hstep with
  | master hmoves => exact h.master_moves hmoves
  | masterStrand hstrand =>
      rcases h with ⟨herror, hpc⟩ | hpaced
      · have hlater := StrandMoves.later hsync.master.numbered hstrand
        exact .inl ⟨herror.trans_le hlater.error, hpc⟩
      · obtain ⟨hi, hmoves⟩ := strandStep_cases hstrand
        refine .inr (hpaced.moves hsync.master hi hmoves ?_)
        rintro ⟨result, rfl⟩
        exact hsignal _ result rfl
  | tick | slave | slaveStrand => exact h

end

/-! ## The end of a run -/

/-- When the master has returned without an error, no strand is in a timed
transaction with a callout that has not fired. -/
def System.Serviced (st : System) : Prop :=
  st.pc = .returned 0 → ∀ i < st.master.noStrands, (st.master.strands i).phase = .executing →
    (st.master.strands i).Timed →
      st.master.callouts (st.master.strands i).worklist.groupid.toNat = 0

/-- Every group with threads ends with a transaction that has no duration. -/
def Workorder.EndsUntimed (w : Workorder) : Prop :=
  ∀ g ∈ w.grp, 0 < g.nthreads.toNat → ∀ txn ∈ g.tlist.getLast?, txn.duration = 0

theorem StrandRun.Timed.txn_lt {s : StrandRun} (h : s.Timed) : s.txn < s.worklist.tlist.length := by
  obtain ⟨txn, htxn, -⟩ := h
  exact StrandRun.current_lt htxn

theorem StrandRun.Complete.length_le {s : StrandRun} (h : s.Complete) :
    s.worklist.tlist.length ≤ s.txn :=
  List.getElem?_eq_none_iff.mp h.2

section

variable {w : Workorder} {st st' : System}

/-- Past all barriers, the strands are in the last transactions of their groups. -/
theorem System.Progressed.serviced_of_untimed (h : st.Progressed w) (hassigned : st.Assigned w)
    (hw : ∀ g ∈ w.grp, g.Executable) (hends : w.EndsUntimed) : st.Serviced := by
  intro hpc i hi hphase htimed
  exfalso
  obtain ⟨hall, -⟩ := h.returned hpc
  obtain ⟨g, hg, hthreads, hworklist⟩ := hassigned i hi
  have hlt := htimed.txn_lt
  by_cases hlast : (st.master.strands i).txn + 1 < (st.master.strands i).worklist.tlist.length
  · -- the barrier after the transaction is full, so the strand has finished it
    have hmax : (st.master.strands i).txn + 1 < workorderMaxTxn w := by
      calc (st.master.strands i).txn + 1 < (st.master.strands i).worklist.tlist.length := hlast
        _ = g.ntxn.toNat := by rw [hworklist, (hw g hg).ntxn]
        _ ≤ workorderMaxTxn w := ntxn_le_workorderMaxTxn hg
    have hfinished := (hall _ hmax).finished hi hlast
    exact absurd hfinished (lt_irrefl _)
  · obtain ⟨txn, htxn, hduration⟩ := htimed
    have hzero : txn.duration = 0 := by
      refine hends g hg hthreads txn ?_
      rw [Option.mem_def, ← hworklist, List.getLast?_eq_getElem?, ← htxn, StrandRun.current]
      congr 1
      omega
    rw [hzero] at hduration
    exact absurd hduration (by decide)

/-- A single strand is complete when it is counted. -/
theorem System.Progressed.serviced_of_single (h : st.Progressed w)
    (hone : st.master.noStrands ≤ 1) : st.Serviced := by
  intro hpc i hi hphase htimed
  obtain ⟨-, j, hj, hcomplete⟩ := h.returned hpc
  obtain rfl : i = j := by omega
  exact absurd htimed.txn_lt (not_lt.mpr hcomplete.length_le)

/-- A complete strand is ahead of every callout that is still to come. -/
theorem System.Progressed.serviced_of_pace {worklist : Group} (h : st.Progressed w)
    (hpace : st.KeepsPace worklist) : st.Serviced := by
  intro hpc i hi hphase htimed
  obtain ⟨-, j, hj, hcomplete⟩ := h.returned hpc
  have hpaced := hpace.resolve_left fun herror => herror.2 hpc
  rw [hpaced.same i hi]
  by_contra hregistered
  obtain ⟨-, hlead, hall⟩ := hpaced.registered hregistered
  have hlt := hlead.txn_lt
  have hle := (hall j hj).1
  have hlength := hcomplete.length_le
  rw [hpaced.same j hj] at hlength
  rw [hpaced.same 0 hpaced.lead_lt] at hlt
  omega

end

/-- What holds of the master in every run. -/
structure System.Tracked (w : Workorder) (st : System) : Prop where
  sync : st.Synchronized
  progressed : st.Progressed w
  assigned : st.Assigned w
  noStrands : st.master.noStrands = workorderNumStrands w

theorem System.Tracked.step {w : Workorder} {st st' : System} (h : st.Tracked w) {act : Action}
    (hstep : st.step w act = some st') : st'.Tracked w where
  sync := h.sync.step hstep
  progressed := h.progressed.step h.sync hstep
  assigned := h.assigned.step (h.sync.shmStep hstep)
  noStrands := (h.sync.shmStep hstep).noStrands.trans h.noStrands

theorem systemStart_tracked {w : Workorder} {slaves : List Group} {errorStats : Bool}
    {st : System} (hw : ∀ g ∈ w.grp, g.Executable) (hslaves : ∀ g ∈ slaves, g.Executable)
    (hstart : systemStart w slaves errorStats = some st) :
    st.Tracked w ∧ st.master.Started w := by
  have hsync := systemStart_synchronized hw hslaves hstart
  obtain ⟨master, hmaster, hstart⟩ := Option.bind_eq_some_iff.mp hstart
  obtain ⟨runs, -, hst⟩ := Option.bind_eq_some_iff.mp hstart
  cases hst
  have hstarted := masterStart_started hmaster
  refine ⟨⟨hsync, ?_, fun i hi => hstarted.assigned hi, hstarted.noStrands⟩, hstarted⟩
  have haccounted : master.Accounted := by
    refine ⟨fun hpos => absurd hstarted.finished hpos.ne', fun i hi => ?_⟩
    rw [(hstarted.new i).2] at hi
    cases hi
  refine ⟨haccounted, ?_, by simp, by simp⟩
  intro currTxn hpc b hb
  cases hpc
  exact absurd hb (Nat.not_lt_zero b)

/-- In every run of a work order whose groups end with transactions that have no
duration, or which has one strand only, `master_poll` serves all callouts, and
also in every run of a single group whose strands leave timed transactions only
when they are signalled. -/
theorem System.run_serviced {w : Workorder} {slaves : List Group} {errorStats : Bool}
    {st st' : System} {acts : List Action} (hw : ∀ g ∈ w.grp, g.Executable)
    (hslaves : ∀ g ∈ slaves, g.Executable)
    (hstart : systemStart w slaves errorStats = some st) (hrun : st.run w acts = some st')
    (hserved : w.EndsUntimed ∨ workorderNumStrands w ≤ 1 ∨
      w.OneThreadedGroup ∧ Along (System.step w) ExpiresBySignal st acts) : st'.Serviced := by
  obtain ⟨htracked, hstarted⟩ := systemStart_tracked hw hslaves hstart
  have hend : st'.Tracked w :=
    run_invariant (fun _ _ _ h hstep => h.step hstep) htracked hrun
  have hsingle : workorderNumStrands w ≤ 1 → st'.Serviced := fun hone =>
    hend.progressed.serviced_of_single (hend.noStrands.trans_le hone)
  rcases hserved with hends | hone | ⟨hgroup, hsignals⟩
  · exact hend.progressed.serviced_of_untimed hend.assigned hw hends
  · exact hsingle hone
  · rcases Nat.eq_zero_or_pos st.master.noStrands with hzero | hpos
    · exact hsingle (by rw [← hstarted.noStrands, hzero]; exact Nat.zero_le 1)
    · obtain ⟨worklist, hpaced⟩ := hstarted.paced hgroup hpos
      have hpace : st'.Tracked w ∧ st'.KeepsPace worklist :=
        run_invariant_of (P := fun st => st.Tracked w ∧ st.KeepsPace worklist)
          (fun _ _ _ h hsignal hstep => ⟨h.1.step hstep, h.2.step h.1.sync hsignal hstep⟩)
          ⟨htracked, .inr hpaced⟩ hsignals hrun
      exact hpace.1.progressed.serviced_of_pace hpace.2

/-! ## Two strands in one timed transaction -/

/-- A transaction of one flowop, for ten seconds. -/
def timedTxn : Txn where
  nflowop := 1
  duration := 10000000000
  flist := [{ type := .nop }]

/-- One group of two threads with a timed transaction. -/
def timedPair : Workorder where
  grp := [{ nthreads := 2, ntxn := 1, tlist := [timedTxn] }]

theorem executable_of_single {g : Group} {txn : Txn} (htlist : g.tlist = [txn])
    (hntxn : g.ntxn = 1) (htxnid : txn.txnid = 0) (hcount : txn.nflowop.toNat = txn.flist.length) :
    g.Executable := by
  refine ⟨⟨by rw [htlist, hntxn]; rfl, ?_⟩, ?_⟩
  · rw [htlist]
    simpa using hcount
  · intro j txn' htxn
    rw [htlist] at htxn
    match j with
    | 0 =>
        cases htxn
        rw [htxnid]
        rfl
    | j + 1 => cases htxn

theorem timedPair_executable : ∀ g ∈ timedPair.grp, g.Executable := by
  intro g hg
  cases List.mem_singleton.mp hg
  exact executable_of_single rfl rfl rfl rfl

/-- Both strands begin the transaction and are signalled. -/
def timedPairSignalled : List Action :=
  [.masterStrand 0 .arrive, .masterStrand 1 .arrive, .master (.poll false true), .master .check,
    .master (.send true), .master (.send true), .master .unlock, .masterStrand 0 .pass,
    .masterStrand 0 .start, .masterStrand 1 .pass, .masterStrand 1 .start, .tick 10000000000,
    .master (.poll false true), .master (.wait true true)]

/-- The leader finishes, and the master returns. -/
def timedPairReturned : List Action :=
  [.masterStrand 0 .exit, .master (.wait true true)]

def timedPairRun : List Action :=
  timedPairSignalled ++ .masterStrand 0 (.finish .expired) :: timedPairReturned

theorem timedPair_signals {st : System}
    (hstart : systemStart timedPair timedPair.grp false = some st) :
    Along (System.step timedPair) ExpiresBySignal st timedPairRun := by
  have hquiet : ∀ {acts : List Action}, (∀ act ∈ acts, ∀ i result,
      act ≠ .masterStrand i (.finish result)) → ∀ {st},
      Along (System.step timedPair) ExpiresBySignal st acts :=
    fun hacts => along_of_forall fun act hact _ i result heq =>
      absurd heq (hacts act hact i result)
  have hrun : ((systemStart timedPair timedPair.grp false).bind fun st =>
      (st.run timedPair timedPairSignalled).map fun st => (st.master.strands 0).signalled) =
        some true := by rfl
  refine along_append (hquiet (by simp [timedPairSignalled])) fun mid hmid => ⟨?_, ?_⟩
  · intro i result hact _
    cases hact
    rw [hstart, Option.bind_some, System.run, hmid] at hrun
    exact Option.some.inj hrun
  · exact fun _ _ => hquiet (by simp [timedPairReturned])

theorem System.run_serviced_timedPair : ∃ st st',
    systemStart timedPair timedPair.grp false = some st ∧
    st.run timedPair timedPairRun = some st' ∧ st'.pc = .returned 0 ∧
    (st'.master.strands 1).phase = .executing ∧ st'.Serviced := by
  have hrun : ((systemStart timedPair timedPair.grp false).bind fun st =>
      (st.run timedPair timedPairRun).map fun st => (st.pc, (st.master.strands 1).phase)) =
        some (.returned 0, .executing) := by rfl
  obtain ⟨st, hst, hrun⟩ := Option.bind_eq_some_iff.mp hrun
  obtain ⟨st', hst', hseen⟩ := Option.map_eq_some_iff.mp hrun
  obtain ⟨hpc, hphase⟩ := Prod.mk.inj hseen
  exact ⟨st, st', hst, hst', hpc, hphase,
    System.run_serviced timedPair_executable timedPair_executable hst hst'
      (.inr (.inr ⟨by decide, timedPair_signals hst⟩))⟩

/-! ## A short group beside a timed one -/

/-- A group whose transaction is executed once, and one with a timed
transaction, of one thread each. -/
def onceAndTimed : Workorder where
  grp :=
    [{ nthreads := 1, ntxn := 1, tlist := [onceTxn 0] },
      { nthreads := 1, ntxn := 1, tlist := [timedTxn] }]

/-- The strand of the first group finishes right away, and the master returns. -/
def onceAndTimedRun : List Action :=
  [.masterStrand 0 .arrive, .masterStrand 1 .arrive] ++ masterRound ++
  [.masterStrand 1 .pass, .masterStrand 1 .start] ++ strandRound (.masterStrand 0) ++
  [.masterStrand 0 .exit, .master (.poll false true), .master (.wait true true)]

/-- `master_poll` returns 0 while the second strand waits for a signal. -/
theorem System.run_onceAndTimed_not_serviced : ∃ st st',
    systemStart onceAndTimed onceAndTimed.grp false = some st ∧
    st.run onceAndTimed onceAndTimedRun = some st' ∧ st'.master.globalError = 0 ∧
    st'.pc = .returned 0 ∧ (st'.master.strands 1).phase = .executing ∧
    st'.master.callouts 1 ≠ 0 ∧ ¬ st'.Serviced := by
  have hrun : ((systemStart onceAndTimed onceAndTimed.grp false).bind fun st =>
      (st.run onceAndTimed onceAndTimedRun).map fun st =>
        (st.master.globalError, st.pc, (st.master.strands 1).phase,
          (st.master.strands 1).current, (st.master.strands 1).worklist.groupid.toNat,
          st.master.callouts 1, st.master.noStrands)) =
        some (0, .returned 0, .executing, some timedTxn, 1, 10, 2) := by rfl
  obtain ⟨st, hst, hrun⟩ := Option.bind_eq_some_iff.mp hrun
  obtain ⟨st', hst', hseen⟩ := Option.map_eq_some_iff.mp hrun
  simp only [Prod.mk.injEq] at hseen
  obtain ⟨herror, hpc, hphase, hcurrent, hgroupid, hcallout, hno⟩ := hseen
  refine ⟨st, st', hst, hst', herror, hpc, hphase, by omega, fun hserviced => ?_⟩
  have hzero := hserviced hpc 1 (by omega) hphase ⟨timedTxn, hcurrent, by decide⟩
  rw [hgroupid, hcallout] at hzero
  cases hzero

end Uperf
