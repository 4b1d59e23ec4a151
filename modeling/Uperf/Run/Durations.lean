import Uperf.Run.Lockstep

/-!
# Durations

The leader of a group asks for a callout at the end of a timed transaction, and
`shm_process_callouts` signals the group.  Both count whole seconds, and a
callout that is still registered is kept although a new transaction may have
begun.  So a transaction can be called out before its time: in the second in
which it ends, or by the callout of an earlier transaction that was over before
it fired.  In a run without these two the group is never called out early
(`ProcessRun.Held.notCutShort`).

The state records for every barrier what `txn_begin` was when it was opened.
-/

namespace Uperf

open Lib

/-- A process with the begin times of its transactions. -/
structure ProcessRun where
  shm : RunShm
  began : ℕ → ℕ := fun _ => 0

inductive ProcessAct
  | strand (i : ℕ) (act : StrandAct)
  /-- `shm->txn_begin = GETHRTIME()` -/
  | setTxnBegin (now : ℕ)
  | unlock (b : ℕ)
  | callouts (noGroups now : ℕ) (answered : Bool)
  /-- the signals of `wait_unlock_barrier` -/
  | signalAll
  /-- an error that the other side reports -/
  | error

/-- What happens in one process, the master or a slave. -/
def processStep (p : ProcessRun) : ProcessAct → Option ProcessRun
  | .strand i act => (strandStep p.shm i act).map fun shm => { p with shm := shm }
  | .setTxnBegin now => some { p with shm := { p.shm with txnBegin := now } }
  | .unlock b =>
      if barrierNotreached (p.shm.bar b) then none
      else
        some
          { shm :=
              { p.shm with bar := Function.update p.shm.bar b (unlockBarrier (p.shm.bar b)) }
            began :=
              if (p.shm.bar b).locked then Function.update p.began b p.shm.txnBegin else p.began }
  | .callouts noGroups now answered =>
      some { p with shm := shmProcessCallouts p.shm noGroups now answered }
  | .signalAll => some { p with shm := signalAllStrands p.shm none }
  | .error => some { p with shm := { p.shm with globalError := p.shm.globalError + 1 } }

/-- How a process starts: the master with a work order of groups that can be
run, a slave with one such group. -/
inductive ProcessStart (shm : RunShm) : Prop
  | master {w : Workorder} (hgroups : ∀ g ∈ w.grp, g.Executable)
      (hfits : w.grp.length ≤ maxThreadGroups) (hstart : masterStart w = some shm)
  | slave {g : Group} (hgroup : g.Executable) (hstart : slaveStart g = some shm)

/-! ## Which groups are called out -/

/-- The groups that the loop of `shm_process_callouts` signals. -/
def calledOut (now : ℕ) (answered : Bool) : List ℕ → RunShm → List ℕ
  | [], _ => []
  | i :: rest, shm =>
      if 0 < shm.callouts i ∧ shm.callouts i ≤ now / calloutGranurality then
        if answered then
          i :: calledOut now answered rest
            { signalAllStrands shm (some i) with callouts := Function.update shm.callouts i 0 }
        else [i]
      else calledOut now answered rest shm

section

variable {shm : RunShm} {now : ℕ} {answered : Bool} {groups : List ℕ} {g : ℕ}

/-- A group is called out when its callout is due. -/
theorem due_of_mem_calledOut (hg : g ∈ calledOut now answered groups shm) :
    0 < shm.callouts g ∧ shm.callouts g ≤ now / calloutGranurality := by
  induction groups generalizing shm with
  | nil => simp [calledOut] at hg
  | cons i rest ih =>
      rw [calledOut] at hg
      split_ifs at hg with hdue hanswered
      · rcases List.mem_cons.mp hg with rfl | hg
        · exact hdue
        · have hlater := ih hg
          by_cases hi : g = i
          · subst hi
            simp at hlater
          · simpa [Function.update_of_ne hi] using hlater
      · rw [List.mem_singleton.mp hg]
        exact hdue
      · exact ih hg

/-- Callouts are only taken away. -/
theorem fireCallouts_callouts (now : ℕ) (answered : Bool) (groups : List ℕ) (shm : RunShm)
    (g : ℕ) :
    (fireCallouts now answered groups shm).callouts g = 0 ∨
      (fireCallouts now answered groups shm).callouts g = shm.callouts g := by
  induction groups generalizing shm with
  | nil => exact .inr rfl
  | cons i rest ih =>
      rw [fireCallouts]
      split_ifs with hdue
      · rcases ih { signalAllStrands shm (some i) with
            callouts := Function.update shm.callouts i 0 } with hzero | hsame
        · exact .inl hzero
        · by_cases hg : g = i
          · subst hg
            exact .inl (hsame.trans (Function.update_self _ _ _))
          · exact .inr (hsame.trans (Function.update_of_ne hg _ _))
      · exact .inr rfl
      · exact ih shm

end

/-! ## Transactions that are cut short -/

/-- The strand is released for the transaction, which has a duration, and has
not finished it. -/
def StrandRun.Runs (s : StrandRun) (txn : Txn) : Prop :=
  (s.phase = .passed ∨ s.phase = .executing) ∧ s.current = some txn ∧ 0 < txn.duration.toNat

/-- The strand `i` runs the transaction for the group `g`. -/
def ProcessRun.RunsFor (p : ProcessRun) (g i : ℕ) (txn : Txn) : Prop :=
  i < p.shm.noStrands ∧ (p.shm.strands i).worklist.groupid.toNat = g ∧ (p.shm.strands i).Runs txn

/-- When the transaction is to end. -/
def ProcessRun.ends (p : ProcessRun) (txn : Txn) : ℕ :=
  p.began txn.txnid.toNat + txn.duration.toNat

/-- A step does not call the group out before the end of the transaction it is
executing. -/
def NotCutShort (g : ℕ) (p : ProcessRun) : ProcessAct → Prop
  | .callouts noGroups now answered =>
      g ∈ calledOut now answered (List.range noGroups) p.shm →
        ∀ i txn, p.RunsFor g i txn → p.ends txn ≤ now
  | _ => True

/-- The callout of the group, if it has one, is not for a second before the one
in which the transaction ends. -/
def ProcessRun.NotStale (p : ProcessRun) (g : ℕ) (txn : Txn) : Prop :=
  p.shm.callouts g = 0 ∨ p.ends txn / calloutGranurality ≤ p.shm.callouts g

/-- What keeps a step from cutting a duration short.  No earlier callout of the
group is left when a strand is released; the time that its leader registers fits
an `hrtime_t` and counts from the release or later; and the callouts are not
processed in the second in which the transaction ends before it has ended. -/
def Careful (g : ℕ) (p : ProcessRun) : ProcessAct → Prop
  | .strand i .pass =>
      (p.shm.strands i).worklist.groupid.toNat = g → ∀ txn, (p.shm.strands i).current = some txn →
        0 < txn.duration.toNat → p.NotStale g txn
  | .strand i .start =>
      (p.shm.strands i).leader = true → ∀ txn, p.RunsFor g i txn → p.shm.callouts g = 0 →
        p.began txn.txnid.toNat ≤ p.shm.txnBegin ∧
          p.shm.txnBegin + txn.duration.toNat < 2 ^ 64
  | .callouts _ now _ =>
      ∀ i txn, p.RunsFor g i txn → p.shm.callouts g = now / calloutGranurality →
        p.ends txn / calloutGranurality = now / calloutGranurality → p.ends txn ≤ now
  | _ => True

/-- What holds of a process in a careful run: the callout of the group is not
too early for what its strands run. -/
structure ProcessRun.Held (g : ℕ) (p : ProcessRun) : Prop where
  ordered : p.shm.Ordered
  same : ∀ i < p.shm.noStrands, ∀ j < p.shm.noStrands,
    (p.shm.strands i).worklist.groupid.toNat = g → (p.shm.strands j).worklist.groupid.toNat = g →
      (p.shm.strands i).worklist = (p.shm.strands j).worklist
  late : ∀ i txn, p.RunsFor g i txn → p.NotStale g txn

section

variable {p p' : ProcessRun} {g : ℕ}

theorem StrandRun.Runs.passed {s : StrandRun} {txn : Txn} (h : s.Runs txn) :
    s.passed = s.txn + 1 := by
  rcases h.1 with hphase | hphase <;> simp [StrandRun.passed, hphase]

theorem StrandRun.Runs.arrived {s : StrandRun} {txn : Txn} (h : s.Runs txn) :
    s.arrived = s.txn + 1 := by
  rcases h.1 with hphase | hphase <;> simp [StrandRun.arrived, hphase]

/-- The strands of a group run the same transaction. -/
theorem ProcessRun.Held.same_txn (h : p.Held g) {i j : ℕ} {txn txn' : Txn}
    (hi : p.RunsFor g i txn) (hj : p.RunsFor g j txn') : txn = txn' := by
  obtain ⟨hilt, higroup, hiruns⟩ := hi
  obtain ⟨hjlt, hjgroup, hjruns⟩ := hj
  have hsame := h.same i hilt j hjlt higroup hjgroup
  -- whoever has passed a barrier has seen the others arrive there
  have hle : ∀ {a b : ℕ} {t t' : Txn}, a < p.shm.noStrands → b < p.shm.noStrands →
      (p.shm.strands a).Runs t → (p.shm.strands b).Runs t' →
      (p.shm.strands a).worklist = (p.shm.strands b).worklist →
      (p.shm.strands a).txn ≤ (p.shm.strands b).txn := by
    intro a b t t' ha hb haruns hbruns hworklist
    have hpassed : (p.shm.strands a).txn < p.shm.phases.passed a := by
      show (p.shm.strands a).txn < (p.shm.strands a).passed
      rw [haruns.passed]
      exact Nat.lt_succ_self _
    have hlength : (p.shm.strands a).txn < p.shm.phases.length b := by
      show (p.shm.strands a).txn < (p.shm.strands b).worklist.tlist.length
      rw [← hworklist]
      exact StrandRun.current_lt haruns.2.1
    have harrived : (p.shm.strands a).txn < (p.shm.strands b).arrived :=
      h.ordered.inv.arrived_of_passed (Finset.mem_range.mpr ha) hpassed b
        (Finset.mem_range.mpr hb) hlength
    rw [hbruns.arrived] at harrived
    exact Nat.le_of_lt_succ harrived
  have heq : (p.shm.strands i).txn = (p.shm.strands j).txn :=
    le_antisymm (hle hilt hjlt hiruns hjruns hsame) (hle hjlt hilt hjruns hiruns hsame.symm)
  have hcurrent : (p.shm.strands i).current = (p.shm.strands j).current := by
    rw [StrandRun.current, StrandRun.current, hsame, heq]
  rw [hiruns.2.1, hjruns.2.1] at hcurrent
  exact Option.some.inj hcurrent

theorem ProcessRun.Held.of_step (h : p.Held g) (hstep : ShmStep p.shm p'.shm)
    (hlate : ∀ i txn, p'.RunsFor g i txn → p'.NotStale g txn) : p'.Held g where
  ordered := hstep.ordered h.ordered
  same i hi j hj higroup hjgroup := by
    rw [hstep.noStrands] at hi hj
    rw [hstep.worklist] at higroup hjgroup ⊢
    rw [hstep.worklist]
    exact h.same i hi j hj higroup hjgroup
  late := hlate

/-- A step of the process after which its strands run nothing that they did not
run before, and the callout of the group is as it was or gone. -/
theorem ProcessRun.Held.of_runs (h : p.Held g) (hstep : ShmStep p.shm p'.shm)
    (hruns : ∀ i txn, p'.RunsFor g i txn → p.RunsFor g i txn)
    (hbegan : ∀ i txn, p.RunsFor g i txn →
      p'.began txn.txnid.toNat = p.began txn.txnid.toNat)
    (hcallouts : p'.shm.callouts g = 0 ∨ p'.shm.callouts g = p.shm.callouts g) : p'.Held g := by
  refine h.of_step hstep fun i txn hi => ?_
  have hbefore := hruns i txn hi
  rcases hcallouts with hzero | hsame
  · exact .inl hzero
  · rw [NotStale, ends, hbegan i txn hbefore, hsame]
    exact h.late i txn hbefore

/-- The signals change nothing about what a strand runs. -/
theorem StrandRun.Runs.of_signalled {s : StrandRun} {signalled : Bool} {txn : Txn}
    (h : ({ s with signalled := signalled } : StrandRun).Runs txn) : s.Runs txn := h

theorem ProcessRun.Held.signals (h : p.Held g) {shm : RunShm} (hstep : ShmStep p.shm shm)
    (hstrands : ∀ i, ∃ signalled, shm.strands i = { p.shm.strands i with signalled := signalled })
    (hcallouts : shm.callouts g = 0 ∨ shm.callouts g = p.shm.callouts g) :
    ({ p with shm := shm } : ProcessRun).Held g := by
  refine h.of_runs hstep ?_ (fun _ _ _ => rfl) hcallouts
  rintro i txn ⟨hi, hgroup, hruns⟩
  obtain ⟨signalled, heq⟩ := hstrands i
  dsimp only at hi hgroup hruns
  rw [hstep.noStrands] at hi
  rw [heq] at hgroup hruns
  exact ⟨hi, hgroup, hruns.of_signalled⟩

/-- The barrier of a transaction that a strand runs is open. -/
theorem ProcessRun.Held.opened (h : p.Held g) {i : ℕ} {txn : Txn} (hi : p.RunsFor g i txn) :
    (p.shm.bar txn.txnid.toNat).locked = false := by
  obtain ⟨hlt, -, hruns⟩ := hi
  have hnumber := h.ordered.numbered i _ txn hruns.2.1
  refine h.ordered.inv.opened i (Finset.mem_range.mpr hlt) _ ?_
  show txn.txnid.toNat < (p.shm.strands i).passed
  rw [hruns.passed, hnumber]
  exact Nat.lt_succ_self _

/-! ## Careful steps -/

/-- After a step of the strand `i`, the others run what they ran. -/
theorem ProcessRun.RunsFor.of_update {shm : RunShm} {i j : ℕ} {s : StrandRun} {txn : Txn}
    (hj : ({ p with shm := shm } : ProcessRun).RunsFor g j txn)
    (hno : shm.noStrands = p.shm.noStrands)
    (hstrands : shm.strands = Function.update p.shm.strands i s)
    (hworklist : s.worklist = (p.shm.strands i).worklist)
    (hself : s.Runs txn → (p.shm.strands i).Runs txn) : p.RunsFor g j txn := by
  obtain ⟨hlt, hgroup, hruns⟩ := hj
  dsimp only at hlt hgroup hruns
  rw [hno] at hlt
  rw [hstrands] at hgroup hruns
  refine ⟨hlt, ?_⟩
  by_cases hji : j = i
  · subst hji
    rw [Function.update_self] at hgroup hruns
    rw [← hworklist]
    exact ⟨hgroup, hself hruns⟩
  · rw [Function.update_of_ne hji] at hgroup hruns
    exact ⟨hgroup, hruns⟩

/-- What a strand runs after it is released, or after it begins, it is at. -/
theorem StrandRun.Runs.of_phase {s : StrandRun} {phase : StrandPhase} {txn : Txn}
    (h : ({ s with phase := phase } : StrandRun).Runs txn)
    (hphase : s.phase = .passed ∨ s.phase = .executing) : s.Runs txn :=
  ⟨hphase, h.2.1, h.2.2⟩

/-- The leader of the group registers the end of a transaction that the strands
of the group run together. -/
theorem ProcessRun.Held.register (h : p.Held g) {i : ℕ} {txn : Txn} (hi : p.RunsFor g i txn)
    (hcareful : p.shm.callouts g = 0 →
      p.began txn.txnid.toNat ≤ p.shm.txnBegin ∧ p.shm.txnBegin + txn.duration.toNat < 2 ^ 64)
    {j : ℕ} {txn' : Txn} (hj : p.RunsFor g j txn') :
    ({ p with shm := shmCalloutRegister p.shm (txnStop p.shm txn) g } : ProcessRun).NotStale
      g txn' := by
  rw [h.same_txn hj hi]
  by_cases hfree : p.shm.callouts g = 0
  · obtain ⟨hbegan, hfits⟩ := hcareful hfree
    refine .inr ?_
    rw [shmCalloutRegister, if_pos hfree]
    dsimp only
    rw [Function.update_self, txnStop, Nat.mod_eq_of_lt hfits]
    exact Nat.div_le_div_right (Nat.add_le_add_right hbegan _)
  · rw [shmCalloutRegister, if_neg hfree]
    exact h.late i txn hi

/-- The callouts of the other groups are not touched. -/
theorem callouts_shmCalloutRegister {shm : RunShm} {stop groupId : ℕ} (hg : g ≠ groupId) :
    (shmCalloutRegister shm stop groupId).callouts g = shm.callouts g := by
  unfold shmCalloutRegister
  split_ifs
  · exact Function.update_of_ne hg _ _
  · rfl

theorem ProcessRun.Held.moves (h : p.Held g) {i : ℕ} {act : StrandAct} {shm : RunShm}
    (hcareful : Careful g p (.strand i act)) (hstrand : strandStep p.shm i act = some shm) :
    ({ p with shm := shm } : ProcessRun).Held g := by
  have hstep := strandStep_step h.ordered.numbered hstrand
  obtain ⟨hi, hmoves⟩ := strandStep_cases hstrand
  cases hmoves with
  | arrive htxn hphase | quit hphase herror | finish htxn hphase hresult | fail hphase =>
      -- the strand runs nothing any more
      refine h.of_runs hstep (fun j txn hj => ?_) (fun _ _ _ => rfl) (.inr rfl)
      apply hj.of_update rfl rfl rfl
      rintro ⟨hnew | hnew, -⟩ <;> cases hnew
  | exit hdone hexited =>
      refine h.of_runs hstep (fun j txn hj => ?_) (fun _ _ _ => rfl) (.inr rfl)
      exact hj.of_update rfl rfl rfl id
  | pass htxn hphase hopen =>
      refine h.of_step hstep fun j txn' hj => ?_
      by_cases hji : j = i
      · subst hji
        obtain ⟨-, hgroup, -, hcurrent, hpos⟩ := hj
        simp only [RunShm.setStrand, Function.update_self] at hgroup hcurrent
        exact hcareful hgroup txn' hcurrent hpos
      · obtain ⟨hlt, hgroup, hruns⟩ := hj
        simp only [RunShm.setStrand, Function.update_of_ne hji] at hgroup hruns
        exact h.late j txn' ⟨hlt, hgroup, hruns⟩
  | start htxn hphase hno =>
      refine h.of_runs hstep (fun j txn' hj => ?_) (fun _ _ _ => rfl) (.inr rfl)
      exact hj.of_update rfl rfl rfl fun hruns => hruns.of_phase (.inl hphase)
  | @startTimed txn htxn hphase htimed hleader =>
      refine h.of_step hstep fun j txn' hj => ?_
      have hbefore : p.RunsFor g j txn' := by
        refine hj.of_update (s := { p.shm.strands i with phase := .executing }) hstep.noStrands ?_
          rfl fun hruns => hruns.of_phase (.inl hphase)
        rw [RunShm.setStrand, strands_shmCalloutRegister]
      by_cases hgroup : (p.shm.strands i).worklist.groupid.toNat = g
      · have hruns : p.RunsFor g i txn := ⟨hi, hgroup, .inl hphase, htxn, htimed⟩
        rw [hgroup]
        exact h.register hruns (hcareful hleader txn hruns) hbefore
      · have hsame : (shmCalloutRegister p.shm (txnStop p.shm txn)
            (p.shm.strands i).worklist.groupid.toNat).callouts g = p.shm.callouts g :=
          callouts_shmCalloutRegister (Ne.symm hgroup)
        show _ = 0 ∨ _ ≤ _
        rw [RunShm.setStrand, hsame]
        exact h.late j txn' hbefore

/-- Careful steps keep the callout of the group from being too early. -/
theorem ProcessRun.Held.step (h : p.Held g) {act : ProcessAct} (hcareful : Careful g p act)
    (hstep : processStep p act = some p') : p'.Held g := by
  cases act with
  | strand i act =>
      obtain ⟨shm, hstrand, rfl⟩ := Option.map_eq_some_iff.mp hstep
      exact h.moves hcareful hstrand
  | setTxnBegin now | error =>
      cases hstep
      exact h.signals (.of_strands rfl rfl fun _ => ⟨_, rfl⟩) (fun _ => ⟨_, rfl⟩) (.inr rfl)
  | unlock b =>
      simp only [processStep, Option.ite_none_left_eq_some, Bool.not_eq_true,
        Option.some.injEq] at hstep
      obtain ⟨hfull, rfl⟩ := hstep
      refine h.of_runs (ShmStep.unlock hfull p.shm.txnBegin) (fun _ _ => id) ?_ (.inr rfl)
      intro i txn hi
      dsimp only
      split_ifs with hlocked
      · -- the barrier of a transaction that is running is not opened now
        refine Function.update_of_ne ?_ _ _
        rintro rfl
        rw [h.opened hi] at hlocked
        cases hlocked
      · rfl
  | callouts noGroups now answered =>
      cases hstep
      exact h.signals (shmProcessCallouts_step _ _ _ _)
        (fireCallouts_frame p.shm now answered (List.range noGroups)).2.2
        (fireCallouts_callouts now answered (List.range noGroups) p.shm g)
  | signalAll =>
      cases hstep
      exact h.signals (signalAllStrands_step _ _) (signalAllStrands_strands p.shm none) (.inr rfl)

/-- A callout that is not too early for the group fires when the time has come,
or in the second of the end. -/
theorem ProcessRun.Held.notCutShort (h : p.Held g) {act : ProcessAct}
    (hcareful : Careful g p act) : NotCutShort g p act := by
  cases act with
  | callouts noGroups now answered =>
      intro hcalled i txn hi
      obtain ⟨hpos, hdue⟩ := due_of_mem_calledOut hcalled
      have hle : p.ends txn / calloutGranurality ≤ p.shm.callouts g :=
        (h.late i txn hi).resolve_left hpos.ne'
      by_cases hsecond : p.ends txn / calloutGranurality = now / calloutGranurality
      · exact hcareful i txn hi (le_antisymm hdue (hsecond.symm.trans_le hle)) hsecond
      · have hlt : p.ends txn / calloutGranurality < now / calloutGranurality :=
          lt_of_le_of_ne (hle.trans hdue) hsecond
        exact (Nat.lt_of_div_lt_div hlt).le
  | _ => trivial

/-! ## Runs -/

theorem same_of_spawnStrands {groups : List Group} (hfits : groups.length ≤ maxThreadGroups)
    {s t : StrandRun} (hs : s ∈ spawnStrands 0 groups) (ht : t ∈ spawnStrands 0 groups)
    (hsame : s.worklist.groupid.toNat = t.worklist.groupid.toNat) : s.worklist = t.worklist := by
  obtain ⟨m, a, ha, -, hs⟩ := mem_spawnStrands hs
  obtain ⟨n, b, hb, -, ht⟩ := mem_spawnStrands ht
  have hm : m < groups.length := (List.getElem?_eq_some_iff.mp ha).1
  have hn : n < groups.length := (List.getElem?_eq_some_iff.mp hb).1
  have hsmall : maxThreadGroups < 2 ^ 32 := by decide
  rw [hs, ht] at hsame ⊢
  simp only [Nat.zero_add, Nat.toUInt32_eq, UInt32.toNat_ofNat'] at hsame ⊢
  rw [Nat.mod_eq_of_lt (by omega), Nat.mod_eq_of_lt (by omega)] at hsame
  subst hsame
  rw [ha] at hb
  cases hb
  rfl

/-- A process whose strands have not begun runs nothing. -/
theorem ProcessRun.Held.of_strands {shm : RunShm} {strands : List StrandRun}
    (hordered : shm.Ordered) (hno : shm.noStrands = strands.length)
    (hstrands : shm.strands = strandArray strands)
    (hnew : ∀ s ∈ strands, s.txn = 0 ∧ s.phase = .arriving)
    (hsame : ∀ s ∈ strands, ∀ t ∈ strands,
      s.worklist.groupid.toNat = t.worklist.groupid.toNat → s.worklist = t.worklist) (g : ℕ) :
    ({ shm := shm } : ProcessRun).Held g := by
  have hmem : ∀ i < shm.noStrands, shm.strands i ∈ strands := by
    intro i hi
    rw [hno] at hi
    rw [hstrands, strandArray, List.getElem?_eq_getElem hi]
    exact List.getElem_mem hi
  refine ⟨hordered, fun i hi j hj higroup hjgroup => ?_, ?_⟩
  · exact hsame _ (hmem i hi) _ (hmem j hj) (higroup.trans hjgroup.symm)
  · rintro i txn ⟨hi, -, hphase, -⟩
    dsimp only at hi hphase
    rw [(hnew _ (hmem i hi)).2] at hphase
    rcases hphase with hphase | hphase <;> cases hphase

theorem ProcessStart.held {shm : RunShm} (hstart : ProcessStart shm) (g : ℕ) :
    ({ shm := shm } : ProcessRun).Held g := by
  cases hstart with
  | @master w hgroups hfits hstart =>
      obtain ⟨hnumbered, hinv⟩ := masterStart_inv hgroups hstart
      obtain ⟨shm₀, hinit, hshm⟩ := Option.bind_eq_some_iff.mp hstart
      simp only [shmInitBarriersMaster, Option.ite_none_left_eq_some, Option.some.injEq] at hinit
      obtain ⟨-, rfl⟩ := hinit
      cases hshm
      exact .of_strands ⟨hnumbered, hinv⟩ (length_spawnStrands w.grp 0).symm rfl
        (fun s hs => new_of_mem_spawnStrands hs)
        (fun s hs t ht => same_of_spawnStrands hfits hs ht) g
  | @slave gp hgroup hstart =>
      obtain ⟨hnumbered, hinv⟩ := slaveStart_inv hgroup hstart
      obtain ⟨shm₀, hinit, hshm⟩ := Option.bind_eq_some_iff.mp hstart
      cases hshm
      have hnew : ∀ s ∈ spawnStrandsGroup gp,
          s.worklist = groupClone gp ∧ s.txn = 0 ∧ s.phase = .arriving := by
        intro s hs
        obtain ⟨j, -, rfl⟩ := List.mem_map.mp hs
        exact ⟨rfl, rfl, rfl⟩
      refine .of_strands ⟨hnumbered, hinv⟩ (by simp [spawnStrandsGroup]) rfl
        (fun s hs => (hnew s hs).2) (fun s hs t ht _ => ?_) g
      rw [(hnew s hs).1, (hnew t ht).1]

/-- In a run whose steps are careful, the group is not called out before the end of
the transaction that it executes. -/
theorem notCutShort_of_careful {shm : RunShm} (hstart : ProcessStart shm) (g : ℕ)
    {acts : List ProcessAct} (hcareful : Along processStep (Careful g) { shm := shm } acts) :
    Along processStep (NotCutShort g) { shm := shm } acts :=
  hcareful.of_invariant (ProcessRun.Held g) (fun _ _ _ h hact hstep => h.step hact hstep)
    (fun _ _ h hact => h.notCutShort hact) (hstart.held g)

end

/-! ## The processes of a system -/

/-- The process gets from `shm` to `shm'`, whatever it has recorded. -/
def ProcessReaches (shm shm' : RunShm) : Prop :=
  ∀ began, ∃ acts p, run processStep ⟨shm, began⟩ acts = some p ∧ p.shm = shm'

theorem ProcessReaches.refl (shm : RunShm) : ProcessReaches shm shm :=
  fun began => ⟨[], ⟨shm, began⟩, rfl, rfl⟩

theorem ProcessReaches.trans {shm mid shm' : RunShm} (hfirst : ProcessReaches shm mid)
    (hnext : ProcessReaches mid shm') : ProcessReaches shm shm' := by
  intro began
  obtain ⟨acts, ⟨_, began'⟩, hrun, rfl⟩ := hfirst began
  obtain ⟨acts', p, hrun', hp⟩ := hnext began'
  exact ⟨acts ++ acts', p, by rw [run_append, hrun]; exact hrun', hp⟩

/-- One step of the process. -/
theorem ProcessReaches.of_step {shm shm' : RunShm} (act : ProcessAct)
    (hstep : ∀ began, ∃ began', processStep ⟨shm, began⟩ act = some ⟨shm', began'⟩) :
    ProcessReaches shm shm' := by
  intro began
  obtain ⟨began', hstep⟩ := hstep began
  exact ⟨[act], ⟨shm', began'⟩, run_cons.mpr ⟨_, hstep, rfl⟩, rfl⟩

section

variable {w : Workorder} {st st' : System} {s s' : SlaveRun} {now : ℕ}

theorem ProcessReaches.unlock {shm : RunShm} {b : ℕ}
    (hfull : barrierNotreached (shm.bar b) = false) :
    ProcessReaches shm
      { shm with bar := Function.update shm.bar b (unlockBarrier (shm.bar b)) } :=
  .of_step (.unlock b) fun _ => ⟨_, by rw [processStep, hfull]; rfl⟩

theorem ProcessReaches.strand {shm shm' : RunShm} {i : ℕ} {act : StrandAct}
    (hstep : strandStep shm i act = some shm') : ProcessReaches shm shm' :=
  .of_step (.strand i act) fun _ => ⟨_, by rw [processStep, hstep]; rfl⟩

/-- What the master does is a run of its process. -/
theorem MasterMoves.reaches (h : st.Synchronized) (hmoves : MasterMoves w st st') :
    ProcessReaches st.master st'.master := by
  cases hmoves with
  | leave hpc hend | again hpc | full hpc hfull | send hpc hk | sent hpc => exact .refl _
  | message hpc => exact .of_step .error fun _ => ⟨_, rfl⟩
  | callouts hpc hlt answered =>
      exact .of_step (.callouts w.grp.length st.now answered) fun _ => ⟨_, rfl⟩
  | unlock hpc =>
      rename_i currTxn
      have hfull := h.master.inv.full_of_gathered (h.sending currTxn (.inl hpc))
      have hcount : (st.master.bar currTxn).count = (st.master.bar currTxn).limit := hfull
      have hbegin : ProcessReaches st.master { st.master with txnBegin := st.now } :=
        .of_step (.setTxnBegin st.now) fun _ => ⟨_, rfl⟩
      exact hbegin.trans (.unlock (by simp [barrierNotreached, hcount]))
  | wait hpc herror hfinished answered =>
      exact .of_step (.callouts w.grp.length st.now answered) fun _ => ⟨_, rfl⟩
  | left hpc hleave sent =>
      have hsame : (masterLeave st sent).master = st.master := by
        unfold masterLeave
        split_ifs <;> rfl
      rw [hsame]
      exact .refl _

/-- What a slave does is a run of its process. -/
theorem SlaveMoves.reaches (hmoves : SlaveMoves now s s') : ProcessReaches s.shm s'.shm := by
  cases hmoves with
  | idle hpc hnew | stop hpc hqueue hcommand => exact .refl _
  | skip hpc hqueue hbig | command hpc hqueue hsmall =>
      exact .of_step (.setTxnBegin now) fun _ => ⟨_, rfl⟩
  | turn hpc hshm hnew =>
      have hsignal : ProcessReaches s.shm (signalAllStrands s.shm none) :=
        .of_step .signalAll fun _ => ⟨_, rfl⟩
      rcases hshm with rfl | ⟨signalled, rfl | rfl⟩
      · exact .refl _
      · exact hsignal
      · exact hsignal.trans (.of_step (.callouts 1 now signalled) fun _ => ⟨_, rfl⟩)
  | unlock hpc hfull => exact .unlock hfull
  | callouts hpc answered => exact .of_step (.callouts 1 now answered) fun _ => ⟨_, rfl⟩

/-- The master only writes to the slaves. -/
theorem MasterMoves.slaves (hmoves : MasterMoves w st st') (k : ℕ) :
    (st'.slaves k).shm = (st.slaves k).shm := by
  cases hmoves with
  | @send currTxn k' hpc hk =>
      by_cases hkk : k = k'
      · subst hkk
        simp [System.sendTo]
      · simp [System.sendTo, hkk]
  | left hpc hleave sent =>
      have hall : ∀ command, ((st.sendToAll command).slaves k).shm = (st.slaves k).shm := by
        intro command
        simp only [System.sendToAll]
        split_ifs <;> rfl
      unfold masterLeave
      split_ifs
      · exact hall _
      · exact hall _
      · rfl
      · rfl
  | _ => rfl

theorem ProcessReaches.slave {k : ℕ} {s : SlaveRun} (hs : ProcessReaches (st.slaves k).shm s.shm)
    (j : ℕ) : ProcessReaches (st.slaves j).shm (Function.update st.slaves k s j).shm := by
  revert j
  exact (Function.forall_update_iff _ fun j (s : SlaveRun) =>
    ProcessReaches (st.slaves j).shm s.shm).mpr ⟨hs, fun j _ => .refl _⟩

/-- In a run of the system the master and every slave run as single processes. -/
theorem System.step_reaches (h : st.Synchronized) {act : Action}
    (hstep : st.step w act = some st') :
    ProcessReaches st.master st'.master ∧
      ∀ k, ProcessReaches (st.slaves k).shm (st'.slaves k).shm := by
  cases System.step_cases hstep with
  | tick => exact ⟨.refl _, fun k => .refl _⟩
  | master hmoves =>
      refine ⟨hmoves.reaches h, fun k => ?_⟩
      rw [hmoves.slaves k]
      exact .refl _
  | masterStrand hstrand => exact ⟨.strand hstrand, fun k => .refl _⟩
  | slave hk hmoves => exact ⟨.refl _, ProcessReaches.slave hmoves.reaches⟩
  | slaveStrand hk hstrand => exact ⟨.refl _, ProcessReaches.slave (.strand hstrand)⟩

theorem System.run_reaches (h : st.Synchronized) {acts : List Action}
    (hrun : System.run w st acts = some st') :
    ProcessReaches st.master st'.master ∧
      ∀ k, ProcessReaches (st.slaves k).shm (st'.slaves k).shm := by
  let P (mid : System) : Prop := mid.Synchronized ∧ ProcessReaches st.master mid.master ∧
    ∀ k, ProcessReaches (st.slaves k).shm (mid.slaves k).shm
  have hkeep : ∀ mid act next, P mid → mid.step w act = some next → P next := by
    rintro mid act next ⟨hsync, hmaster, hslaves⟩ hstep
    obtain ⟨hmaster', hslaves'⟩ := System.step_reaches hsync hstep
    exact ⟨hsync.step hstep, hmaster.trans hmaster', fun k => (hslaves k).trans (hslaves' k)⟩
  exact (run_invariant hkeep ⟨h, .refl _, fun k => .refl _⟩ hrun).2

end

/-! ## A callout that is left over -/

/-- One strand runs two transactions of ten seconds. -/
def staleWork : Workorder where
  grp :=
    [{ nthreads := 1
       ntxn := 2
       tlist :=
        [{ txnid := 0, duration := 10000000000 }, { txnid := 1, duration := 10000000000 }] }]

/-- The master that has it to run. -/
def staleStart : ProcessRun where
  shm := (masterStart staleWork).getD {}

/-- The strand goes through the barrier `b`, which is opened at the time `now`. -/
def release (b now : ℕ) : List ProcessAct :=
  [.strand 0 .arrive, .setTxnBegin now, .unlock b, .strand 0 .pass, .strand 0 .start]

/-- The first transaction begins at 5 s and is over before its time, and the second
begins at 7 s. -/
def staleActs : List ProcessAct :=
  release 0 5000000000 ++ [.strand 0 (.finish .expired)] ++ release 1 7000000000

/-- The process in the second transaction. -/
def staleSecond : ProcessRun := (run processStep staleStart staleActs).getD staleStart

theorem staleStart_start : ProcessStart staleStart.shm := by
  refine .master (w := staleWork) ?_ (by decide) rfl
  simp only [staleWork, List.mem_singleton, forall_eq]
  refine ⟨⟨rfl, ?_⟩, ?_⟩
  · simp
  · intro j txn htxn
    match j with
    | 0 | 1 =>
        cases htxn
        rfl

/-- The process in the first transaction. -/
def staleFirst : ProcessRun :=
  (run processStep staleStart (release 0 5000000000)).getD staleStart

theorem release_careful : Along processStep (Careful 0) staleStart (release 0 5000000000) := by
  refine .cons trivial rfl (.cons trivial rfl (.cons trivial rfl (.cons ?_ rfl (.cons ?_ rfl ?_))))
  · exact fun _ _ _ _ => .inl rfl
  · rintro - txn ⟨-, -, -, hcurrent, -⟩ -
    cases hcurrent
    decide
  · trivial

/-- The first transaction ends when it should. -/
theorem notCutShort_of_careful_first :
    Along processStep (NotCutShort 0) staleStart
      (release 0 5000000000 ++ [.callouts 1 15000000000 true]) := by
  refine notCutShort_of_careful staleStart_start 0 (along_append release_careful ?_)
  intro mid hmid
  cases (show some staleFirst = some mid from hmid)
  refine .cons ?_ rfl trivial
  rintro i txn ⟨hi, -, -, hcurrent, -⟩ - -
  obtain rfl : i = 0 := Nat.lt_one_iff.mp hi
  cases hcurrent
  decide

/-- The callout of the first transaction fires at 15 s, when the second one has two
more seconds to go. -/
theorem not_notCutShort_stale :
    ProcessStart staleStart.shm ∧
      ¬ Along processStep (NotCutShort 0) staleStart
        (staleActs ++ [.callouts 1 15000000000 true]) := by
  refine ⟨staleStart_start, fun hall => ?_⟩
  have hrun : run processStep staleStart staleActs = some staleSecond := rfl
  have hlast : NotCutShort 0 staleSecond (.callouts 1 15000000000 true) :=
    (hall.of_append hrun).1
  have hruns : staleSecond.RunsFor 0 0 { txnid := 1, duration := 10000000000 } :=
    ⟨by decide, rfl, .inr rfl, rfl, by decide⟩
  have hends : ¬ staleSecond.ends { txnid := 1, duration := 10000000000 } ≤ 15000000000 := by
    decide
  exact hends (hlast (by decide) 0 _ hruns)

end Uperf
