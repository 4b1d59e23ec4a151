import Uperf.Run.Lockstep

/-!
# Which barriers a slave opens

The master writes `NEXT_TXN` for the transactions of its longest group to every
slave, also to those whose group is shorter.  `wait_unlock_barrier` is to ignore
the rest, but its test lets the index through that is equal to the number of the
slave's transactions: no barrier of that index has been primed.  So a slave
keeps to its own barriers exactly when its group is one of the longest
(`System.run_opensOwn_iff`); in any case it unlocks them in order and each once.
-/

namespace Uperf

open Lib

/-- The index in a command, if it has one. -/
def Command.index : Command → Option ℕ
  | .nextTxn value => some value
  | .abort | .sendStats => none

/-- The indices that have been sent to the slave. -/
def SlaveRun.sent (s : SlaveRun) : List ℕ := s.received ++ s.queue.filterMap Command.index

/-- The barrier that the slave is about to unlock. -/
def SlaveRun.pending (s : SlaveRun) : List ℕ :=
  match s.pc with
  | .barrier txn _ => [txn]
  | .poll | .callouts | .stopped => []

/-- What a slave makes of its commands: it looks at the barriers that pass the
test of `wait_unlock_barrier`, and unlocks them one by one. -/
structure SlaveRun.Obeys (s : SlaveRun) : Prop where
  touched : s.touched = s.received.filter fun v => decide (v ≤ s.worklist.ntxn.toNat)
  unlocked : (s.unlocked ++ s.pending).Sublist s.touched

/-- A slave unlocks its own barriers only, in order and each at most once. -/
structure SlaveRun.OpensOwn (s : SlaveRun) : Prop where
  primed : ∀ v ∈ s.touched ++ s.unlocked, v < s.worklist.ntxn.toNat
  once : s.unlocked.Pairwise (· < ·)

/-! ## The slave -/

section

variable {now : ℕ} {s s' : SlaveRun}

theorem SlaveRun.Obeys.of_idle (h : s.Obeys) (shm : RunShm) (queue : List Command)
    {pc : SlavePc} (hpc : ∀ txn waitTime, pc ≠ .barrier txn waitTime) :
    ({ s with shm := shm, queue := queue, pc := pc } : SlaveRun).Obeys where
  touched := h.touched
  unlocked := by
    have hnone : ({ s with shm := shm, queue := queue, pc := pc } : SlaveRun).pending = [] := by
      cases pc with
      | barrier txn waitTime => exact absurd rfl (hpc txn waitTime)
      | poll | callouts | stopped => rfl
    rw [hnone, List.append_nil]
    exact (List.sublist_append_left _ _).trans h.unlocked

theorem SlaveRun.Obeys.moves (h : s.Obeys) (hmoves : SlaveMoves now s s') : s'.Obeys := by
  cases hmoves with
  | idle hpc hnew =>
      refine h.of_idle s.shm s.queue ?_
      rcases hnew with rfl | rfl <;> simp
  | skip hpc hqueue hbig =>
      have hidle : s.unlocked.Sublist s.touched :=
        (List.sublist_append_left _ _).trans h.unlocked
      refine ⟨?_, by simpa [SlaveRun.pending] using hidle⟩
      simpa [List.filter_append, not_le.mpr hbig] using h.touched
  | command hpc hqueue hsmall =>
      have hidle : s.unlocked.Sublist s.touched :=
        (List.sublist_append_left _ _).trans h.unlocked
      refine ⟨?_, hidle.append_right _⟩
      simpa [List.filter_append, hsmall] using h.touched
  | stop hpc hqueue hcommand => exact h.of_idle _ _ (by simp)
  | turn hpc hshm hnew =>
      rename_i txn waitTime shm pc
      rcases hnew with rfl | ⟨waitTime', rfl⟩
      · exact h.of_idle _ s.queue (by simp)
      · refine ⟨h.touched, ?_⟩
        simpa [SlaveRun.pending, hpc] using h.unlocked
  | unlock hpc hfull =>
      refine ⟨h.touched, ?_⟩
      simpa [SlaveRun.pending, hpc] using h.unlocked
  | callouts hpc answered => exact h.of_idle _ s.queue (by simp)

/-- No step of the slave changes what has been sent to it, up to commands
without an index. -/
theorem SlaveMoves.sent (hmoves : SlaveMoves now s s') : s'.sent = s.sent := by
  cases hmoves with
  | skip hpc hqueue hbig => simp [SlaveRun.sent, hqueue, Command.index]
  | command hpc hqueue hsmall => simp [SlaveRun.sent, hqueue, Command.index]
  | stop hpc hqueue hcommand =>
      rename_i command queue
      cases command with
      | nextTxn value => exact absurd rfl (hcommand value)
      | abort | sendStats =>
          simp only [SlaveRun.sent, hqueue, List.filterMap_cons, Command.index]
  | _ => rfl

theorem SlaveMoves.worklist (hmoves : SlaveMoves now s s') : s'.worklist = s.worklist := by
  cases hmoves <;> rfl

end

/-! ## The master -/

/-- All indices that have been sent to the slave `k` are below this. -/
def System.sentBelow (w : Workorder) (st : System) (k : ℕ) : ℕ :=
  match st.pc with
  | .loop currTxn | .check currTxn => currTxn
  | .send currTxn k' => if k < k' then currTxn + 1 else currTxn
  | .unlock currTxn => currTxn + 1
  | .waiting | .returned _ => workorderMaxTxn w

/-- The index of the master's first loop. -/
def MasterPc.InRange (n : ℕ) : MasterPc → Prop
  | .loop currTxn => currTxn ≤ n
  | .check currTxn | .send currTxn _ | .unlock currTxn => currTxn < n
  | .waiting | .returned _ => True

/-- Commands come in increasing order. -/
structure System.InOrder (w : Workorder) (st : System) : Prop where
  inRange : st.pc.InRange (workorderMaxTxn w)
  obeys : ∀ k, (st.slaves k).Obeys
  increasing : ∀ k, (st.slaves k).sent.Pairwise (· < ·)
  below : ∀ k, ∀ v ∈ (st.slaves k).sent, v < st.sentBelow w k

section

variable {w : Workorder} {st st' : System}

/-- The bound never goes down. -/
theorem System.InOrder.of_slaves (h : st.InOrder w) (hrange : st'.pc.InRange (workorderMaxTxn w))
    (hslaves : ∀ k, (st'.slaves k).Obeys ∧ (st'.slaves k).sent = (st.slaves k).sent)
    (hbelow : ∀ k, st.sentBelow w k ≤ st'.sentBelow w k) : st'.InOrder w where
  inRange := hrange
  obeys k := (hslaves k).1
  increasing k := by
    rw [(hslaves k).2]
    exact h.increasing k
  below k v hv := by
    rw [(hslaves k).2] at hv
    exact (h.below k v hv).trans_le (hbelow k)

theorem System.InOrder.sentBelow_le (h : st.InOrder w) (k : ℕ) :
    st.sentBelow w k ≤ workorderMaxTxn w := by
  have hrange := h.inRange
  unfold System.sentBelow
  cases hpc : st.pc with
  | send currTxn k' =>
      rw [hpc] at hrange
      have hlt : currTxn < workorderMaxTxn w := hrange
      show (if k < k' then currTxn + 1 else currTxn) ≤ _
      split_ifs <;> omega
  | loop currTxn | check currTxn | unlock currTxn =>
      rw [hpc] at hrange
      simp only [MasterPc.InRange] at hrange ⊢
      omega
  | waiting | returned code => exact le_refl _

theorem System.InOrder.left (h : st.InOrder w) (sent : Bool) :
    (masterLeave st sent).InOrder w := by
  have hall : ∀ {command : Command} (code : ℕ), command.index = none →
      ({ st.sendToAll command with pc := .returned code } : System).InOrder w := by
    intro command code hindex
    refine h.of_slaves trivial (fun k => ?_) h.sentBelow_le
    have hobeys := h.obeys k
    show (if _ then _ else _ : SlaveRun).Obeys ∧ (if _ then _ else _ : SlaveRun).sent = _
    split_ifs
    · exact ⟨⟨hobeys.touched, hobeys.unlocked⟩, by simp [SlaveRun.sent, hindex]⟩
    · exact ⟨hobeys, rfl⟩
  have hnone : ∀ code, ({ st with pc := .returned code } : System).InOrder w :=
    fun code => h.of_slaves trivial (fun k => ⟨h.obeys k, rfl⟩) h.sentBelow_le
  unfold masterLeave
  split_ifs
  · exact hall 1 rfl
  · exact hall 0 rfl
  · exact hnone 1
  · exact hnone 0

/-- The master writes the command for the transaction that it is at, whose index
is larger than those sent to the slave before. -/
theorem System.InOrder.send (h : st.InOrder w) {currTxn k : ℕ} (hpc : st.pc = .send currTxn k)
    (hrange : currTxn < workorderMaxTxn w) :
    ({ st.sendTo k (.nextTxn currTxn) with pc := .send currTxn (k + 1) } : System).InOrder w := by
  have hbelow : ∀ k', ∀ v ∈ (st.slaves k').sent,
      v < if k' < k then currTxn + 1 else currTxn := by
    intro k'
    have hbefore := h.below k'
    simpa only [System.sentBelow, hpc] using hbefore
  have hself : ∀ v ∈ (st.slaves k).sent, v < currTxn := by
    have hbefore := hbelow k
    rwa [if_neg (lt_irrefl k)] at hbefore
  have hsent : (({ st.sendTo k (.nextTxn currTxn) with pc := .send currTxn (k + 1) } :
      System).slaves k).sent = (st.slaves k).sent ++ [currTxn] := by
    simp [System.sendTo, SlaveRun.sent, Command.index]
  have hbound : ∀ k', ({ st.sendTo k (.nextTxn currTxn) with pc := .send currTxn (k + 1) } :
      System).sentBelow w k' = if k' < k + 1 then currTxn + 1 else currTxn := fun _ => rfl
  have hother : ∀ k', k' ≠ k → ({ st.sendTo k (.nextTxn currTxn) with
      pc := .send currTxn (k + 1) } : System).slaves k' = st.slaves k' :=
    fun k' hk' => Function.update_of_ne hk' _ _
  refine ⟨hrange, fun k' => ?_, fun k' => ?_, fun k' => ?_⟩ <;> by_cases hk' : k' = k
  · subst hk'
    simp only [System.sendTo, Function.update_self]
    exact ⟨(h.obeys k').touched, (h.obeys k').unlocked⟩
  · rw [hother k' hk']
    exact h.obeys k'
  · subst hk'
    rw [hsent]
    refine List.pairwise_append.mpr ⟨h.increasing k', List.pairwise_singleton _ _, ?_⟩
    intro v hv v' hv'
    cases List.mem_singleton.mp hv'
    exact hself v hv
  · rw [hother k' hk']
    exact h.increasing k'
  · subst hk'
    rw [hsent, hbound, if_pos (Nat.lt_succ_self k')]
    intro v hv
    rcases List.mem_append.mp hv with hv | hv
    · exact (hself v hv).trans (Nat.lt_succ_self _)
    · cases List.mem_singleton.mp hv
      exact Nat.lt_succ_self _
  · rw [hother k' hk', hbound]
    intro v hv
    refine (hbelow k' v hv).trans_le ?_
    split_ifs <;> omega

theorem System.InOrder.master_moves (h : st.InOrder w) (hmoves : MasterMoves w st st') :
    st'.InOrder w := by
  have hrange := h.inRange
  have hsame : ∀ k, (st.slaves k).Obeys ∧ (st.slaves k).sent = (st.slaves k).sent :=
    fun k => ⟨h.obeys k, rfl⟩
  cases hmoves with
  | leave hpc hend => exact h.of_slaves trivial hsame h.sentBelow_le
  | message hpc => exact h.of_slaves trivial hsame h.sentBelow_le
  | callouts hpc hlt answered =>
      refine h.of_slaves hlt hsame fun k => ?_
      simp [System.sentBelow, hpc]
  | again hpc =>
      rw [hpc] at hrange
      refine h.of_slaves (Nat.le_of_lt hrange) hsame fun k => ?_
      simp [System.sentBelow, hpc]
  | full hpc hfull =>
      rw [hpc] at hrange
      refine h.of_slaves hrange hsame fun k => ?_
      simp [System.sentBelow, hpc]
  | send hpc hk =>
      rw [hpc] at hrange
      exact h.send hpc hrange
  | sent hpc =>
      rw [hpc] at hrange
      refine h.of_slaves hrange hsame fun k' => ?_
      simp only [System.sentBelow, hpc]
      split_ifs <;> omega
  | unlock hpc =>
      rw [hpc] at hrange
      refine h.of_slaves (Nat.succ_le_of_lt hrange) hsame fun k => ?_
      simp [System.sentBelow, hpc]
  | wait hpc herror hfinished answered =>
      refine h.of_slaves hrange hsame fun k => ?_
      simp [System.sentBelow, hpc]
  | left hpc hleave sent => exact h.left sent

theorem System.InOrder.slave (h : st.InOrder w) (k : ℕ) {s : SlaveRun} (hobeys : s.Obeys)
    (hsent : s.sent = (st.slaves k).sent) :
    ({ st with slaves := Function.update st.slaves k s } : System).InOrder w := by
  refine h.of_slaves h.inRange (fun k' => ?_) fun _ => le_refl _
  by_cases hk : k' = k
  · subst hk
    simp only [Function.update_self]
    exact ⟨hobeys, hsent⟩
  · simp only [Function.update_of_ne hk]
    exact ⟨h.obeys k', trivial⟩

theorem System.InOrder.step (h : st.InOrder w) {act : Action}
    (hstep : st.step w act = some st') : st'.InOrder w := by
  cases System.step_cases hstep with
  | tick | masterStrand => exact ⟨h.inRange, h.obeys, h.increasing, h.below⟩
  | master hmoves => exact h.master_moves hmoves
  | slave hk hmoves => exact h.slave _ ((h.obeys _).moves hmoves) hmoves.sent
  | slaveStrand hk hstrand => exact h.slave _ ⟨(h.obeys _).touched, (h.obeys _).unlocked⟩ rfl

theorem systemStart_inOrder {slaves : List Group} {errorStats : Bool}
    (hstart : systemStart w slaves errorStats = some st) : st.InOrder w := by
  obtain ⟨master, -, hstart⟩ := Option.bind_eq_some_iff.mp hstart
  obtain ⟨runs, hruns, hst⟩ := Option.bind_eq_some_iff.mp hstart
  cases hst
  have hnew : ∀ k : ℕ, ∃ shm worklist, runs[k]?.getD {} =
      ({ shm := shm, worklist := worklist } : SlaveRun) := by
    intro k
    cases hk : runs[k]? with
    | none => exact ⟨{}, {}, rfl⟩
    | some s =>
        obtain ⟨g, -, hs⟩ := mem_of_mapM hruns (List.mem_of_getElem? hk)
        obtain ⟨shm, -, rfl⟩ := Option.map_eq_some_iff.mp hs
        exact ⟨shm, g, rfl⟩
  refine ⟨Nat.zero_le _, fun k => ?_, fun k => ?_, fun k => ?_⟩ <;>
    obtain ⟨shm, worklist, hk⟩ := hnew k <;> simp only [hk]
  · exact ⟨rfl, by simp [SlaveRun.pending]⟩
  · exact List.Pairwise.nil
  · intro v hv
    cases hv

/-- A slave keeps its work order. -/
theorem System.step_worklist {act : Action} (hstep : st.step w act = some st') (k : ℕ) :
    (st'.slaves k).worklist = (st.slaves k).worklist := by
  cases System.step_cases hstep with
  | tick | masterStrand => rfl
  | master hmoves =>
      have hall : ∀ command, ((st.sendToAll command).slaves k).worklist =
          (st.slaves k).worklist := by
        intro command
        simp only [System.sendToAll]
        split_ifs <;> rfl
      cases hmoves with
      | send hpc hk => exact update_field SlaveRun.worklist (by rfl) k
      | left hpc hleave sent =>
          unfold masterLeave
          split_ifs
          · exact hall _
          · exact hall _
          · rfl
          · rfl
      | _ => rfl
  | slave hk hmoves => exact update_field SlaveRun.worklist hmoves.worklist k
  | slaveStrand hk hstrand => exact update_field SlaveRun.worklist (by rfl) k

theorem System.run_worklist {acts : List Action} (hrun : st.run w acts = some st') (k : ℕ) :
    (st'.slaves k).worklist = (st.slaves k).worklist :=
  run_invariant (P := fun st' => (st'.slaves k).worklist = (st.slaves k).worklist)
    (fun _ _ _ h hstep => (System.step_worklist hstep k).trans h) rfl hrun

/-- The slaves of a run have the work orders that they started with, and a
barrier for each of their transactions. -/
theorem systemStart_worklist {slaves : List Group} {errorStats : Bool}
    (hstart : systemStart w slaves errorStats = some st) {k : ℕ} {g : Group}
    (hg : slaves[k]? = some g) : (st.slaves k).worklist = g ∧ g.ntxn.toNat ≤ numBarrier := by
  obtain ⟨master, -, hstart⟩ := Option.bind_eq_some_iff.mp hstart
  obtain ⟨runs, hruns, hst⟩ := Option.bind_eq_some_iff.mp hstart
  cases hst
  obtain ⟨s, hs, hk⟩ := getElem?_of_mapM hruns hg
  obtain ⟨shm, hshm, rfl⟩ := Option.map_eq_some_iff.mp hs
  refine ⟨by simp [hk], ?_⟩
  obtain ⟨shm₀, hinit, -⟩ := Option.bind_eq_some_iff.mp hshm
  simp only [shmInitBarriersSlave, Option.ite_none_left_eq_some] at hinit
  exact not_lt.mp hinit.1

end

/-! ## The test of `wait_unlock_barrier` -/

theorem SlaveRun.Obeys.opensOwn {s : SlaveRun} (h : s.Obeys) (hsent : s.sent.Pairwise (· < ·))
    {n : ℕ} (hbelow : ∀ v ∈ s.sent, v < n) (hn : n ≤ s.worklist.ntxn.toNat) : s.OpensOwn := by
  have hreceived : s.touched.Sublist s.sent := by
    rw [h.touched]
    exact List.filter_sublist.trans (List.sublist_append_left _ _)
  have hunlocked : s.unlocked.Sublist s.touched :=
    (List.sublist_append_left _ _).trans h.unlocked
  refine ⟨fun v hv => ?_, hsent.sublist (hunlocked.trans hreceived)⟩
  have htouched : v ∈ s.touched :=
    (List.mem_append.mp hv).elim id fun hv => hunlocked.subset hv
  exact (hbelow v (hreceived.subset htouched)).trans_le hn

/-- A slave that has received every index below `n` and keeps to its own
barriers has at least `n` of them. -/
theorem SlaveRun.Obeys.le_of_opensOwn {s : SlaveRun} (h : s.Obeys) {n : ℕ}
    (hreceived : s.received = List.range n) (hopens : s.OpensOwn) :
    n ≤ s.worklist.ntxn.toNat := by
  by_contra hlt
  -- the index that the test should have stopped
  have hmem : s.worklist.ntxn.toNat ∈ s.touched := by
    rw [h.touched, hreceived]
    exact List.mem_filter.mpr ⟨List.mem_range.mpr (not_le.mp hlt), by simp⟩
  exact lt_irrefl _ (hopens.primed _ (List.mem_append_left _ hmem))

/-- In every run a slave whose group is one of the longest opens only the
barriers it has primed, each once and in order; and when a slave has received
every index below the maximum count, it has kept to its own barriers only if
its group is one of the longest. -/
theorem System.run_opensOwn_iff {w : Workorder} {slaves : List Group} {errorStats : Bool}
    {st st' : System} {acts : List Action}
    (hstart : systemStart w slaves errorStats = some st) (hrun : st.run w acts = some st')
    {k : ℕ} {g : Group} (hg : slaves[k]? = some g) :
    (st'.slaves k).worklist = g ∧ g.ntxn.toNat ≤ numBarrier ∧
      (workorderMaxTxn w ≤ g.ntxn.toNat → (st'.slaves k).OpensOwn) ∧
      ((st'.slaves k).received = List.range (workorderMaxTxn w) →
        ((st'.slaves k).OpensOwn ↔ workorderMaxTxn w ≤ g.ntxn.toNat)) := by
  obtain ⟨hworklist, hbarrier⟩ := systemStart_worklist hstart hg
  have hkeeps : (st'.slaves k).worklist = g := (System.run_worklist hrun k).trans hworklist
  have horder : st'.InOrder w := run_invariant (fun _ _ _ h hstep => h.step hstep)
    (systemStart_inOrder hstart) hrun
  have hbelow : ∀ v ∈ (st'.slaves k).sent, v < workorderMaxTxn w :=
    fun v hv => (horder.below k v hv).trans_le (horder.sentBelow_le k)
  have hopens : workorderMaxTxn w ≤ g.ntxn.toNat → (st'.slaves k).OpensOwn := by
    intro hmax
    rw [← hkeeps] at hmax
    exact (horder.obeys k).opensOwn (horder.increasing k) hbelow hmax
  refine ⟨hkeeps, hbarrier, hopens, fun hreceived => ⟨fun hown => ?_, hopens⟩⟩
  rw [← hkeeps]
  exact (horder.obeys k).le_of_opensOwn hreceived hown

theorem System.run_opensOwn_iff_shortAndLong : ∃ st st',
    systemStart shortAndLong shortAndLong.grp false = some st ∧
    st.run shortAndLong twoRounds = some st' ∧ ∃ g, shortAndLong.grp[0]? = some g ∧
      (st'.slaves 0).worklist = g ∧ g.ntxn.toNat ≤ numBarrier ∧
      (workorderMaxTxn shortAndLong ≤ g.ntxn.toNat → (st'.slaves 0).OpensOwn) ∧
      ((st'.slaves 0).received = List.range (workorderMaxTxn shortAndLong) →
        ((st'.slaves 0).OpensOwn ↔ workorderMaxTxn shortAndLong ≤ g.ntxn.toNat)) := by
  obtain ⟨st, st', hstart, hrun, -⟩ := twoRounds_run
  exact ⟨st, st', hstart, hrun, _, rfl, System.run_opensOwn_iff hstart hrun rfl⟩

/-- The slave of the short group gets to a barrier that is not its own. -/
theorem System.run_shortAndLong_not_opensOwn : ∃ st st',
    systemStart shortAndLong shortAndLong.grp false = some st ∧
    st.run shortAndLong twoRounds = some st' ∧
    (st'.slaves 0).received = List.range (workorderMaxTxn shortAndLong) ∧
    ¬ (st'.slaves 0).OpensOwn := by
  obtain ⟨st, st', hstart, hrun, -, -, hreceived⟩ := twoRounds_run
  refine ⟨st, st', hstart, hrun, hreceived, fun hopens => ?_⟩
  obtain ⟨hworklist, -⟩ := systemStart_worklist hstart (k := 0) rfl
  have hkeeps := (System.run_worklist hrun 0).trans hworklist
  have horder : st'.InOrder shortAndLong := run_invariant (fun _ _ _ h hstep => h.step hstep)
    (systemStart_inOrder hstart) hrun
  have hle := (horder.obeys 0).le_of_opensOwn (n := 2) hreceived hopens
  rw [hkeeps] at hle
  exact absurd hle (by decide)

end Uperf
