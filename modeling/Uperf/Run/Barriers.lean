import Uperf.Run.Execute

/-!
# Barriers at the start of a run

The master primes a barrier for every transaction of its longest group with the
number of strands that will come to it, a slave one for every transaction of its
group.  The limits are right and no primed barrier is open, so the strands of
both start as threads of phases (`masterStart_inv`, `slaveStart_inv`).
-/

namespace Uperf

open Lib

/-- The inner loop of `shm_init_barriers_master`. -/
def addStrands (strandPerTxn : ℕ → ℕ) (g : Group) : ℕ → ℕ := fun j =>
  if j < g.ntxn.toNat then strandPerTxn j + g.nthreads.toNat else strandPerTxn j

/-- The array `strand_per_txn` after the outer loop. -/
def strandPerTxn (groups : List Group) : ℕ → ℕ := groups.foldl addStrands fun _ => 0

/-- `shm_init_barriers_master`. -/
def shmInitBarriersMaster (shm : RunShm) (w : Workorder) : Option RunShm :=
  let n := workorderMaxTxn w
  if n > numBarrier then none
  else
    some
      { shm with bar := fun i =>
          if i < n then initBarrier (strandPerTxn w.grp i) else shm.bar i }

/-- `shm_init_barriers_slave`. -/
def shmInitBarriersSlave (shm : RunShm) (g : Group) : Option RunShm :=
  let n := g.ntxn.toNat
  if n > numBarrier then none
  else some { shm with bar := fun i => if i < n then initBarrier g.nthreads.toNat else shm.bar i }

/-- `strand_init_group` and the threads made for the group: the first is the
leader. -/
def spawnStrandsGroup (gp : Group) : List StrandRun :=
  (List.range gp.nthreads.toNat).map fun j =>
    { worklist := groupClone gp, leader := decide (j = 0) }

/-- The loop of `master` over the groups, which numbers them from `i` on. -/
def spawnStrands : ℕ → List Group → List StrandRun
  | _, [] => []
  | i, gp :: rest =>
      spawnStrandsGroup { gp with groupid := i.toUInt32 } ++ spawnStrands (i + 1) rest

/-- The array of strands. -/
def strandArray (strands : List StrandRun) : ℕ → StrandRun := fun i => strands[i]?.getD {}

/-- The master before `master_poll`. -/
def masterStart (w : Workorder) : Option RunShm := do
  let shm ← shmInitBarriersMaster { noStrands := workorderNumStrands w } w
  some { shm with strands := strandArray (spawnStrands 0 w.grp) }

/-- A slave before `slave_master_poll`. -/
def slaveStart (g : Group) : Option RunShm := do
  let shm ← shmInitBarriersSlave {} g
  some { shm with noStrands := g.nthreads.toNat, strands := strandArray (spawnStrandsGroup g) }

/-! ## The limits -/

theorem card_filter_strandArray (strands : List StrandRun) (P : StrandRun → Prop)
    [DecidablePred P] :
    ((Finset.range strands.length).filter fun i => P (strandArray strands i)).card =
      strands.countP fun s => decide (P s) := by
  induction strands using List.reverseRecOn with
  | nil => simp
  | append_singleton init s ih =>
      have hbefore : ((Finset.range init.length).filter fun i =>
            P (strandArray (init ++ [s]) i)) =
          (Finset.range init.length).filter fun i => P (strandArray init i) := by
        refine Finset.filter_congr fun i hi => ?_
        rw [strandArray, List.getElem?_append_left (Finset.mem_range.mp hi), strandArray]
      have hlast : strandArray (init ++ [s]) init.length = s := by simp [strandArray]
      rw [List.length_append, List.length_singleton, Finset.range_add_one, Finset.filter_insert,
        hlast, hbefore, List.countP_append, List.countP_singleton, ← ih]
      by_cases hs : P s
      · rw [if_pos hs, Finset.card_insert_of_notMem (by simp), if_pos (decide_eq_true hs)]
      · rw [if_neg hs, if_neg (by simpa using hs), Nat.add_zero]

theorem countP_spawnStrandsGroup (gp : Group) (b : ℕ) :
    (spawnStrandsGroup gp).countP (fun s => decide (b < s.worklist.tlist.length)) =
      if b < gp.tlist.length then gp.nthreads.toNat else 0 := by
  rw [spawnStrandsGroup, List.countP_map]
  split_ifs with hb <;> simp [Function.comp_def, hb]

theorem strandPerTxn_eq {groups : List Group} (hcounted : ∀ g ∈ groups, g.Counted) (i b : ℕ) :
    strandPerTxn groups b =
      (spawnStrands i groups).countP fun s => decide (b < s.worklist.tlist.length) := by
  have hfold : ∀ (groups : List Group) (i : ℕ) (per : ℕ → ℕ), (∀ g ∈ groups, g.Counted) →
      groups.foldl addStrands per b = per b +
        (spawnStrands i groups).countP fun s => decide (b < s.worklist.tlist.length) := by
    intro groups
    induction groups with
    | nil => intro i per _; rfl
    | cons g rest ih =>
        intro i per hcounted
        have hcount : g.ntxn.toNat = g.tlist.length := (hcounted g (by simp)).ntxn
        rw [List.foldl_cons, ih (i + 1) _ fun g hg => hcounted g (by simp [hg]), spawnStrands,
          List.countP_append, countP_spawnStrandsGroup, addStrands, hcount]
        dsimp only
        split_ifs <;> omega
  rw [strandPerTxn, hfold groups i _ hcounted, Nat.zero_add]

theorem length_spawnStrands (groups : List Group) (i : ℕ) :
    (spawnStrands i groups).length = (groups.map fun g => g.nthreads.toNat).sum := by
  induction groups generalizing i with
  | nil => rfl
  | cons g rest ih =>
      rw [spawnStrands, List.length_append, ih, List.map_cons, List.sum_cons]
      simp [spawnStrandsGroup]

/-- Every strand runs one of the groups. -/
theorem mem_spawnStrands {groups : List Group} {i : ℕ} {s : StrandRun}
    (hs : s ∈ spawnStrands i groups) :
    ∃ (n : ℕ) (g : Group), groups[n]? = some g ∧ 0 < g.nthreads.toNat ∧
      s.worklist = { g with groupid := (i + n).toUInt32 } := by
  induction groups generalizing i with
  | nil => simp [spawnStrands] at hs
  | cons g rest ih =>
      rcases List.mem_append.mp hs with hs | hs
      · obtain ⟨j, hj, rfl⟩ := List.mem_map.mp hs
        refine ⟨0, g, rfl, ?_, by simp⟩
        exact Nat.pos_of_ne_zero fun hzero => by simp [hzero] at hj
      · obtain ⟨n, g', hn, hpos, hworklist⟩ := ih hs
        refine ⟨n + 1, g', hn, hpos, ?_⟩
        rw [hworklist, Nat.add_right_comm, Nat.add_assoc]

/-- The strands of an array are those of the list, or empty. -/
theorem strandArray_cases (strands : List StrandRun) (i : ℕ) :
    strandArray strands i ∈ strands ∨ strandArray strands i = {} := by
  cases h : strands[i]? with
  | none => exact .inr (by simp [strandArray, h])
  | some s => exact .inl (by simpa [strandArray, h] using List.mem_of_getElem? h)

/-! ## The strands as threads of phases -/

/-- The transactions of a group are numbered in order. -/
def Group.Numbered (g : Group) : Prop :=
  ∀ j, ∀ txn : Txn, g.tlist[j]? = some txn → txn.txnid.toNat = j

/-- A group that a process can run: the counts are right and the transactions
are numbered. -/
structure Group.Executable (g : Group) : Prop extends g.Counted where
  numbered : g.Numbered

theorem Group.WellFormed.executable {g : Group} (hg : g.WellFormed) : g.Executable where
  toCounted := hg.toCounted
  numbered j txn htxn := by
    obtain ⟨hj, rfl⟩ := List.getElem?_eq_some_iff.mp htxn
    exact hg.txnid j hj

theorem phases_start {shm : RunShm} (strands : List StrandRun) (bar : ℕ → Barrier)
    (hbar : shm.bar = bar) (hcount : ∀ b, (bar b).count = 0)
    (hstrands : shm.strands = strandArray strands)
    (hnew : ∀ s ∈ strands, s.txn = 0 ∧ s.phase = .arriving) :
    shm.phases =
      { length := fun i => (strandArray strands i).worklist.tlist.length
        arrived := fun _ => 0
        passed := fun _ => 0
        count := fun _ => 0
        limit := fun b => (bar b).limit
        opened := fun b => (bar b).locked = false } := by
  have hzero : ∀ i, (strandArray strands i).txn = 0 ∧
      (strandArray strands i).phase = .arriving := by
    intro i
    rcases strandArray_cases strands i with hmem | hempty
    · exact hnew _ hmem
    · rw [hempty]
      exact ⟨rfl, rfl⟩
  simp [RunShm.phases, hbar, hstrands, StrandRun.arrived, StrandRun.passed, hzero, hcount]

theorem new_of_mem_spawnStrands {groups : List Group} {i : ℕ} {s : StrandRun}
    (hs : s ∈ spawnStrands i groups) : s.txn = 0 ∧ s.phase = .arriving := by
  induction groups generalizing i with
  | nil => simp [spawnStrands] at hs
  | cons g rest ih =>
      rcases List.mem_append.mp hs with hs | hs
      · obtain ⟨j, -, rfl⟩ := List.mem_map.mp hs
        exact ⟨rfl, rfl⟩
      · exact ih hs

theorem masterStart_inv {w : Workorder} (hw : ∀ g ∈ w.grp, g.Executable) {shm : RunShm}
    (hstart : masterStart w = some shm) :
    shm.Numbered ∧ Phases.Inv shm.threads shm.phases := by
  obtain ⟨shm₀, hinit, hshm⟩ := Option.bind_eq_some_iff.mp hstart
  cases hshm
  simp only [shmInitBarriersMaster, Option.ite_none_left_eq_some, Option.some.injEq] at hinit
  obtain ⟨-, rfl⟩ := hinit
  have hworklist : ∀ i, strandArray (spawnStrands 0 w.grp) i = {} ∨
      ∃ g ∈ w.grp, (strandArray (spawnStrands 0 w.grp) i).worklist.tlist = g.tlist := by
    intro i
    rcases strandArray_cases (spawnStrands 0 w.grp) i with hmem | hempty
    · obtain ⟨n, g, hg, -, hworklist⟩ := mem_spawnStrands hmem
      exact .inr ⟨g, List.mem_of_getElem? hg, by rw [hworklist]⟩
    · exact .inl hempty
  have hlong : ∀ b, workorderMaxTxn w ≤ b → ∀ i,
      (strandArray (spawnStrands 0 w.grp) i).worklist.tlist.length ≤ b := by
    intro b hb i
    rcases hworklist i with hempty | ⟨g, hg, htlist⟩
    · rw [hempty]
      exact Nat.zero_le b
    · rw [htlist, ← (hw g hg).ntxn]
      exact (ntxn_le_workorderMaxTxn hg).trans hb
  refine ⟨?_, ?_⟩
  · intro i j txn htxn
    rcases hworklist i with hempty | ⟨g, hg, htlist⟩
    · simp [hempty] at htxn
    · simp only [htlist] at htxn
      exact (hw g hg).numbered j txn htxn
  · rw [phases_start (spawnStrands 0 w.grp) _ rfl ?_ rfl
      fun s hs => new_of_mem_spawnStrands hs]
    · refine Phases.Inv.start ?_ ?_
      · intro b
        have hcard := card_filter_strandArray (spawnStrands 0 w.grp)
          fun s => b < s.worklist.tlist.length
        rw [length_spawnStrands] at hcard
        simp only [RunShm.threads, workorderNumStrands, hcard]
        rw [← strandPerTxn_eq (fun g hg => (hw g hg).toCounted)]
        split_ifs with hb
        · rfl
        · rw [strandPerTxn_eq (fun g hg => (hw g hg).toCounted) 0, ← hcard]
          refine (Finset.card_eq_zero.mpr (Finset.filter_eq_empty_iff.mpr fun i _ => ?_)).symm
          exact not_lt.mpr (hlong b (not_lt.mp hb) i)
      · intro b hopen i _
        refine hlong b (not_lt.mp fun hb => ?_) i
        simp [hb, initBarrier] at hopen
    · intro b
      show Barrier.count (if _ then _ else _) = 0
      split_ifs <;> rfl

theorem slaveStart_inv {g : Group} (hg : g.Executable) {shm : RunShm}
    (hstart : slaveStart g = some shm) :
    shm.Numbered ∧ Phases.Inv shm.threads shm.phases := by
  obtain ⟨shm₀, hinit, hshm⟩ := Option.bind_eq_some_iff.mp hstart
  cases hshm
  simp only [shmInitBarriersSlave, Option.ite_none_left_eq_some, Option.some.injEq] at hinit
  obtain ⟨-, rfl⟩ := hinit
  have hworklist : ∀ i, strandArray (spawnStrandsGroup g) i = {} ∨
      (strandArray (spawnStrandsGroup g) i).worklist.tlist = g.tlist := by
    intro i
    rcases strandArray_cases (spawnStrandsGroup g) i with hmem | hempty
    · obtain ⟨j, -, hs⟩ := List.mem_map.mp hmem
      rw [← hs]
      exact .inr (by simp)
    · exact .inl hempty
  refine ⟨?_, ?_⟩
  · intro i j txn htxn
    rcases hworklist i with hempty | htlist
    · simp [hempty] at htxn
    · simp only [htlist] at htxn
      exact hg.numbered j txn htxn
  · rw [phases_start (spawnStrandsGroup g) _ rfl ?_ rfl ?_]
    · refine Phases.Inv.start ?_ ?_
      · intro b
        have hcard := card_filter_strandArray (spawnStrandsGroup g)
          fun s => b < s.worklist.tlist.length
        have hlen : (spawnStrandsGroup g).length = g.nthreads.toNat := by
          simp [spawnStrandsGroup]
        rw [hlen, countP_spawnStrandsGroup, ← hg.ntxn] at hcard
        simp only [RunShm.threads, hcard]
        split_ifs <;> rfl
      · intro b hopen i _
        have hb : ¬ b < g.ntxn.toNat := by
          intro hb
          simp [hb, initBarrier] at hopen
        rcases hworklist i with hempty | htlist
        · rw [hempty]
          exact Nat.zero_le b
        · rw [htlist, ← hg.ntxn]
          exact not_lt.mp hb
    · intro b
      show Barrier.count (if _ then _ else _) = 0
      split_ifs <;> rfl
    · intro s hs
      obtain ⟨j, -, rfl⟩ := List.mem_map.mp hs
      exact ⟨rfl, rfl⟩

end Uperf
