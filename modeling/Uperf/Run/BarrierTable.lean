import Uperf.Lib.Arrays
import Uperf.Run.Barriers

/-!
# The table of the strands of each transaction

`shm_init_barriers_master` adds up the threads of all groups in an array of
`NUM_BARRIER` entries, and only then looks whether there are more transactions than that.
Here the arrays have their size, and the sums are those of the machine
(`sizedOrRefused_iff`).  While nothing goes past an end the barriers are those of
`Run.Barriers` (`shmInitBarriersMaster_bar`).
-/

namespace Uperf

open Lib

/-- `n = MAX (n, ntxn)`; the comparison is one of unsigned numbers. -/
def maxNtxn (n : Int32) (ntxn : UInt32) : Int32 :=
  if n.toUInt32 > ntxn then n else ntxn.toInt32

namespace BarrierTable

/-- The body of the outer loop, on `n` and `strand_per_txn`; without a result the inner
loop goes past the end of the array. -/
def addGroup (st : Int32 × Vector Int32 numBarrier) (g : Group) :
    Option (Int32 × Vector Int32 numBarrier) := do
  let strandPerTxn ← changeBelow (fun _ strands => strands + g.nthreads.toInt32) g.ntxn.toNat st.2
  some (maxNtxn st.1 g.ntxn, strandPerTxn)

/-- What `shm_init_barriers_master` returns, and what it changes in `uperf_shm_t`. -/
structure Primed where
  ret : Int32
  nobarrier : Int32
  bar : Vector Barrier numBarrier

/-- `shm_init_barriers_master`; without a result an access is past the end of an array. -/
def shmInitBarriersMaster (nobarrier : Int32) (bar : Vector Barrier numBarrier) (w : Workorder) :
    Option Primed := do
  let (n, strandPerTxn) ← w.grp.foldlM addGroup (0, Vector.replicate numBarrier 0)
  if (numBarrier : ℤ) < n.toInt then some { ret := -1, nobarrier := nobarrier, bar := bar }
  else do
    let bar ← changeBelow (fun i _ => initBarrier strandPerTxn[i.val].toUInt32.toNat)
      n.toInt.toNat bar
    some { ret := 0, nobarrier := n, bar := bar }

/-- The threads of the groups that have more than `i` transactions. -/
def threadsBeyond (groups : List Group) (i : ℕ) : ℕ :=
  ((groups.filter fun g => i < g.ntxn.toNat).map fun g => g.nthreads.toNat).sum

/-- No access is past the end of an array; the work order is refused exactly if a group has
too many transactions, and otherwise the limit of each barrier is the number of threads that
come to it. -/
def SizedOrRefused (nobarrier : Int32) (bar : Vector Barrier numBarrier) (w : Workorder) :
    Prop :=
  ∃ out, shmInitBarriersMaster nobarrier bar w = some out ∧
    (out.ret = -1 ↔ ∃ g ∈ w.grp, numBarrier < g.ntxn.toNat) ∧
    (out.ret ≠ -1 → ∀ i < workorderMaxTxn w,
      (out.bar[i]?).map Barrier.limit = some (threadsBeyond w.grp i))

/-! ## The outer loop -/

section

variable {groups : List Group} {g : Group} {w : Workorder}

theorem threadsBeyond_cons (g : Group) (groups : List Group) (i : ℕ) :
    threadsBeyond (g :: groups) i =
      (if i < g.ntxn.toNat then g.nthreads.toNat else 0) + threadsBeyond groups i := by
  by_cases hi : i < g.ntxn.toNat
  · simp [threadsBeyond, hi]
  · simp [threadsBeyond, hi]

/-- The first barrier has the most threads. -/
theorem threadsBeyond_le (groups : List Group) (i : ℕ) :
    threadsBeyond groups i ≤ threadsBeyond groups 0 := by
  induction groups with
  | nil => exact le_rfl
  | cons g rest ih =>
      rw [threadsBeyond_cons, threadsBeyond_cons]
      split_ifs <;> omega

theorem threadsBeyond_eq_zero (h : workorderMaxTxn w = 0) : threadsBeyond w.grp 0 = 0 := by
  have hnone : (w.grp.filter fun g => 0 < g.ntxn.toNat) = [] := by
    rw [List.filter_eq_nil_iff]
    intro g hg
    have hle := ntxn_le_workorderMaxTxn hg
    simp only [decide_eq_true_eq]
    omega
  rw [threadsBeyond, hnone]
  rfl

theorem toInt32_eq_ofNat (x : UInt32) : x.toInt32 = Int32.ofNat x.toNat :=
  congrArg UInt32.toInt32 UInt32.ofNat_toNat.symm

theorem maxNtxn_ofNat {n : ℕ} (hn : n ≤ numBarrier) (ntxn : UInt32) :
    maxNtxn (Int32.ofNat n) ntxn = Int32.ofNat (max n ntxn.toNat) := by
  have hnumBarrier : numBarrier = 100 := rfl
  have hvalue : (Int32.ofNat n).toUInt32.toNat = n :=
    UInt32.toNat_ofNat_of_lt' (by rw [UInt32.size]; omega)
  rw [maxNtxn, toInt32_eq_ofNat]
  split_ifs with hlt
  · have : ntxn.toNat < n := by
      rw [← hvalue]
      exact UInt32.lt_iff_toNat_lt.mp hlt
    rw [max_eq_left this.le]
  · have : n ≤ ntxn.toNat := by
      rw [← hvalue]
      exact not_lt.mp fun h => hlt (UInt32.lt_iff_toNat_lt.mpr h)
    rw [max_eq_right this]

/-- A group that fits adds its threads to each of its transactions. -/
theorem addGroup_of_le {n : ℕ} {strands : ℕ → ℕ} (hn : n ≤ numBarrier)
    (hg : g.ntxn.toNat ≤ numBarrier) :
    addGroup (Int32.ofNat n, Vector.ofFn fun i => Int32.ofNat (strands i)) g =
      some (Int32.ofNat (max n g.ntxn.toNat), Vector.ofFn fun i => Int32.ofNat
        (strands i + if i.val < g.ntxn.toNat then g.nthreads.toNat else 0)) := by
  rw [addGroup, changeBelow_of_le _ hg]
  simp only [Option.bind_eq_bind, Option.bind_some, maxNtxn_ofNat hn, Option.some_inj,
    Prod.mk.injEq, true_and]
  ext i hi
  simp only [Vector.getElem_ofFn, toInt32_eq_ofNat]
  split_ifs
  · rw [Int32.ofNat_add]
  · rfl

/-- All groups that fit leave the sums in the array. -/
theorem foldlM_addGroup {n : ℕ} (strands : ℕ → ℕ) (hn : n ≤ numBarrier)
    (hgroups : ∀ g ∈ groups, g.ntxn.toNat ≤ numBarrier) :
    groups.foldlM addGroup (Int32.ofNat n, Vector.ofFn fun i => Int32.ofNat (strands i)) =
      some (Int32.ofNat (groups.foldl (fun no g => max no g.ntxn.toNat) n),
        Vector.ofFn fun i => Int32.ofNat (strands i + threadsBeyond groups i)) := by
  induction groups generalizing n strands with
  | nil => simp [threadsBeyond]
  | cons g rest ih =>
      have hg := hgroups g List.mem_cons_self
      have hrest := ih (fun i => strands i + if i < g.ntxn.toNat then g.nthreads.toNat else 0)
        (max_le hn hg) fun g' hg' => hgroups g' (List.mem_cons_of_mem g hg')
      rw [List.foldlM_cons, addGroup_of_le hn hg]
      simp only [Option.bind_eq_bind, Option.bind_some, List.foldl_cons, threadsBeyond_cons,
        ← Nat.add_assoc]
      exact hrest

/-- With a result the outer loop has met no group that does not fit. -/
theorem ntxn_le_of_foldlM {st st' : Int32 × Vector Int32 numBarrier}
    (h : groups.foldlM addGroup st = some st') : ∀ g ∈ groups, g.ntxn.toNat ≤ numBarrier := by
  induction groups generalizing st with
  | nil =>
      intro g hg
      cases hg
  | cons g rest ih =>
      rw [List.foldlM_cons] at h
      obtain ⟨mid, hmid, hrest⟩ := Option.bind_eq_some_iff.mp h
      obtain ⟨strandPerTxn, hchange, -⟩ := Option.bind_eq_some_iff.mp hmid
      intro g' hg'
      obtain rfl | hg' := List.mem_cons.mp hg'
      · exact le_of_changeBelow hchange
      · exact ih hrest g' hg'

/-! ## The barriers -/

theorem workorderMaxTxn_le (hw : ∀ g ∈ w.grp, g.ntxn.toNat ≤ numBarrier) :
    workorderMaxTxn w ≤ numBarrier := by
  have hfold : ∀ (groups : List Group) (no : ℕ), no ≤ numBarrier →
      (∀ g ∈ groups, g.ntxn.toNat ≤ numBarrier) →
        groups.foldl (fun no g => max no g.ntxn.toNat) no ≤ numBarrier := by
    intro groups
    induction groups with
    | nil => exact fun no hno _ => hno
    | cons g rest ih =>
        intro no hno hgroups
        rw [List.foldl_cons]
        exact ih _ (max_le hno (hgroups g List.mem_cons_self)) fun g' hg' =>
          hgroups g' (List.mem_cons_of_mem g hg')
  exact hfold w.grp 0 (Nat.zero_le _) hw

/-- When all groups fit, the limits are the sums as the machine has them. -/
theorem shmInitBarriersMaster_of_le (nobarrier : Int32) (bar : Vector Barrier numBarrier)
    (hw : ∀ g ∈ w.grp, g.ntxn.toNat ≤ numBarrier) :
    shmInitBarriersMaster nobarrier bar w =
      some
        { ret := 0
          nobarrier := Int32.ofNat (workorderMaxTxn w)
          bar := Vector.ofFn fun i =>
            if i.val < workorderMaxTxn w then initBarrier (threadsBeyond w.grp i % 2 ^ 32)
            else bar[i.val] } := by
  have hmax := workorderMaxTxn_le hw
  have hnumBarrier : numBarrier = 100 := rfl
  have hzero : Vector.replicate numBarrier (0 : Int32) =
      Vector.ofFn fun i => Int32.ofNat ((fun _ => 0) i.val) := by
    ext i hi
    simp
  have hloop := foldlM_addGroup (fun _ => 0) (Nat.zero_le numBarrier) hw
  have hn : (Int32.ofNat (workorderMaxTxn w)).toInt = workorderMaxTxn w :=
    Int32.toInt_ofNat_of_lt (by omega)
  have hmaxTxn : w.grp.foldl (fun no g => max no g.ntxn.toNat) 0 = workorderMaxTxn w := rfl
  rw [shmInitBarriersMaster, hzero]
  rw [hmaxTxn] at hloop
  have hstart : ((0 : Int32), Vector.ofFn fun i : Fin numBarrier =>
      Int32.ofNat ((fun _ => 0) i.val)) =
    (Int32.ofNat 0, Vector.ofFn fun i : Fin numBarrier => Int32.ofNat ((fun _ => 0) i.val)) := rfl
  rw [hstart, hloop]
  simp only [Option.bind_eq_bind, Option.bind_some, hn]
  rw [if_neg (by omega), Int.toNat_natCast, changeBelow_of_le _ hmax]
  simp only [Option.bind_some, Vector.getElem_ofFn, Nat.zero_add]
  rfl

/-- While all groups fit, only the sums can go wrong. -/
theorem sizedOrRefused_of_le {nobarrier : Int32} {bar : Vector Barrier numBarrier}
    (hw : ∀ g ∈ w.grp, g.ntxn.toNat ≤ numBarrier) :
    SizedOrRefused nobarrier bar w ↔ threadsBeyond w.grp 0 < 2 ^ 32 := by
  have hprimed := shmInitBarriersMaster_of_le nobarrier bar hw
  have hmax := workorderMaxTxn_le hw
  have hret : ¬ (0 : Int32) = -1 := by decide
  have hlimit : ∀ i < workorderMaxTxn w,
      ((Vector.ofFn fun i : Fin numBarrier =>
        if i.val < workorderMaxTxn w then initBarrier (threadsBeyond w.grp i % 2 ^ 32)
        else bar[i.val])[i]?).map Barrier.limit = some (threadsBeyond w.grp i % 2 ^ 32) := by
    intro i hi
    rw [Vector.getElem?_eq_getElem (hi.trans_le hmax), Vector.getElem_ofFn, if_pos hi]
    rfl
  constructor
  · rintro ⟨out, hout, -, hsized⟩
    rw [hprimed] at hout
    cases hout
    by_cases hzero : workorderMaxTxn w = 0
    · rw [threadsBeyond_eq_zero hzero]
      norm_num
    · have hpos := Nat.pos_of_ne_zero hzero
      have hfirst := hsized hret 0 hpos
      simp only [hlimit 0 hpos, Option.some_inj] at hfirst
      rw [← hfirst]
      exact Nat.mod_lt _ (by norm_num)
  · intro hfit
    refine ⟨_, hprimed, ?_, fun _ i hi => ?_⟩
    · refine iff_of_false hret ?_
      rintro ⟨g, hg, hlt⟩
      exact absurd (hw g hg) (not_le.mpr hlt)
    · have hlt : threadsBeyond w.grp i < 2 ^ 32 := (threadsBeyond_le w.grp i).trans_lt hfit
      rw [hlimit i hi, Nat.mod_eq_of_lt hlt]

/-- A work order with a group that does not fit gets past the end of the array. -/
theorem ntxn_le_of_shmInitBarriersMaster {nobarrier : Int32} {bar : Vector Barrier numBarrier}
    {out : Primed} (h : shmInitBarriersMaster nobarrier bar w = some out) :
    ∀ g ∈ w.grp, g.ntxn.toNat ≤ numBarrier := by
  obtain ⟨st, hst, -⟩ := Option.bind_eq_some_iff.mp h
  exact ntxn_le_of_foldlM hst

end

/-- The barriers are sized correctly or refused exactly if no group has more transactions
than there are barriers, and the threads of the groups that have one fit into the limit of a
barrier. -/
theorem sizedOrRefused_iff (nobarrier : Int32) (bar : Vector Barrier numBarrier)
    (w : Workorder) :
    SizedOrRefused nobarrier bar w ↔
      (∀ g ∈ w.grp, g.ntxn.toNat ≤ numBarrier) ∧ threadsBeyond w.grp 0 < 2 ^ 32 := by
  constructor
  · intro h
    have hw : ∀ g ∈ w.grp, g.ntxn.toNat ≤ numBarrier := by
      obtain ⟨out, hout, -⟩ := h
      exact ntxn_le_of_shmInitBarriersMaster hout
    exact ⟨hw, (sizedOrRefused_of_le hw).mp h⟩
  · rintro ⟨hw, hfit⟩
    exact (sizedOrRefused_of_le hw).mpr hfit

/-- A group with one transaction too many is not refused: its count is written behind the
array first. -/
theorem not_sizedOrRefused_long :
    ¬ ∀ (nobarrier : Int32) (bar : Vector Barrier numBarrier) (w : Workorder),
      SizedOrRefused nobarrier bar w := by
  intro h
  obtain ⟨out, hout, -⟩ := h 0 (Vector.replicate numBarrier {})
    { grp := [{ nthreads := 1, ntxn := 101 }] }
  have hle := ntxn_le_of_shmInitBarriersMaster hout { nthreads := 1, ntxn := 101 } (by simp)
  exact absurd hle (by decide)

/-! ## The barriers of a run -/

theorem strandPerTxn_eq_threadsBeyond (groups : List Group) (i : ℕ) :
    strandPerTxn groups i = threadsBeyond groups i := by
  have hfold : ∀ (groups : List Group) (per : ℕ → ℕ),
      groups.foldl addStrands per i = per i + threadsBeyond groups i := by
    intro groups
    induction groups with
    | nil => exact fun per => rfl
    | cons g rest ih =>
        intro per
        rw [List.foldl_cons, ih, threadsBeyond_cons, addStrands]
        split_ifs <;> omega
  rw [strandPerTxn, hfold, Nat.zero_add]

/-- A work order that is sized correctly has the barriers with which a run starts. -/
theorem shmInitBarriersMaster_bar {nobarrier : Int32} {bar : Vector Barrier numBarrier}
    {w : Workorder} {out : Primed} {shm shm' : RunShm}
    (hout : shmInitBarriersMaster nobarrier bar w = some out)
    (hfit : threadsBeyond w.grp 0 < 2 ^ 32)
    (hshm : Uperf.shmInitBarriersMaster shm w = some shm') :
    ∀ i < workorderMaxTxn w, out.bar[i]? = some (shm'.bar i) := by
  intro i hi
  have hw := ntxn_le_of_shmInitBarriersMaster hout
  rw [shmInitBarriersMaster_of_le nobarrier bar hw] at hout
  cases hout
  rw [Uperf.shmInitBarriersMaster, if_neg (not_lt.mpr (workorderMaxTxn_le hw))] at hshm
  cases hshm
  have hlt : threadsBeyond w.grp i < 2 ^ 32 := (threadsBeyond_le w.grp i).trans_lt hfit
  simp only
  rw [Vector.getElem?_eq_getElem (hi.trans_le (workorderMaxTxn_le hw)), Vector.getElem_ofFn,
    if_pos hi, if_pos hi, Nat.mod_eq_of_lt hlt, strandPerTxn_eq_threadsBeyond]

end BarrierTable

end Uperf
