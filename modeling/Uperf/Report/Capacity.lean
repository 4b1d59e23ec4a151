import Uperf.Report.Details

/-!
# The size of the array of statistics

`shm_init` maps an array with as many entries for each strand as all groups of the program
need together, and `spawn_strands_group` takes for each thread of a group the entries that
this group needs, without a test.  So the array is long enough (`nstats_fits`), also when
the creation of strands comes to an early end.
-/

namespace Uperf

/-! ## What is mapped -/

/-- `group_num_stats`. -/
def groupNumStats (g : Group) : ℕ :=
  g.tlist.foldl (fun count txn => count + 1 + txn.nflowop.toNat) 1

/-- `workorder_num_stats`. -/
def workorderNumStats (w : Workorder) : ℕ := (w.grp.map groupNumStats).sum

/-- `sizeof (newstats_t)`. -/
def sizeofNewstats : ℕ := 152

/-- The product of `shm_init`, which is one of numbers of type `int` with the size. -/
def nstatsProduct (w : Workorder) : ℕ :=
  workorderNumStrands w * workorderNumStats w * sizeofNewstats

/-- `nstats_size`. -/
def nstatsSize (w : Workorder) : Int32 :=
  Int32.ofInt ((Int32.ofNat (workorderNumStrands w) * Int32.ofNat (workorderNumStats w)).toInt *
    sizeofNewstats)

/-! ## What is handed out -/

/-- The loop of `spawn_strands_group` from thread `j` on, with the strands numbered from
`id`; `created` says for which of them `fork` or `pthread_create` succeeds. -/
def spawnStrandsLoop (created : ℕ → Bool) (gp : Group) (id : ℕ) :
    ℕ → ℕ → List StatsEntry → Int32 × List StatsEntry
  | _, 0, nstats => (0, nstats)
  | j, left + 1, nstats =>
      let nstats := groupAssignStat nstats (groupClone gp) (id + j).toUInt32
      if created (id + j) then spawnStrandsLoop created gp id (j + 1) left nstats
      else (1, nstats)

/-- The loop of `master` over the groups from number `i` on.  It ends early when a group
cannot be spawned, or a strand that runs already has flagged an error. -/
def spawnGroups (created flagged : ℕ → Bool) :
    ℕ → ℕ → Bool → List Group → List StatsEntry → List StatsEntry
  | _, _, _, [], nstats => nstats
  | i, id, error, gp :: rest, nstats =>
      if error || flagged i then nstats
      else
        let spawned := spawnStrandsLoop created { gp with groupid := i.toUInt32 } id 0
          gp.nthreads.toNat nstats
        spawnGroups created flagged (i + 1) (id + gp.nthreads.toNat) (spawned.1 ≠ 0) rest spawned.2

/-- The entries that `malloc_newstats` has handed out when `master` has spawned its
strands. -/
def masterStats (created flagged : ℕ → Bool) (w : Workorder) : List StatsEntry :=
  spawnGroups created flagged 0 0 false w.grp []

/-- An entry lies inside of what is mapped. -/
def InsideNstats (w : Workorder) (k : ℕ) : Prop :=
  ((k + 1) * sizeofNewstats : ℕ) ≤ (nstatsSize w).toInt

/-! ## One strand -/

section

variable {g : Group} {nstats : List StatsEntry}

/-- The entries that a strand of the group gets: one for the group, and for each of its
transactions one more than it has flowops. -/
theorem length_groupAssignStat (nstats : List StatsEntry) (g : Group) (sid : UInt32) :
    (groupAssignStat nstats g sid).length =
      nstats.length + 1 + (g.tlist.map fun txn => 1 + txn.flist.length).sum := by
  have hflowops : ∀ (txn : Txn) (nstats : List StatsEntry),
      (txn.flist.foldl (fun nstats f =>
        mallocNewstats nstats .flowop sid g.groupid txn.txnid f.id) nstats).length =
          nstats.length + txn.flist.length := by
    intro txn nstats
    rw [sum_foldl List.length (fun _ : Flowop => 1)]
    · simp
    · exact fun nstats f => List.length_append
  rw [groupAssignStat, sum_foldl List.length (fun txn : Txn => 1 + txn.flist.length)]
  · rw [mallocNewstats, List.length_append, List.length_singleton]
  · intro nstats txn
    rw [hflowops, mallocNewstats, List.length_append, List.length_singleton, Nat.add_assoc]

/-- The counts of a group promise exactly these entries. -/
theorem groupNumStats_eq (hg : g.Counted) :
    groupNumStats g = 1 + (g.tlist.map fun txn => 1 + txn.flist.length).sum := by
  have hcounts : (g.tlist.map fun txn => 1 + txn.nflowop.toNat) =
      g.tlist.map fun txn => 1 + txn.flist.length :=
    List.map_congr_left fun txn htxn => by rw [hg.nflowop txn htxn]
  rw [groupNumStats, ← hcounts]
  exact sum_foldl id (fun txn : Txn => 1 + txn.nflowop.toNat)
    (fun count txn => Nat.add_assoc count 1 _) g.tlist 1

theorem length_groupAssignStat_clone (hg : g.Counted) (nstats : List StatsEntry) (sid : UInt32) :
    (groupAssignStat nstats (groupClone g) sid).length = nstats.length + groupNumStats g := by
  have hclone : ((groupClone g).tlist.map fun txn => 1 + txn.flist.length) =
      g.tlist.map fun txn => 1 + txn.flist.length := by
    simp [groupClone, Txn.clone, Function.comp_def]
  rw [length_groupAssignStat, hclone, groupNumStats_eq hg, Nat.add_assoc]

end

/-! ## All strands -/

section

variable {created flagged : ℕ → Bool}

/-- Every thread of a group takes no more than the group needs. -/
theorem length_spawnStrandsLoop_le (created : ℕ → Bool) {g : Group} (hg : g.Counted)
    (id j left : ℕ) (nstats : List StatsEntry) :
    (spawnStrandsLoop created g id j left nstats).2.length ≤
      nstats.length + left * groupNumStats g := by
  induction left generalizing j nstats with
  | zero => rw [spawnStrandsLoop, Nat.zero_mul, Nat.add_zero]
  | succ left ih =>
      have hlength := length_groupAssignStat_clone hg nstats (id + j).toUInt32
      have hnext := ih (j + 1) (groupAssignStat nstats (groupClone g) (id + j).toUInt32)
      rw [spawnStrandsLoop, Nat.succ_mul]
      split_ifs
      · omega
      · simp only
        omega

theorem length_spawnGroups_le {groups : List Group} (hgroups : ∀ g ∈ groups, g.Counted)
    (i id : ℕ) (error : Bool) (nstats : List StatsEntry) :
    (spawnGroups created flagged i id error groups nstats).length ≤
      nstats.length + (groups.map fun g => g.nthreads.toNat * groupNumStats g).sum := by
  induction groups generalizing i id error nstats with
  | nil => exact Nat.le_add_right _ _
  | cons g rest ih =>
      rw [spawnGroups, List.map_cons, List.sum_cons]
      split_ifs
      · exact Nat.le_add_right _ _
      · have hg := hgroups g List.mem_cons_self
        have hcounted : ({ g with groupid := i.toUInt32 } : Group).Counted :=
          ⟨hg.ntxn, hg.nflowop⟩
        have hspawned := length_spawnStrandsLoop_le created hcounted id 0
          g.nthreads.toNat nstats
        have hrest := ih (fun g' hg' => hgroups g' (List.mem_cons_of_mem g hg')) (i + 1)
          (id + g.nthreads.toNat)
          ((spawnStrandsLoop created { g with groupid := i.toUInt32 } id 0
            g.nthreads.toNat nstats).1 ≠ 0)
          (spawnStrandsLoop created { g with groupid := i.toUInt32 } id 0 g.nthreads.toNat
            nstats).2
        have hnum : groupNumStats { g with groupid := i.toUInt32 } = groupNumStats g := rfl
        rw [hnum] at hspawned
        refine hrest.trans ?_
        rw [← Nat.add_assoc]
        exact Nat.add_le_add_right hspawned _

end

/-- A sum of products is no more than the product of the sums. -/
theorem sum_mul_le {α : Type*} (items : List α) (f g : α → ℕ) :
    (items.map fun a => f a * g a).sum ≤ (items.map f).sum * (items.map g).sum := by
  induction items with
  | nil => simp
  | cons a rest ih =>
      simp only [List.map_cons, List.sum_cons]
      calc f a * g a + (rest.map fun a => f a * g a).sum
          ≤ f a * g a + (rest.map f).sum * (rest.map g).sum := Nat.add_le_add_left ih _
        _ ≤ f a * g a + (rest.map f).sum * (rest.map g).sum +
              (f a * (rest.map g).sum + (rest.map f).sum * g a) := Nat.le_add_right _ _
        _ = (f a + (rest.map f).sum) * (g a + (rest.map g).sum) := by ring

/-- A product that fits in an `int` is what `shm_init` maps. -/
theorem toInt_nstatsSize {w : Workorder} (hfits : nstatsProduct w < 2 ^ 31) :
    (nstatsSize w).toInt = nstatsProduct w := by
  have hsize : sizeofNewstats = 152 := rfl
  have hcount : workorderNumStrands w * workorderNumStats w < 2 ^ 31 := by
    rw [nstatsProduct, hsize] at hfits
    omega
  have hmul : (Int32.ofNat (workorderNumStrands w) * Int32.ofNat (workorderNumStats w)).toInt =
      (workorderNumStrands w * workorderNumStats w : ℕ) := by
    rw [← Int32.ofNat_mul, Int32.toInt_ofNat_of_lt hcount]
  rw [nstatsSize, hmul, ← Nat.cast_mul]
  exact Int32.toInt_ofNat_of_lt hfits

/-- However the creation of the strands goes, no more entries are handed out than there are
for all strands; and when the product that `shm_init` computes fits in an `int`, all of
them lie inside of what it maps. -/
theorem nstats_fits {w : Workorder} (hw : ∀ g ∈ w.grp, g.Counted) (created flagged : ℕ → Bool) :
    (masterStats created flagged w).length ≤ workorderNumStrands w * workorderNumStats w ∧
      (nstatsProduct w < 2 ^ 31 →
        ∀ k < (masterStats created flagged w).length, InsideNstats w k) := by
  have hlength : (masterStats created flagged w).length ≤
      workorderNumStrands w * workorderNumStats w := by
    calc (masterStats created flagged w).length
        ≤ 0 + (w.grp.map fun g => g.nthreads.toNat * groupNumStats g).sum :=
          length_spawnGroups_le hw 0 0 false []
      _ = (w.grp.map fun g => g.nthreads.toNat * groupNumStats g).sum := Nat.zero_add _
      _ ≤ workorderNumStrands w * workorderNumStats w := sum_mul_le _ _ _
  refine ⟨hlength, fun hfits k hk => ?_⟩
  rw [InsideNstats, toInt_nstatsSize hfits, nstatsProduct]
  exact_mod_cast Nat.mul_le_mul_right _ (Nat.succ_le_of_lt hk |>.trans hlength)

/-- Two threads with one transaction of one flowop. -/
def twoThreads : Group where
  nthreads := 2
  ntxn := 1
  tlist := [{ nflowop := 1, flist := [{}] }]

/-- The second thread cannot be created, and there are six entries in all. -/
theorem nstats_fits_twoThreads :
    (masterStats (fun i => i = 0) (fun _ => false) { grp := [twoThreads] }).length ≤ 2 * 3 ∧
      ∀ k < 6, InsideNstats { grp := [twoThreads] } k := by
  have hcounted : ∀ g ∈ [twoThreads], g.Counted := by
    intro g hg
    rw [List.mem_singleton] at hg
    subst hg
    exact ⟨rfl, by simp [twoThreads]⟩
  have h := nstats_fits (w := { grp := [twoThreads] }) hcounted (fun i => i = 0) fun _ => false
  exact ⟨h.1, fun k hk => h.2 (by decide) k hk⟩

end Uperf
