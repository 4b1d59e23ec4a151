import Uperf.Lib.Tables
import Uperf.Parse.Identifiers
import Uperf.Report.Details

/-!
# The reports of the transactions and the flowops

`print_txn_averages` has a row for each transaction of the work order, and
`print_flowop_averages` one for each flowop.  The entries are matched to the rows
by their ids, which the parser, the master and the strands hand on; every entry
of a transaction is in one row of the first report, and every entry of a flowop
in one row of the second.
-/

namespace Uperf

open Lib

/-! ## The reports -/

/-- The work order when `master` has numbered its groups. -/
def Workorder.numbered (w : Workorder) : Workorder where
  grp := w.grp.mapIdx fun i g => { g with groupid := i.toUInt32 }

/-- The record of a row: all entries that are in it. -/
def averageOf (nstats : List StatsEntry) (row : StatsEntry → Bool) : Newstats :=
  nstats.foldl (fun ns p => if row p then addStats ns p.toNewstats else ns)
    { min := ulongMax, startTime := ulongMax }

/-- The row that `print_average` prints, if anything was counted. -/
def printAverage (ns : Newstats) : Option Newstats := if ns.count = 0 then none else some ns

/-- The entries in the row of a transaction. -/
def txnRow (g : Group) (txn : Txn) (p : StatsEntry) : Bool :=
  p.type = .txn ∧ p.gid = g.groupid ∧ p.tid = txn.txnid

/-- The rows of `print_txn_averages`. -/
def txnRows (w : Workorder) : List (StatsEntry → Bool) :=
  w.grp.flatMap fun g => g.tlist.map fun txn => txnRow g txn

/-- `print_txn_averages`. -/
def printTxnAverages (nstats : List StatsEntry) (w : Workorder) : List Newstats :=
  (txnRows w).filterMap fun row => printAverage (averageOf nstats row)

/-- The entries in the row of a flowop, of group `i`. -/
def flowopRow (i : ℕ) (txn : Txn) (f : Flowop) (p : StatsEntry) : Bool :=
  p.type = .flowop ∧ p.gid = i.toUInt32 ∧ p.tid = txn.txnid ∧ p.fid = f.id

/-- The rows of `print_flowop_averages`. -/
def flowopRows (w : Workorder) : List (StatsEntry → Bool) :=
  w.grp.zipIdx.flatMap fun (g, i) =>
    g.tlist.flatMap fun txn => txn.flist.map fun f => flowopRow i txn f

/-- `print_flowop_averages`. -/
def printFlowopAverages (nstats : List StatsEntry) (w : Workorder) : List Newstats :=
  (flowopRows w).filterMap fun row => printAverage (averageOf nstats row)

/-- Every entry of the type is in exactly one row, the others are in none, and the counts
that are printed add up to those of the entries. -/
structure Partitions (type : StatsType) (nstats : List StatsEntry)
    (rows : List (StatsEntry → Bool)) (printed : List Newstats) : Prop where
  one : ∀ p ∈ nstats, p.type = type → (rows.countP fun row => row p) = 1
  none : ∀ p ∈ nstats, p.type ≠ type → (rows.countP fun row => row p) = 0
  count : (printed.map fun ns => ns.count).sum =
    ((nstats.filter fun p => p.type = type).map fun p => p.count).sum

/-! ## Counts -/

section

variable {nstats : List StatsEntry} {rows : List (StatsEntry → Bool)} {type : StatsType}

theorem averageOf_count (nstats : List StatsEntry) (row : StatsEntry → Bool) :
    (averageOf nstats row).count = (nstats.map fun p => if row p then p.count else 0).sum := by
  unfold averageOf
  rw [sum_foldl (μ := Newstats.count) (ν := fun p : StatsEntry => if row p then p.count else 0)]
  · exact zero_add _
  · intro ns p
    split_ifs
    · rfl
    · exact (add_zero _).symm

/-- A row that is not printed has no count. -/
theorem sum_printAverage (records : List Newstats) :
    ((records.filterMap printAverage).map fun ns => ns.count).sum =
      (records.map fun ns => ns.count).sum := by
  induction records with
  | nil => rfl
  | cons ns rest ih =>
      by_cases hcount : ns.count = 0
      · have hskip : printAverage ns = none := if_pos hcount
        rw [List.filterMap_cons_none hskip, ih, List.map_cons, List.sum_cons, hcount, zero_add]
      · have hprint : printAverage ns = some ns := if_neg hcount
        rw [List.filterMap_cons_some hprint, List.map_cons, List.sum_cons, ih, List.map_cons,
          List.sum_cons]

/-- Where the entries of a type are in one row each, the counts come out right. -/
theorem Partitions.of_one
    (hone : ∀ p ∈ nstats, p.type = type → (rows.countP fun row => row p) = 1)
    (hnone : ∀ p ∈ nstats, p.type ≠ type → (rows.countP fun row => row p) = 0) :
    Partitions type nstats rows
      (rows.filterMap fun row => printAverage (averageOf nstats row)) := by
  refine ⟨hone, hnone, ?_⟩
  have hentry : ∀ p ∈ nstats, (rows.countP fun row => row p) • p.count =
      if p.type = type then p.count else 0 := by
    intro p hp
    split_ifs with htype
    · rw [hone p hp htype, one_nsmul]
    · rw [hnone p hp htype, zero_nsmul]
  calc ((rows.filterMap fun row => printAverage (averageOf nstats row)).map fun ns => ns.count).sum
    _ = ((rows.map (averageOf nstats)).map fun ns => ns.count).sum := by
      rw [← sum_printAverage (rows.map (averageOf nstats)), List.filterMap_map]
      rfl
    _ = (rows.map fun row => (nstats.map fun p => if row p then p.count else 0).sum).sum := by
      rw [List.map_map]
      simp only [Function.comp_def, averageOf_count]
    _ = (nstats.map fun p => (rows.countP fun row => row p) • p.count).sum :=
      sum_rows rows nstats (fun row p => row p) fun p => p.count
    _ = (nstats.map fun p => if p.type = type then p.count else 0).sum := by
      rw [List.map_congr_left hentry]
    _ = ((nstats.filter fun p => p.type = type).map fun p => p.count).sum := by
      rw [List.sum_map_ite]
      simp

end

/-! ## Keys -/

/-- The ids in the rows of `print_txn_averages`. -/
def txnKeys (w : Workorder) : List (UInt32 × UInt32) :=
  w.grp.flatMap fun g => (g.tlist.map (·.txnid)).map (Prod.mk g.groupid)

/-- The ids in the rows of `print_flowop_averages`. -/
def flowopKeys (w : Workorder) : List (UInt32 × UInt32 × UInt32) :=
  w.grp.flatMap fun g =>
    (g.tlist.flatMap fun txn => (txn.flist.map (·.id)).map (Prod.mk txn.txnid)).map
      (Prod.mk g.groupid)

section

variable {w : Workorder}

theorem countP_txnRows (w : Workorder) (p : StatsEntry) :
    ((txnRows w).countP fun row => row p) =
      if p.type = .txn then (txnKeys w).count (p.gid, p.tid) else 0 := by
  have hrows : txnRows w = (txnKeys w).map fun key p =>
      decide (p.type = .txn ∧ (p.gid, p.tid) = key) := by
    simp only [txnRows, txnKeys, List.map_flatMap, List.map_map, Function.comp_def, Prod.mk.injEq]
    rfl
  rw [hrows]
  exact countP_rows _ (fun p : StatsEntry => p.type = .txn) (fun p => (p.gid, p.tid)) p

theorem groupid_numbered {pair : Group × ℕ} (hpair : pair ∈ w.numbered.grp.zipIdx) :
    pair.1.groupid = pair.2.toUInt32 := by
  have hget := List.mem_zipIdx_iff_getElem?.mp hpair
  rw [Workorder.numbered, List.getElem?_mapIdx] at hget
  obtain ⟨g, -, heq⟩ := Option.map_eq_some_iff.mp hget
  rw [← heq]

theorem countP_flowopRows (w : Workorder) (p : StatsEntry) :
    ((flowopRows w.numbered).countP fun row => row p) =
      if p.type = .flowop then (flowopKeys w.numbered).count (p.gid, p.tid, p.fid) else 0 := by
  have hrows : flowopRows w.numbered = (flowopKeys w.numbered).map fun key p =>
      decide (p.type = .flowop ∧ (p.gid, p.tid, p.fid) = key) := by
    rw [flowopKeys, ← List.zipIdx_map_fst 0 w.numbered.grp, List.flatMap_map]
    simp only [flowopRows, List.map_flatMap, List.map_map, Function.comp_def, Prod.mk.injEq]
    apply List.flatMap_congr
    intro pair hpair
    rw [groupid_numbered hpair]
    rfl
  rw [hrows]
  exact countP_rows _ (fun p : StatsEntry => p.type = .flowop)
    (fun p => (p.gid, p.tid, p.fid)) p

/-- The groups are numbered from zero on. -/
theorem ordinal_groupid (w : Workorder) :
    Ordinal w.grp.length (w.numbered.grp.map (·.groupid)) := by
  have hlength : (w.numbered.grp.map (·.groupid)).length = w.grp.length := by
    simp [Workorder.numbered]
  refine ⟨?_, hlength.le⟩
  rw [hlength]
  apply List.ext_getElem?
  intro i
  simp only [Workorder.numbered, List.getElem?_map, List.getElem?_mapIdx]
  by_cases hi : i < w.grp.length
  · rw [List.getElem?_eq_getElem hi, List.getElem?_range hi]
    rfl
  · rw [List.getElem?_eq_none (not_lt.mp hi),
      List.getElem?_eq_none (by simpa using not_lt.mp hi)]
    rfl

end

/-! ## The entries of a run -/

/-- An entry of a transaction is about a transaction of one of the strands. -/
def StatsEntry.AboutTxn (strands : List StrandRun) (p : StatsEntry) : Prop :=
  p.type = .txn → ∃ s ∈ strands, p.gid = s.worklist.groupid ∧
    ∃ txn ∈ s.worklist.tlist, p.tid = txn.txnid

theorem AssignedTo.aboutTxn {strands : List StrandRun} {nstats : List StatsEntry}
    (h : AssignedTo strands nstats) : ∀ p ∈ nstats, p.AboutTxn strands := by
  have hmade : ∀ p ∈ assignStats strands, p.AboutTxn strands := by
    apply forall_assignStats
    · exact fun _ _ _ => nofun
    · exact fun s hs txn htxn _ _ => ⟨s, hs, rfl, txn, htxn, rfl⟩
    · exact fun _ _ _ _ _ _ _ => nofun
  apply h.forall_key _ hmade
  intro p p' hsame habout htxn
  simp only [StatsEntry.key, Prod.mk.injEq] at hsame
  obtain ⟨htype, -, hgid, htid, -⟩ := hsame
  rw [← hgid, ← htid]
  exact habout (htype.trans htxn)

section

variable {w : Workorder} {nstats : List StatsEntry}

/-- A strand runs a group of the numbered work order. -/
theorem worklist_mem_numbered {s : StrandRun} (hs : s ∈ spawnStrands 0 w.grp) :
    s.worklist ∈ w.numbered.grp := by
  obtain ⟨n, g, hg, -, hworklist⟩ := mem_spawnStrands hs
  apply List.mem_of_getElem? (i := n)
  rw [Workorder.numbered, List.getElem?_mapIdx, hg, hworklist, Nat.zero_add]
  rfl

theorem nodup_txnKeys (hgroups : (w.grp.map (·.groupid)).Nodup)
    (htxns : ∀ g ∈ w.grp, (g.tlist.map (·.txnid)).Nodup) : (txnKeys w).Nodup :=
  nodup_flatMap_key hgroups htxns

theorem nodup_flowopKeys (hgroups : (w.grp.map (·.groupid)).Nodup)
    (htxns : ∀ g ∈ w.grp, (g.tlist.map (·.txnid)).Nodup)
    (hflowops : ∀ g ∈ w.grp, ∀ txn ∈ g.tlist, (txn.flist.map (·.id)).Nodup) :
    (flowopKeys w).Nodup :=
  nodup_flatMap_key hgroups fun g hg => nodup_flatMap_key (htxns g hg) (hflowops g hg)

/-- The reports of the transactions and of the flowops have every entry in one row. -/
theorem reports_partition {host : Host} {file : List UInt8} {errors : List ErrorText}
    (hload : loadAppProfile host file = .ok (some w, errors))
    (hassigned : AssignedTo (spawnStrands 0 w.grp) nstats) :
    Partitions .txn nstats (txnRows w.numbered) (printTxnAverages nstats w.numbered) ∧
      Partitions .flowop nstats (flowopRows w.numbered)
        (printFlowopAverages nstats w.numbered) := by
  obtain ⟨hfew, hids⟩ := identified_of_load hload
  have hsmall : maxRead ≤ 2 ^ 32 := by decide
  have hgroups := (ordinal_groupid w).nodup (hfew.trans hsmall)
  -- the parser numbers objects from 0 on, `group_init` the groups
  have hnumbered : ∀ g ∈ w.numbered.grp, g.Identified maxRead := by
    intro g hg
    obtain ⟨i, hi, rfl⟩ := List.mem_mapIdx.mp hg
    exact ⟨(hids _ (List.getElem_mem hi)).tlist, (hids _ (List.getElem_mem hi)).flist⟩
  have htxns : ∀ g ∈ w.numbered.grp, (g.tlist.map (·.txnid)).Nodup := fun g hg =>
    (hnumbered g hg).tlist.nodup hsmall
  have hflowops : ∀ g ∈ w.numbered.grp, ∀ txn ∈ g.tlist, (txn.flist.map (·.id)).Nodup :=
    fun g hg txn htxn => ((hnumbered g hg).flist txn htxn).nodup hsmall
  constructor
  · apply Partitions.of_one
    · intro p hp htype
      obtain ⟨s, hs, hgid, txn, htxn, htid⟩ := hassigned.aboutTxn p hp htype
      rw [countP_txnRows, if_pos htype]
      -- the keys of the rows differ, and that of the record is one of them
      apply List.count_eq_one_of_mem (nodup_txnKeys hgroups htxns)
      refine List.mem_flatMap.mpr ⟨s.worklist, worklist_mem_numbered hs, ?_⟩
      rw [hgid, htid]
      exact List.mem_map_of_mem (List.mem_map_of_mem htxn)
    · intro p _ htype
      rw [countP_txnRows, if_neg htype]
  · apply Partitions.of_one
    · intro p hp htype
      obtain ⟨s, hs, hgid, txn, htxn, htid, f, hf, hfid⟩ := hassigned.aboutFlowop p hp htype
      rw [countP_flowopRows, if_pos htype]
      apply List.count_eq_one_of_mem (nodup_flowopKeys hgroups htxns hflowops)
      refine List.mem_flatMap.mpr ⟨s.worklist, worklist_mem_numbered hs, ?_⟩
      rw [hgid, htid, hfid]
      apply List.mem_map_of_mem
      exact List.mem_flatMap.mpr ⟨txn, htxn, List.mem_map_of_mem (List.mem_map_of_mem hf)⟩
    · intro p _ htype
      rw [countP_flowopRows, if_neg htype]

end

/-! ## Two groups -/

/-- A flowop of the given type, with nothing set. -/
def plainFlowop (id : ℕ) (type : String) : Flowop := (freshFlowop id).setType (str type)

/-- A group that reads and writes, with `ngrp` groups before it. -/
def pairGroup (ngrp : ℕ) (nthreads : UInt32) : Group where
  endian := uperfEndianValue
  name := (freshGroup ngrp).name
  nthreads := nthreads
  strandFlag := strandTypeThread
  ntxn := 1
  tlist :=
    [{ freshTxn 0 with
       nflowop := 2
       flist := [plainFlowop 0 "read", plainFlowop 1 "write"] }]

/-- The profile of two such groups. -/
def pairProfile : List UInt8 :=
  str "<group nthreads=\"2\" >\n<transaction >\n<flowop type=\"read\" />\n" ++
    str "<flowop type=\"write\" />\n<group nthreads=\"1\" >\n<transaction >\n" ++
    str "<flowop type=\"read\" />\n<flowop type=\"write\" />\n"

/-- Every flowop and every transaction is executed once. -/
def pairRecords : List StatsEntry :=
  (assignStats (spawnStrands 0 [pairGroup 0 2, pairGroup 1 1])).map fun p => { p with count := 1 }

theorem reports_partition_pair :
    let w : Workorder := { grp := [pairGroup 0 2, pairGroup 1 1] }
    loadAppProfile bareHost pairProfile = .ok (some w, []) ∧
      Partitions .txn pairRecords (txnRows w.numbered) (printTxnAverages pairRecords w.numbered) ∧
      Partitions .flowop pairRecords (flowopRows w.numbered)
        (printFlowopAverages pairRecords w.numbered) := by
  have hload : loadAppProfile bareHost pairProfile =
      .ok (some { grp := [pairGroup 0 2, pairGroup 1 1] }, []) := by
    decide +kernel
  exact ⟨hload, reports_partition hload rfl⟩

end Uperf
