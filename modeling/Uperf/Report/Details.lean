import Uperf.Lib.Tables
import Uperf.Run.Barriers
import Uperf.Strand.Stats

/-!
# The report of the groups

Every strand of the master gets statistics for its group, its transactions and
their flowops, all in one array.  `print_group_details` adds up the records of
the flowops of each group, going through the flowops of the program; but it does
not look at the flowop of a record.  So a record is added as often as there are
flowops in its transaction (`groupDetails_totals`).
-/

namespace Uperf

/-! ## The array of statistics -/

/-- `stats_type_t`. -/
inductive StatsType
  | flowop
  | txn
  | group
  | app
  | strand
deriving DecidableEq, Repr

/-- `newstats_t` with what it is about. -/
structure StatsEntry extends Newstats where
  type : StatsType
  sid : UInt32
  gid : UInt32
  tid : UInt32
  fid : UInt32

/-- What an entry is about. -/
def StatsEntry.key (p : StatsEntry) : StatsType × UInt32 × UInt32 × UInt32 × UInt32 :=
  (p.type, p.sid, p.gid, p.tid, p.fid)

/-- `malloc_newstats`. -/
def mallocNewstats (nstats : List StatsEntry) (type : StatsType) (sid gid tid fid : UInt32) :
    List StatsEntry :=
  nstats ++ [{ type := type, sid := sid, gid := gid, tid := tid, fid := fid }]

/-- `group_assign_stat`. -/
def groupAssignStat (nstats : List StatsEntry) (g : Group) (sid : UInt32) : List StatsEntry :=
  g.tlist.foldl
    (fun nstats txn =>
      txn.flist.foldl
        (fun nstats f => mallocNewstats nstats .flowop sid g.groupid txn.txnid f.id)
        (mallocNewstats nstats .txn sid g.groupid txn.txnid (-1)))
    (mallocNewstats nstats .group sid g.groupid (-1) (-1))

/-- The array when all strands are spawned, which are numbered from 0 on. -/
def assignStats (strands : List StrandRun) : List StatsEntry :=
  strands.zipIdx.foldl (fun nstats s => groupAssignStat nstats s.1.worklist s.2.toUInt32) []

/-! ## The report -/

/-- `add_stats`. -/
def addStats (s1 s2 : Newstats) : Newstats :=
  { s1 with
    count := s1.count + s2.count
    timeUsed := s1.timeUsed + s2.timeUsed
    cpuTime := s1.cpuTime + s2.cpuTime
    size := s1.size + s2.size
    startTime := if s1.startTime < s2.startTime then s1.startTime else s2.startTime
    endTime := if s1.endTime > s2.endTime then s1.endTime else s2.endTime
    max := if s1.max > s2.max then s1.max else s2.max
    min := if s1.min < s2.min then s1.min else s2.min }

/-- The size and the count that `print_summary` prints, if any time has passed. -/
def printSummary (ns : Newstats) : Option (UInt64 × UInt64) :=
  if ns.endTime - ns.startTime = 0 then none else some (ns.size, ns.count)

/-- The record that `print_group_details` makes for a group. -/
def groupDetails (nstats : List StatsEntry) (g : Group) : Newstats :=
  g.tlist.foldl
    (fun ns txn =>
      txn.flist.foldl
        (fun ns _ =>
          nstats.foldl
            (fun ns p =>
              if p.type = .flowop ∧ p.gid = g.groupid ∧ p.tid = txn.txnid then
                addStats ns p.toNewstats
              else ns)
            ns)
        ns)
    { min := ulongMax, startTime := ulongMax }

/-- `print_group_details`: what is printed for each group. -/
def printGroupDetails (nstats : List StatsEntry) (w : Workorder) :
    List (Option (UInt64 × UInt64)) :=
  w.grp.map fun g => printSummary (groupDetails nstats g)

/-- The entries of the flowops of a group. -/
def Group.entries (g : Group) (nstats : List StatsEntry) : List StatsEntry :=
  nstats.filter fun p => p.type = .flowop ∧ p.gid = g.groupid

/-- How many flowops the transactions of the group with this number have. -/
def Group.flowopsOf (g : Group) (tid : UInt32) : ℕ :=
  (g.tlist.map fun txn => if tid = txn.txnid then txn.flist.length else 0).sum

/-- With each entry taken as often as its transaction has flowops, the sizes and the
counts come to the same as with each entry taken once, modulo `2 ^ 64`. -/
structure Group.CountedOnce (g : Group) (nstats : List StatsEntry) : Prop where
  size : ((g.entries nstats).map fun p => g.flowopsOf p.tid * p.size.toNat).sum ≡
    ((g.entries nstats).map fun p => p.size.toNat).sum [MOD 2 ^ 64]
  count : ((g.entries nstats).map fun p => g.flowopsOf p.tid * p.count.toNat).sum ≡
    ((g.entries nstats).map fun p => p.count.toNat).sum [MOD 2 ^ 64]

/-! ## Totals -/

/-- What a fold adds up, when each step adds something. -/
theorem sum_foldl {α β M : Type*} [AddCommMonoid M] (μ : α → M) (ν : β → M) {step : α → β → α}
    (hstep : ∀ a b, μ (step a b) = μ a + ν b) (items : List β) (a : α) :
    μ (items.foldl step a) = μ a + (items.map ν).sum := by
  induction items generalizing a with
  | nil => rw [List.foldl_nil, List.map_nil, List.sum_nil, add_zero]
  | cons b rest ih =>
      rw [List.foldl_cons, ih, hstep, List.map_cons, List.sum_cons, add_assoc]

section

variable {nstats : List StatsEntry} {g : Group}

theorem totals_addStats (s1 s2 : Newstats) :
    (addStats s1 s2).totals = s1.totals + s2.totals := rfl

/-- What one flowop of the transaction finds. -/
def found (nstats : List StatsEntry) (gid tid : UInt32) : UInt64 × UInt64 :=
  (nstats.map fun p =>
    if p.type = .flowop ∧ p.gid = gid ∧ p.tid = tid then p.toNewstats.totals else 0).sum

/-- Every flowop finds all entries of its transaction. -/
theorem groupDetails_found (nstats : List StatsEntry) (g : Group) :
    (groupDetails nstats g).totals =
      (g.tlist.map fun txn => txn.flist.length • found nstats g.groupid txn.txnid).sum := by
  have hentries : ∀ (txn : Txn) (ns : Newstats), (nstats.foldl
      (fun ns p =>
        if p.type = .flowop ∧ p.gid = g.groupid ∧ p.tid = txn.txnid then
          addStats ns p.toNewstats
        else ns) ns).totals = ns.totals + found nstats g.groupid txn.txnid := by
    intro txn ns
    refine sum_foldl Newstats.totals _ (fun ns p => ?_) nstats ns
    split_ifs
    · exact totals_addStats ns p.toNewstats
    · rw [add_zero]
  have hflowops : ∀ (ns : Newstats) (txn : Txn), (txn.flist.foldl
      (fun ns _ => nstats.foldl
        (fun ns p =>
          if p.type = .flowop ∧ p.gid = g.groupid ∧ p.tid = txn.txnid then
            addStats ns p.toNewstats
          else ns) ns) ns).totals =
        ns.totals + txn.flist.length • found nstats g.groupid txn.txnid := by
    intro ns txn
    rw [← List.sum_replicate, ← List.map_const']
    exact sum_foldl Newstats.totals _ (fun ns _ => hentries txn ns) txn.flist ns
  have hinit : (groupDetails nstats g).totals =
      ({ min := ulongMax, startTime := ulongMax } : Newstats).totals +
        (g.tlist.map fun txn => txn.flist.length • found nstats g.groupid txn.txnid).sum := by
    unfold groupDetails
    exact sum_foldl Newstats.totals _ hflowops g.tlist _
  rw [hinit]
  exact zero_add _

/-- The flowops of the transactions that an entry belongs to. -/
theorem sum_flowopsOf (g : Group) (tid : UInt32) (total : UInt64 × UInt64) :
    (g.tlist.map fun txn => txn.flist.length • if tid = txn.txnid then total else 0).sum =
      g.flowopsOf tid • total := by
  rw [Group.flowopsOf]
  induction g.tlist with
  | nil => exact (zero_nsmul total).symm
  | cons txn rest ih =>
      rw [List.map_cons, List.map_cons, List.sum_cons, List.sum_cons, ih, add_nsmul]
      split_ifs
      · rfl
      · rw [nsmul_zero, zero_nsmul]

/-- What is added up, entry by entry. -/
theorem sum_found (nstats : List StatsEntry) (g : Group) :
    (g.tlist.map fun txn => txn.flist.length • found nstats g.groupid txn.txnid).sum =
      ((g.entries nstats).map fun p => g.flowopsOf p.tid • p.toNewstats.totals).sum := by
  induction nstats with
  | nil => simp [found, Group.entries]
  | cons p rest ih =>
      have hcons : ∀ txn : Txn, txn.flist.length • found (p :: rest) g.groupid txn.txnid =
          (txn.flist.length •
              if p.type = .flowop ∧ p.gid = g.groupid ∧ p.tid = txn.txnid then
                p.toNewstats.totals
              else 0) + txn.flist.length • found rest g.groupid txn.txnid := by
        intro txn
        rw [← nsmul_add]
        rfl
      simp only [hcons]
      rw [List.sum_map_add, ih]
      by_cases hp : p.type = .flowop ∧ p.gid = g.groupid
      · have hentries : g.entries (p :: rest) = p :: g.entries rest := by
          rw [Group.entries, List.filter_cons_of_pos (by simpa using hp)]
          rfl
        rw [hentries, List.map_cons, List.sum_cons, ← sum_flowopsOf]
        simp only [hp, true_and]
      · have hentries : g.entries (p :: rest) = g.entries rest := by
          rw [Group.entries, List.filter_cons_of_neg (by simpa using hp)]
          rfl
        have hnone : ∀ txn : Txn,
            ¬ (p.type = .flowop ∧ p.gid = g.groupid ∧ p.tid = txn.txnid) :=
          fun txn h => hp ⟨h.1, h.2.1⟩
        simp only [hentries, hnone, if_false, nsmul_zero, List.map_const', List.sum_replicate,
          zero_add]

/-- Totals as natural numbers. -/
theorem sum_nsmul_totals (entries : List StatsEntry) (times : StatsEntry → ℕ) :
    (entries.map fun p => times p • p.toNewstats.totals).sum =
      (UInt64.ofNat (entries.map fun p => times p * p.size.toNat).sum,
        UInt64.ofNat (entries.map fun p => times p * p.count.toNat).sum) := by
  induction entries with
  | nil => rfl
  | cons p rest ih =>
      simp only [List.map_cons, List.sum_cons]
      rw [ih, UInt64.ofNat_add, UInt64.ofNat_add, UInt64.ofNat_mul, UInt64.ofNat_mul,
        UInt64.ofNat_toNat, UInt64.ofNat_toNat, ← Lib.nsmul_eq_ofNat_mul, ← Lib.nsmul_eq_ofNat_mul]
      rfl

/-- The record of a group has every entry as often as its transaction has flowops. -/
theorem groupDetails_totals (nstats : List StatsEntry) (g : Group) :
    (groupDetails nstats g).totals =
      (UInt64.ofNat ((g.entries nstats).map fun p => g.flowopsOf p.tid * p.size.toNat).sum,
        UInt64.ofNat ((g.entries nstats).map fun p => g.flowopsOf p.tid * p.count.toNat).sum) := by
  rw [groupDetails_found, sum_found, sum_nsmul_totals]

/-- Every entry once. -/
theorem sum_entries (entries : List StatsEntry) (field : StatsEntry → UInt64) :
    (entries.map field).sum = UInt64.ofNat (entries.map fun p => (field p).toNat).sum := by
  induction entries with
  | nil => rfl
  | cons p rest ih =>
      rw [List.map_cons, List.sum_cons, ih, List.map_cons, List.sum_cons, UInt64.ofNat_add,
        UInt64.ofNat_toNat]

/-- What is printed for a group is the sum over its entries exactly if they are counted
once. -/
theorem printGroupDetails_once_iff {nstats : List StatsEntry} {w : Workorder} {i : ℕ}
    {g : Group} {size count : UInt64} (hg : w.grp[i]? = some g)
    (hprinted : (printGroupDetails nstats w)[i]? = some (some (size, count))) :
    (size = ((g.entries nstats).map fun p => p.size).sum ∧
        count = ((g.entries nstats).map fun p => p.count).sum) ↔
      g.CountedOnce nstats := by
  have htotals : (groupDetails nstats g).totals = (size, count) := by
    rw [printGroupDetails, List.getElem?_map, hg, Option.map_some, printSummary] at hprinted
    split_ifs at hprinted
    · cases hprinted
    · exact Option.some.inj (Option.some.inj hprinted)
  rw [groupDetails_totals, Prod.mk.injEq] at htotals
  obtain ⟨rfl, rfl⟩ := htotals
  rw [sum_entries, sum_entries, ofNat_eq_iff, ofNat_eq_iff]
  exact ⟨fun h => ⟨h.1, h.2⟩, fun h => ⟨h.size, h.count⟩⟩

end

/-! ## Transactions of one flowop -/

/-- The array of these strands, with any counters. -/
def AssignedTo (strands : List StrandRun) (nstats : List StatsEntry) : Prop :=
  nstats.map StatsEntry.key = (assignStats strands).map StatsEntry.key

/-- An entry of a flowop is about a flowop of one of the strands. -/
def StatsEntry.AboutFlowop (strands : List StrandRun) (p : StatsEntry) : Prop :=
  p.type = .flowop → ∃ s ∈ strands, p.gid = s.worklist.groupid ∧
    ∃ txn ∈ s.worklist.tlist, p.tid = txn.txnid ∧ ∃ f ∈ txn.flist, p.fid = f.id

section

variable {strands : List StrandRun} {nstats : List StatsEntry} {g : Group}

/-- What holds of the entries that `group_assign_stat` makes holds of all. -/
theorem forall_assignStats {P : StatsEntry → Prop}
    (hgroup : ∀ s ∈ strands, ∀ sid,
      P { type := .group, sid := sid, gid := s.worklist.groupid, tid := -1, fid := -1 })
    (htxn : ∀ s ∈ strands, ∀ txn ∈ s.worklist.tlist, ∀ sid,
      P { type := .txn, sid := sid, gid := s.worklist.groupid, tid := txn.txnid, fid := -1 })
    (hflowop : ∀ s ∈ strands, ∀ txn ∈ s.worklist.tlist, ∀ f ∈ txn.flist, ∀ sid,
      P { type := .flowop, sid := sid, gid := s.worklist.groupid, tid := txn.txnid, fid := f.id }) :
    ∀ p ∈ assignStats strands, P p := by
  let All (nstats : List StatsEntry) : Prop := ∀ p ∈ nstats, P p
  have hmalloc : ∀ {nstats : List StatsEntry} {type : StatsType} {sid gid tid fid : UInt32},
      All nstats → P { type := type, sid := sid, gid := gid, tid := tid, fid := fid } →
      All (mallocNewstats nstats type sid gid tid fid) := by
    intro nstats type sid gid tid fid hbefore hnew p hp
    rcases List.mem_append.mp hp with hp | hp
    · exact hbefore p hp
    · rw [List.mem_singleton.mp hp]
      exact hnew
  refine List.foldlRecOn (motive := All) strands.zipIdx _
    (fun p hp => absurd hp List.not_mem_nil) fun nstats hnstats s hs => ?_
  have hmem : s.1 ∈ strands := by
    obtain ⟨-, -, heq⟩ := List.mem_zipIdx hs
    rw [heq]
    exact List.getElem_mem _
  refine List.foldlRecOn (motive := All) s.1.worklist.tlist _
    (hmalloc hnstats (hgroup s.1 hmem _)) fun nstats hnstats txn hmemTxn => ?_
  refine List.foldlRecOn (motive := All) txn.flist _
    (hmalloc hnstats (htxn s.1 hmem txn hmemTxn _)) fun nstats hnstats f hf => ?_
  exact hmalloc hnstats (hflowop s.1 hmem txn hmemTxn f hf _)

/-- Counters do not matter for what an entry is about. -/
theorem AssignedTo.forall_key (h : AssignedTo strands nstats) {P : StatsEntry → Prop}
    (hkey : ∀ p p' : StatsEntry, p.key = p'.key → P p → P p')
    (hall : ∀ p ∈ assignStats strands, P p) : ∀ p ∈ nstats, P p := by
  intro p hp
  have hmem : p.key ∈ (assignStats strands).map StatsEntry.key := by
    rw [← h]
    exact List.mem_map_of_mem hp
  obtain ⟨p', hp', hsame⟩ := List.mem_map.mp hmem
  exact hkey p' p hsame (hall p' hp')

theorem aboutFlowop_assignStats : ∀ p ∈ assignStats strands, p.AboutFlowop strands := by
  apply forall_assignStats
  · exact fun _ _ _ => nofun
  · exact fun _ _ _ _ _ => nofun
  · exact fun s hs txn htxn f hf _ _ => ⟨s, hs, rfl, txn, htxn, rfl, f, hf, rfl⟩

theorem AssignedTo.aboutFlowop (h : AssignedTo strands nstats) :
    ∀ p ∈ nstats, p.AboutFlowop strands := by
  apply h.forall_key _ aboutFlowop_assignStats
  intro p p' hsame habout hflowop
  simp only [StatsEntry.key, Prod.mk.injEq] at hsame
  obtain ⟨htype, -, hgid, htid, hfid⟩ := hsame
  rw [← hgid, ← htid, ← hfid]
  exact habout (htype.trans hflowop)

/-- No other transaction of the group has the number. -/
theorem flowopsOf_txnid (hnumbered : g.Numbered) {txn : Txn} (htxn : txn ∈ g.tlist) :
    g.flowopsOf txn.txnid = txn.flist.length := by
  have hdistinct : g.tlist.Pairwise fun a b => a.txnid ≠ b.txnid := by
    refine List.pairwise_iff_getElem.mpr fun i j hi hj hij heq => ?_
    have hfirst := hnumbered i _ (List.getElem?_eq_getElem hi)
    have hsecond := hnumbered j _ (List.getElem?_eq_getElem hj)
    rw [heq, hsecond] at hfirst
    omega
  rw [Group.flowopsOf]
  generalize g.tlist = tlist at htxn hdistinct
  induction tlist with
  | nil => cases htxn
  | cons first rest ih =>
      obtain ⟨hfirst, hrest⟩ := List.pairwise_cons.mp hdistinct
      rw [List.map_cons, List.sum_cons]
      rcases List.mem_cons.mp htxn with rfl | htxn
      · have hothers : (rest.map fun t =>
            if txn.txnid = t.txnid then t.flist.length else 0).sum = 0 := by
          refine List.sum_eq_zero fun n hn => ?_
          obtain ⟨t, ht, rfl⟩ := List.mem_map.mp hn
          exact if_neg (hfirst t ht)
        rw [if_pos rfl, hothers, Nat.add_zero]
      · rw [if_neg (hfirst txn htxn).symm, ih htxn hrest, Nat.zero_add]

/-- Where no transaction has more than one flowop, all entries are counted once. -/
theorem Group.CountedOnce.of_single (hassigned : AssignedTo strands nstats)
    (hsame : ∀ s ∈ strands, s.worklist.groupid = g.groupid → s.worklist.tlist = g.tlist)
    (hnumbered : g.Numbered) (hsingle : ∀ txn ∈ g.tlist, txn.flist.length ≤ 1) :
    g.CountedOnce nstats := by
  have hone : ∀ p ∈ g.entries nstats, g.flowopsOf p.tid = 1 := by
    intro p hp
    obtain ⟨hmem, hp⟩ := List.mem_filter.mp hp
    obtain ⟨htype, hgid⟩ : p.type = .flowop ∧ p.gid = g.groupid := by simpa using hp
    obtain ⟨s, hs, hgroup, txn, htxn, htid, f, hf, -⟩ := hassigned.aboutFlowop p hmem htype
    rw [hsame s hs (hgroup.symm.trans hgid)] at htxn
    rw [htid, flowopsOf_txnid hnumbered htxn]
    exact le_antisymm (hsingle txn htxn) (List.length_pos_of_mem hf)
  have hsum : ∀ field : StatsEntry → UInt64,
      ((g.entries nstats).map fun p => g.flowopsOf p.tid * (field p).toNat) =
        (g.entries nstats).map fun p => (field p).toNat := by
    intro field
    refine List.map_congr_left fun p hp => ?_
    rw [hone p hp, Nat.one_mul]
  constructor
  · rw [hsum fun p => p.size]
  · rw [hsum fun p => p.count]

end

/-! ## Two reports -/

/-- A group of one strand that sends once and then reads `reads` times. -/
def sendGroup (reads : ℕ) : Group where
  nthreads := 1
  ntxn := 1
  tlist :=
    [{ nflowop := (reads + 1).toUInt32
       flist := { type := .send } :: List.replicate reads { type := .read, id := 1 } }]

/-- Every record of the group has 10 bytes and one call. -/
def sendRecords (reads : ℕ) : List StatsEntry :=
  (assignStats (spawnStrands 0 [sendGroup reads])).map fun p =>
    { p with startTime := 1, endTime := 2, size := 10, count := 1 }

/-- With one flowop the report is right. -/
theorem printGroupDetails_once_send :
    (10 : UInt64) = (((sendGroup 0).entries (sendRecords 0)).map fun p => p.size).sum ∧
      (1 : UInt64) = (((sendGroup 0).entries (sendRecords 0)).map fun p => p.count).sum :=
  (printGroupDetails_once_iff (w := { grp := [sendGroup 0] }) (i := 0) rfl (by decide)).mpr
    ⟨by decide, by decide⟩

/-- With two flowops the records of both are added twice: 40 bytes are reported for 20. -/
theorem not_once_sendRead :
    AssignedTo (spawnStrands 0 [sendGroup 1]) (sendRecords 1) ∧
      printGroupDetails (sendRecords 1) { grp := [sendGroup 1] } = [some (40, 4)] ∧
      ¬ ((40 : UInt64) = (((sendGroup 1).entries (sendRecords 1)).map fun p => p.size).sum ∧
        (4 : UInt64) = (((sendGroup 1).entries (sendRecords 1)).map fun p => p.count).sum) := by
  exact ⟨rfl, by decide, by decide⟩

end Uperf
