import Uperf.Parse.Accepted

/-!
# The groups and flowops of an accepted profile

The groups and the flowops of a work order are, one by one, what the group tags
and the flowop tags with the attributes behind them make.
-/

namespace Uperf

open Lib

/-! ## Flowops -/

/-- What a symbol does to the current flowop. -/
def flowopUpdate (s : Visit) (f : Flowop) : Flowop :=
  match s.type with
  | .type => f.setType s.text
  | .options =>
      match flowopParseOptions s.optionsHost s.text with
      | .ok set => set.update f
      | .error _ => f
  | _ => f

/-- A flowop as its tag begins it. -/
def FreshFlowop (f : Flowop) : Prop := ∃ fid, f = freshFlowop fid

/-- The symbol begins a flowop. -/
def beginsFlowop (s : Visit) : Bool := s.type = .flowopStart

/-- The symbol ends the attributes of the flowop before it. -/
def endsFlowop (s : Visit) : Bool := s.type = .groupStart ∨ s.type = .txnStart

/-- The attributes of each flowop. -/
def flowopBodies (list : List Visit) : List (List Visit) := sections beginsFlowop endsFlowop list

/-! ## Groups -/

/-- What a symbol does to the number of threads of the current group. -/
def threadsUpdate (s : Visit) (n : UInt32) : UInt32 :=
  if s.type = .nthreads ∨ s.type = .nprocesses then .ofInt (stringToInt s.host s.text) else n

/-- The symbol begins a group. -/
def beginsGroup (s : Visit) : Bool := s.type = .groupStart

/-- All symbols of each group, those of its transactions among them. -/
def groupBodies (list : List Visit) : List (List Visit) :=
  sections beginsGroup (fun _ => false) list

/-! ## The builder -/

namespace Builder

/-- The flowops before the current one. -/
def closedFlowops (b : Builder) : List Flowop :=
  b.groups.flatMap Group.flowops ++ b.currGrp.toList.flatMap Group.flowops ++
    b.currTxn.toList.flatMap Txn.flist

/-- The current objects lie in one another, and the lists of new ones are empty. -/
structure Nested (b : Builder) : Prop where
  flowop : b.currTxn = none → b.currFlowop = none
  txn : b.currGrp = none → b.currTxn = none
  tlist : ∀ g, b.currGrp = some g → b.currTxn = none → g.tlist = []
  flist : ∀ txn, b.currTxn = some txn → b.currFlowop = none → txn.flist = []

theorem nested_empty : Nested {} := by
  constructor <;> simp

theorem flowops_grp {b : Builder} (h : b.Nested) :
    b.grp.flatMap Group.flowops = b.closedFlowops ++ b.currFlowop.toList := by
  unfold grp closedFlowops txn
  cases hg : b.currGrp with
  | none =>
      have htxn := h.txn hg
      simp [htxn, h.flowop htxn]
  | some g =>
      cases htxn : b.currTxn with
      | none => simp [h.flowop htxn, Group.flowops]
      | some txn => simp [Group.flowops]

theorem nthreads_grp (b : Builder) :
    b.grp.map (·.nthreads) =
      b.groups.map (·.nthreads) ++ (b.currGrp.map (·.nthreads)).toList := by
  unfold grp
  cases b.currGrp <;> simp

end Builder

section

variable {b b' : Builder} {s : Visit} {list : List Visit}

theorem nested_of_cleanStep (h : b.Nested) (hstep : CleanStep b s b') : b'.Nested := by
  cases hstep with
  | quiet hs hquiet =>
      obtain ⟨change, hflist, htxn⟩ := hquiet.currTxn
      constructor
      · rw [htxn, hquiet.currFlowop, Option.map_eq_none_iff]
        exact h.flowop
      · rw [htxn, hquiet.currGrp, Option.map_eq_none_iff]
        exact h.txn
      · rw [htxn, hquiet.currGrp, Option.map_eq_none_iff]
        exact h.tlist
      · rw [htxn, hquiet.currFlowop]
        intro txn' htxn' hnone
        obtain ⟨txn, htxn, rfl⟩ := Option.map_eq_some_iff.mp htxn'
        rw [hflist]
        exact h.flist txn htxn hnone
  | threads g flag hs hg hval hb' =>
      subst hb'
      refine ⟨h.flowop, nofun, ?_, h.flist⟩
      intro g' hg' hnone
      cases hg'
      exact h.tlist g hg hnone
  | groupName g name hs hg hb' =>
      subst hb'
      refine ⟨h.flowop, nofun, ?_, h.flist⟩
      intro g' hg' hnone
      cases hg'
      exact h.tlist g hg hnone
  | groupStart hs hb' =>
      subst hb'
      constructor <;> simp
  | txnStart g tlist hs hg hnone hsome hb' =>
      subst hb'
      constructor <;> simp
  | flowopStart txn flist hs htxn hnone hsome hb' =>
      subst hb'
      refine ⟨nofun, ?_, nofun, nofun⟩
      intro hg
      -- a flowop begins in a transaction, so there is a group
      rw [h.txn hg] at htxn
      cases htxn
  | type f hs hf htype hb' =>
      subst hb'
      refine ⟨fun hnone => ?_, h.txn, h.tlist, nofun⟩
      rw [h.flowop hnone] at hf
      cases hf
  | options f set hs hf hset hclean hb' =>
      subst hb'
      refine ⟨fun hnone => ?_, h.txn, h.tlist, nofun⟩
      rw [h.flowop hnone] at hf
      cases hf

theorem flowopUpdate_of_ne {f : Flowop} (htype : s.type ≠ .type) (hoptions : s.type ≠ .options) :
    flowopUpdate s f = f := by
  unfold flowopUpdate
  split <;> simp_all

theorem reads_flowops_inside (hgs : s.type ≠ .groupStart) (hts : s.type ≠ .txnStart)
    (hfs : s.type ≠ .flowopStart) (hclosed : b'.closedFlowops = b.closedFlowops)
    (hcurr : b'.currFlowop = b.currFlowop.map (flowopUpdate s)) :
    Reads beginsFlowop endsFlowop flowopUpdate FreshFlowop s
      (b.closedFlowops, b.currFlowop) (b'.closedFlowops, b'.currFlowop) := by
  rw [hclosed, hcurr]
  exact .inside (by simp [beginsFlowop, hfs]) (by simp [endsFlowop, hgs, hts])

/-- The flowops and the open one, as a clean round changes them. -/
theorem reads_flowops (h : b.Nested) (hstep : CleanStep b s b') :
    Reads beginsFlowop endsFlowop flowopUpdate FreshFlowop s
      (b.closedFlowops, b.currFlowop) (b'.closedFlowops, b'.currFlowop) := by
  cases hstep with
  | quiet hs hquiet =>
      simp only [loudTypes, List.mem_cons, List.not_mem_nil, or_false, not_or] at hs
      obtain ⟨hgs, hts, hfs, htype, hoptions, -⟩ := hs
      have hid : flowopUpdate s = id := funext fun f => flowopUpdate_of_ne htype hoptions
      apply reads_flowops_inside hgs hts hfs
      · obtain ⟨change, hflist, htxn⟩ := hquiet.currTxn
        cases hb : b.currTxn <;>
          simp [Builder.closedFlowops, hquiet.groups, hquiet.currGrp, htxn, hb, hflist]
      · rw [hquiet.currFlowop, hid, Option.map_id_fun, id]
  | threads g flag hs hg hval hb' =>
      subst hb'
      have hne : ∀ other, other ≠ TokenType.nthreads → other ≠ .nprocesses → s.type ≠ other := by
        rintro other hthreads hprocesses rfl
        exact hs.elim hthreads hprocesses
      have hid : flowopUpdate s = id :=
        funext fun f =>
          flowopUpdate_of_ne (hne _ (by decide) (by decide)) (hne _ (by decide) (by decide))
      apply reads_flowops_inside (hne _ (by decide) (by decide)) (hne _ (by decide) (by decide))
        (hne _ (by decide) (by decide))
      · simp [Builder.closedFlowops, hg, Group.flowops]
      · rw [hid, Option.map_id_fun, id]
  | groupName g name hs hg hb' =>
      subst hb'
      have hid : flowopUpdate s = id :=
        funext fun f => flowopUpdate_of_ne (by simp [hs]) (by simp [hs])
      refine reads_flowops_inside (by simp [hs]) (by simp [hs]) (by simp [hs]) ?_ ?_
      · simp [Builder.closedFlowops, hg, Group.flowops]
      · rw [hid, Option.map_id_fun, id]
  | groupStart hs hb' =>
      subst hb'
      have hend : Reads beginsFlowop endsFlowop flowopUpdate FreshFlowop s
          (b.closedFlowops, b.currFlowop) (b.closedFlowops ++ b.currFlowop.toList, none) :=
        .end_ (by simp [beginsFlowop, hs]) (by simp [endsFlowop, hs])
      rw [← Builder.flowops_grp h] at hend
      simpa [Builder.closedFlowops, Group.flowops] using hend
  | txnStart g tlist hs hg hnone hsome hb' =>
      subst hb'
      have hend : Reads beginsFlowop endsFlowop flowopUpdate FreshFlowop s
          (b.closedFlowops, b.currFlowop) (b.closedFlowops ++ b.currFlowop.toList, none) :=
        .end_ (by simp [beginsFlowop, hs]) (by simp [endsFlowop, hs])
      -- the transaction before goes to the list of its group
      have hclosed : tlist.flatMap Txn.flist =
          g.tlist.flatMap Txn.flist ++ b.currTxn.toList.flatMap Txn.flist ++
            b.currFlowop.toList := by
        cases htxn : b.currTxn with
        | none =>
            have htlist : tlist = [] := hnone (by simp [Builder.txn, htxn])
            simp [htlist, h.tlist g hg htxn, h.flowop htxn]
        | some txn =>
            have hwhole : b.txn =
                some { txn with flist := txn.flist ++ b.currFlowop.toList } := by
              simp [Builder.txn, htxn]
            simp [hsome _ hwhole]
      simpa [Builder.closedFlowops, Group.flowops, hg, hclosed] using hend
  | flowopStart txn flist hs htxn hnone hsome hb' =>
      subst hb'
      have hbegin : Reads beginsFlowop endsFlowop flowopUpdate FreshFlowop s
          (b.closedFlowops, b.currFlowop) (b.closedFlowops ++ b.currFlowop.toList, some _) :=
        .begin_ (by simp [beginsFlowop, hs]) ⟨b.fid, rfl⟩
      have hclosed : flist = txn.flist ++ b.currFlowop.toList := by
        cases hf : b.currFlowop with
        | none => simp [hnone hf, h.flist txn htxn hf]
        | some f => simp [hsome f hf]
      simpa [Builder.closedFlowops, htxn, hclosed] using hbegin
  | type f hs hf htype hb' =>
      subst hb'
      refine reads_flowops_inside (by simp [hs]) (by simp [hs]) (by simp [hs]) ?_ ?_
      · rfl
      · simp [hf, flowopUpdate, hs]
  | options f set hs hf hset hclean hb' =>
      subst hb'
      refine reads_flowops_inside (by simp [hs]) (by simp [hs]) (by simp [hs]) ?_ ?_
      · rfl
      · simp [hf, flowopUpdate, hs, hset]

/-- The numbers of threads, as a clean round changes them. -/
theorem reads_threads (hstep : CleanStep b s b') :
    Reads beginsGroup (fun _ => false) threadsUpdate (· = 0) s
      (b.groups.map (·.nthreads), b.currGrp.map (·.nthreads))
      (b'.groups.map (·.nthreads), b'.currGrp.map (·.nthreads)) := by
  have hinside : s.type ≠ .groupStart → b'.groups = b.groups →
      b'.currGrp.map (·.nthreads) = (b.currGrp.map (·.nthreads)).map (threadsUpdate s) →
      Reads beginsGroup (fun _ => false) threadsUpdate (· = 0) s
        (b.groups.map (·.nthreads), b.currGrp.map (·.nthreads))
        (b'.groups.map (·.nthreads), b'.currGrp.map (·.nthreads)) := by
    intro hs hgroups hcurr
    rw [hgroups, hcurr]
    exact .inside (by simp [beginsGroup, hs]) rfl
  have hid : s.type ≠ .nthreads → s.type ≠ .nprocesses → threadsUpdate s = id := by
    intro hthreads hprocesses
    funext n
    simp [threadsUpdate, hthreads, hprocesses]
  cases hstep with
  | quiet hs hquiet =>
      simp only [loudTypes, List.mem_cons, List.not_mem_nil, or_false, not_or] at hs
      obtain ⟨hgs, -, -, -, -, hthreads, hprocesses⟩ := hs
      apply hinside hgs hquiet.groups
      simp [hquiet.currGrp, hid hthreads hprocesses]
  | threads g flag hs hg hval hb' =>
      subst hb'
      apply hinside (by rcases hs with hs | hs <;> simp [hs]) rfl
      simp [hg, threadsUpdate, hs]
  | groupName g name hs hg hb' =>
      subst hb'
      apply hinside (by simp [hs]) rfl
      simp [hg, hid (by simp [hs]) (by simp [hs])]
  | groupStart hs hb' =>
      subst hb'
      -- the group before is complete, and the new one has no threads
      have hbegin : Reads beginsGroup (fun _ => false) threadsUpdate (· = 0) s
          (b.groups.map (·.nthreads), b.currGrp.map (·.nthreads))
          (b.groups.map (·.nthreads) ++ (b.currGrp.map (·.nthreads)).toList, some 0) :=
        .begin_ (by simp [beginsGroup, hs]) rfl
      rw [← Builder.nthreads_grp] at hbegin
      simpa using hbegin
  | txnStart g tlist hs hg hnone hsome hb' =>
      subst hb'
      apply hinside (by simp [hs]) rfl
      simp [hg, hid (by simp [hs]) (by simp [hs])]
  | flowopStart txn flist hs htxn hnone hsome hb' =>
      subst hb'
      apply hinside (by simp [hs]) rfl
      simp [hid (by simp [hs]) (by simp [hs])]
  | type f hs hf htype hb' =>
      subst hb'
      apply hinside (by simp [hs]) rfl
      simp [hid (by simp [hs]) (by simp [hs])]
  | options f set hs hf hset hclean hb' =>
      subst hb'
      apply hinside (by simp [hs]) rfl
      simp [hid (by simp [hs]) (by simp [hs])]

/-! ## A whole profile -/

theorem run_pieces (h : b.Nested) (hrun : run cleanStep b list = some b') :
    b'.Nested ∧
      ReadsAll beginsFlowop endsFlowop flowopUpdate FreshFlowop list
        (b.closedFlowops, b.currFlowop) (b'.closedFlowops, b'.currFlowop) ∧
      ReadsAll beginsGroup (fun _ => false) threadsUpdate (· = 0) list
        (b.groups.map (·.nthreads), b.currGrp.map (·.nthreads))
        (b'.groups.map (·.nthreads), b'.currGrp.map (·.nthreads)) := by
  induction list generalizing b with
  | nil =>
      cases hrun
      exact ⟨h, .nil, .nil⟩
  | cons s rest ih =>
      obtain ⟨mid, hmid, hrest⟩ := run_cons.mp hrun
      have hstep := cleanStep_cases hmid
      obtain ⟨hnested, hflowops, hthreads⟩ := ih (nested_of_cleanStep h hstep) hrest
      exact ⟨hnested, .cons (reads_flowops h hstep) hflowops,
        .cons (reads_threads hstep) hthreads⟩

/-- The flowops of the work order are made from the flowop tags. -/
theorem flowops_made (hrun : run cleanStep {} list = some b) :
    List.Forall₂ (MadeFrom flowopUpdate FreshFlowop) (b.grp.flatMap Group.flowops)
      (flowopBodies list) := by
  obtain ⟨hnested, hflowops, -⟩ := run_pieces Builder.nested_empty hrun
  rw [Builder.flowops_grp hnested]
  exact hflowops.objects_of_nil

/-- The groups of the work order are made from the group tags. -/
theorem threads_made (hrun : run cleanStep {} list = some b) :
    List.Forall₂ (MadeFrom threadsUpdate (· = 0)) (b.grp.map (·.nthreads))
      (groupBodies list) := by
  obtain ⟨-, -, hthreads⟩ := run_pieces Builder.nested_empty hrun
  rw [Builder.nthreads_grp]
  exact hthreads.objects_of_nil

end

end Uperf
