import Uperf.Parse.Pieces
import Uperf.Parse.Tags

/-!
# The tags that begin an object

A work order has as many objects as its profile has tags that begin one.
-/

namespace Uperf

open Lib

/-- The types of the tags that begin an object. -/
def startTypes : List TokenType := [.groupStart, .txnStart, .flowopStart]

/-- A group with its transactions and flowops. -/
def Group.objects (g : Group) : ℕ := 1 + g.tlist.length + g.flowops.length

/-- The groups, transactions and flowops of a work order. -/
def Workorder.objects (w : Workorder) : ℕ := (w.grp.map Group.objects).sum

section

variable {b b' : Builder} {s : Visit} {list : List Visit}

/-! ## Objects -/

/-- The objects so far. -/
def Builder.objects (b : Builder) : ℕ :=
  (b.groups.map Group.objects).sum + (b.currGrp.map Group.objects).getD 0 +
    (b.currTxn.map fun txn => 1 + txn.flist.length).getD 0 + b.currFlowop.toList.length

theorem Builder.Nested.objects_grp (h : b.Nested) :
    b.workorder.objects = b.objects := by
  unfold Workorder.objects Builder.workorder Builder.grp Builder.objects Builder.txn
  cases hg : b.currGrp with
  | none =>
      have htxn := h.txn hg
      simp [htxn, h.flowop htxn]
  | some g =>
      cases htxn : b.currTxn with
      | none => simp [h.flowop htxn, Group.objects, Group.flowops]
      | some txn =>
          simp [Group.objects, Group.flowops]
          omega

/-- A clean round adds an object if its symbol begins one. -/
theorem objects_of_cleanStep (h : b.Nested) (hstep : CleanStep b s b') :
    b'.objects = b.objects + if s.type ∈ startTypes then 1 else 0 := by
  cases hstep with
  | quiet hs hquiet =>
      -- a quiet symbol begins nothing
      have hstart : s.type ∉ startTypes := by
        intro hmem
        apply hs
        revert hmem
        cases s.type <;> simp [startTypes, loudTypes]
      obtain ⟨change, hflist, htxn⟩ := hquiet.currTxn
      rw [if_neg hstart, Builder.objects, hquiet.groups, hquiet.currGrp, hquiet.currFlowop, htxn,
        Option.map_map]
      simp [Builder.objects, Function.comp_def, hflist]
  | threads g flag hs hg hval hb' =>
      have hstart : s.type ∉ startTypes := by
        obtain hs | hs := hs <;> simp [hs, startTypes]
      subst hb'
      simp [hstart, Builder.objects, hg, Group.objects, Group.flowops]
  | groupName g name hs hg hb' =>
      subst hb'
      simp [hs, startTypes, Builder.objects, hg, Group.objects, Group.flowops]
  | groupStart hs hb' =>
      subst hb'
      -- the current group moves to the others
      have hall : (b.grp.map Group.objects).sum = b.objects := h.objects_grp
      simp only [Builder.objects, hall, hs]
      simp [startTypes, Group.objects, Group.flowops]
  | txnStart g tlist hs hg hnone hsome hb' =>
      subst hb'
      cases htxn : b.currTxn with
      | none =>
          have htlist : tlist = [] := hnone (by simp [Builder.txn, htxn])
          simp [Builder.objects, hs, startTypes, hg, htxn, htlist, h.tlist g hg htxn,
            h.flowop htxn, Group.objects, Group.flowops]
      | some txn =>
          have htlist := hsome _ (by simp [Builder.txn, htxn]; rfl)
          simp [Builder.objects, hs, startTypes, hg, htxn, htlist, Group.objects, Group.flowops]
          omega
  | flowopStart txn flist hs htxn hnone hsome hb' =>
      subst hb'
      cases hf : b.currFlowop with
      | none =>
          simp [Builder.objects, hs, startTypes, htxn, hf, hnone hf, h.flist txn htxn hf]
      | some f =>
          simp [Builder.objects, hs, startTypes, htxn, hf, hsome f hf]
          omega
  | type f hs hf htype hb' =>
      subst hb'
      simp [Builder.objects, hs, startTypes, hf]
  | options f set hs hf hset hclean hb' =>
      subst hb'
      simp [Builder.objects, hs, startTypes, hf]

/-- The objects of the work order are as many as the tags that begin one. -/
theorem objects_of_run (hrun : run cleanStep {} list = some b) :
    b.workorder.objects = list.countP fun s => decide (s.type ∈ startTypes) := by
  have hkeep : b.Nested ∧ b.objects = list.countP fun s => decide (s.type ∈ startTypes) := by
    refine run_history (P := fun done b => b.Nested ∧
      b.objects = done.countP fun s => decide (s.type ∈ startTypes)) ?_
      ⟨Builder.nested_empty, rfl⟩ hrun
    rintro done s - st st' ⟨hnested, hcount⟩ hstep
    have hcase := cleanStep_cases hstep
    refine ⟨nested_of_cleanStep hnested hcase, ?_⟩
    rw [objects_of_cleanStep hnested hcase, hcount, List.countP_append, List.countP_singleton]
    simp
  rw [hkeep.1.objects_grp, hkeep.2]

/-- So are those that the symbols of a profile make. -/
theorem objects_of_visits {host : Host} {symbols : List Symbol}
    (hrun : run cleanStep {} (visits host symbols) = some b) :
    b.workorder.objects = symbols.countP fun s => decide (s.type ∈ startTypes) := by
  have htypes := congrArg (List.countP fun t => decide (t ∈ startTypes))
    (@map_type_visits host symbols)
  rw [List.countP_map, List.countP_map] at htypes
  rw [objects_of_run hrun]
  exact htypes

end

end Uperf
