import Uperf.Parse.Worklist
import Uperf.Lib.Transition
import Uperf.Lib.Sections

/-!
# Accepted profiles

A profile is accepted if no error is recorded.  Its work order is that of a run
of `cleanStep`, the rounds of `build_worklist` that add none.
-/

namespace Uperf

open Lib

@[simp] theorem Builder.length_grp (b : Builder) :
    b.grp.length = b.groups.length + b.currGrp.toList.length := by
  cases h : b.currGrp <;> simp [Builder.grp, h]

/-! ## The symbols in their environments -/

section

variable {host : Host} {list list' : List Symbol} {s : Symbol}

@[simp] theorem Symbol.type_visit (s : Symbol) (host : Host) : (s.visit host).type = s.type := rfl

theorem Visit.after_of_ne {s : Visit} (hs : s.type ≠ .options) : s.after = s.host := by
  unfold Visit.after
  split
  · contradiction
  · rfl

@[simp] theorem behind_cons : behind host (s :: list) = behind (s.visit host).after list := rfl

theorem behind_append : behind host (list ++ list') = behind (behind host list) list' :=
  List.foldl_append

theorem visits_append :
    visits host (list ++ list') = visits host list ++ visits (behind host list) list' := by
  induction list generalizing host with
  | nil => rfl
  | cons s rest ih => rw [List.cons_append, visits, ih, visits, behind_cons, List.cons_append]

@[simp] theorem length_visits : (visits host list).length = list.length := by
  induction list generalizing host with
  | nil => rfl
  | cons s rest ih => rw [visits, List.length_cons, ih, List.length_cons]

/-- The types are those of the symbols. -/
theorem map_type_visits : (visits host list).map (·.type) = list.map Symbol.type := by
  induction list generalizing host with
  | nil => rfl
  | cons s rest ih => rw [visits, List.map_cons, ih, List.map_cons, Symbol.type_visit]

end

/-! ## Clean rounds -/

/-- A round that adds no error and does not return. -/
def cleanStep (b : Builder) (s : Visit) : Option Builder :=
  match buildStep b s with
  | .ok (some b', []) => some b'
  | _ => none

section

variable {host : Host} {b b' : Builder} {s : Visit} {list : List Visit}
  {st st' : Option Builder × List ErrorText} {errors errors' : List ErrorText}

theorem cleanStep_eq_some_iff :
    cleanStep b s = some b' ↔ buildStep b s = .ok (some b', []) := by
  unfold cleanStep
  constructor
  · intro h
    split at h
    · rename_i hstep
      cases h
      exact hstep
    · cases h
  · intro h
    rw [h]

theorem prefix_of_addErrors {new : List ErrorText}
    (hadd : addErrors errors new = .ok errors') : errors <+: errors' := by
  induction new generalizing errors with
  | nil =>
      cases hadd
      exact List.prefix_rfl
  | cons text rest ih =>
      obtain ⟨mid, hmid, hrest⟩ := bind_eq_ok_iff.mp hadd
      obtain ⟨-, rfl⟩ := addError_ok_iff.mp hmid
      exact (List.prefix_append _ _).trans (ih hrest)

theorem addErrors_eq_nil_iff {new : List ErrorText} :
    addErrors [] new = .ok [] ↔ new = [] := by
  rw [addErrors_ok_iff (Nat.zero_le _)]
  simp +contextual [eq_comm]

/-- Errors are never taken back. -/
theorem prefix_of_buildSymbol (hstep : buildSymbol st s = .ok st') : st.2 <+: st'.2 := by
  unfold buildSymbol at hstep
  split at hstep
  · cases hstep
    exact List.prefix_rfl
  · obtain ⟨⟨next, new⟩, -, hrest⟩ := bind_eq_ok_iff.mp hstep
    obtain ⟨errors, hadd, heq⟩ := bind_eq_ok_iff.mp hrest
    cases heq
    exact prefix_of_addErrors hadd

theorem prefix_of_loop_buildSymbol (hloop : loop buildSymbol st list = .ok st') :
    st.2 <+: st'.2 := by
  apply loop_history (P := fun _ st' => st.2 <+: st'.2) List.prefix_rfl _ hloop
  intro done s mid mid' hmid hstep
  exact hmid.trans (prefix_of_buildSymbol hstep)

/-- After the function has returned nothing changes. -/
theorem loop_buildSymbol_none (errors : List ErrorText) (list : List Visit) :
    loop buildSymbol (none, errors) list = .ok (none, errors) := by
  induction list with
  | nil => rfl
  | cons s rest ih =>
      exact (loop_cons_ok rfl).trans ih

/-- The loop ends with a builder and without errors exactly if all its rounds are
clean. -/
theorem loop_buildSymbol_eq_ok_iff :
    loop buildSymbol (some b, []) list = .ok (some b', []) ↔
      run cleanStep b list = some b' := by
  induction list generalizing b with
  | nil => simp [loop, run]
  | cons s rest ih =>
      rw [run_cons, loop, bind_eq_ok_iff]
      constructor
      · rintro ⟨⟨next, errors⟩, hsymbol, hrest⟩
        -- errors stay, so there are none after the round
        have hnil : errors = [] := List.prefix_nil.mp (prefix_of_loop_buildSymbol hrest)
        subst hnil
        obtain ⟨⟨next', new⟩, hstep, hfile⟩ := bind_eq_ok_iff.mp hsymbol
        obtain ⟨errors, hadd, heq⟩ := bind_eq_ok_iff.mp hfile
        cases heq
        have hnew : new = [] := addErrors_eq_nil_iff.mp hadd
        subst hnew
        cases hnext : next with
        | none =>
            -- a rejected profile stays rejected
            rw [hnext, loop_buildSymbol_none] at hrest
            cases hrest
        | some mid =>
            rw [hnext] at hstep hrest
            exact ⟨mid, cleanStep_eq_some_iff.mpr hstep, ih.mp hrest⟩
      · rintro ⟨mid, hstep, hrest⟩
        refine ⟨(some mid, []), ?_, ih.mpr hrest⟩
        exact bind_eq_ok_iff.mpr ⟨_, cleanStep_eq_some_iff.mp hstep, rfl⟩

/-- A work order comes from a file that is read without errors and whose symbols
make a clean run. -/
theorem parseAppProfile_eq_some_iff {file : List UInt8} {w : Workorder} (hfile : file ≠ []) :
    parseAppProfile host file = .ok (some w, errors) ↔
      errors = [] ∧ ∃ list b, parse host (profileText file) = .ok (list, []) ∧
        run cleanStep {} (visits host list) = some b ∧ w = b.workorder := by
  unfold parseAppProfile
  rw [if_neg hfile, bind_eq_ok_iff]
  constructor
  · rintro ⟨⟨list, before⟩, hparse, hrest⟩
    obtain ⟨⟨b, after⟩, hbuild, heq⟩ := bind_eq_ok_iff.mp hrest
    simp only [Except.ok.injEq, Prod.mk.injEq] at heq
    obtain ⟨hw, rfl⟩ := heq
    split at hw
    · rename_i hnil
      subst hnil
      have hbefore : before = [] := List.prefix_nil.mp (prefix_of_loop_buildSymbol hbuild)
      subst hbefore
      obtain ⟨b, rfl, rfl⟩ := Option.map_eq_some_iff.mp hw
      exact ⟨rfl, list, b, hparse, loop_buildSymbol_eq_ok_iff.mp hbuild, rfl⟩
    · cases hw
  · rintro ⟨rfl, list, b, hparse, hrun, rfl⟩
    refine ⟨(list, []), hparse, bind_eq_ok_iff.mpr ⟨(some b, []), ?_, rfl⟩⟩
    exact loop_buildSymbol_eq_ok_iff.mpr hrun

/-! ## What a clean round does -/

/-- The rounds that change neither the list of groups nor the flowops nor the
number of threads. -/
structure Quiet (b b' : Builder) : Prop where
  groups : b'.groups = b.groups
  currGrp : b'.currGrp = b.currGrp
  currTxn : ∃ change : Txn → Txn, (∀ txn, (change txn).flist = txn.flist) ∧
    b'.currTxn = b.currTxn.map change
  currFlowop : b'.currFlowop = b.currFlowop

theorem Quiet.of_txn_eq (groups : b'.groups = b.groups) (currGrp : b'.currGrp = b.currGrp)
    (currTxn : b'.currTxn = b.currTxn) (currFlowop : b'.currFlowop = b.currFlowop) :
    Quiet b b' where
  groups := groups
  currGrp := currGrp
  currTxn := ⟨id, fun _ => rfl, by simp [currTxn]⟩
  currFlowop := currFlowop

/-- The types of the symbols that are not quiet. -/
def loudTypes : List TokenType :=
  [.groupStart, .txnStart, .flowopStart, .type, .options, .nthreads, .nprocesses]

/-- What a clean round does. -/
inductive CleanStep (b : Builder) (s : Visit) (b' : Builder) : Prop
  | quiet (hs : s.type ∉ loudTypes) (hquiet : Quiet b b')
  | threads (g : Group) (flag : UInt32) (hs : s.type = .nthreads ∨ s.type = .nprocesses)
      (hg : b.currGrp = some g) (hval : 0 ≤ stringToInt s.host s.text)
      (hb' : b' = { b with currGrp := some { g with
        nthreads := .ofInt (stringToInt s.host s.text), strandFlag := flag } })
  | groupName (g : Group) (name : CharArray uperfNameLen) (hs : s.type = .name)
      (hg : b.currGrp = some g)
      (hb' : b' = { b with currGrp := some { g with name := name } })
  | groupStart (hs : s.type = .groupStart)
      (hb' : b' = { b with
        groups := b.grp
        currGrp := some (freshGroup b.grp.length)
        currTxn := none
        currFlowop := none
        txnid := 0
        inGroup := true })
  | txnStart (g : Group) (tlist : List Txn) (hs : s.type = .txnStart) (hg : b.currGrp = some g)
      (hnone : b.txn = none → tlist = [])
      (hsome : ∀ txn, b.txn = some txn → tlist = g.tlist ++ [txn])
      (hb' : b' = { b with
        currGrp := some { g with ntxn := g.ntxn + 1, tlist := tlist }
        currTxn := some (freshTxn b.txnid)
        currFlowop := none
        txnid := b.txnid + 1
        fid := 0
        inTxn := true })
  | flowopStart (txn : Txn) (flist : List Flowop) (hs : s.type = .flowopStart)
      (htxn : b.currTxn = some txn) (hnone : b.currFlowop = none → flist = [])
      (hsome : ∀ f, b.currFlowop = some f → flist = txn.flist ++ [f])
      (hb' : b' = { b with
        currTxn := some { txn with nflowop := txn.nflowop + 1, flist := flist }
        currFlowop := some (freshFlowop b.fid)
        fid := b.fid + 1 })
  | type (f : Flowop) (hs : s.type = .type) (hf : b.currFlowop = some f)
      (htype : flowopType s.text ≠ .error)
      (hb' : b' = { b with currFlowop := some (f.setType s.text) })
  | options (f : Flowop) (set : Setting) (hs : s.type = .options) (hf : b.currFlowop = some f)
      (hset : flowopParseOptions s.optionsHost s.text = .ok set) (hclean : set.errors = [])
      (hb' : b' = { b with currFlowop := some (set.update f) })

theorem reject_ne {text : List UInt8} : reject text ≠ .ok (some b', errors) := nofun

theorem currTxn_of_onTxn {change : Txn → Txn}
    (hstep : onTxn b change errors = .ok (some b', errors')) :
    ∃ txn, b.currTxn = some txn ∧ b' = { b with currTxn := some (change txn) } := by
  unfold onTxn at hstep
  split at hstep
  · exact absurd hstep reject_ne
  · cases htxn : b.currTxn with
    | none => rw [htxn] at hstep; cases hstep
    | some txn =>
        rw [htxn] at hstep
        cases hstep
        exact ⟨txn, rfl, rfl⟩

theorem quiet_of_onTxn {change : Txn → Txn} (hstep : onTxn b change errors = .ok (some b', []))
    (hchange : ∀ txn, (change txn).flist = txn.flist) : Quiet b b' := by
  obtain ⟨txn, htxn, rfl⟩ := currTxn_of_onTxn hstep
  exact ⟨rfl, rfl, ⟨change, hchange, by simp [htxn]⟩, rfl⟩

theorem currGrp_of_onGroup {change : Group → Group}
    (hstep : onGroup b change errors = .ok (some b', errors')) :
    errors = errors' ∧ ∃ g, b.currGrp = some g ∧ b' = { b with currGrp := some (change g) } := by
  unfold onGroup at hstep
  split at hstep
  · exact absurd hstep reject_ne
  · cases hg : b.currGrp with
    | none => rw [hg] at hstep; cases hstep
    | some g =>
        rw [hg] at hstep
        cases hstep
        exact ⟨rfl, g, rfl, rfl⟩

/-- What the branches that begin an object do where they do not reject the profile. -/
theorem eq_of_groupStart (hstep : groupStart b = .ok (some b', errors)) :
    b' = { b with
      groups := b.grp
      currGrp := some (freshGroup b.grp.length)
      currTxn := none
      currFlowop := none
      txnid := 0
      inGroup := true } := by
  unfold groupStart at hstep
  split at hstep
  · cases hstep
  · cases hstep
    rfl

theorem currGrp_of_txnStart (hstep : txnStart b = .ok (some b', errors)) :
    ∃ g tlist, b.currGrp = some g ∧ (b.txn = none → tlist = []) ∧
      (∀ txn, b.txn = some txn → tlist = g.tlist ++ [txn]) ∧
      b' = { b with
        currGrp := some { g with ntxn := g.ntxn + 1, tlist := tlist }
        currTxn := some (freshTxn b.txnid)
        currFlowop := none
        txnid := b.txnid + 1
        fid := 0
        inTxn := true } := by
  unfold txnStart at hstep
  split at hstep
  · exact absurd hstep reject_ne
  · cases hg : b.currGrp with
    | none => rw [hg] at hstep; cases hstep
    | some g =>
        rw [hg] at hstep
        cases hstep
        exact ⟨g, _, rfl, fun hnone => by simp [hnone], fun txn htxn => by simp [htxn], rfl⟩

theorem currTxn_of_flowopStart (hstep : flowopStart b = .ok (some b', errors)) :
    ∃ txn flist, b.currTxn = some txn ∧ (b.currFlowop = none → flist = []) ∧
      (∀ f, b.currFlowop = some f → flist = txn.flist ++ [f]) ∧
      b' = { b with
        currTxn := some { txn with nflowop := txn.nflowop + 1, flist := flist }
        currFlowop := some (freshFlowop b.fid)
        fid := b.fid + 1 } := by
  unfold flowopStart at hstep
  split at hstep
  · exact absurd hstep reject_ne
  · cases htxn : b.currTxn with
    | none => rw [htxn] at hstep; cases hstep
    | some txn =>
        rw [htxn] at hstep
        cases hstep
        exact ⟨txn, _, rfl, fun hnone => by simp [hnone], fun f hf => by simp [hf], rfl⟩

/-- What the branches that change a flowop do. -/
theorem currFlowop_of_setType {text : List UInt8}
    (hstep : flowopSetType b text = .ok (some b', errors)) :
    ∃ f, b.currFlowop = some f ∧ flowopType text ≠ .error ∧
      b' = { b with currFlowop := some (f.setType text) } := by
  unfold flowopSetType at hstep
  cases hf : b.currFlowop with
  | none => rw [hf] at hstep; cases hstep
  | some f =>
      rw [hf] at hstep
      simp only at hstep
      split at hstep
      · exact absurd hstep reject_ne
      · rename_i htype
        cases hstep
        exact ⟨f, rfl, htype, rfl⟩

theorem currFlowop_of_setOptions {text : List UInt8}
    (hstep : flowopSetOptions b host text = .ok (some b', errors)) :
    ∃ f set, b.currFlowop = some f ∧ flowopParseOptions host text = .ok set ∧
      set.errors = errors ∧ b' = { b with currFlowop := some (set.update f) } := by
  unfold flowopSetOptions at hstep
  cases hf : b.currFlowop with
  | none => rw [hf] at hstep; cases hstep
  | some f =>
      rw [hf] at hstep
      obtain ⟨set, hset, heq⟩ := bind_eq_ok_iff.mp hstep
      cases heq
      exact ⟨f, set, rfl, hset, rfl, rfl⟩

theorem nonneg_of_string2int {text : List UInt8}
    (hnil : (string2int host (some text)).2 = []) : 0 ≤ stringToInt host text := by
  simp only [string2int] at hnil
  split at hnil
  · cases hnil
  · omega

theorem cleanStep_cases (h : cleanStep b s = some b') : CleanStep b s b' := by
  rw [cleanStep_eq_some_iff] at h
  unfold buildStep at h
  cases hs : s.type with
  | groupStart =>
      rw [hs] at h
      exact .groupStart hs (eq_of_groupStart h)
  | txnStart =>
      rw [hs] at h
      obtain ⟨g, tlist, hg, hnone, hsome, hb'⟩ := currGrp_of_txnStart h
      exact .txnStart g tlist hs hg hnone hsome hb'
  | flowopStart =>
      rw [hs] at h
      obtain ⟨txn, flist, htxn, hnone, hsome, hb'⟩ := currTxn_of_flowopStart h
      exact .flowopStart txn flist hs htxn hnone hsome hb'
  | type =>
      rw [hs] at h
      obtain ⟨f, hf, htype, hb'⟩ := currFlowop_of_setType h
      exact .type f hs hf htype hb'
  | options =>
      rw [hs] at h
      obtain ⟨f, set, hf, hset, hclean, hb'⟩ := currFlowop_of_setOptions h
      exact .options f set hs hf hset hclean hb'
  | nthreads | nprocesses =>
      rw [hs] at h
      obtain ⟨hnil, g, hg, rfl⟩ := currGrp_of_onGroup h
      exact .threads g _ (by simp [hs]) hg (nonneg_of_string2int hnil) rfl
  | name =>
      rw [hs] at h
      simp only [setName] at h
      split at h
      · obtain ⟨-, g, hg, rfl⟩ := currGrp_of_onGroup h
        exact .groupName g _ hs hg rfl
      · cases h
        exact .quiet (by simp [hs, loudTypes]) (.of_txn_eq rfl rfl rfl rfl)
  | iterations | rate | duration =>
      rw [hs] at h
      exact .quiet (by simp [hs, loudTypes]) (quiet_of_onTxn h fun _ => rfl)
  | error =>
      rw [hs] at h
      exact absurd h reject_ne
  | groupEnd | txnEnd | profileStart | profileEnd | xmlEnd =>
      -- only the flags of the builder change, if anything does
      rw [hs] at h
      cases h
      exact .quiet (by simp [hs, loudTypes]) (.of_txn_eq rfl rfl rfl rfl)

end

end Uperf
