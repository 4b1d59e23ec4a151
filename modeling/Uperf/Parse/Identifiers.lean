import Uperf.Parse.Attachable
import Uperf.Parse.Sizes

/-!
# The ids of a work order

The parser numbers the transactions of a group and the flowops of a transaction
from zero on, in 32 bits.  A file is read with one call of `read`, so that it has
no more of them than fit, and no two of one list have the same number.
-/

namespace Uperf

open Lib

/-- The bytes that one call of `read` transfers at most. -/
def maxRead : ℕ := 0x7ffff000

/-- `parse_app_profile` of a file.  One that a call of `read` does not transfer as a
whole is not parsed. -/
def loadAppProfile (host : Host) (file : List UInt8) :
    Except Fault (Option Workorder × List ErrorText) :=
  if maxRead < file.length then .ok (none, []) else parseAppProfile host file

/-! ## Ordinals -/

/-- The ids are the numbers from zero on, up to `most` of them. -/
structure Ordinal (most : ℕ) (ids : List UInt32) : Prop where
  inOrder : ids = (List.range ids.length).map UInt32.ofNat
  few : ids.length ≤ most

section

variable {most most' : ℕ} {ids : List UInt32}

theorem Ordinal.nil : Ordinal most [] := ⟨rfl, Nat.zero_le _⟩

theorem Ordinal.mono (h : Ordinal most ids) (hle : most ≤ most') : Ordinal most' ids :=
  ⟨h.inOrder, h.few.trans hle⟩

/-- The next id is the number of those before it. -/
theorem Ordinal.concat (h : Ordinal most ids) :
    Ordinal (most + 1) (ids ++ [UInt32.ofNat ids.length]) := by
  have hlength : (ids ++ [UInt32.ofNat ids.length]).length = ids.length + 1 := by simp
  constructor
  · rw [hlength, List.range_succ, List.map_append, ← h.inOrder]
    rfl
  · rw [hlength]
    exact Nat.succ_le_succ h.few

/-- As long as they fit, all are different. -/
theorem Ordinal.nodup (h : Ordinal most ids) (hmost : most ≤ 2 ^ 32) : ids.Nodup := by
  rw [h.inOrder]
  apply List.Nodup.map_on _ List.nodup_range
  intro i hi j hj heq
  have hi : i < 2 ^ 32 := (List.mem_range.mp hi).trans_le (h.few.trans hmost)
  have hj : j < 2 ^ 32 := (List.mem_range.mp hj).trans_le (h.few.trans hmost)
  have hnat := congrArg UInt32.toNat heq
  rwa [UInt32.toNat_ofNat_of_lt' hi, UInt32.toNat_ofNat_of_lt' hj] at hnat

end

/-- The flowops of the transaction are numbered in order. -/
def Txn.Identified (most : ℕ) (txn : Txn) : Prop := Ordinal most (txn.flist.map (·.id))

/-- The transactions of the group are numbered in order, and the flowops of each. -/
structure Group.Identified (most : ℕ) (g : Group) : Prop where
  tlist : Ordinal most (g.tlist.map (·.txnid))
  flist : ∀ txn ∈ g.tlist, txn.Identified most

theorem Txn.Identified.mono {most most' : ℕ} {txn : Txn} (h : txn.Identified most)
    (hle : most ≤ most') : txn.Identified most' := Ordinal.mono h hle

theorem Group.Identified.mono {most most' : ℕ} {g : Group} (h : g.Identified most)
    (hle : most ≤ most') : g.Identified most' :=
  ⟨h.tlist.mono hle, fun txn htxn => (h.flist txn htxn).mono hle⟩

/-! ## The builder -/

namespace Builder

/-- The finished transactions of the current group. -/
def closedTxns (b : Builder) : List Txn := (b.currGrp.map (·.tlist)).getD []

/-- The ids of the transactions of the current group. -/
def txnIds (b : Builder) : List UInt32 :=
  b.closedTxns.map (·.txnid) ++ (b.currTxn.map (·.txnid)).toList

/-- The ids of the flowops of the current transaction. -/
def flowopIds (b : Builder) : List UInt32 :=
  ((b.currTxn.map (·.flist)).getD []).map (·.id) ++ (b.currFlowop.map (·.id)).toList

/-- What the ids depend on. -/
def numbers (b : Builder) : List Group × Option (List Txn) × Option UInt32 ×
    Option (List Flowop) × Option UInt32 × ℕ × ℕ :=
  (b.groups, b.currGrp.map (·.tlist), b.currTxn.map (·.txnid), b.currTxn.map (·.flist),
    b.currFlowop.map (·.id), b.txnid, b.fid)

/-- `ntxn` of the current group and `nflowop` of the current transaction. -/
def counts (b : Builder) : Option UInt32 × Option UInt32 :=
  (b.currGrp.map (·.ntxn), b.currTxn.map (·.nflowop))

/-- The numbers given so far, of which there are up to `most` in each list. -/
structure Identified (most : ℕ) (b : Builder) : Prop where
  grp : b.grp.length ≤ most
  groups : ∀ g ∈ b.groups, g.Identified most
  closedTxns : ∀ txn ∈ b.closedTxns, txn.Identified most
  txnIds : Ordinal most b.txnIds
  flowopIds : Ordinal most b.flowopIds
  txnid : b.txnid = b.txnIds.length
  fid : b.currTxn ≠ none → b.fid = b.flowopIds.length

theorem length_grp_tlist (b : Builder) :
    b.grp.length = b.groups.length + (b.currGrp.map (·.tlist)).toList.length := by
  rw [length_grp]
  cases b.currGrp <;> rfl

theorem identified_empty : Identified 0 {} where
  grp := le_rfl
  groups := nofun
  closedTxns := nofun
  txnIds := .nil
  flowopIds := .nil
  txnid := rfl
  fid := fun h => absurd rfl h

end Builder

section

variable {host : Host} {b b' : Builder} {s : Visit} {list : List Visit} {most : ℕ}
  {new : List ErrorText}

/-- The ids stay as they are where `numbers` does. -/
theorem Builder.Identified.of_numbers (h : b.Identified most) (hsame : b'.numbers = b.numbers) :
    b'.Identified most := by
  simp only [Builder.numbers, Prod.mk.injEq] at hsame
  obtain ⟨hgroups, hgrp, htxn, hflist, hflowop, htxnid, hfid⟩ := hsame
  have hlength : b'.grp.length = b.grp.length := by
    rw [Builder.length_grp_tlist, hgroups, hgrp, Builder.length_grp_tlist]
  have hclosed : b'.closedTxns = b.closedTxns := by
    rw [Builder.closedTxns, hgrp, Builder.closedTxns]
  have htxnIds : b'.txnIds = b.txnIds := by rw [Builder.txnIds, hclosed, htxn, Builder.txnIds]
  have hflowopIds : b'.flowopIds = b.flowopIds := by
    rw [Builder.flowopIds, hflist, hflowop, Builder.flowopIds]
  have hnone : b.currTxn = none → b'.currTxn = none := by
    intro hnone
    rw [hnone] at htxn
    exact Option.map_eq_none_iff.mp htxn
  constructor
  · rw [hlength]
    exact h.grp
  · rw [hgroups]
    exact h.groups
  · rw [hclosed]
    exact h.closedTxns
  · rw [htxnIds]
    exact h.txnIds
  · rw [hflowopIds]
    exact h.flowopIds
  · rw [htxnid, htxnIds]
    exact h.txnid
  · rw [hfid, hflowopIds]
    exact fun hsome => h.fid fun hb => hsome (hnone hb)

theorem Builder.Nested.of_numbers (h : b.Nested) (hsame : b'.numbers = b.numbers) : b'.Nested := by
  simp only [Builder.numbers, Prod.mk.injEq] at hsame
  obtain ⟨-, hgrp, htxn, hflist, hflowop, -⟩ := hsame
  have hnone : ∀ {α β : Type} {f : α → β} {o o' : Option α},
      o'.map f = o.map f → (o' = none ↔ o = none) := by
    intro α β f o o' hmap
    rw [← Option.map_eq_none_iff (f := f), hmap, Option.map_eq_none_iff]
  constructor
  · rw [hnone htxn, hnone hflowop]
    exact h.flowop
  · rw [hnone hgrp, hnone htxn]
    exact h.txn
  · intro g' hg' hcurr
    rw [hg', Option.map_some] at hgrp
    obtain ⟨g, hg, htlist⟩ := Option.map_eq_some_iff.mp hgrp.symm
    rw [← htlist]
    exact h.tlist g hg ((hnone htxn).mp hcurr)
  · intro txn' htxn' hcurr
    rw [htxn', Option.map_some] at hflist
    obtain ⟨txn, htxn, hflist⟩ := Option.map_eq_some_iff.mp hflist.symm
    rw [← hflist]
    exact h.flist txn htxn ((hnone hflowop).mp hcurr)

theorem Builder.Identified.mono {most' : ℕ} (h : b.Identified most) (hle : most ≤ most') :
    b.Identified most' where
  grp := h.grp.trans hle
  groups g hg := (h.groups g hg).mono hle
  closedTxns txn htxn := (h.closedTxns txn htxn).mono hle
  txnIds := h.txnIds.mono hle
  flowopIds := h.flowopIds.mono hle
  txnid := h.txnid
  fid := h.fid

/-- The current transaction with all its flowops is numbered. -/
theorem Builder.Identified.txn (h : b.Identified most) {txn : Txn} (htxn : b.txn = some txn) :
    txn.Identified most := by
  obtain ⟨curr, hcurr, rfl⟩ := Option.map_eq_some_iff.mp htxn
  have hids := h.flowopIds
  unfold Txn.Identified
  cases hf : b.currFlowop with
  | none => simpa [Builder.flowopIds, hcurr, hf] using hids
  | some f => simpa [Builder.flowopIds, hcurr, hf] using hids

/-- The current group with all its transactions is numbered, and those before it. -/
theorem Builder.Identified.all (h : b.Identified most) : ∀ g ∈ b.grp, g.Identified most := by
  intro g hg
  rcases List.mem_append.mp hg with hg | hg
  · exact h.groups g hg
  · cases hgrp : b.currGrp with
    | none =>
        rw [hgrp] at hg
        cases hg
    | some curr =>
        rw [hgrp] at hg
        obtain rfl := List.mem_singleton.mp hg
        have hclosed : b.closedTxns = curr.tlist := by simp [Builder.closedTxns, hgrp]
        constructor
        · have hids := h.txnIds
          have htxnid : b.txn.toList.map (·.txnid) = (b.currTxn.map (·.txnid)).toList := by
            cases htxn : b.currTxn <;> simp [Builder.txn, htxn]
          rwa [Builder.txnIds, hclosed, ← htxnid, ← List.map_append] at hids
        · intro txn htxn
          rcases List.mem_append.mp htxn with htxn | htxn
          · exact h.closedTxns txn (hclosed ▸ htxn)
          · exact h.txn (Option.mem_toList.mp htxn)

/-! ## A round -/

/-- Options do not change the id of a flowop. -/
theorem id_update {text : List UInt8} {set : Setting}
    (hset : flowopParseOptions host text = .ok set) (f : Flowop) : (set.update f).id = f.id := by
  have hrows : ∀ host, ∀ row ∈ optionBranches host, BranchPreserves (·.id = f.id) row.2 := by
    intro host row hrow
    obtain hpreserves | heq | heq := row_preserves (P := (·.id = f.id))
      (fun _ _ _ _ hf => hf) (fun _ _ hf => hf) row hrow
    · exact hpreserves
    · rw [heq]
      intro value set hset _ hf
      cases hset
      exact hf
    · rw [heq]
      exact preserves_string2intBranch fun _ _ hf => hf
  exact flowopParseOptions_preserves (fun _ _ hf => hf) hrows (fun _ hf => hf) hset rfl

/-- Only the tags that begin an object give a number, or count one. -/
theorem numbers_of_buildStep (hgroup : s.type ≠ .groupStart) (htxn : s.type ≠ .txnStart)
    (hflowop : s.type ≠ .flowopStart) (hstep : buildStep b s = .ok (some b', new)) :
    b'.numbers = b.numbers ∧ b'.counts = b.counts := by
  unfold buildStep at hstep
  cases hs : s.type with
  | groupStart => exact absurd hs hgroup
  | txnStart => exact absurd hs htxn
  | flowopStart => exact absurd hs hflowop
  | type =>
      rw [hs] at hstep
      obtain ⟨f, hf, -, rfl⟩ := currFlowop_of_setType hstep
      simp [Builder.numbers, Builder.counts, hf]
  | options =>
      rw [hs] at hstep
      obtain ⟨f, set, hf, hset, -, rfl⟩ := currFlowop_of_setOptions hstep
      simp [Builder.numbers, Builder.counts, hf, id_update hset]
  | name =>
      rw [hs] at hstep
      simp only [setName] at hstep
      split at hstep
      · obtain ⟨-, g, hg, rfl⟩ := currGrp_of_onGroup hstep
        simp [Builder.numbers, Builder.counts, hg]
      · cases hstep
        exact ⟨rfl, rfl⟩
  | nthreads | nprocesses =>
      rw [hs] at hstep
      obtain ⟨-, g, hg, rfl⟩ := currGrp_of_onGroup hstep
      simp [Builder.numbers, Builder.counts, hg]
  | iterations | rate | duration =>
      rw [hs] at hstep
      obtain ⟨txn, htxn, rfl⟩ := currTxn_of_onTxn hstep
      simp [Builder.numbers, Builder.counts, htxn]
  | error =>
      rw [hs] at hstep
      exact absurd hstep reject_ne
  | groupEnd | txnEnd | profileStart | profileEnd | xmlEnd =>
      rw [hs] at hstep
      cases hstep
      exact ⟨rfl, rfl⟩

/-- What a round does to the numbers and the counts, whether it adds errors or not. -/
inductive Numbering (b b' : Builder) : Prop
  | same (hnumbers : b'.numbers = b.numbers) (hcounts : b'.counts = b.counts)
  | groupStart
      (hb' : b' = { b with
        groups := b.grp
        currGrp := some (freshGroup b.grp.length)
        currTxn := none
        currFlowop := none
        txnid := 0
        inGroup := true })
  | txnStart (g : Group) (hg : b.currGrp = some g)
      (hb' : b' = { b with
        currGrp := some { g with ntxn := g.ntxn + 1, tlist := g.tlist ++ b.txn.toList }
        currTxn := some (freshTxn b.txnid)
        currFlowop := none
        txnid := b.txnid + 1
        fid := 0
        inTxn := true })
  | flowopStart (txn : Txn) (htxn : b.currTxn = some txn)
      (hb' : b' = { b with
        currTxn := some { txn with
          nflowop := txn.nflowop + 1, flist := txn.flist ++ b.currFlowop.toList }
        currFlowop := some (freshFlowop b.fid)
        fid := b.fid + 1 })

theorem buildStep_numbering (hnested : b.Nested)
    (hstep : buildStep b s = .ok (some b', new)) : Numbering b b' := by
  by_cases hgroup : s.type = .groupStart
  · unfold buildStep at hstep
    rw [hgroup] at hstep
    exact .groupStart (eq_of_groupStart hstep)
  · by_cases htxn : s.type = .txnStart
    · unfold buildStep at hstep
      rw [htxn] at hstep
      obtain ⟨g, tlist, hg, hnone, hsome, rfl⟩ := currGrp_of_txnStart hstep
      have htlist : tlist = g.tlist ++ b.txn.toList := by
        -- without a transaction before, the list of the group is empty
        cases hcurr : b.txn with
        | none =>
            have hnotxn : b.currTxn = none := Option.map_eq_none_iff.mp hcurr
            simp [hnone hcurr, hnested.tlist g hg hnotxn]
        | some txn => exact hsome txn hcurr
      exact .txnStart g hg (by rw [htlist])
    · by_cases hflowop : s.type = .flowopStart
      · unfold buildStep at hstep
        rw [hflowop] at hstep
        obtain ⟨txn, flist, hcurr, hnone, hsome, rfl⟩ := currTxn_of_flowopStart hstep
        have hflist : flist = txn.flist ++ b.currFlowop.toList := by
          cases hf : b.currFlowop with
          | none => simp [hnone hf, hnested.flist txn hcurr hf]
          | some f => exact hsome f hf
        exact .flowopStart txn hcurr (by rw [hflist])
      · obtain ⟨hnumbers, hcounts⟩ := numbers_of_buildStep hgroup htxn hflowop hstep
        exact .same hnumbers hcounts

/-- The current objects stay nested. -/
theorem Numbering.nested (hround : Numbering b b') (h : b.Nested) : b'.Nested := by
  cases hround with
  | same hnumbers hcounts => exact h.of_numbers hnumbers
  | groupStart hb' =>
      subst hb'
      constructor <;> simp
  | txnStart g hg hb' =>
      subst hb'
      constructor <;> simp
  | flowopStart txn htxn hb' =>
      subst hb'
      refine ⟨nofun, ?_, nofun, nofun⟩
      intro hg
      rw [h.txn hg] at htxn
      cases htxn

/-- The group before joins the others, and the next one is empty. -/
theorem Builder.Identified.groupStart (h : b.Identified most) (new : Group)
    (hnew : new.tlist = []) :
    Builder.Identified (most + 1) { b with
      groups := b.grp
      currGrp := some new
      currTxn := none
      currFlowop := none
      txnid := 0
      inGroup := true } where
  grp := by
    rw [Builder.length_grp_tlist]
    exact Nat.succ_le_succ h.grp
  groups g hg := (h.all g hg).mono (Nat.le_succ most)
  closedTxns := by simp [Builder.closedTxns, hnew]
  txnIds := by simpa [Builder.txnIds, Builder.closedTxns, hnew] using Ordinal.nil
  flowopIds := .nil
  txnid := by simp [Builder.txnIds, Builder.closedTxns, hnew]
  fid := fun hsome => absurd rfl hsome

/-- The transaction before joins the others, and the next one has the next number. -/
theorem Builder.Identified.txnStart (h : b.Identified most) {g new : Group} {tlist : List Txn}
    {txn : Txn} (hg : b.currGrp = some g) (htlist : tlist = g.tlist ++ b.txn.toList)
    (hnew : new.tlist = tlist) (hid : txn.txnid = .ofNat b.txnid) (hflist : txn.flist = []) :
    Builder.Identified (most + 1) { b with
      currGrp := some new
      currTxn := some txn
      currFlowop := none
      txnid := b.txnid + 1
      fid := 0
      inTxn := true } := by
  have hclosed : b.closedTxns = g.tlist := by simp [Builder.closedTxns, hg]
  -- the transaction before is complete now, and has its number
  have hbefore : tlist.map (·.txnid) = b.txnIds := by
    rw [htlist, Builder.txnIds, hclosed, List.map_append]
    cases htxn : b.currTxn <;> simp [Builder.txn, htxn]
  constructor
  · have hgrp := h.grp
    rw [Builder.length_grp_tlist, hg] at hgrp
    rw [Builder.length_grp_tlist]
    exact hgrp.trans (Nat.le_succ most)
  · exact fun g hg => (h.groups g hg).mono (Nat.le_succ most)
  · intro txn' htxn'
    have htxn' : txn' ∈ g.tlist ++ b.txn.toList := by
      rw [← htlist, ← hnew]
      simpa [Builder.closedTxns] using htxn'
    rcases List.mem_append.mp htxn' with htxn' | htxn'
    · exact (h.closedTxns txn' (hclosed ▸ htxn')).mono (Nat.le_succ most)
    · exact (h.txn (Option.mem_toList.mp htxn')).mono (Nat.le_succ most)
  · have hids := h.txnIds.concat
    rw [← h.txnid, ← hid, ← hbefore] at hids
    simpa [Builder.txnIds, Builder.closedTxns, hnew] using hids
  · simpa [Builder.flowopIds, hflist] using Ordinal.nil
  · rw [h.txnid, ← hbefore]
    simp [Builder.txnIds, Builder.closedTxns, hnew]
  · intro _
    simp [Builder.flowopIds, hflist]

/-- The flowop before joins the others, and the next one has the next number. -/
theorem Builder.Identified.flowopStart (h : b.Identified most) {txn new : Txn}
    {flist : List Flowop} {f : Flowop} (htxn : b.currTxn = some txn)
    (hflist : flist = txn.flist ++ b.currFlowop.toList) (hnew : new.flist = flist)
    (htxnid : new.txnid = txn.txnid) (hid : f.id = .ofNat b.fid) :
    Builder.Identified (most + 1) { b with
      currTxn := some new
      currFlowop := some f
      fid := b.fid + 1 } := by
  -- the flowop before is complete now
  have hbefore : flist.map (·.id) = b.flowopIds := by
    rw [hflist, Builder.flowopIds, htxn, List.map_append]
    cases hf : b.currFlowop <;> simp
  have hfid := h.fid (by simp [htxn])
  have htxnIds : Builder.txnIds { b with
      currTxn := some new, currFlowop := some f, fid := b.fid + 1 } = b.txnIds := by
    simp [Builder.txnIds, Builder.closedTxns, htxn, htxnid]
  constructor
  · have hgrp := h.grp
    rw [Builder.length_grp_tlist] at hgrp ⊢
    exact hgrp.trans (Nat.le_succ most)
  · exact fun g hg => (h.groups g hg).mono (Nat.le_succ most)
  · exact fun txn htxn => (h.closedTxns txn htxn).mono (Nat.le_succ most)
  · rw [htxnIds]
    exact h.txnIds.mono (Nat.le_succ most)
  · have hids := h.flowopIds.concat
    rw [← hfid, ← hid, ← hbefore] at hids
    simpa [Builder.flowopIds, hnew] using hids
  · rw [htxnIds]
    exact h.txnid
  · intro _
    rw [hfid, ← hbefore]
    simp [Builder.flowopIds, hnew]

/-- A round gives at most one number, the next one. -/
theorem Numbering.identified (hround : Numbering b b') (h : b.Identified most) :
    b'.Identified (most + 1) := by
  cases hround with
  | same hnumbers hcounts => exact (h.of_numbers hnumbers).mono (Nat.le_succ most)
  | groupStart hb' =>
      subst hb'
      exact h.groupStart _ rfl
  | txnStart g hg hb' =>
      subst hb'
      exact h.txnStart hg rfl rfl rfl rfl
  | flowopStart txn htxn hb' =>
      subst hb'
      exact h.flowopStart htxn rfl rfl rfl rfl

/-- After a run there are at most as many numbers as symbols. -/
theorem identified_of_run (hrun : run cleanStep {} list = some b) :
    b.Identified list.length := by
  have hhistory : b.Nested ∧ b.Identified list.length :=
    run_history (P := fun done b => b.Nested ∧ b.Identified done.length)
      (fun done s _ b b' h hstep => by
        rw [List.length_append]
        have hround := buildStep_numbering h.1 (cleanStep_eq_some_iff.mp hstep)
        exact ⟨hround.nested h.1, hround.identified h.2⟩)
      ⟨Builder.nested_empty, Builder.identified_empty⟩ hrun
  exact hhistory.2

end

/-! ## The symbols of a file -/

theorem length_tokensFrom_le (fuel : ℕ) (p : List UInt8) :
    (tokensFrom fuel p).1.length ≤ p.length := by
  induction fuel generalizing p with
  | zero => exact Nat.zero_le _
  | succ fuel ih =>
      simp only [tokensFrom]
      cases htoken : nextToken p with
      | done => exact Nat.zero_le _
      | tooLong => exact Nat.zero_le _
      | token symbol rest =>
          have hlt := length_rest_lt htoken
          have hrest := ih rest
          simp only [List.length_cons]
          omega

/-- A token is at most one symbol more. -/
theorem length_list_parseStep {host : Host} {st st' : Symbols} {token : List UInt8}
    {new : List ErrorText} (hstep : parseStep host st token = .ok (st', new)) :
    st'.list.length ≤ st.list.length + 1 := by
  unfold parseStep at hstep
  split at hstep
  · cases hstep
    exact Nat.le_succ _
  · split at hstep
    · cases hstep
    · split at hstep
      · cases hcurr : st.curr with
        | none => rw [hcurr] at hstep; cases hstep
        | some curr =>
            rw [hcurr] at hstep
            simp only at hstep
            split at hstep
            · cases hstep
            · cases hstep
              simp [Symbols.list, hcurr]
      · cases hstep
        simp [Symbols.list, Nat.add_assoc]

/-- A text has at least as many bytes as symbols. -/
theorem length_parse_le {host : Host} {text : List UInt8} {list : List Symbol}
    {errors : List ErrorText} (hparse : parse host text = .ok (list, errors)) :
    list.length ≤ text.length := by
  obtain ⟨⟨st, before⟩, hloop, hend⟩ := bind_eq_ok_iff.mp hparse
  have hst : st.list.length ≤ (tokens text).1.length := by
    refine loop_history (P := fun done st => st.1.list.length ≤ done.length) le_rfl ?_ hloop
    intro done token mid mid' hmid hstep
    obtain ⟨⟨next, new⟩, hnext, hadd⟩ := bind_eq_ok_iff.mp hstep
    obtain ⟨errors', -, heq⟩ := bind_eq_ok_iff.mp hadd
    cases heq
    rw [List.length_append]
    exact (length_list_parseStep hnext).trans (Nat.succ_le_succ hmid)
  have hlist : list = st.list := by
    simp only at hend
    split at hend
    · obtain ⟨after, -, heq⟩ := bind_eq_ok_iff.mp hend
      cases heq
      rfl
    · cases hend
      rfl
  rw [hlist]
  exact hst.trans (length_tokensFrom_le _ text)

/-- The ids of a work order that was read from a file. -/
theorem identified_of_load {host : Host} {file : List UInt8} {w : Workorder}
    {errors : List ErrorText} (hload : loadAppProfile host file = .ok (some w, errors)) :
    w.grp.length ≤ maxRead ∧ ∀ g ∈ w.grp, g.Identified maxRead := by
  unfold loadAppProfile at hload
  split at hload
  · cases hload
  · rename_i hread
    have hfile : file ≠ [] := by
      rintro rfl
      cases hload
    obtain ⟨rfl, list, b, hparse, hrun, rfl⟩ := (parseAppProfile_eq_some_iff hfile).mp hload
    have hlength : list.length ≤ maxRead := by
      calc list.length ≤ (profileText file).length := length_parse_le hparse
        _ ≤ file.dropLast.length := (List.takeWhile_prefix _).length_le
        _ ≤ file.length := (List.dropLast_sublist file).length_le
        _ ≤ maxRead := not_lt.mp hread
    have hids := (identified_of_run hrun).mono (length_visits.trans_le hlength)
    exact ⟨hids.grp, hids.all⟩

end Uperf
