import Uperf.Parse.Identifiers

/-!
# The counts of a work order

`build_worklist` counts the transactions of a group in `ntxn`, and numbers them with `txnid`;
it counts the flowops of a transaction in `nflowop`, and numbers them with `fid`.  The lists
themselves grow at their tails.  All of these are variables of their own, which different
tokens advance and reset.

They agree all the same, whether errors are recorded on the way or not: `ntxn` is always
`txnid`, and `nflowop` is `fid` (`Builder.Counted`), and the numbers given so far are those
of the lists (`Builder.Identified`).  So the counts and the ids of a work order are those of
its lists (`matches_of_buildWorklist`).
-/

namespace Uperf

open Lib

/-- The transaction has as many flowops as it counts, modulo the size of its counter. -/
def Txn.Tallied (txn : Txn) : Prop := txn.nflowop = .ofNat txn.flist.length

/-- The counts and the ids of the group are those of its lists, modulo the size of the
counters. -/
structure Group.Tallied (g : Group) : Prop where
  ntxn : g.ntxn = .ofNat g.tlist.length
  txnids : g.tlist.map (·.txnid) = (List.range g.tlist.length).map .ofNat
  nflowop : ∀ txn ∈ g.tlist, txn.Tallied
  ids : ∀ txn ∈ g.tlist, txn.flist.map (·.id) = (List.range txn.flist.length).map .ofNat

/-- The counts and the ids of the group are those of its lists. -/
structure Group.MatchesLists (g : Group) : Prop where
  ntxn : g.ntxn.toNat = g.tlist.length
  txnids : g.tlist.map (·.txnid.toNat) = List.range g.tlist.length
  nflowop : ∀ txn ∈ g.tlist, txn.nflowop.toNat = txn.flist.length
  ids : ∀ txn ∈ g.tlist, txn.flist.map (·.id.toNat) = List.range txn.flist.length

/-- The counters of the current objects are the variables that number their lists, and the
finished objects have the right counts. -/
structure Builder.Counted (b : Builder) : Prop where
  ntxn : ∀ n ∈ b.counts.1, n = .ofNat b.txnid
  nflowop : ∀ n ∈ b.counts.2, n = .ofNat b.fid
  closedTxns : ∀ txn ∈ b.closedTxns, txn.Tallied
  groups : ∀ g ∈ b.groups, g.Tallied

section

variable {b b' : Builder} {s : Visit} {list : List Visit} {most : ℕ}
  {errors errors' new : List ErrorText}

/-! ## The current objects -/

theorem Builder.counted_empty : Builder.Counted {} := by
  constructor <;> simp [Builder.counts, Builder.closedTxns]

/-- The current transaction has as many flowops as numbers were given to them. -/
theorem Builder.Counted.txn (h : b.Counted) (hids : b.Identified most) {txn : Txn}
    (htxn : b.txn = some txn) : txn.Tallied := by
  obtain ⟨curr, hcurr, rfl⟩ := Option.map_eq_some_iff.mp htxn
  have hcount := h.nflowop curr.nflowop (by simp [Builder.counts, hcurr])
  have hlength : b.flowopIds.length = (curr.flist ++ b.currFlowop.toList).length := by
    cases hf : b.currFlowop <;> simp [Builder.flowopIds, hcurr, hf]
  unfold Txn.Tallied
  simp only
  rw [hcount, hids.fid (by simp [hcurr]), hlength]

/-- All transactions of the current group have. -/
theorem Builder.Counted.allTxns (h : b.Counted) (hids : b.Identified most) :
    ∀ txn ∈ b.closedTxns ++ b.txn.toList, txn.Tallied := by
  intro txn htxn
  obtain hclosed | hcurr := List.mem_append.mp htxn
  · exact h.closedTxns txn hclosed
  · exact h.txn hids (Option.mem_toList.mp hcurr)

/-- The current group has as many transactions as numbers were given to them, and those before
it have the right counts anyway. -/
theorem Builder.Counted.all (h : b.Counted) (hids : b.Identified most) :
    ∀ g ∈ b.grp, g.Tallied := by
  intro g hg
  have hgroup := hids.all g hg
  obtain hbefore | hcurr := List.mem_append.mp hg
  · exact h.groups g hbefore
  · cases hgrp : b.currGrp with
    | none =>
        rw [hgrp] at hcurr
        cases hcurr
    | some curr =>
        rw [hgrp] at hcurr
        obtain rfl := List.mem_singleton.mp hcurr
        have hclosed : b.closedTxns = curr.tlist := by simp [Builder.closedTxns, hgrp]
        have hcount := h.ntxn curr.ntxn (by simp [Builder.counts, hgrp])
        have hlength : b.txnIds.length = (curr.tlist ++ b.txn.toList).length := by
          rw [Builder.txnIds, hclosed]
          cases htxn : b.currTxn <;> simp [Builder.txn, htxn]
        constructor
        · rw [hcount, hids.txnid, hlength]
        · simpa using hgroup.tlist.inOrder
        · have htxns := h.allTxns hids
          rw [hclosed] at htxns
          exact htxns
        · intro txn htxn
          simpa using (hgroup.flist txn htxn).inOrder

/-! ## A round -/

theorem Builder.Counted.of_numbers (h : b.Counted) (hnumbers : b'.numbers = b.numbers)
    (hcounts : b'.counts = b.counts) : b'.Counted := by
  simp only [Builder.numbers, Prod.mk.injEq] at hnumbers
  obtain ⟨hgroups, hgrp, -, -, -, htxnid, hfid⟩ := hnumbers
  have hclosed : b'.closedTxns = b.closedTxns := by
    rw [Builder.closedTxns, hgrp, Builder.closedTxns]
  constructor
  · rw [hcounts, htxnid]
    exact h.ntxn
  · rw [hcounts, hfid]
    exact h.nflowop
  · rw [hclosed]
    exact h.closedTxns
  · rw [hgroups]
    exact h.groups

/-- A round counts what it numbers. -/
theorem Numbering.counted (hround : Numbering b b') (hids : b.Identified most)
    (h : b.Counted) : b'.Counted := by
  cases hround with
  | same hnumbers hcounts => exact h.of_numbers hnumbers hcounts
  | groupStart hb' =>
      subst hb'
      constructor
      · intro n hn
        cases hn
        rfl
      · exact nofun
      · simp [Builder.closedTxns]
      · exact h.all hids
  | txnStart g hg hb' =>
      subst hb'
      have hclosed : b.closedTxns = g.tlist := by simp [Builder.closedTxns, hg]
      constructor
      · intro n hn
        cases hn
        rw [h.ntxn g.ntxn (by simp [Builder.counts, hg]), UInt32.ofNat_add]
        rfl
      · intro n hn
        cases hn
        rfl
      · have hall := h.allTxns hids
        rw [hclosed] at hall
        simpa [Builder.closedTxns] using hall
      · exact h.groups
  | flowopStart txn htxn hb' =>
      subst hb'
      constructor
      · exact h.ntxn
      · intro n hn
        cases hn
        rw [h.nflowop txn.nflowop (by simp [Builder.counts, htxn]), UInt32.ofNat_add]
        rfl
      · exact h.closedTxns
      · exact h.groups

/-! ## A run -/

/-- A round after which there is a builder had one before. -/
theorem buildStep_of_buildSymbol {st st' : Option Builder × List ErrorText}
    (hsymbol : buildSymbol st s = .ok st') (hb' : st'.1 = some b') :
    ∃ b new, st.1 = some b ∧ buildStep b s = .ok (some b', new) := by
  unfold buildSymbol at hsymbol
  split at hsymbol
  · rename_i hnone
    cases hsymbol
    rw [hnone] at hb'
    cases hb'
  · rename_i b hb
    obtain ⟨⟨next, new⟩, hstep, hadd⟩ := bind_eq_ok_iff.mp hsymbol
    obtain ⟨errors, -, heq⟩ := bind_eq_ok_iff.mp hadd
    cases heq
    exact ⟨b, new, hb, hb' ▸ hstep⟩

/-- What holds of the builder after a run, with or without errors. -/
theorem counted_of_loop
    (hloop : loop buildSymbol (some {}, errors) list = .ok (some b, errors')) :
    b.Nested ∧ b.Identified list.length ∧ b.Counted := by
  refine loop_history (P := fun done st => ∀ b, st.1 = some b →
    b.Nested ∧ b.Identified done.length ∧ b.Counted) ?_ ?_ hloop b rfl
  · intro b hb
    cases hb
    exact ⟨Builder.nested_empty, Builder.identified_empty, Builder.counted_empty⟩
  · intro done s st st' hst hsymbol b' hb'
    obtain ⟨b, new, hb, hstep⟩ := buildStep_of_buildSymbol hsymbol hb'
    obtain ⟨hnested, hids, hcounted⟩ := hst b hb
    have hround := buildStep_numbering hnested hstep
    rw [List.length_append]
    exact ⟨hround.nested hnested, hround.identified hids, hround.counted hids hcounted⟩

/-- Numbers that fit the counters are exact. -/
theorem toNat_map_ofNat {n : ℕ} (hn : n ≤ 2 ^ 32) :
    ((List.range n).map UInt32.ofNat).map UInt32.toNat = List.range n := by
  rw [List.map_map]
  refine (List.map_congr_left fun i hi => ?_).trans (List.map_id _)
  exact UInt32.toNat_ofNat_of_lt' ((List.mem_range.mp hi).trans_le hn)

/-- Counts of lists that fit the counters are exact. -/
theorem Group.Tallied.matchesLists {g : Group} (h : g.Tallied) (hids : g.Identified most)
    (hmost : most < 2 ^ 32) : g.MatchesLists := by
  have htlist : g.tlist.length < 2 ^ 32 := by
    have hfew := hids.tlist.few
    rw [List.length_map] at hfew
    omega
  have hflist : ∀ txn ∈ g.tlist, txn.flist.length < 2 ^ 32 := by
    intro txn htxn
    have hfew := (hids.flist txn htxn).few
    rw [List.length_map] at hfew
    omega
  constructor
  · rw [h.ntxn, UInt32.toNat_ofNat_of_lt' htlist]
  · have hnumbers := congrArg (List.map UInt32.toNat) h.txnids
    rw [toNat_map_ofNat htlist.le, List.map_map] at hnumbers
    exact hnumbers
  · intro txn htxn
    rw [h.nflowop txn htxn, UInt32.toNat_ofNat_of_lt' (hflist txn htxn)]
  · intro txn htxn
    have hnumbers := congrArg (List.map UInt32.toNat) (h.ids txn htxn)
    rw [toNat_map_ofNat (hflist txn htxn).le, List.map_map] at hnumbers
    exact hnumbers

end

/-- In a work order that `build_worklist` returns, `ntxn` and `nflowop` are the lengths of the
lists, and the ids are the numbers from zero on in their order.  For more symbols than a
counter can count, of which a file has less, that is so modulo the size of the counters. -/
theorem matches_of_buildWorklist {host : Host} {errors errors' : List ErrorText}
    {list : List Symbol} {b : Builder}
    (hbuild : buildWorklist host errors list = .ok (some b, errors')) :
    (list.length < 2 ^ 32 → ∀ g ∈ b.grp, g.MatchesLists) ∧ ∀ g ∈ b.grp, g.Tallied := by
  obtain ⟨-, hids, hcounted⟩ := counted_of_loop hbuild
  rw [length_visits] at hids
  have hall := hcounted.all hids
  exact ⟨fun hlength g hg => (hall g hg).matchesLists (hids.all g hg) hlength, hall⟩

/-- A group of one transaction with two flowops. -/
def pairSymbols : List Symbol :=
  [⟨.groupStart, [], .token⟩, ⟨.txnStart, [], .token⟩, ⟨.flowopStart, [], .token⟩,
    ⟨.flowopStart, [], .token⟩]

theorem matches_pairSymbols : ∃ b, buildWorklist bareHost [] pairSymbols = .ok (some b, []) ∧
    (pairSymbols.length < 2 ^ 32 → ∀ g ∈ b.grp, g.MatchesLists) ∧ ∀ g ∈ b.grp, g.Tallied :=
  ⟨_, rfl, matches_of_buildWorklist
    (show buildWorklist bareHost [] pairSymbols = .ok (some _, []) from rfl)⟩

end Uperf
