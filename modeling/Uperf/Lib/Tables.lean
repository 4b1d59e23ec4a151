import Mathlib.Algebra.BigOperators.Group.List.Basic
import Mathlib.Data.List.Nodup
import Mathlib.Data.Prod.Basic
import Mathlib.Data.UInt

/-!
# Tables over lists

A table has rows, and each of them adds up the items that it is about.  All rows
together have an item as often as there are rows about it; with rows that have
different keys, and an item about one key, that is once.
-/

namespace Uperf.Lib

variable {ρ α β κ M : Type*}

/-- What the rows add up, item by item. -/
theorem sum_rows [AddCommMonoid M] (rows : List ρ) (items : List β) (about : ρ → β → Bool)
    (value : β → M) :
    (rows.map fun row => (items.map fun b => if about row b then value b else 0).sum).sum =
      (items.map fun b => (rows.countP fun row => about row b) • value b).sum := by
  induction rows with
  | nil => simp
  | cons row rest ih =>
      rw [List.map_cons, List.sum_cons, ih, ← List.sum_map_add]
      apply congrArg
      apply List.map_congr_left
      intro b _
      rw [List.countP_cons, add_nsmul, add_comm]
      congr 1
      split_ifs
      · exact (one_nsmul _).symm
      · exact (zero_nsmul _).symm

/-- The rows about an item, where each is about the selected items of one key. -/
theorem countP_rows [DecidableEq κ] [BEq κ] [LawfulBEq κ] (keys : List κ) (select : β → Prop)
    [DecidablePred select] (key : β → κ) (b : β) :
    ((keys.map fun k b => decide (select b ∧ key b = k)).countP fun row => row b) =
      if select b then keys.count (key b) else 0 := by
  rw [List.countP_map, List.count_eq_countP]
  split_ifs with hselect
  · apply List.countP_congr
    intro k _
    simp only [Function.comp_apply, hselect, true_and, decide_eq_true_eq, beq_iff_eq]
    exact ⟨Eq.symm, Eq.symm⟩
  · apply List.countP_eq_zero.mpr
    intro k _
    simp [hselect]

/-- Pairs of a key and something else differ where the keys do. -/
theorem nodup_flatMap_key {key : α → κ} {inner : α → List β} {list : List α}
    (hkey : (list.map key).Nodup) (hinner : ∀ a ∈ list, (inner a).Nodup) :
    (list.flatMap fun a => (inner a).map (Prod.mk (key a))).Nodup := by
  rw [List.nodup_flatMap]
  constructor
  · exact fun a ha => (hinner a ha).map (Prod.mk_right_injective (key a))
  · apply (List.pairwise_map.mp hkey).imp
    intro a a' hne pair hpair hpair'
    obtain ⟨b, -, rfl⟩ := List.mem_map.mp hpair
    obtain ⟨b', -, heq⟩ := List.mem_map.mp hpair'
    exact hne (congrArg Prod.fst heq).symm

/-- A word as often as a number says. -/
theorem nsmul_eq_ofNat_mul (n : ℕ) (a : UInt64) : n • a = UInt64.ofNat n * a := by
  induction n with
  | zero => rw [zero_nsmul, show UInt64.ofNat 0 = 0 from rfl, zero_mul]
  | succ n ih =>
      rw [succ_nsmul, ih, UInt64.ofNat_add, add_mul, show UInt64.ofNat 1 = 1 from rfl, one_mul]

end Uperf.Lib
