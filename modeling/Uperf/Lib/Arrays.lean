import Mathlib.Data.Vector.Basic
import Mathlib.Order.Basic

/-!
# Loops over an array

A loop changes the entries of an array of a fixed size one after the other, up to a bound
that need not be within the array.
-/

namespace Uperf.Lib

variable {α : Type*} {n : ℕ}

/-- The loop over the entries below `m`; without a result it goes past the end. -/
def changeBelow (f : Fin n → α → α) (m : ℕ) (v : Vector α n) : Option (Vector α n) :=
  (List.range m).foldlM
    (fun v j => if h : j < n then some (v.set j (f ⟨j, h⟩ v[j])) else none) v

/-- Within the array the loop changes each entry once. -/
theorem changeBelow_of_le (f : Fin n → α → α) {m : ℕ} (hm : m ≤ n) (v : Vector α n) :
    changeBelow f m v =
      some (Vector.ofFn fun i => if i.val < m then f i v[i.val] else v[i.val]) := by
  induction m with
  | zero => simp [changeBelow]
  | succ m ih =>
      have hlt : m < n := hm
      have hbefore := ih hlt.le
      rw [changeBelow] at hbefore ⊢
      rw [List.range_succ, List.foldlM_append, hbefore]
      simp only [Option.bind_eq_bind, Option.bind_some, List.foldlM_cons, List.foldlM_nil,
        dif_pos hlt]
      apply congrArg some
      ext i hi
      rw [Vector.getElem_set, Vector.getElem_ofFn, Vector.getElem_ofFn, Vector.getElem_ofFn]
      simp only
      by_cases heq : m = i
      · subst heq
        rw [if_pos rfl, if_neg (lt_irrefl m), if_pos (Nat.lt_succ_self m)]
      · have hiff : i < m + 1 ↔ i < m := by omega
        simp only [if_neg heq, hiff]

/-- A loop with a result has stayed within the array. -/
theorem le_of_changeBelow {f : Fin n → α → α} {m : ℕ} {v v' : Vector α n}
    (h : changeBelow f m v = some v') : m ≤ n := by
  cases m with
  | zero => exact Nat.zero_le n
  | succ m =>
      rw [changeBelow, List.range_succ, List.foldlM_append] at h
      obtain ⟨mid, -, hlast⟩ := Option.bind_eq_some_iff.mp h
      rw [List.foldlM_cons] at hlast
      obtain ⟨last, hlast, -⟩ := Option.bind_eq_some_iff.mp hlast
      by_contra hle
      have hlt : ¬ m < n := hle
      rw [dif_neg hlt] at hlast
      cases hlast

end Uperf.Lib
