import Mathlib.Data.Finset.Card
import Mathlib.Logic.Function.Basic
import Mathlib.Tactic.Cases

/-!
# Threads that go through phases together

Each thread goes through the phases `0, 1, …` up to a length of its own.  Before
a phase it arrives at the phase's gate, and it passes when the gate is open.  A
gate counts arrivals and is opened when its count has reached its limit, the
number of threads that go through it.  `Phases.Inv.arrived_of_passed` is what
this is for: when a thread has passed a gate, all others that need the gate have
arrived there, whatever the order of the steps.
-/

namespace Uperf.Lib

/-- A field that the new entry of an array has as the old one had it is the same
in all entries. -/
theorem update_field {ι α β : Type*} [DecidableEq ι] {g : ι → α} {i : ι} {a : α} (f : α → β)
    (hf : f a = f (g i)) (j : ι) : f (Function.update g i a j) = f (g j) := by
  calc f (Function.update g i a j)
      = (f ∘ Function.update g i a) j := rfl
    _ = Function.update (f ∘ g) i (f (g i)) j := by rw [Function.comp_update, hf]
    _ = f (g j) := congrFun (Function.update_eq_self i (f ∘ g)) j

/-- How far the threads are, and the gates. -/
@[ext] structure Phases (ι : Type*) where
  length : ι → ℕ
  arrived : ι → ℕ
  passed : ι → ℕ
  count : ℕ → ℕ
  limit : ℕ → ℕ
  opened : ℕ → Prop

namespace Phases

variable {ι : Type*} [DecidableEq ι]

/-- The thread `i` arrives at the gate of its next phase. -/
def arrive (p : Phases ι) (i : ι) : Phases ι :=
  { p with
    arrived := Function.update p.arrived i (p.arrived i + 1)
    count := Function.update p.count (p.arrived i) (p.count (p.arrived i) + 1) }

/-- The thread `i` passes the gate it has arrived at. -/
def pass (p : Phases ι) (i : ι) : Phases ι :=
  { p with passed := Function.update p.passed i (p.passed i + 1) }

/-- The gate of phase `b` is opened. -/
def unlock (p : Phases ι) (b : ℕ) : Phases ι :=
  { p with opened := fun b' => b' = b ∨ p.opened b' }

/-- The steps of the threads in `threads` and of whoever opens the gates. -/
inductive Step (threads : Finset ι) : Phases ι → Phases ι → Prop
  | arrive {p : Phases ι} {i : ι} (hi : i ∈ threads) (hat : p.arrived i = p.passed i)
      (hlen : p.arrived i < p.length i) : Step threads p (p.arrive i)
  | pass {p : Phases ι} {i : ι} (hi : i ∈ threads) (hat : p.arrived i = p.passed i + 1)
      (hopen : p.opened (p.passed i)) : Step threads p (p.pass i)
  | unlock {p : Phases ι} {b : ℕ} (hfull : p.count b = p.limit b) : Step threads p (p.unlock b)

/-- All threads that need the gate of phase `b` have arrived there. -/
def Gathered (threads : Finset ι) (p : Phases ι) (b : ℕ) : Prop :=
  ∀ i ∈ threads, b < p.length i → b < p.arrived i

/-- Counts and limits are right, and only full gates are open. -/
structure Inv (threads : Finset ι) (p : Phases ι) : Prop where
  limit : ∀ b, p.limit b = (threads.filter fun i => b < p.length i).card
  count : ∀ b, p.count b = (threads.filter fun i => b < p.arrived i).card
  arrived_le : ∀ i ∈ threads, p.arrived i ≤ p.length i
  passed_le : ∀ i ∈ threads, p.passed i ≤ p.arrived i
  gathered : ∀ b, p.opened b → Gathered threads p b
  opened : ∀ i ∈ threads, ∀ b < p.passed i, p.opened b

section

variable {threads : Finset ι} {p p' : Phases ι}

omit [DecidableEq ι] in
/-- A gate whose count has reached its limit has all its threads. -/
theorem Inv.gathered_of_full (h : Inv threads p) {b : ℕ} (hfull : p.count b = p.limit b) :
    Gathered threads p b := by
  have hsub : (threads.filter fun i => b < p.arrived i) ⊆
      threads.filter fun i => b < p.length i := by
    intro i hi
    obtain ⟨hi, hb⟩ := Finset.mem_filter.mp hi
    exact Finset.mem_filter.mpr ⟨hi, hb.trans_le (h.arrived_le i hi)⟩
  have hcard : (threads.filter fun i => b < p.length i).card ≤
      (threads.filter fun i => b < p.arrived i).card := by
    rw [← h.limit, ← h.count, hfull]
  have heq := Finset.eq_of_subset_of_card_le hsub hcard
  intro i hi hb
  have hmem : i ∈ threads.filter fun i => b < p.length i := Finset.mem_filter.mpr ⟨hi, hb⟩
  rw [← heq] at hmem
  exact (Finset.mem_filter.mp hmem).2

omit [DecidableEq ι] in
/-- A gate that has all its threads is full. -/
theorem Inv.full_of_gathered (h : Inv threads p) {b : ℕ} (hb : Gathered threads p b) :
    p.count b = p.limit b := by
  rw [h.count, h.limit]
  refine congrArg Finset.card (Finset.filter_congr fun i hi => ⟨fun harrived => ?_, hb i hi⟩)
  exact harrived.trans_le (h.arrived_le i hi)

/-- Only the gate of the arriving thread sees one thread more. -/
theorem filter_arrived_arrive {i : ι} (hi : i ∈ threads) (b : ℕ) :
    (threads.filter fun j => b < (p.arrive i).arrived j).card =
      (threads.filter fun j => b < p.arrived j).card + if b = p.arrived i then 1 else 0 := by
  by_cases hb : b = p.arrived i
  · subst hb
    have hinsert : (threads.filter fun j => p.arrived i < (p.arrive i).arrived j) =
        insert i (threads.filter fun j => p.arrived i < p.arrived j) := by
      ext j
      rw [Finset.mem_insert, Finset.mem_filter, Finset.mem_filter]
      by_cases hji : j = i
      · subst hji
        simp [arrive, hi]
      · simp [arrive, hji]
    rw [hinsert, Finset.card_insert_of_notMem (by simp), if_pos rfl]
  · have hsame : (threads.filter fun j => b < (p.arrive i).arrived j) =
        threads.filter fun j => b < p.arrived j := by
      refine Finset.filter_congr fun j _ => ?_
      by_cases hji : j = i
      · subst hji
        simp only [arrive, Function.update_self]
        omega
      · simp [arrive, hji]
    rw [hsame, if_neg hb, Nat.add_zero]

theorem Gathered.arrive {i : ι} {b : ℕ} (h : Gathered threads p b) :
    Gathered threads (p.arrive i) b := by
  intro j hj hb
  have hbefore : b < p.arrived j := h j hj hb
  by_cases hji : j = i
  · subst hji
    simp only [Phases.arrive, Function.update_self]
    omega
  · simpa [Phases.arrive, hji] using hbefore

theorem Inv.arrive (h : Inv threads p) {i : ι} (hi : i ∈ threads)
    (hlen : p.arrived i < p.length i) : Inv threads (p.arrive i) where
  limit := h.limit
  count b := by
    rw [filter_arrived_arrive hi]
    by_cases hb : b = p.arrived i
    · subst hb
      simp [Phases.arrive, h.count]
    · simp [Phases.arrive, hb, h.count]
  arrived_le j hj := by
    by_cases hji : j = i
    · subst hji
      simpa [Phases.arrive] using Nat.succ_le_of_lt hlen
    · simpa [Phases.arrive, hji] using h.arrived_le j hj
  passed_le j hj := by
    have hbefore := h.passed_le j hj
    by_cases hji : j = i
    · subst hji
      simp only [Phases.arrive, Function.update_self]
      omega
    · simpa [Phases.arrive, hji] using hbefore
  gathered b hopen := (h.gathered b hopen).arrive
  opened := h.opened

theorem Inv.pass (h : Inv threads p) {i : ι} (hat : p.arrived i = p.passed i + 1)
    (hopen : p.opened (p.passed i)) : Inv threads (p.pass i) where
  limit := h.limit
  count := h.count
  arrived_le := h.arrived_le
  passed_le j hj := by
    by_cases hji : j = i
    · subst hji
      simp [Phases.pass, hat]
    · simpa [Phases.pass, hji] using h.passed_le j hj
  gathered := h.gathered
  opened j hj b hb := by
    by_cases hji : j = i
    · subst hji
      simp only [Phases.pass, Function.update_self] at hb
      rcases Nat.lt_succ_iff_lt_or_eq.mp hb with hlt | heq
      · exact h.opened j hj b hlt
      · rw [heq]
        exact hopen
    · simp only [Phases.pass, Function.update_of_ne hji] at hb
      exact h.opened j hj b hb

omit [DecidableEq ι] in
theorem Inv.unlock (h : Inv threads p) {b : ℕ} (hfull : p.count b = p.limit b) :
    Inv threads (p.unlock b) where
  limit := h.limit
  count := h.count
  arrived_le := h.arrived_le
  passed_le := h.passed_le
  gathered b' hopen := by
    rcases hopen with heq | hopen
    · subst heq
      exact h.gathered_of_full hfull
    · exact h.gathered b' hopen
  opened i hi b' hb' := .inr (h.opened i hi b' hb')

theorem Inv.step (h : Inv threads p) (hstep : Step threads p p') : Inv threads p' := by
  cases hstep with
  | arrive hi _ hlen => exact h.arrive hi hlen
  | pass _ hat hopen => exact h.pass hat hopen
  | unlock hfull => exact h.unlock hfull

/-- A gate keeps its threads. -/
theorem Gathered.step {b : ℕ} (h : Gathered threads p b) (hstep : Step threads p p') :
    Gathered threads p' b := by
  cases hstep with
  | arrive => exact h.arrive
  | pass | unlock => exact h

omit [DecidableEq ι]

/-- The gates are right at the start. -/
theorem Inv.start {length : ι → ℕ} {limit : ℕ → ℕ} {opened : ℕ → Prop}
    (hlimit : ∀ b, limit b = (threads.filter fun i => b < length i).card)
    (hclosed : ∀ b, opened b → ∀ i ∈ threads, length i ≤ b) :
    Inv threads
      { length := length, arrived := fun _ => 0, passed := fun _ => 0, count := fun _ => 0,
        limit := limit, opened := opened } where
  limit := hlimit
  count b := by simp
  arrived_le _ _ := Nat.zero_le _
  passed_le _ _ := Nat.zero_le _
  gathered b hopen i hi hb := absurd hb (not_lt.mpr (hclosed b hopen i hi))
  opened _ _ b hb := absurd hb (Nat.not_lt_zero b)

/-- When a thread has passed a gate, all threads that need the gate have
arrived. -/
theorem Inv.arrived_of_passed (h : Inv threads p) {i : ι} (hi : i ∈ threads) {b : ℕ}
    (hb : b < p.passed i) : Gathered threads p b :=
  h.gathered b (h.opened i hi b hb)

end

end Phases

end Uperf.Lib
