import Uperf.Report.Details

/-!
# Extrema over the records

The reports add up records with `add_stats`, from a record whose `min` and
`start_time` are as large as they can be.  A record of a flowop that a strand did not
get to is still zero, and zero is then the least of all.
-/

namespace Uperf

open Lib

/-! ## Records -/

/-- The second record is what a call of `newstat_begin` and one of `newstat_end` leave of
the first, whatever the clock shows. -/
def Paired (ns ns' : Newstats) : Prop :=
  ∃ (σ : Type) (C : Clock σ) (copt : UInt32) (size count : UInt64) (s s' : σ),
    (do newstatEnd C copt (← newstatBegin C copt ns) size count : Exec σ Newstats).runFrom s =
      (some ns', s')

/-- A record as the strands leave it, and whether it was begun: zero, or the result of
pairs of calls. -/
inductive KeptAs : Bool → Newstats → Prop
  | fresh : KeptAs false {}
  | pair {begun : Bool} {ns ns' : Newstats} (hbefore : KeptAs begun ns) (hpair : Paired ns ns') :
      KeptAs true ns'

/-- An entry of the array of statistics. -/
structure KeptStats where
  begun : Bool
  stats : Newstats
  recorded : KeptAs begun stats

/-- An entry that was never begun is zero. -/
theorem KeptStats.stats_of_not_begun (p : KeptStats) (h : p.begun = false) : p.stats = {} := by
  obtain ⟨begun, stats, hrecorded⟩ := p
  cases hrecorded with
  | fresh => rfl
  | pair hbefore hpair => cases h

/-! ## Extrema -/

/-- The least of the numbers; without one it is `ULONG_MAX`. -/
def least (values : List ℕ) : ℕ := values.foldr min (2 ^ 64 - 1)

/-- The greatest of the numbers; without one it is zero. -/
def greatest (values : List ℕ) : ℕ := values.foldr max 0

/-- The initial value of the reports. -/
def emptyStats : Newstats := { min := ulongMax, startTime := ulongMax }

/-- The record of a report over the entries. -/
def addAll (entries : List KeptStats) : Newstats :=
  entries.foldl (fun ns p => addStats ns p.stats) emptyStats

/-- A field of the entries that were begun. -/
def begunValues (field : Newstats → UInt64) (entries : List KeptStats) : List ℕ :=
  (entries.filter KeptStats.begun).map fun p => (field p.stats).toNat

/-- The extrema of a report, in whatever order it goes through the entries, are those of
the entries that were begun. -/
structure IgnoresUnbegun (entries : List KeptStats) : Prop where
  startTime : ∀ order, order.Perm entries →
    (addAll order).startTime.toNat = least (begunValues Newstats.startTime entries)
  min : ∀ order, order.Perm entries →
    (addAll order).min.toNat = least (begunValues Newstats.min entries)
  endTime : ∀ order, order.Perm entries →
    (addAll order).endTime.toNat = greatest (begunValues Newstats.endTime entries)
  max : ∀ order, order.Perm entries →
    (addAll order).max.toNat = greatest (begunValues Newstats.max entries)

section

variable {entries : List KeptStats}

theorem least_cons (n : ℕ) (rest : List ℕ) : least (n :: rest) = min n (least rest) := rfl

theorem greatest_cons (n : ℕ) (rest : List ℕ) : greatest (n :: rest) = max n (greatest rest) := rfl

theorem least_le (values : List ℕ) : least values ≤ 2 ^ 64 - 1 := by
  induction values with
  | nil => exact le_rfl
  | cons n rest ih => exact (min_le_right _ _).trans ih

/-- Zero is the least only where it occurs. -/
theorem least_eq_zero_iff {values : List ℕ} : least values = 0 ↔ 0 ∈ values := by
  induction values with
  | nil => simp [least]
  | cons n rest ih =>
      rw [least_cons, List.mem_cons, ← ih]
      omega

theorem least_perm {values values' : List ℕ} (h : values.Perm values') :
    least values = least values' := h.foldr_eq _

theorem greatest_perm {values values' : List ℕ} (h : values.Perm values') :
    greatest values = greatest values' := h.foldr_eq _

/-! ## The fold -/

/-- What `add_stats` takes the minimum of has the least value in the end. -/
theorem addAll_least {field : Newstats → UInt64} (hinit : field emptyStats = ulongMax)
    (hstep : ∀ s1 s2, (field (addStats s1 s2)).toNat = min (field s1).toNat (field s2).toNat)
    (entries : List KeptStats) :
    (field (addAll entries)).toNat = least (entries.map fun p => (field p.stats).toNat) := by
  have hfold : ∀ (rest : List KeptStats) (ns : Newstats),
      (field (rest.foldl (fun ns p => addStats ns p.stats) ns)).toNat =
        min (field ns).toNat (least (rest.map fun p => (field p.stats).toNat)) := by
    intro rest
    induction rest with
    | nil =>
        intro ns
        have hlt := (field ns).toNat_lt
        simp only [List.foldl_nil, List.map_nil, least, List.foldr_nil]
        omega
    | cons p rest ih =>
        intro ns
        rw [List.foldl_cons, ih, hstep, List.map_cons, least_cons, min_assoc]
  have hmax : ulongMax.toNat = 2 ^ 64 - 1 := by decide
  have hle := least_le (entries.map fun p => (field p.stats).toNat)
  rw [addAll, hfold, hinit, hmax, min_eq_right hle]

/-- What `add_stats` takes the maximum of has the greatest value in the end. -/
theorem addAll_greatest {field : Newstats → UInt64} (hinit : field emptyStats = 0)
    (hstep : ∀ s1 s2, (field (addStats s1 s2)).toNat = max (field s1).toNat (field s2).toNat)
    (entries : List KeptStats) :
    (field (addAll entries)).toNat = greatest (entries.map fun p => (field p.stats).toNat) := by
  have hfold : ∀ (rest : List KeptStats) (ns : Newstats),
      (field (rest.foldl (fun ns p => addStats ns p.stats) ns)).toNat =
        max (field ns).toNat (greatest (rest.map fun p => (field p.stats).toNat)) := by
    intro rest
    induction rest with
    | nil =>
        intro ns
        simp [greatest]
    | cons p rest ih =>
        intro ns
        rw [List.foldl_cons, ih, hstep, List.map_cons, greatest_cons, max_assoc]
  rw [addAll, hfold, hinit, UInt64.toNat_zero, Nat.zero_max]

/-! ## Entries that were not begun -/

/-- They do not count for a maximum. -/
theorem greatest_begunValues {field : Newstats → UInt64} (hzero : field {} = 0)
    (entries : List KeptStats) :
    greatest (begunValues field entries) =
      greatest (entries.map fun p => (field p.stats).toNat) := by
  induction entries with
  | nil => rfl
  | cons p rest ih =>
      unfold begunValues at ih ⊢
      rw [List.map_cons, greatest_cons]
      cases hbegun : p.begun with
      | true => rw [List.filter_cons_of_pos hbegun, List.map_cons, greatest_cons, ih]
      | false =>
          rw [List.filter_cons_of_neg (by simp [hbegun]), p.stats_of_not_begun hbegun, hzero,
            UInt64.toNat_zero, Nat.zero_max, ih]

/-- They do not count for a minimum only if there are none, or the minimum is zero
without them. -/
theorem least_begunValues_iff {field : Newstats → UInt64} (hzero : field {} = 0)
    (entries : List KeptStats) :
    least (entries.map fun p => (field p.stats).toNat) = least (begunValues field entries) ↔
      (∀ p ∈ entries, p.begun = true) ∨ ∃ p ∈ entries, p.begun = true ∧ field p.stats = 0 := by
  have hmem : 0 ∈ begunValues field entries ↔
      ∃ p ∈ entries, p.begun = true ∧ field p.stats = 0 := by
    unfold begunValues
    simp only [List.mem_map, List.mem_filter, and_assoc]
    constructor
    · rintro ⟨p, hp, hbegun, hfield⟩
      exact ⟨p, hp, hbegun, UInt64.toNat_inj.mp hfield⟩
    · rintro ⟨p, hp, hbegun, hfield⟩
      exact ⟨p, hp, hbegun, by rw [hfield, UInt64.toNat_zero]⟩
  rw [← hmem, ← least_eq_zero_iff]
  constructor
  · intro hsame
    refine or_iff_not_imp_left.mpr fun hnot => ?_
    rw [not_forall] at hnot
    obtain ⟨p, hp⟩ := hnot
    rw [Classical.not_imp] at hp
    obtain ⟨hp, hbegun⟩ := hp
    rw [← hsame, least_eq_zero_iff]
    refine List.mem_map.mpr ⟨p, hp, ?_⟩
    rw [p.stats_of_not_begun (by simpa using hbegun), hzero, UInt64.toNat_zero]
  · rintro (hall | hleast)
    · rw [begunValues, List.filter_eq_self.mpr hall]
    · rw [hleast, least_eq_zero_iff]
      obtain ⟨p, hp, -, hfield⟩ := hmem.mp (least_eq_zero_iff.mp hleast)
      exact List.mem_map.mpr ⟨p, hp, by rw [hfield, UInt64.toNat_zero]⟩

/-! ## The reports -/

theorem toNat_minimum (a b : UInt64) : (if a < b then a else b).toNat = min a.toNat b.toNat := by
  split
  · rename_i h
    rw [min_eq_left (UInt64.lt_iff_toNat_lt.mp h).le]
  · rename_i h
    rw [min_eq_right (UInt64.le_iff_toNat_le.mp (UInt64.not_lt.mp h))]

theorem toNat_maximum (a b : UInt64) : (if a > b then a else b).toNat = max a.toNat b.toNat := by
  split
  · rename_i h
    rw [max_eq_left (UInt64.lt_iff_toNat_lt.mp h).le]
  · rename_i h
    rw [max_eq_right (UInt64.le_iff_toNat_le.mp (UInt64.not_lt.mp h))]

/-- A report ignores the entries that were never begun only if there are none, or if the
begun ones have a `start_time` of zero and a `min` of zero among them. -/
theorem ignoresUnbegun_iff (entries : List KeptStats) :
    IgnoresUnbegun entries ↔
      (∀ p ∈ entries, p.begun = true) ∨
        ((∃ p ∈ entries, p.begun = true ∧ p.stats.startTime = 0) ∧
          ∃ p ∈ entries, p.begun = true ∧ p.stats.min = 0) := by
  have hstart : ∀ order : List KeptStats, order.Perm entries →
      (addAll order).startTime.toNat =
        least (entries.map fun p => p.stats.startTime.toNat) := by
    intro order horder
    rw [addAll_least rfl fun s1 s2 => toNat_minimum s1.startTime s2.startTime]
    exact least_perm (horder.map _)
  have hmin : ∀ order : List KeptStats, order.Perm entries →
      (addAll order).min.toNat = least (entries.map fun p => p.stats.min.toNat) := by
    intro order horder
    rw [addAll_least rfl fun s1 s2 => toNat_minimum s1.min s2.min]
    exact least_perm (horder.map _)
  rw [or_and_left, ← least_begunValues_iff rfl, ← least_begunValues_iff rfl]
  constructor
  · intro h
    refine ⟨?_, ?_⟩
    · rw [← hstart entries (List.Perm.refl _)]
      exact h.startTime entries (List.Perm.refl _)
    · rw [← hmin entries (List.Perm.refl _)]
      exact h.min entries (List.Perm.refl _)
  · rintro ⟨hstartTime, hminimum⟩
    exact {
      startTime := fun order horder => (hstart order horder).trans hstartTime
      min := fun order horder => (hmin order horder).trans hminimum
      endTime := fun order horder => by
        rw [addAll_greatest rfl fun s1 s2 => toNat_maximum s1.endTime s2.endTime,
          greatest_begunValues rfl]
        exact greatest_perm (horder.map _)
      max := fun order horder => by
        rw [addAll_greatest rfl fun s1 s2 => toNat_maximum s1.max s2.max,
          greatest_begunValues rfl]
        exact greatest_perm (horder.map _) }

end

/-- A clock that goes on by one at every reading. -/
def tickingClock : Clock ℕ where
  hrtime := do
    let now ← Exec.state
    Exec.change Nat.succ
    pure now.toUInt64
  hrvtime := pure 0

/-- The entry of a flowop that ran once, from 5 to 7, and that of one that did not. -/
def oneOfTwo : List KeptStats :=
  [{ begun := true
     stats :=
      { startTime := 5, endTime := 7, timeUsedStart := 6, timeUsed := 1, max := 1, min := 1,
        size := 8, count := 1 }
     recorded := .pair .fresh ⟨ℕ, tickingClock, 0, 8, 1, 5, 8, rfl⟩ },
    { begun := false, stats := {}, recorded := .fresh }]

theorem not_ignoresUnbegun_oneOfTwo : ¬ ∀ entries, IgnoresUnbegun entries := by
  intro h
  have hstart := (h oneOfTwo).startTime oneOfTwo (List.Perm.refl _)
  exact absurd hstart (by decide)

end Uperf
