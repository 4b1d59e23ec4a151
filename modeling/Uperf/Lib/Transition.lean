import Mathlib.Data.List.Basic

/-!
# Runs of a transition system

A system is a partial step function on states and actions, and a run a list of
actions each of which is possible where it is taken.  What every step preserves
holds after a run; a run may also be asked to take only steps of some kind.
-/

namespace Uperf.Lib

variable {σ α : Type*}

/-- The state after the actions, if each of them is possible. -/
def run (step : σ → α → Option σ) (st : σ) (acts : List α) : Option σ := acts.foldlM step st

/-- Every action of the run meets `allowed` in the state where it is taken. -/
def Along (step : σ → α → Option σ) (allowed : σ → α → Prop) : σ → List α → Prop
  | _, [] => True
  | st, act :: rest =>
      allowed st act ∧ ∀ st', step st act = some st' → Along step allowed st' rest

variable {step : σ → α → Option σ} {st st' : σ} {acts : List α}

theorem run_cons {act : α} :
    run step st (act :: acts) = some st' ↔
      ∃ mid, step st act = some mid ∧ run step mid acts = some st' := by
  simp [run, Option.bind_eq_some_iff]

theorem run_append {rest : List α} :
    run step st (acts ++ rest) = (run step st acts).bind fun mid => run step mid rest := by
  simp [run]

/-- A property that the steps of the allowed kind preserve holds after a run of
such steps. -/
theorem run_invariant_of {allowed : σ → α → Prop} {P : σ → Prop}
    (hstep : ∀ st act st', P st → allowed st act → step st act = some st' → P st')
    (hst : P st) (hallowed : Along step allowed st acts) (hrun : run step st acts = some st') :
    P st' := by
  induction acts generalizing st with
  | nil =>
      cases hrun
      exact hst
  | cons act rest ih =>
      obtain ⟨mid, hmid, hrest⟩ := run_cons.mp hrun
      obtain ⟨hact, htail⟩ := hallowed
      exact ih (hstep st act mid hst hact hmid) (htail mid hmid) hrest

theorem along_true : Along step (fun _ _ => True) st acts := by
  induction acts generalizing st with
  | nil => trivial
  | cons act rest ih => exact ⟨trivial, fun _ _ => ih⟩

/-- A run whose actions are allowed everywhere. -/
theorem along_of_forall {allowed : σ → α → Prop} (hall : ∀ act ∈ acts, ∀ st, allowed st act) :
    Along step allowed st acts := by
  induction acts generalizing st with
  | nil => trivial
  | cons act rest ih =>
      refine ⟨hall act List.mem_cons_self st, fun st' _ => ih fun act' hact' => ?_⟩
      exact hall act' (List.mem_cons_of_mem act hact')

theorem Along.cons {allowed : σ → α → Prop} {act : α} {rest : List α} {mid : σ}
    (hact : allowed st act) (hstep : step st act = some mid)
    (hrest : Along step allowed mid rest) : Along step allowed st (act :: rest) := by
  refine ⟨hact, fun st' hst' => ?_⟩
  rw [hstep] at hst'
  cases hst'
  exact hrest

theorem along_append {allowed : σ → α → Prop} {rest : List α}
    (hfirst : Along step allowed st acts)
    (hrest : ∀ mid, run step st acts = some mid → Along step allowed mid rest) :
    Along step allowed st (acts ++ rest) := by
  induction acts generalizing st with
  | nil => exact hrest st rfl
  | cons act acts ih =>
      refine ⟨hfirst.1, fun st' hst' => ih (hfirst.2 st' hst') fun mid hmid => ?_⟩
      exact hrest mid (run_cons.mpr ⟨st', hst', hmid⟩)

theorem Along.of_append {allowed : σ → α → Prop} {rest : List α} {mid : σ}
    (h : Along step allowed st (acts ++ rest)) (hrun : run step st acts = some mid) :
    Along step allowed mid rest := by
  induction acts generalizing st with
  | nil =>
      cases hrun
      exact h
  | cons act acts ih =>
      obtain ⟨st', hst', hrun⟩ := run_cons.mp hrun
      exact ih (h.2 st' hst') hrun

/-- A run of a system that records more than another one. -/
theorem run_map {τ : Type*} {π : τ → σ} {step' : τ → α → Option τ}
    (hstep : ∀ st act, (step' st act).map π = step (π st) act) (st : τ) (acts : List α) :
    (run step' st acts).map π = run step (π st) acts := by
  induction acts generalizing st with
  | nil => rfl
  | cons act rest ih =>
      simp only [run, List.foldlM_cons, ← hstep]
      cases step' st act with
      | none => rfl
      | some st' => exact ih st'

/-- A property of the actions taken and the state they lead to. -/
theorem run_history {P : List α → σ → Prop}
    (hstep : ∀ done, ∀ act ∈ acts, ∀ st st', P done st → step st act = some st' →
      P (done ++ [act]) st')
    (hst : P [] st) (hrun : run step st acts = some st') : P acts st' := by
  have hrest : ∀ (todo done : List α) (mid : σ), todo ⊆ acts → P done mid →
      run step mid todo = some st' → P (done ++ todo) st' := by
    intro todo
    induction todo with
    | nil =>
        intro done mid _ hmid hrun
        cases hrun
        simpa using hmid
    | cons act rest ih =>
        intro done mid hsub hmid hrun
        obtain ⟨mid', hact, hrun⟩ := run_cons.mp hrun
        have hnext := hstep done act (hsub List.mem_cons_self) mid mid' hmid hact
        simpa using ih (done ++ [act]) mid' (List.subset_of_cons_subset hsub) hnext hrun
  simpa using hrest acts [] st (List.Subset.refl acts) hst hrun

/-- A property that every step preserves holds after a run. -/
theorem run_invariant {P : σ → Prop}
    (hstep : ∀ st act st', P st → step st act = some st' → P st') (hst : P st)
    (hrun : run step st acts = some st') : P st' :=
  run_invariant_of (fun st act st' h _ => hstep st act st' h) hst along_true hrun

/-- Two properties of steps that agree where an invariant holds, and of which the
second preserves it, hold along the same runs. -/
theorem along_iff_of {P Q : σ → α → Prop} (inv : σ → Prop)
    (hiff : ∀ st, ∀ act ∈ acts, inv st → (P st act ↔ Q st act))
    (hstep : ∀ st, ∀ act ∈ acts, ∀ st', inv st → Q st act → step st act = some st' → inv st')
    (hst : inv st) : Along step P st acts ↔ Along step Q st acts := by
  induction acts generalizing st with
  | nil => exact Iff.rfl
  | cons act rest ih =>
      have hact := hiff st act List.mem_cons_self hst
      have hnext : ∀ st', step st act = some st' → Q st act →
          (Along step P st' rest ↔ Along step Q st' rest) := fun st' hst' hq =>
        ih (fun st act hmem => hiff st act (List.mem_cons_of_mem _ hmem))
          (fun st act hmem => hstep st act (List.mem_cons_of_mem _ hmem))
          (hstep st act List.mem_cons_self st' hst hq hst')
      constructor
      · rintro ⟨hp, htail⟩
        have hq := hact.mp hp
        exact ⟨hq, fun st' hst' => (hnext st' hst' hq).mp (htail st' hst')⟩
      · rintro ⟨hq, htail⟩
        exact ⟨hact.mpr hq, fun st' hst' => (hnext st' hst' hq).mpr (htail st' hst')⟩

/-- What holds of the allowed steps where an invariant holds that they preserve,
holds along a run of such steps. -/
theorem Along.of_invariant {allowed Q : σ → α → Prop} (inv : σ → Prop)
    (hkeep : ∀ st act st', inv st → allowed st act → step st act = some st' → inv st')
    (hholds : ∀ st act, inv st → allowed st act → Q st act) (hst : inv st)
    (hallowed : Along step allowed st acts) : Along step Q st acts := by
  induction acts generalizing st with
  | nil => trivial
  | cons act rest ih =>
      obtain ⟨hact, htail⟩ := hallowed
      refine ⟨hholds st act hst hact, fun st' hst' => ?_⟩
      exact ih (hkeep st act st' hst hact hst') (htail st' hst')

/-- If the steps of the allowed kind are those that keep a property, then every part of
a run can be taken and keeps it exactly if all steps are allowed. -/
theorem prefixes_iff_along (inv : σ → Prop) {P : σ → Prop} {allowed : σ → α → Prop}
    (hiff : ∀ st act, inv st → P st → (allowed st act ↔ ∃ st', step st act = some st' ∧ P st'))
    (hinv : ∀ st act st', inv st → P st → step st act = some st' → inv st')
    (hst : inv st) (hP : P st) :
    (∀ done, done <+: acts → ∃ st', run step st done = some st' ∧ P st') ↔
      Along step allowed st acts := by
  induction acts generalizing st with
  | nil =>
      apply iff_of_true _ trivial
      intro done hdone
      rw [List.prefix_nil.mp hdone]
      exact ⟨st, rfl, hP⟩
  | cons act rest ih =>
      constructor
      · intro hall
        obtain ⟨st', hrun, hP'⟩ := hall [act] (by simp)
        obtain ⟨mid, hstep, hmid⟩ := run_cons.mp hrun
        cases hmid
        refine ⟨(hiff st act hst hP).mpr ⟨st', hstep, hP'⟩, fun st'' hst'' => ?_⟩
        rw [hstep] at hst''
        cases hst''
        refine (ih (hinv st act st' hst hP hstep) hP').mp fun done hdone => ?_
        obtain ⟨last, hlast, hPlast⟩ := hall (act :: done) (List.prefix_cons_inj act |>.mpr hdone)
        obtain ⟨mid, hmid, hrest⟩ := run_cons.mp hlast
        rw [hstep] at hmid
        cases hmid
        exact ⟨last, hrest, hPlast⟩
      · rintro ⟨hact, htail⟩ done hdone
        obtain ⟨st', hstep, hP'⟩ := (hiff st act hst hP).mp hact
        cases done with
        | nil => exact ⟨st, rfl, hP⟩
        | cons act' done =>
            obtain ⟨rfl, hbegins⟩ := List.cons_prefix_cons.mp hdone
            obtain ⟨last, hrest, hPlast⟩ := (ih (hinv st act' st' hst hP hstep) hP').mpr
              (htail st' hstep) done hbegins
            exact ⟨last, run_cons.mpr ⟨st', hstep, hrest⟩, hPlast⟩

/-- If a step is allowed exactly when every state that it may lead to has a property, then
all states of a run have it exactly if all steps are allowed. -/
theorem reached_iff_along (inv : σ → Prop) {P : σ → Prop} {allowed : σ → α → Prop}
    (hiff : ∀ st act, inv st → P st → (allowed st act ↔ ∀ st', step st act = some st' → P st'))
    (hinv : ∀ st act st', inv st → step st act = some st' → inv st') (hst : inv st) (hP : P st) :
    (∀ done st', done <+: acts → run step st done = some st' → P st') ↔
      Along step allowed st acts := by
  induction acts generalizing st with
  | nil =>
      apply iff_of_true _ trivial
      intro done st' hdone hrun
      rw [List.prefix_nil.mp hdone] at hrun
      cases hrun
      exact hP
  | cons act rest ih =>
      constructor
      · intro hall
        have hact : ∀ st', step st act = some st' → P st' := fun st' hstep =>
          hall [act] st' (by simp) (run_cons.mpr ⟨st', hstep, rfl⟩)
        refine ⟨(hiff st act hst hP).mpr hact, fun st' hstep => ?_⟩
        refine (ih (hinv st act st' hst hstep) (hact st' hstep)).mp fun done last hdone hrun => ?_
        exact hall (act :: done) last ((List.prefix_cons_inj act).mpr hdone)
          (run_cons.mpr ⟨st', hstep, hrun⟩)
      · intro halong done last hdone hrun
        obtain ⟨hact, htail⟩ := halong
        cases done with
        | nil =>
            cases hrun
            exact hP
        | cons act' done =>
            obtain ⟨rfl, hbegins⟩ := List.cons_prefix_cons.mp hdone
            obtain ⟨st', hstep, hrest⟩ := run_cons.mp hrun
            have hP' := (hiff st act' hst hP).mp hact st' hstep
            exact (ih (hinv st act' st' hst hstep) hP').mpr (htail st' hstep) done last
              hbegins hrest

/-- What `mapM` makes comes from an element of the list. -/
theorem mem_of_mapM {β γ : Type*} {f : β → Option γ} {items : List β} {made : List γ}
    (hmap : items.mapM f = some made) {c : γ} (hc : c ∈ made) :
    ∃ b ∈ items, f b = some c := by
  induction items generalizing made with
  | nil =>
      cases hmap
      cases hc
  | cons b rest ih =>
      rw [List.mapM_cons] at hmap
      obtain ⟨c', hc', hmap⟩ := Option.bind_eq_some_iff.mp hmap
      obtain ⟨made', hmade', hmap⟩ := Option.bind_eq_some_iff.mp hmap
      cases hmap
      rcases List.mem_cons.mp hc with rfl | hc
      · exact ⟨b, List.mem_cons_self, hc'⟩
      · obtain ⟨b', hb', hfb⟩ := ih hmade' hc
        exact ⟨b', List.mem_cons_of_mem _ hb', hfb⟩

theorem getElem?_of_mapM {β γ : Type*} {f : β → Option γ} {items : List β} {made : List γ}
    (hmap : items.mapM f = some made) {k : ℕ} {b : β} (hb : items[k]? = some b) :
    ∃ c, f b = some c ∧ made[k]? = some c := by
  induction items generalizing made k with
  | nil => simp at hb
  | cons b' rest ih =>
      rw [List.mapM_cons] at hmap
      obtain ⟨c', hc', hmap⟩ := Option.bind_eq_some_iff.mp hmap
      obtain ⟨made', hmade', hmap⟩ := Option.bind_eq_some_iff.mp hmap
      cases hmap
      cases k with
      | zero =>
          cases hb
          exact ⟨c', hc', rfl⟩
      | succ k => exact ih hmade' hb

end Uperf.Lib
