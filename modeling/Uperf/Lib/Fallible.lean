import Mathlib.Data.List.Induction

/-!
# Loops that can fail

A loop over a list whose body may fail.  The loop succeeds if its body does at
every element reached, and where the body's success can be read off the elements
before it, so can the loop's.
-/

namespace Uperf.Lib

variable {σ α β ε : Type*}

/-- The computation does not fail. -/
def Succeeds (x : Except ε α) : Prop := ∃ a, x = .ok a

@[simp] theorem succeeds_ok (a : α) : Succeeds (Except.ok a : Except ε α) := ⟨a, rfl⟩

@[simp] theorem not_succeeds_error (e : ε) : ¬ Succeeds (Except.error e : Except ε α) := by
  rintro ⟨a, h⟩
  cases h

theorem bind_eq_ok_iff {x : Except ε α} {f : α → Except ε β} {b : β} :
    x.bind f = .ok b ↔ ∃ a, x = .ok a ∧ f a = .ok b := by
  cases x with
  | error e => simp [Except.bind]
  | ok a => simp [Except.bind]

theorem succeeds_bind_iff {x : Except ε α} {f : α → Except ε β} :
    Succeeds (x.bind f) ↔ ∃ a, x = .ok a ∧ Succeeds (f a) := by
  cases x with
  | error e => simp [Except.bind]
  | ok a => simp [Except.bind]

/-- The state after the loop `for act in acts do st ← step st act`. -/
def loop (step : σ → α → Except ε σ) : σ → List α → Except ε σ
  | st, [] => .ok st
  | st, act :: rest => (step st act).bind fun st' => loop step st' rest

variable {step : σ → α → Except ε σ} {st st' : σ} {acts : List α}

theorem loop_cons_ok {act : α} {rest : List α} (hstep : step st act = .ok st') :
    loop step st (act :: rest) = loop step st' rest := by
  simp [loop, hstep, Except.bind]

theorem loop_append {rest : List α} :
    loop step st (acts ++ rest) = (loop step st acts).bind fun mid => loop step mid rest := by
  induction acts generalizing st with
  | nil => rfl
  | cons act acts ih =>
      cases hact : step st act with
      | error e => simp [loop, hact, Except.bind]
      | ok mid => rw [List.cons_append, loop_cons_ok hact, loop_cons_ok hact, ih]

theorem loop_concat_ok_iff {act : α} :
    loop step st (acts ++ [act]) = .ok st' ↔
      ∃ mid, loop step st acts = .ok mid ∧ step mid act = .ok st' := by
  rw [loop_append, bind_eq_ok_iff]
  refine exists_congr fun mid => and_congr_right fun _ => ?_
  cases hact : step mid act with
  | error e => simp [loop, hact, Except.bind]
  | ok last => simp [loop, hact, Except.bind]

/-- A failure comes from one of the steps. -/
theorem bind_ne_error {x : Except ε α} {f : α → Except ε β} {e : ε} (hx : x ≠ .error e)
    (hf : ∀ a, f a ≠ .error e) : x.bind f ≠ .error e := by
  cases x with
  | error e' =>
      intro h
      cases h
      exact hx rfl
  | ok a => exact hf a

theorem loop_ne_error {e : ε} (hstep : ∀ st act, step st act ≠ .error e) :
    loop step st acts ≠ .error e := by
  induction acts generalizing st with
  | nil => exact nofun
  | cons act rest ih => exact bind_ne_error (hstep st act) fun _ => ih

/-- Bodies that succeed with the same states make loops that do. -/
theorem loop_ok_congr {step' : σ → α → Except ε σ}
    (hstep : ∀ st act st', step st act = .ok st' ↔ step' st act = .ok st') :
    loop step st acts = .ok st' ↔ loop step' st acts = .ok st' := by
  induction acts generalizing st with
  | nil => rfl
  | cons act rest ih =>
      rw [loop, loop, bind_eq_ok_iff, bind_eq_ok_iff]
      exact exists_congr fun mid => and_congr (hstep st act mid) ih

/-- What the elements done and the state reached have to do with each other. -/
theorem loop_history {P : List α → σ → Prop} (hinit : P [] st)
    (hstep : ∀ done act mid mid', P done mid → step mid act = .ok mid' → P (done ++ [act]) mid')
    (hloop : loop step st acts = .ok st') : P acts st' := by
  induction acts using List.reverseRecOn generalizing st' with
  | nil =>
      cases hloop
      exact hinit
  | append_singleton done act ih =>
      obtain ⟨mid, hdone, hact⟩ := loop_concat_ok_iff.mp hloop
      exact hstep done act mid st' (ih hdone) hact

/-- Where `Fine` says of every state that the elements `done` lead to whether the
body succeeds at the next one, it says of the elements whether the loop does. -/
theorem succeeds_loop_iff {P : List α → σ → Prop} {Fine : List α → α → Prop} (hinit : P [] st)
    (hstep : ∀ done act mid mid', P done mid → step mid act = .ok mid' → P (done ++ [act]) mid')
    (hfine : ∀ done act mid, P done mid → (Succeeds (step mid act) ↔ Fine done act)) :
    Succeeds (loop step st acts) ↔
      ∀ done act rest, acts = done ++ act :: rest → Fine done act := by
  induction acts using List.reverseRecOn with
  | nil => simp [loop]
  | append_singleton before last ih =>
      have hreach : ∀ mid, loop step st before = .ok mid → P before mid := fun mid =>
        loop_history hinit hstep
      constructor
      · rintro ⟨st', hloop⟩ done act rest hsplit
        obtain ⟨mid, hbefore, hlast⟩ := loop_concat_ok_iff.mp hloop
        rcases List.eq_nil_or_concat rest with rfl | ⟨rest, end_, rfl⟩
        · -- the last element
          obtain ⟨rfl, heq⟩ := List.append_inj' hsplit rfl
          cases heq
          exact (hfine before last mid (hreach mid hbefore)).mp ⟨st', hlast⟩
        · rw [List.concat_eq_append, ← List.cons_append, ← List.append_assoc] at hsplit
          obtain ⟨hsplit, -⟩ := List.append_inj' hsplit rfl
          exact ih.mp ⟨mid, hbefore⟩ done act rest hsplit
      · intro hall
        obtain ⟨mid, hbefore⟩ := ih.mpr fun done act rest hsplit =>
          hall done act (rest ++ [last]) (by rw [hsplit]; simp)
        have hlast := hall before last [] rfl
        obtain ⟨st', hst'⟩ := (hfine before last mid (hreach mid hbefore)).mpr hlast
        exact ⟨st', loop_concat_ok_iff.mpr ⟨mid, hbefore, hst'⟩⟩

/-- Where the state does not matter, the loop succeeds if its body does at every
element. -/
theorem succeeds_loop_iff_forall {Q : α → Prop}
    (hstep : ∀ st act, Succeeds (step st act) ↔ Q act) :
    Succeeds (loop step st acts) ↔ ∀ act ∈ acts, Q act := by
  induction acts generalizing st with
  | nil => simp [loop]
  | cons act rest ih =>
      rw [loop, succeeds_bind_iff, List.forall_mem_cons, ← hstep st act]
      constructor
      · rintro ⟨mid, hmid, hrest⟩
        exact ⟨⟨mid, hmid⟩, ih.mp hrest⟩
      · rintro ⟨⟨mid, hmid⟩, hrest⟩
        exact ⟨mid, hmid, ih.mpr hrest⟩

end Uperf.Lib
