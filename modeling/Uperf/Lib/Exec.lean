import Mathlib.Logic.Basic

/-!
# Programs that change a state

A program takes a state, and returns a value or stops without one; it leaves a
state in both cases.  `Triple P x Q A` says that from a state with `P` the
program `x` returns a value and a state with `Q`, or stops in a state with `A`.
-/

namespace Uperf.Lib

/-- Programs on states `σ`. -/
abbrev Exec (σ : Type) := OptionT (StateM σ)

variable {σ τ α β : Type}

/-- The value that the program returns, if it does, and the state that it leaves. -/
def Exec.runFrom (x : Exec σ α) (s : σ) : Option α × σ := x.run.run s

namespace Exec

@[simp] theorem runFrom_pure (a : α) (s : σ) : (pure a : Exec σ α).runFrom s = (some a, s) := rfl

@[simp] theorem runFrom_failure (s : σ) : (failure : Exec σ α).runFrom s = (none, s) := rfl

theorem runFrom_bind (x : Exec σ α) (f : α → Exec σ β) (s : σ) :
    (x >>= f).runFrom s =
      match x.runFrom s with
      | (some a, s') => (f a).runFrom s'
      | (none, s') => (none, s') := by
  simp only [runFrom, OptionT.run_bind, Option.elimM, StateT.run_bind]
  rcases hx : StateT.run x.run s with ⟨_ | a, s'⟩
  · rfl
  · rfl

/-- The state as a value. -/
def state : Exec σ σ := (get : StateM σ σ)

/-- A change of the state. -/
def change (f : σ → σ) : Exec σ Unit := (modify f : StateM σ Unit)

/-- A program on a part of the state, which `get` reads and `set` writes. -/
def onPart (get : σ → τ) (set : τ → σ → σ) (x : StateM τ α) : Exec σ α :=
  OptionT.mk fun s => (some (x.run (get s)).1, set (x.run (get s)).2 s)

/-- A program on a part of the state that may stop. -/
def zoom (get : σ → τ) (set : τ → σ → σ) (x : Exec τ α) : Exec σ α :=
  OptionT.mk fun s => ((x.runFrom (get s)).1, set (x.runFrom (get s)).2 s)

@[simp] theorem runFrom_state (s : σ) : (state : Exec σ σ).runFrom s = (some s, s) := rfl

@[simp] theorem runFrom_change (f : σ → σ) (s : σ) : (change f).runFrom s = (some (), f s) := rfl

@[simp] theorem runFrom_onPart (get : σ → τ) (set : τ → σ → σ) (x : StateM τ α) (s : σ) :
    (onPart get set x).runFrom s = (some (x.run (get s)).1, set (x.run (get s)).2 s) := rfl

@[simp] theorem runFrom_zoom (get : σ → τ) (set : τ → σ → σ) (x : Exec τ α) (s : σ) :
    (zoom get set x).runFrom s = ((x.runFrom (get s)).1, set (x.runFrom (get s)).2 s) := rfl

/-! ## Pre- and postconditions -/

/-- From a state with `P` the program returns a value and leaves a state with `Q`,
or it stops and leaves one with `A`. -/
def Triple (P : σ → Prop) (x : Exec σ α) (Q : α → σ → Prop) (A : σ → Prop) : Prop :=
  ∀ s, P s → match x.runFrom s with
    | (some a, s') => Q a s'
    | (none, s') => A s'

variable {P : σ → Prop} {A : σ → Prop} {Q : α → σ → Prop}

theorem Triple.pure {a : α} (h : ∀ s, P s → Q a s) : Triple P (pure a : Exec σ α) Q A := h

theorem Triple.failure (h : ∀ s, P s → A s) : Triple P (failure : Exec σ α) Q A := h

theorem Triple.state {Q : σ → σ → Prop} (h : ∀ s, P s → Q s s) : Triple P state Q A := h

theorem Triple.change {Q : Unit → σ → Prop} {f : σ → σ} (h : ∀ s, P s → Q () (f s)) :
    Triple P (change f) Q A := h

theorem Triple.bind {x : Exec σ α} {f : α → Exec σ β} {Q : β → σ → Prop} {R : α → σ → Prop}
    (hx : Triple P x R A) (hf : ∀ a, Triple (R a) (f a) Q A) : Triple P (x >>= f) Q A := by
  intro s hs
  have hfirst := hx s hs
  rw [runFrom_bind]
  generalize x.runFrom s = result at hfirst ⊢
  rcases result with ⟨_ | a, s'⟩
  · exact hfirst
  · exact hf a s' hfirst

/-- A stronger precondition, and weaker postconditions. -/
theorem Triple.imp {P' A' : σ → Prop} {Q' : α → σ → Prop} {x : Exec σ α}
    (h : Triple P' x Q' A') (hP : ∀ s, P s → P' s) (hQ : ∀ a s, Q' a s → Q a s)
    (hA : ∀ s, A' s → A s) : Triple P x Q A := by
  intro s hs
  have hpost := h s (hP s hs)
  generalize x.runFrom s = result at hpost ⊢
  rcases result with ⟨_ | a, s'⟩
  · exact hA s' hpost
  · exact hQ a s' hpost

theorem Triple.post {Q' : α → σ → Prop} {x : Exec σ α} (h : Triple P x Q' A)
    (hQ : ∀ a s, Q' a s → Q a s) : Triple P x Q A :=
  h.imp (fun _ hs => hs) hQ fun _ hs => hs

/-- What a program that does not stop returns and leaves. -/
theorem Triple.exists_result {x : Exec σ α} {s : σ} (hx : Triple P x Q fun _ => False)
    (hs : P s) : ∃ a s', x.runFrom s = (some a, s') ∧ Q a s' := by
  have hpost := hx s hs
  generalize x.runFrom s = result at hpost ⊢
  rcases result with ⟨_ | a, s'⟩
  · exact hpost.elim
  · exact ⟨a, s', rfl, hpost⟩

/-- What the program leaves when it stops as well as when it returns. -/
theorem Triple.left {x : Exec σ α} {s : σ} (hx : Triple P x (fun _ => A) A) (hs : P s) :
    A (x.runFrom s).2 := by
  have hpost := hx s hs
  generalize x.runFrom s = result at hpost ⊢
  rcases result with ⟨_ | a, s'⟩
  · exact hpost
  · exact hpost

/-- What a program on a part of the state does not touch. -/
theorem Triple.onPart {I : σ → Prop} {get : σ → τ} {set : τ → σ → σ} (x : StateM τ α)
    (hset : ∀ t s, I s → I (set t s)) : Triple I (onPart get set x) (fun _ => I) I :=
  fun _ hs => hset _ _ hs

/-- A program on a part of the state leaves what is known of the rest. -/
theorem Triple.zoom {I : σ → Prop} {get : σ → τ} {set : τ → σ → σ} {x : Exec τ α}
    {R : α → Prop} (hx : Triple (fun _ => True) x (fun a _ => R a) fun _ => True)
    (hset : ∀ t s, I s → I (set t s)) :
    Triple I (zoom get set x) (fun a s => I s ∧ R a) I := by
  intro s hs
  have hpost := hx (get s) trivial
  rw [runFrom_zoom]
  generalize x.runFrom (get s) = result at hpost ⊢
  rcases result with ⟨_ | a, t⟩
  · exact hset t s hs
  · exact ⟨hset t s hs, hpost⟩

/-- A program on a part of the state that keeps what is known of the part. -/
theorem Triple.zoom_part {I : σ → Prop} {J : τ → Prop} {get : σ → τ} {set : τ → σ → σ}
    {x : Exec τ α} (hx : Triple J x (fun _ => J) fun _ => False) (hget : ∀ s, I s → J (get s))
    (hset : ∀ t s, J t → I s → I (set t s)) :
    Triple I (Exec.zoom get set x) (fun _ => I) A := by
  intro s hs
  have hpost := hx (get s) (hget s hs)
  rw [runFrom_zoom]
  generalize x.runFrom (get s) = result at hpost ⊢
  rcases result with ⟨_ | a, t⟩
  · exact hpost.elim
  · exact hset t s hpost hs

/-- A fact known before, next to what the program does. -/
theorem Triple.and_const {p : Prop} {x : Exec σ α} (h : p → Triple P x Q A) :
    Triple (fun s => P s ∧ p) x Q A :=
  fun s hs => h hs.2 s hs.1

theorem Triple.trivial {x : Exec σ α} : Triple P x (fun _ _ => True) fun _ => True := by
  intro s _
  generalize x.runFrom s = result
  rcases result with ⟨_ | a, t⟩
  · exact True.intro
  · exact True.intro

end Exec

end Uperf.Lib
