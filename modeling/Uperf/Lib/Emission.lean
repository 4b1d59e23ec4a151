import Uperf.Lib.Fallible

/-!
# What a program emits

A program that emits items on its way, and then returns or fails.  What it does with a sink
that takes the items one by one, and may fail at any of them, is determined by what it emits
and by how it ends (`Emission.into`).
-/

namespace Uperf.Lib

variable {ω ε α β σ τ : Type*}

/-- The items that a program emits, and its result. -/
structure Emission (ω ε α : Type*) where
  emitted : List ω
  result : Except ε α

namespace Emission

/-- To return. -/
def ok (a : α) : Emission ω ε α := ⟨[], .ok a⟩

/-- To emit items. -/
def emit (out : List ω) : Emission ω ε Unit := ⟨out, .ok ()⟩

/-- A program that emits nothing before it fails. -/
def ofResult : Except ε (α × List ω) → Emission ω ε α
  | .ok (a, out) => ⟨out, .ok a⟩
  | .error e => ⟨[], .error e⟩

/-- One program after another. -/
def bind (x : Emission ω ε α) (f : α → Emission ω ε β) : Emission ω ε β :=
  match x.result with
  | .ok a => ⟨x.emitted ++ (f a).emitted, (f a).result⟩
  | .error e => ⟨x.emitted, .error e⟩

/-- A loop whose body emits. -/
def loop (step : τ → α → Emission ω ε τ) : τ → List α → Emission ω ε τ
  | st, [] => ok st
  | st, act :: rest => (step st act).bind fun st' => loop step st' rest

/-- The program with a sink. -/
def into (x : Emission ω ε α) (add : σ → ω → Except ε σ) (s : σ) : Except ε (α × σ) :=
  (Lib.loop add s x.emitted).bind fun s' => x.result.bind fun a => .ok (a, s')

variable {add : σ → ω → Except ε σ} {s : σ} {x : Emission ω ε α} {f : α → Emission ω ε β}
  {step : τ → α → Emission ω ε τ} {st : τ} {acts : List α} {e : ε}

@[simp] theorem into_ok (a : α) : (ok a : Emission ω ε α).into add s = .ok (a, s) := rfl

theorem into_emit (out : List ω) :
    (emit out : Emission ω ε Unit).into add s =
      (Lib.loop add s out).bind fun s' => .ok ((), s') := rfl

theorem into_ofResult (y : Except ε (α × List ω)) :
    (ofResult y).into add s =
      y.bind fun (a, out) => (Lib.loop add s out).bind fun s' => .ok (a, s') := by
  cases y <;> rfl

/-- The sink of the second program is the one that the first has left. -/
theorem into_bind :
    (x.bind f).into add s = (x.into add s).bind fun (a, s') => (f a).into add s' := by
  obtain ⟨out, result⟩ := x
  cases result with
  | error e =>
      simp only [into, bind]
      cases Lib.loop add s out <;> rfl
  | ok a =>
      simp only [into, bind]
      rw [loop_append]
      cases Lib.loop add s out <;> rfl

theorem into_loop :
    (loop step st acts).into add s =
      Lib.loop (fun (p : τ × σ) act => (step p.1 act).into add p.2) (st, s) acts := by
  induction acts generalizing st s with
  | nil => rfl
  | cons act rest ih =>
      rw [loop, into_bind, Lib.loop]
      congr 1
      funext p
      exact ih

/-- A failure comes from one of the programs. -/
theorem result_bind_ne (hx : x.result ≠ .error e) (hf : ∀ a, (f a).result ≠ .error e) :
    (x.bind f).result ≠ .error e := by
  unfold bind
  split
  · exact hf _
  · rename_i heq
    rintro hfail
    cases hfail
    exact hx heq

theorem result_loop_ne (hstep : ∀ st act, (step st act).result ≠ .error e) :
    (loop step st acts).result ≠ .error e := by
  induction acts generalizing st with
  | nil => exact nofun
  | cons act rest ih => exact result_bind_ne (hstep st act) fun _ => ih

end Emission

end Uperf.Lib
