import Mathlib

/-!
# Runs of a deterministic system

A system is a step function on a state and an event. A run folds it over a list
of events. `Along` says that every step of a run meets a condition on the event
and on the state the event finds, `Always` that every state of the run has a
property. An invariant that the steps preserve holds always.
-/

namespace Lib

universe u v
variable {σ : Type u} {ε : Type v}

/-- The state a list of events leads to. -/
def run (step : σ → ε → σ) (s : σ) (es : List ε) : σ := es.foldl step s

/-- Every step of the run meets the condition. -/
def Along (step : σ → ε → σ) (ok : σ → ε → Prop) : σ → List ε → Prop
  | _, [] => True
  | s, e :: es => ok s e ∧ Along step ok (step s e) es

/-- Every state the run passes through, the first and the last included, has the property. -/
def Always (step : σ → ε → σ) (P : σ → Prop) : σ → List ε → Prop
  | s, [] => P s
  | s, e :: es => P s ∧ Always step P (step s e) es

variable {step : σ → ε → σ} {ok : σ → ε → Prop} {s : σ}

@[simp] theorem run_nil : run step s [] = s := rfl

@[simp] theorem run_cons (e : ε) (es : List ε) :
    run step s (e :: es) = run step (step s e) es := rfl

/-- A run in two parts. -/
theorem run_append (es fs : List ε) : run step s (es ++ fs) = run step (run step s es) fs :=
  List.foldl_append

@[simp] theorem along_nil : Along step ok s [] := trivial

@[simp] theorem along_cons (e : ε) (es : List ε) :
    Along step ok s (e :: es) ↔ ok s e ∧ Along step ok (step s e) es := Iff.rfl

/-- Steps in two parts. -/
theorem along_append (es fs : List ε) :
    Along step ok s (es ++ fs) ↔ Along step ok s es ∧ Along step ok (run step s es) fs := by
  induction es generalizing s with
  | nil => exact (and_iff_right trivial).symm
  | cons e es ih =>
      rw [List.cons_append, along_cons, along_cons, ih, and_assoc]
      rfl

/-- **The invariant rule.** What each step preserves holds at the end of a run. -/
theorem Along.invariant {P : σ → Prop} (hstep : ∀ s e, P s → ok s e → P (step s e))
    {es : List ε} (hs : P s) (h : Along step ok s es) : P (run step s es) := by
  induction es generalizing s with
  | nil => exact hs
  | cons e es ih => exact ih (hstep s e hs h.1) h.2

/-- The invariant rule, for every state of the run. -/
theorem Along.always {P : σ → Prop} (hstep : ∀ s e, P s → ok s e → P (step s e))
    {es : List ε} (hs : P s) (h : Along step ok s es) : Always step P s es := by
  induction es generalizing s with
  | nil => exact hs
  | cons e es ih => exact ⟨hs, ih (hstep s e hs h.1) h.2⟩

/-- What an invariant and the condition imply of a step holds of every step. -/
theorem Along.of_invariant {P : σ → Prop} {ok' : σ → ε → Prop}
    (hstep : ∀ s e, P s → ok s e → P (step s e)) (himp : ∀ s e, P s → ok s e → ok' s e)
    {es : List ε} (hs : P s) (h : Along step ok s es) : Along step ok' s es := by
  induction es generalizing s with
  | nil => trivial
  | cons e es ih => exact ⟨himp s e hs h.1, ih (hstep s e hs h.1) h.2⟩

/-- What follows from an invariant holds whenever the invariant does. -/
theorem Always.mono {P Q : σ → Prop} (h : ∀ s, P s → Q s) {es : List ε}
    (hs : Always step P s es) : Always step Q s es := by
  induction es generalizing s with
  | nil => exact h _ hs
  | cons e es ih => exact ⟨h _ hs.1, ih hs.2⟩

/-- The last state is one of them. -/
theorem Always.last {P : σ → Prop} {es : List ε} (h : Always step P s es) :
    P (run step s es) := by
  induction es generalizing s with
  | nil => exact h
  | cons e es ih => exact ih h.2

/-- The invariant rule for steps without a condition. -/
theorem run_invariant {P : σ → Prop} (hstep : ∀ s e, P s → P (step s e)) (hs : P s)
    (es : List ε) : P (run step s es) := by
  induction es generalizing s with
  | nil => exact hs
  | cons e es ih => exact ih (hstep s e hs)

end Lib
