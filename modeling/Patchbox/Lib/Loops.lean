import Mathlib

/-!
# Loops that may not end

A round of a loop leads to the state of the next round or ends the loop with a result. `rounds`
runs a given number of rounds at most, so a loop that never ends has no result for any number. A
state that every round keeps going from is all that a proof of this needs.

## Main definitions

* `rounds` — the loop, a number of rounds at most.
* `EndsWith` — the loop ends, with this result.
* `not_endsWith_of_stays` — a loop that never ends.
-/

namespace Lib

universe u v
variable {σ : Type u} {ρ : Type v}

/-- At most `fuel` rounds from the state `s`. -/
def rounds (round : σ → σ ⊕ ρ) : ℕ → σ → Option ρ
  | 0, _ => none
  | fuel + 1, s => (round s).elim (rounds round fuel) some

/-- The loop ends with `r` when it starts from `s`. -/
def EndsWith (round : σ → σ ⊕ ρ) (s : σ) (r : ρ) : Prop := ∃ fuel, rounds round fuel s = some r

variable {round : σ → σ ⊕ ρ} {s s' : σ} {r : ρ}

theorem rounds_of_inr (h : round s = .inr r) (fuel : ℕ) :
    rounds round (fuel + 1) s = some r := by
  rw [rounds, h]
  rfl

theorem rounds_of_inl (h : round s = .inl s') (fuel : ℕ) :
    rounds round (fuel + 1) s = rounds round fuel s' := by
  rw [rounds, h]
  rfl

/-- A loop that always finds another round does not end. -/
theorem not_endsWith_of_stays {P : σ → Prop} (hstay : ∀ s, P s → ∃ s', round s = .inl s' ∧ P s')
    (hs : P s) : ¬EndsWith round s r := by
  rintro ⟨fuel, hfuel⟩
  induction fuel generalizing s with
  | zero => cases hfuel
  | succ fuel ih =>
    obtain ⟨s', hround, hs'⟩ := hstay s hs
    rw [rounds_of_inl hround] at hfuel
    exact ih hs' hfuel

end Lib
