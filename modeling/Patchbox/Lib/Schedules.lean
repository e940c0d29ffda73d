import Mathlib

/-!
# Loops over calls that the system answers

A loop makes a call in every round, and what the call does is not up to the program. A
schedule lists what the calls do, one after the other. The loop looks at its state in front
of each call and ends, or makes it; with a schedule that is used up before the loop ends
there is no result yet.

Three rules are all that is needed to say what a loop comes to under every schedule: an
invariant for the result, a variant that the calls which get somewhere lower, and, where a
call breaks the loop off, the invariant once more.

## Main definitions

* `drive` — the loop under a schedule.
* `drive_invariant` — the result of a loop that ends.
* `drive_isSome` — enough calls that get somewhere end it.
* `drive_break` — a call that breaks it off, whenever it comes.
-/

namespace Lib

universe u v w
variable {σ : Type u} {κ : Type v} {ρ : Type w}

/-- The loop from state `s` on: `ended` is its test, `round` what follows a call. -/
def drive (ended : σ → Option ρ) (round : σ → κ → σ ⊕ ρ) : List κ → σ → Option ρ
  | [], s => ended s
  | c :: calls, s =>
    match ended s with
    | some r => some r
    | none => (round s c).elim (drive ended round calls) some

variable {ended : σ → Option ρ} {round : σ → κ → σ ⊕ ρ} {s s' : σ} {c : κ} {calls : List κ} {r : ρ}

theorem drive_of_ended (h : ended s = some r) (calls : List κ) :
    drive ended round calls s = some r := by
  cases calls with
  | nil => exact h
  | cons c calls => rw [drive, h]

theorem drive_of_inl (h : ended s = none) (hround : round s c = .inl s') (calls : List κ) :
    drive ended round (c :: calls) s = drive ended round calls s' := by
  rw [drive, h, hround]
  rfl

theorem drive_of_inr (h : ended s = none) (hround : round s c = .inr r) (calls : List κ) :
    drive ended round (c :: calls) s = some r := by
  rw [drive, h, hround]
  rfl

/-- The loop has no result only when it made all the calls. -/
theorem ended_of_drive_eq_none (h : drive ended round calls s = none) : ended s = none := by
  cases hs : ended s with
  | none => rfl
  | some r => rw [drive_of_ended hs] at h; exact h

variable {I : σ → Prop} {A : κ → Prop}

/-- **The invariant rule.** It is enough to look at one round under a call that is allowed. -/
theorem drive_invariant {R : ρ → Prop} (hended : ∀ s r, I s → ended s = some r → R r)
    (hinl : ∀ s c s', I s → A c → ended s = none → round s c = .inl s' → I s')
    (hinr : ∀ s c r, I s → A c → ended s = none → round s c = .inr r → R r)
    (hcalls : ∀ c ∈ calls, A c) (hs : I s) (h : drive ended round calls s = some r) : R r := by
  induction calls generalizing s with
  | nil => exact hended s r hs h
  | cons c calls ih =>
      have hc := hcalls c List.mem_cons_self
      cases hend : ended s with
      | some r' =>
          rw [drive_of_ended hend] at h
          exact hended s r hs (hend.trans h)
      | none =>
          cases hround : round s c with
          | inl s' =>
              rw [drive_of_inl hend hround] at h
              exact ih (fun c hc => hcalls c (List.mem_cons_of_mem _ hc))
                (hinl s c s' hs hc hend hround) h
          | inr r' =>
              rw [drive_of_inr hend hround] at h
              exact hinr s c r hs hc hend (hround.trans (congrArg Sum.inr (Option.some.inj h)))

/-- **The variant rule.** No round raises the variant, and one whose call gets somewhere lowers
it. -/
theorem drive_isSome {gets : κ → Bool} (variant : σ → ℕ)
    (hzero : ∀ s, I s → variant s = 0 → (ended s).isSome)
    (hinl : ∀ s c s', I s → A c → ended s = none → round s c = .inl s' →
      I s' ∧ variant s' + (if gets c then 1 else 0) ≤ variant s)
    (hcalls : ∀ c ∈ calls, A c) (hs : I s) (henough : variant s ≤ calls.countP gets) :
    (drive ended round calls s).isSome := by
  induction calls generalizing s with
  | nil => exact hzero s hs (Nat.le_zero.mp henough)
  | cons c calls ih =>
      cases hend : ended s with
      | some r => rw [drive_of_ended hend]; rfl
      | none =>
          cases hround : round s c with
          | inr r => rw [drive_of_inr hend hround]; rfl
          | inl s' =>
              obtain ⟨hs', hvariant⟩ := hinl s c s' hs (hcalls c List.mem_cons_self) hend hround
              rw [drive_of_inl hend hround]
              refine ih (fun c hc => hcalls c (List.mem_cons_of_mem _ hc)) hs' ?_
              rw [List.countP_cons] at henough
              omega

/-- **A call that breaks the loop off** does so after all calls that left it going. -/
theorem drive_break
    (hinl : ∀ s c s', I s → A c → ended s = none → round s c = .inl s' → I s')
    (hcalls : ∀ c ∈ calls, A c) (hs : I s) (h : drive ended round calls s = none) (c : κ)
    (rest : List κ) :
    ∃ s', I s' ∧ ended s' = none ∧ drive ended round (calls ++ c :: rest) s =
      (round s' c).elim (drive ended round rest) some := by
  induction calls generalizing s with
  | nil =>
      refine ⟨s, hs, h, ?_⟩
      rw [List.nil_append, drive, ended_of_drive_eq_none h]
  | cons c' calls ih =>
      have hend := ended_of_drive_eq_none h
      cases hround : round s c' with
      | inr r =>
          rw [drive_of_inr hend hround] at h
          cases h
      | inl s' =>
          rw [drive_of_inl hend hround] at h
          rw [List.cons_append, drive_of_inl hend hround]
          exact ih (fun c hc => hcalls c (List.mem_cons_of_mem _ hc))
            (hinl s c' s' hs (hcalls c' List.mem_cons_self) hend hround) h

end Lib
