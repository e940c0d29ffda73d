import Mathlib.Data.List.ReduceOption

/-!
# Transfers that are cut up

A call that is asked to write some items takes the first of them, or is interrupted, or
fails. A loop around it goes on until all items are taken. Which calls do what is given as
a list; the calls behind its end take everything.

## Main definitions

* `Call` — what one call does.
* `push` — the loop for one string; `pushEach` and `pushUntil` for several.
* `carry` and `carryEach` — whether the calls get through so many items, told from the lengths
  alone.
* `done_push_iff` and `done_pushEach_iff` — the loops succeed exactly when all items are taken.
* `carry_eq`, `carryEach_eq_pushUntil`, `isSome_carryEach` — they do when the calls get through.
-/

namespace Lib

variable {α : Type}

/-- What one call does: it moves so many items at most, it is interrupted, or it fails. -/
inductive Call where
  | moves (n : ℕ)
  | interrupted
  | fails
  deriving DecidableEq

/-- The calls that a loop does not survive: one that fails, and one that moves nothing. -/
def Call.Breaks (c : Call) : Prop := c = .fails ∨ c = .moves 0

instance (c : Call) : Decidable c.Breaks := inferInstanceAs (Decidable (_ ∨ _))

/-- How a loop ends: whether all was taken, what was taken, and the calls that are left. -/
structure Push (α : Type) where
  done : Bool
  out : List α
  calls : List Call

/-- The loop. An interrupted call is made again. -/
def push : List Call → List α → Push α
  | calls, [] => ⟨true, [], calls⟩
  | [], b => ⟨true, b, []⟩
  | .interrupted :: calls, b => push calls b
  | .fails :: calls, _ => ⟨false, [], calls⟩
  | .moves 0 :: calls, _ => ⟨false, [], calls⟩
  | .moves (n + 1) :: calls, b =>
      let p := push calls (b.drop (n + 1))
      ⟨p.done, b.take (n + 1) ++ p.out, p.calls⟩

@[simp] theorem push_nil (calls : List Call) : push calls ([] : List α) = ⟨true, [], calls⟩ := by
  cases calls with
  | nil => rfl
  | cons c calls => cases c <;> rfl

section Rounds
variable {b : List α} (hb : b ≠ []) (calls : List Call)
include hb

theorem push_interrupted : push (.interrupted :: calls) b = push calls b := by
  obtain ⟨x, b, rfl⟩ := List.exists_cons_of_ne_nil hb
  rfl

theorem push_fails : push (.fails :: calls) b = ⟨false, [], calls⟩ := by
  obtain ⟨x, b, rfl⟩ := List.exists_cons_of_ne_nil hb
  rfl

theorem push_moves_zero : push (.moves 0 :: calls) b = ⟨false, [], calls⟩ := by
  obtain ⟨x, b, rfl⟩ := List.exists_cons_of_ne_nil hb
  rfl

theorem push_moves (n : ℕ) : push (.moves (n + 1) :: calls) b =
    ⟨(push calls (b.drop (n + 1))).done, b.take (n + 1) ++ (push calls (b.drop (n + 1))).out,
      (push calls (b.drop (n + 1))).calls⟩ := by
  obtain ⟨x, b, rfl⟩ := List.exists_cons_of_ne_nil hb
  rfl

end Rounds

/-- What is taken stands in front. -/
theorem out_push_front (calls : List Call) (b : List α) : (push calls b).out <+: b := by
  fun_induction push calls b with
  | case1 => exact List.prefix_refl _
  | case2 => exact List.prefix_refl _
  | case3 _ _ _ ih => exact ih
  | case4 => exact List.nil_prefix
  | case5 => exact List.nil_prefix
  | case6 n calls b _ p ih =>
      conv_rhs => rw [← List.take_append_drop (n + 1) b]
      exact (List.prefix_append_right_inj _).mpr ih

/-- A loop that is broken off leaves something. -/
theorem done_push_iff_length (calls : List Call) (b : List α) :
    (push calls b).done = true ↔ (push calls b).out.length = b.length := by
  fun_induction push calls b with
  | case1 => simp
  | case2 => simp
  | case3 _ _ _ ih => exact ih
  | case4 _ b hb => simpa [eq_comm] using hb
  | case5 _ b hb => simpa [eq_comm] using hb
  | case6 n calls b _ p ih =>
      rw [ih]
      simp only [p, List.length_append, List.length_take, List.length_drop]
      omega

/-- **The loop succeeds exactly when all items are taken.** -/
theorem done_push_iff (calls : List Call) (b : List α) :
    (push calls b).done = true ↔ (push calls b).out = b := by
  rw [done_push_iff_length]
  exact ⟨(out_push_front calls b).eq_of_length, fun h => congrArg List.length h⟩

/-- The calls that are left behind so many items, when none of those for them breaks the loop
off. -/
def carry : List Call → ℕ → Option (List Call)
  | calls, 0 => some calls
  | [], _ => some []
  | .interrupted :: calls, n => carry calls n
  | .fails :: _, _ => none
  | .moves 0 :: _, _ => none
  | .moves (k + 1) :: calls, n => carry calls (n - (k + 1))

@[simp] theorem carry_zero (calls : List Call) : carry calls 0 = some calls := by
  cases calls with
  | nil => rfl
  | cons c calls => cases c <;> rfl

/-- **The loop succeeds exactly when its calls get through.** -/
theorem carry_eq (calls : List Call) (b : List α) :
    carry calls b.length = if (push calls b).done then some (push calls b).calls else none := by
  fun_induction push calls b with
  | case1 => simp
  | case2 b hb => obtain ⟨x, b, rfl⟩ := List.exists_cons_of_ne_nil hb; rfl
  | case3 calls b hb ih => obtain ⟨x, b, rfl⟩ := List.exists_cons_of_ne_nil hb; exact ih
  | case4 calls b hb => obtain ⟨x, b, rfl⟩ := List.exists_cons_of_ne_nil hb; rfl
  | case5 calls b hb => obtain ⟨x, b, rfl⟩ := List.exists_cons_of_ne_nil hb; rfl
  | case6 n calls b hb p ih =>
      obtain ⟨x, b, rfl⟩ := List.exists_cons_of_ne_nil hb
      rw [List.length_drop] at ih
      exact ih

/-- Calls of which none fails carry a string. -/
theorem push_of_forall_not_breaks {calls : List Call} (h : ∀ c ∈ calls, ¬c.Breaks) (b : List α) :
    (push calls b).done = true ∧ ∀ c ∈ (push calls b).calls, ¬c.Breaks := by
  fun_induction push calls b with
  | case1 => exact ⟨rfl, h⟩
  | case2 => exact ⟨rfl, h⟩
  | case3 _ _ _ ih => exact ih (List.forall_mem_cons.mp h).2
  | case4 => exact absurd (Or.inl rfl) (List.forall_mem_cons.mp h).1
  | case5 => exact absurd (Or.inr rfl) (List.forall_mem_cons.mp h).1
  | case6 n calls b _ p ih => exact ih (List.forall_mem_cons.mp h).2

/-! ## Several strings -/

/-- One string after the other, up to the first that is broken off. -/
def pushUntil : List Call → List (List α) → Push α
  | calls, [] => ⟨true, [], calls⟩
  | calls, b :: bs =>
      let p := push calls b
      let q := pushUntil p.calls bs
      if p.done then ⟨q.done, p.out ++ q.out, q.calls⟩ else p

theorem out_pushUntil {calls : List Call} {bs : List (List α)}
    (h : (pushUntil calls bs).done = true) : (pushUntil calls bs).out = bs.flatten := by
  induction bs generalizing calls with
  | nil => rfl
  | cons b bs ih =>
      rw [pushUntil] at h ⊢
      split_ifs at h ⊢ with hp
      · rw [List.flatten_cons, (done_push_iff calls b).mp hp, ih h]
      · exact absurd h hp

theorem pushUntil_of_forall_not_breaks {calls : List Call} (h : ∀ c ∈ calls, ¬c.Breaks)
    (bs : List (List α)) :
    (pushUntil calls bs).done = true ∧ ∀ c ∈ (pushUntil calls bs).calls, ¬c.Breaks := by
  induction bs generalizing calls with
  | nil => exact ⟨rfl, h⟩
  | cons b bs ih =>
      have hb := push_of_forall_not_breaks h b
      rw [pushUntil, if_pos hb.1]
      exact ih hb.2

/-- One string after the other. When one is broken off, the next is begun all the same. A call for
a string that cannot be read (`none`) fails. -/
def pushEach : List Call → List (Option (List α)) → Push α
  | calls, [] => ⟨true, [], calls⟩
  | calls, none :: bs =>
      let q := pushEach calls bs
      ⟨false, q.out, q.calls⟩
  | calls, some b :: bs =>
      let p := push calls b
      let q := pushEach p.calls bs
      ⟨p.done && q.done, p.out ++ q.out, q.calls⟩

/-- All the strings, one behind the other. -/
def Whole (bs : List (Option (List α))) (out : List α) : Prop :=
  (∀ b ∈ bs, b.isSome) ∧ out = bs.reduceOption.flatten

instance [DecidableEq α] (bs : List (Option (List α))) (out : List α) : Decidable (Whole bs out) :=
  inferInstanceAs (Decidable (_ ∧ _))

@[simp] theorem whole_map_some (bs : List (List α)) (out : List α) :
    Whole (bs.map some) out ↔ out = bs.flatten := by
  simp [Whole, List.reduceOption]

/-- What stands in front is taken as it is. -/
theorem whole_append_iff (bs : List (List α)) (cs : List (Option (List α))) (out : List α) :
    Whole (bs.map some ++ cs) (bs.flatten ++ out) ↔ Whole cs out := by
  simp [Whole, List.reduceOption, or_imp, forall_and]

theorem length_out_pushEach_le (calls : List Call) (bs : List (Option (List α))) :
    (pushEach calls bs).out.length ≤ bs.reduceOption.flatten.length := by
  fun_induction pushEach calls bs with
  | case1 => simp
  | case2 calls bs q ih => simpa [List.reduceOption] using ih
  | case3 calls b bs p q ih =>
      have hb := (out_push_front calls b).length_le
      simp only [p, q, List.reduceOption_cons_of_some, List.length_append, List.flatten_cons]
      exact Nat.add_le_add hb ih

/-- **All strings are taken exactly when no loop is broken off.** -/
theorem done_pushEach_iff (calls : List Call) (bs : List (Option (List α))) :
    (pushEach calls bs).done = true ↔ Whole bs (pushEach calls bs).out := by
  fun_induction pushEach calls bs with
  | case1 => simp [Whole]
  | case2 calls bs q ih => simp [Whole]
  | case3 calls b bs p q ih =>
      have hb := (out_push_front calls b).length_le
      have hle := length_out_pushEach_le (push calls b).calls bs
      simp only [p, q, Bool.and_eq_true, done_push_iff, ih, Whole, List.mem_cons, forall_eq_or_imp,
        Option.isSome_some, true_and, List.reduceOption_cons_of_some, List.flatten_cons]
      constructor
      · rintro ⟨hp, hall, hq⟩
        exact ⟨hall, by rw [hp, hq]⟩
      · rintro ⟨hall, hout⟩
        have htotal := congrArg List.length hout
        simp only [List.length_append] at htotal
        obtain ⟨hp, hq⟩ := List.append_inj hout (by omega)
        exact ⟨hp, hall, hq⟩

/-- The calls that are left behind several strings of these lengths, when none of those for them
breaks a loop off. None gets through a string that cannot be read. -/
def carryEach : List Call → List (Option ℕ) → Option (List Call)
  | calls, [] => some calls
  | _, none :: _ => none
  | calls, some n :: ns => (carry calls n).bind fun left => carryEach left ns

/-- **All strings are taken up to the last exactly when the calls get through.** -/
theorem carryEach_eq_pushUntil (calls : List Call) (bs : List (List α)) :
    carryEach calls (bs.map fun b => some b.length) =
      if (pushUntil calls bs).done then some (pushUntil calls bs).calls else none := by
  induction bs generalizing calls with
  | nil => rfl
  | cons b bs ih =>
      rw [List.map_cons, carryEach, carry_eq, pushUntil]
      by_cases hp : (push calls b).done = true
      · rw [if_pos hp, if_pos hp]
        exact ih _
      · rw [if_neg hp, if_neg hp, if_neg hp]
        rfl

/-- So are they when the next is begun all the same. -/
theorem isSome_carryEach (calls : List Call) (bs : List (Option (List α))) :
    (carryEach calls (bs.map (Option.map List.length))).isSome = (pushEach calls bs).done := by
  fun_induction pushEach calls bs with
  | case1 => rfl
  | case2 calls bs q ih => rfl
  | case3 calls b bs p q ih =>
      rw [List.map_cons, Option.map_some, carryEach, carry_eq]
      by_cases hp : (push calls b).done = true
      · rw [if_pos hp, show p.done = true from hp, Bool.true_and]
        exact ih
      · rw [if_neg hp, show p.done = false from Bool.eq_false_iff.mpr hp, Bool.false_and]
        rfl

/-- Calls of which none fails carry all strings that can be read. -/
theorem pushEach_of_forall_not_breaks {calls : List Call} (h : ∀ c ∈ calls, ¬c.Breaks)
    (bs : List (List α)) : (pushEach calls (bs.map some)).done = true := by
  induction bs generalizing calls with
  | nil => rfl
  | cons b bs ih =>
      have hb := push_of_forall_not_breaks h b
      rw [List.map_cons, pushEach, hb.1, ih hb.2, Bool.and_self]

end Lib
