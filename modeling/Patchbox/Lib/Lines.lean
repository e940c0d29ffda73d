import Mathlib

/-!
# Lines of a text that is cut off

Lines are joined into a text, each with a separator behind it, and read back as the non-empty
stretches between separators. When the text is cut off in between, what is read back are the lines
as far as they are still there, without the empty ones.

## Main definitions

* `tokens` — the non-empty stretches between separators.
* `unlines` — the text of the lines.
* `cutLines` — the lines as far as the text shows them.
* `tokens_take_unlines` — what is read back from a text that is cut off.
-/

namespace Lib

universe u
variable {α : Type u}

/-- The non-empty stretches between separators. -/
def tokens [DecidableEq α] (sep : α) (s : List α) : List (List α) :=
  (s.splitOnP (· = sep)).filter (· ≠ [])

/-- The text of the lines, with a separator behind each. -/
def unlines (sep : α) (ls : List (List α)) : List α := ls.flatMap (· ++ [sep])

/-- The lines as far as they lie in the first `n` elements of the text. -/
def cutLines : ℕ → List (List α) → List (List α)
  | _, [] => []
  | n, l :: ls => l.take n :: cutLines (n - (l.length + 1)) ls

/-- The length of their text. -/
def linesLength (ls : List (List α)) : ℕ := (ls.map fun l => l.length + 1).sum

variable {sep : α} {l : List α} {ls : List (List α)} {n : ℕ}

@[simp] theorem unlines_cons : unlines sep (l :: ls) = l ++ sep :: unlines sep ls := by
  simp [unlines]

@[simp] theorem linesLength_cons : linesLength (l :: ls) = l.length + 1 + linesLength ls := by
  simp [linesLength]

theorem length_cutLines (n : ℕ) (ls : List (List α)) : (cutLines n ls).length = ls.length := by
  induction ls generalizing n with
  | nil => rfl
  | cons l ls ih => rw [cutLines, List.length_cons, List.length_cons, ih]

/-- With nothing of the text all lines are empty. -/
theorem eq_nil_of_mem_cutLines_zero (h : l ∈ cutLines 0 ls) : l = [] := by
  induction ls with
  | nil => cases h
  | cons l' ls ih =>
    rw [cutLines, List.take_zero, Nat.zero_sub] at h
    rcases List.mem_cons.mp h with rfl | h
    · rfl
    · exact ih h

/-- The lines in front are whole as soon as the text goes beyond them. -/
theorem cutLines_append_of_le (h : linesLength ls ≤ n) (ls' : List (List α)) :
    cutLines n (ls ++ ls') = ls ++ cutLines (n - linesLength ls) ls' := by
  induction ls generalizing n with
  | nil => rfl
  | cons l ls ih =>
    rw [linesLength_cons] at h
    rw [List.cons_append, cutLines, List.take_of_length_le (by omega), ih (by omega),
      linesLength_cons, Nat.sub_sub, List.cons_append]

theorem cutLines_append (n : ℕ) (ls ls' : List (List α)) :
    cutLines n (ls ++ ls') = cutLines n ls ++ cutLines (n - linesLength ls) ls' := by
  induction ls generalizing n with
  | nil => rfl
  | cons l ls ih =>
    rw [List.cons_append, cutLines, cutLines, ih, linesLength_cons, Nat.sub_sub, List.cons_append]

variable [DecidableEq α]

theorem tokens_of_not_mem (h : sep ∉ l) : tokens sep l = [l].filter (· ≠ []) := by
  rw [tokens, List.splitOnP_eq_singleton]
  intro x hx
  exact decide_eq_false fun heq => h (heq ▸ hx)

/-- A line is the first token, unless it is empty. -/
theorem tokens_append_cons (h : sep ∉ l) (s : List α) :
    tokens sep (l ++ sep :: s) = [l].filter (· ≠ []) ++ tokens sep s := by
  have hfree : ∀ x ∈ l, decide (x = sep) = false := by
    intro x hx
    exact decide_eq_false fun heq => h (heq ▸ hx)
  rw [tokens, List.splitOnP_append_cons_of_forall_mem hfree sep (decide_eq_true rfl),
    ← List.singleton_append, List.filter_append]
  rfl

/-- **What is read back from a text that is cut off.** -/
theorem tokens_take_unlines (h : ∀ l ∈ ls, sep ∉ l) (n : ℕ) :
    tokens sep ((unlines sep ls).take n) = (cutLines n ls).filter (· ≠ []) := by
  induction ls generalizing n with
  | nil => rw [unlines, List.flatMap_nil, List.take_nil]; rfl
  | cons l ls ih =>
    have hl := h l List.mem_cons_self
    have ih' := ih (fun l' hl' => h l' (List.mem_cons_of_mem _ hl')) (n - (l.length + 1))
    rw [unlines_cons, cutLines, ← List.singleton_append (l := cutLines _ _), List.filter_append,
      ← ih']
    rcases Nat.lt_or_ge l.length n with hlt | hle
    · -- the separator is still there
      obtain ⟨k, rfl⟩ := Nat.exists_eq_add_of_lt hlt
      rw [List.take_append, List.take_of_length_le (by omega),
        show l.length + k + 1 - l.length = k + 1 by omega, List.take_succ_cons,
        tokens_append_cons hl]
      congr 4
      omega
    · rw [List.take_append_of_le_length hle,
        tokens_of_not_mem fun hmem => hl (List.mem_of_mem_take hmem), show n - (l.length + 1) = 0 by omega, List.take_zero]
      simp [tokens]

/-- When all but one element are kept, and this one is not. -/
theorem filter_of_missing {β : Type u} {p : β → Bool} {a b : List β} {x : β} (hx : ¬p x)
    (h : (a ++ b).length ≤ ((a ++ x :: b).filter p).length) :
    (a ++ x :: b).filter p = a ++ b ∧ ∀ y ∈ a ++ b, p y := by
  have hfilter : (a ++ x :: b).filter p = (a ++ b).filter p := by
    rw [List.filter_append, List.filter_append, List.filter_cons_of_neg hx]
  rw [hfilter] at h ⊢
  have hall := List.length_filter_eq_length_iff.mp (le_antisymm (List.length_filter_le _ _) h)
  exact ⟨List.filter_eq_self.mpr hall, hall⟩

end Lib
