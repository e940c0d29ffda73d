import Mathlib

/-!
# Cells that point to the next one

Cells are allocated, linked and freed. A cell that was freed is never given out again, so that its
address tells whether a pointer to it dangles: what is done through such a pointer has no result,
and neither has a loop that has used up its rounds.

## Main definitions

* `Stuck` — why there is no result.
* `Cells` — the cells, with `malloc`, `read`, `setNext` and `free`.
* `Cells.Row` — cells that were allocated one behind the other, and each points to the next.
-/

namespace Lib

/-- Why a program has no result: a loop goes on, or what it does is undefined. -/
inductive Stuck
  | goesOn
  | undefined
  deriving DecidableEq

universe u
variable {α : Type u}

/-- The rest of a program whose first part has a result. -/
theorem bind_of_ok {ε β γ : Type} {m : Except ε β} {f : β → Except ε γ} {a : β} (h : m = .ok a) :
    (m >>= f) = f a := by
  rw [h]
  rfl

theorem bind_of_error {ε β γ : Type} {m : Except ε β} {e : ε} (h : m = .error e)
    (f : β → Except ε γ) : (m >>= f) = .error e := by
  rw [h]
  rfl

/-- A cell. -/
structure Cell (α : Type u) where
  val : α
  next : Option ℕ

/-- The cells that live, and the first address that was never given out. -/
structure Cells (α : Type u) where
  live : ℕ → Option (Cell α)
  fresh : ℕ

namespace Cells

/-- No cells. -/
def empty : Cells α := ⟨fun _ => none, 0⟩

/-- A new cell, which points nowhere. -/
def malloc (s : Cells α) (x : α) : Cells α :=
  ⟨Function.update s.live s.fresh (some ⟨x, none⟩), s.fresh + 1⟩

def read (s : Cells α) (p : ℕ) : Except Stuck (Cell α) :=
  match s.live p with
  | some cell => .ok cell
  | none => .error .undefined

def setNext (s : Cells α) (p : ℕ) (next : Option ℕ) : Except Stuck (Cells α) :=
  match s.live p with
  | some cell => .ok { s with live := Function.update s.live p (some { cell with next }) }
  | none => .error .undefined

def free (s : Cells α) (p : ℕ) : Except Stuck (Cells α) :=
  match s.live p with
  | some _ => .ok { s with live := Function.update s.live p none }
  | none => .error .undefined

variable {s : Cells α} {p : ℕ} {cell : Cell α}

theorem read_eq (h : s.live p = some cell) : s.read p = .ok cell := by
  rw [read, h]

theorem setNext_eq (h : s.live p = some cell) (next : Option ℕ) : s.setNext p next =
    .ok { s with live := Function.update s.live p (some { cell with next }) } := by
  rw [setNext, h]

theorem free_eq (h : s.live p = some cell) :
    s.free p = .ok { s with live := Function.update s.live p none } := by
  rw [free, h]

theorem malloc_live_self (s : Cells α) (x : α) :
    (s.malloc x).live s.fresh = some ⟨x, none⟩ := Function.update_self _ _ _

theorem malloc_live_of_ne {q : ℕ} (h : q ≠ s.fresh) (x : α) :
    (s.malloc x).live q = s.live q := Function.update_of_ne h _ _

theorem read_eq_undefined (h : s.live p = none) : s.read p = .error .undefined := by
  rw [read, h]

/-! ## A row of cells -/

/-- What the cell of element `i` points to: the next one, or `last`. -/
def nextIn (base n : ℕ) (last : Option ℕ) (i : ℕ) : Option ℕ :=
  if i + 1 < n then some (base + i + 1) else last

theorem nextIn_of_lt {base n i : ℕ} (h : i + 1 < n) (last : Option ℕ) :
    nextIn base n last i = some (base + i + 1) := if_pos h

theorem nextIn_of_le {base n i : ℕ} (h : n ≤ i + 1) (last : Option ℕ) :
    nextIn base n last i = last := if_neg (Nat.not_lt.mpr h)

/-- The cells of `xs` from `base` on, each pointing to the next and the last one to `last`. -/
def Row (s : Cells α) (base : ℕ) (xs : List α) (last : Option ℕ) : Prop :=
  ∀ (i : ℕ) (h : i < xs.length), s.live (base + i) = some ⟨xs[i], nextIn base xs.length last i⟩

variable {base : ℕ} {xs : List α} {last : Option ℕ}

theorem row_nil : s.Row base [] last := fun _ h => absurd h (Nat.not_lt_zero _)

theorem Row.live_singleton {x : α} (h : s.Row base [x] last) : s.live base = some ⟨x, last⟩ :=
  h 0 Nat.one_pos

/-- The first cell of a row may be made to point to itself. -/
theorem exists_setNext_self (s : Cells α) (x : α) :
    ∃ s', (s.malloc x).setNext s.fresh (some s.fresh) = .ok s' ∧ s'.fresh = s.fresh + 1 ∧
      s'.Row s.fresh [x] (some s.fresh) ∧ ∀ q, q ≠ s.fresh → s'.live q = s.live q := by
  refine ⟨_, setNext_eq (malloc_live_self s x) _, rfl, ?_, ?_⟩
  · intro i hi
    obtain rfl : i = 0 := Nat.lt_one_iff.mp hi
    exact Function.update_self _ _ _
  · intro q hq
    exact (Function.update_of_ne hq _ _).trans (malloc_live_of_ne hq x)

/-- A new cell is linked behind the last one, whatever that pointed to. -/
theorem Row.snoc (h : s.Row base xs last) (hfresh : s.fresh = base + xs.length) {n : ℕ}
    (hn : xs.length = n + 1) (x : α) :
    ∃ s', (s.malloc x).setNext (base + n) (some s.fresh) = .ok s' ∧ s'.fresh = s.fresh + 1 ∧
      s'.Row base (xs ++ [x]) none ∧
      ∀ q, q < base ∨ s.fresh < q → s'.live q = s.live q := by
  have hold : (s.malloc x).live (base + n) = some ⟨xs[n], nextIn base xs.length last n⟩ := by
    rw [malloc_live_of_ne (by omega)]
    exact h n (by omega)
  refine ⟨_, setNext_eq hold _, rfl, fun i hi => ?_, fun q hq => ?_⟩
  · have hlen : (xs ++ [x]).length = xs.length + 1 := List.length_append
    rw [hlen] at hi ⊢
    rcases Nat.lt_trichotomy i n with hlt | rfl | hgt
    · -- the cells in front are as they were
      have hcell := h i (by omega)
      rw [nextIn_of_lt (by omega)] at hcell
      rw [List.getElem_append_left (by omega), @nextIn_of_lt base (xs.length + 1) i (by omega),
        ← hcell]
      exact (Function.update_of_ne (by omega) _ _).trans (malloc_live_of_ne (by omega) x)
    · rw [List.getElem_append_left (by omega), @nextIn_of_lt base (xs.length + 1) i (by omega),
        Nat.add_assoc, ← hn, ← hfresh]
      exact Function.update_self _ _ _
    · obtain rfl : i = xs.length := by omega
      have hcell := malloc_live_self s x
      rw [hfresh] at hcell
      rw [List.getElem_concat_length rfl, nextIn_of_le le_rfl, ← hcell]
      exact Function.update_of_ne (by omega) _ _
  · exact (Function.update_of_ne (by omega) _ _).trans (malloc_live_of_ne (by omega) x)

end Cells
end Lib
