import Mathlib

/-!
# Overlays and the journal of what they hide

A layer is a partial function. Laying it over a function replaces the values on
its support; a stack of layers, newest first, is viewed from the top. A journal
keeps, beside each layer of the stack, the values the layer hid when it was laid
down. Putting those values back takes the layer out of the middle of the stack,
provided no newer layer touches its support; the journal that remains is again
the record of a stack.

## Main definitions

* `Layer`, `overlay`, `view` — partial functions, one over a function, a stack.
* `covered` — the values a layer covers.
* `Journal` — each saved layer holds what its partner hid.
* `Journal.remove` — undoing a layer that no newer layer touches.
-/

namespace Lib

universe u v
variable {α : Type u} {β : Type v}

/-- A partial function. -/
abbrev Layer (α : Type u) (β : Type v) := α → Option β

/-- The places a layer covers. -/
def support (l : Layer α β) : Set α := {a | (l a).isSome}

/-- `f` with the values of `l` in front. -/
def overlay (f : α → β) (l : Layer α β) : α → β := fun a => (l a).getD (f a)

/-- What `l` hides when it is laid over `f`. -/
def covered (f : α → β) (l : Layer α β) : Layer α β := fun a => (l a).map fun _ => f a

/-- The stack of layers, newest first, over a base. -/
def view (base : α → β) : List (Layer α β) → α → β
  | [] => base
  | l :: ls => overlay (view base ls) l

theorem overlay_of_mem {f : α → β} {l : Layer α β} {a : α} {b : β} (h : l a = some b) :
    overlay f l a = b := by simp [overlay, h]

theorem overlay_of_not_mem {f : α → β} {l : Layer α β} {a : α} (h : a ∉ support l) :
    overlay f l a = f a := by
  have hn : l a = none := by simpa [support] using h
  simp [overlay, hn]

@[simp] theorem support_covered (f : α → β) (l : Layer α β) : support (covered f l) = support l := by
  ext a
  simp [support, covered]

/-- Laying down a layer and then what it hid gives the function back. -/
theorem overlay_overlay_covered (f : α → β) (l : Layer α β) :
    overlay (overlay f l) (covered f l) = f := by
  funext a
  cases h : l a <;> simp [overlay, covered, h]

/-- Layers on disjoint supports commute. -/
theorem overlay_comm (f : α → β) {l m : Layer α β} (h : Disjoint (support l) (support m)) :
    overlay (overlay f l) m = overlay (overlay f m) l := by
  funext a
  by_cases hl : a ∈ support l
  · have hm : a ∉ support m := Set.disjoint_left.mp h hl
    obtain ⟨b, hb⟩ := Option.isSome_iff_exists.mp hl
    rw [overlay_of_not_mem hm, overlay_of_mem hb, overlay_of_mem hb]
  · rw [overlay_of_not_mem hl]
    cases hm : m a <;> simp [overlay, hm]
    have hn : l a = none := by simpa [support] using hl
    simp [hn]

/-- What a layer hides depends on its support only. -/
theorem covered_congr {f g : α → β} {l : Layer α β} (h : ∀ a ∈ support l, f a = g a) :
    covered f l = covered g l := by
  funext a
  cases hl : l a with
  | none => simp [covered, hl]
  | some b => simp [covered, hl, h a (by simp [support, hl])]

/-- A place no layer of the stack covers shows the base. -/
theorem view_of_not_mem {base : α → β} {ls : List (Layer α β)} {a : α}
    (h : ∀ l ∈ ls, a ∉ support l) : view base ls a = base a := by
  induction ls with
  | nil => rfl
  | cons l ls ih =>
      rw [view, overlay_of_not_mem (h l (by simp)), ih fun m hm => h m (by simp [hm])]

/-- The layers on top of a stack, and what is under them. -/
theorem view_append (base : α → β) (ls ms : List (Layer α β)) :
    view base (ls ++ ms) = view (view base ms) ls := by
  induction ls with
  | nil => rfl
  | cons l ls ih => simp only [List.cons_append, view, ih]

/-- A layer no newer layer touches commutes to the top of the stack. -/
theorem view_overlay_comm (f : α → β) {l : Layer α β} {ls : List (Layer α β)}
    (h : ∀ m ∈ ls, Disjoint (support l) (support m)) :
    view (overlay f l) ls = overlay (view f ls) l := by
  induction ls with
  | nil => rfl
  | cons m ls ih =>
      rw [view, ih fun k hk => h k (by simp [hk]), view]
      exact overlay_comm _ (h m (by simp))

/-- Every saved layer, the second of a pair, holds what its partner hid from the stack
below it. -/
def Journal (base : α → β) : List (Layer α β × Layer α β) → Prop
  | [] => True
  | e :: es => e.2 = covered (view base (es.map Prod.fst)) e.1 ∧ Journal base es

variable {base : α → β} {newer older : List (Layer α β × Layer α β)} {l s : Layer α β}

/-- The lower part of a journal is a journal. -/
theorem Journal.of_append {es fs : List (Layer α β × Layer α β)} (h : Journal base (es ++ fs)) :
    Journal base fs := by
  induction es with
  | nil => exact h
  | cons e es ih => exact ih h.2

/-- A saved layer of the journal holds what its partner hid. -/
theorem Journal.saved_eq (h : Journal base (newer ++ (l, s) :: older)) :
    s = covered (view base (older.map Prod.fst)) l :=
  h.of_append.1

/-- Putting the saved values back removes the layer from the view. -/
theorem Journal.view_remove (h : Journal base (newer ++ (l, s) :: older))
    (hd : ∀ e ∈ newer, Disjoint (support l) (support e.1)) :
    overlay (view base ((newer ++ (l, s) :: older).map Prod.fst)) s
      = view base ((newer ++ older).map Prod.fst) := by
  have hd' : ∀ m ∈ newer.map Prod.fst, Disjoint (support s) (support m) := by
    rw [h.saved_eq, support_covered]
    simpa using hd
  rw [List.map_append, List.map_cons, view_append, view, ← view_overlay_comm _ hd', h.saved_eq,
    overlay_overlay_covered, ← view_append, List.map_append]

/-- The rest of the journal still records what its layers hid. -/
theorem Journal.remove (h : Journal base (newer ++ (l, s) :: older))
    (hd : ∀ e ∈ newer, Disjoint (support l) (support e.1)) : Journal base (newer ++ older) := by
  induction newer with
  | nil => exact h.2
  | cons e es ih =>
      have hd' : ∀ k ∈ es, Disjoint (support l) (support k.1) := fun k hk => hd k (by simp [hk])
      refine ⟨?_, ih h.2 hd'⟩
      have hs : support s = support l := by
        have htail : Journal base (es ++ (l, s) :: older) := h.2
        rw [htail.saved_eq, support_covered]
      have he : e.2 = covered (view base ((es ++ (l, s) :: older).map Prod.fst)) e.1 := h.1
      change e.2 = covered (view base ((es ++ older).map Prod.fst)) e.1
      rw [he, ← Journal.view_remove h.2 hd']
      refine covered_congr fun a ha => (overlay_of_not_mem ?_).symm
      rw [hs]
      exact Set.disjoint_right.mp (hd e (by simp)) ha

end Lib
