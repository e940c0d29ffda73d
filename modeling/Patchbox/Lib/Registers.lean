import Mathlib.Data.List.Perm.Basic
import Mathlib.Logic.Function.Basic

/-!
# Registers that are written in some order

Each item of a list may write one register. What stands in the registers at the end does not
depend on the order of the items exactly when those that write one register write the same.

## Main definitions

* `write`, `writeAll` — one item, and all of them.
* `Agree` — no two items write different values to one register.
* `writeAll_perm_iff` — when the order does not matter.
-/

namespace Lib

variable {α κ β : Type} [DecidableEq κ] {w : α → Option (κ × β)} {l l' : List α} {f : κ → β}

/-- The registers after a write, if there is one. -/
def write (f : κ → β) : Option (κ × β) → κ → β
  | none => f
  | some (k, v) => Function.update f k v

/-- The registers after the writes of all items, the first one first. -/
def writeAll (w : α → Option (κ × β)) (f : κ → β) (l : List α) : κ → β :=
  l.foldl (fun f a => write f (w a)) f

@[simp] theorem writeAll_nil : writeAll w f [] = f := rfl

@[simp] theorem writeAll_cons (a : α) : writeAll w f (a :: l) = writeAll w (write f (w a)) l := rfl

/-- What the last item writes is there at the end. -/
theorem writeAll_concat {a : α} {k : κ} {v : β} (h : w a = some (k, v)) :
    writeAll w f (l ++ [a]) k = v := by
  rw [writeAll, List.foldl_append, List.foldl_cons, List.foldl_nil, h, write, Function.update_self]

/-- Items that write one register write the same value. -/
def Agree (w : α → Option (κ × β)) (l : List α) : Prop :=
  ∀ a ∈ l, ∀ b ∈ l, ∀ k v v', w a = some (k, v) → w b = some (k, v') → v = v'

/-- Two writes in the other order. -/
theorem write_write {p q : Option (κ × β)}
    (h : ∀ k v v', p = some (k, v) → q = some (k, v') → v = v') :
    write (write f p) q = write (write f q) p := by
  match p, q with
  | none, _ => rfl
  | some _, none => rfl
  | some (k, v), some (k', v') =>
      by_cases hk : k = k'
      · subst hk
        rw [h k v v' rfl rfl]
      · exact Function.update_comm hk v v' f

/-- **Where the items agree**, any order will do. -/
theorem Agree.writeAll_perm (h : Agree w l) (hl : l'.Perm l) : writeAll w f l' = writeAll w f l :=
  hl.foldl_eq' (fun a ha b hb _ =>
    write_write (h a (hl.mem_iff.mp ha) b (hl.mem_iff.mp hb))) f

/-- **When the order does not matter.** -/
theorem writeAll_perm_iff :
    (∀ l', l'.Perm l → writeAll w f l' = writeAll w f l) ↔ Agree w l := by
  constructor
  · intro h a ha b hb k v v' hv hv'
    -- each of the two items can come last
    have hlast : ∀ c ∈ l, ∀ u, w c = some (k, u) → writeAll w f l k = u := by
      intro c hc u hu
      obtain ⟨before, behind, rfl⟩ := List.append_of_mem hc
      have hperm : (before ++ behind ++ [c]).Perm (before ++ c :: behind) :=
        List.perm_append_singleton c _ |>.trans List.perm_middle.symm
      rw [← h _ hperm, writeAll_concat hu]
    exact (hlast a ha v hv).symm.trans (hlast b hb v' hv')
  · exact fun h l' hl => h.writeAll_perm hl

end Lib
