import Patchbox.Undo

/-!
# Dependent patches

A patch names the hashes of the patches it was built on, so an undo should wait for
the patches that were applied later and list the hash. `lp_patch_head` has the newest
patch in front, and `has_dependent_patches` walks from the patch towards the older
ones, the ones that cannot depend on it.

## Main definitions

* `AppliedPatch.DependsOn` — one patch lists the other.
* `UndoSafe` — what the check is for.
* `undoSafe_iff` — when the walk in the wrong direction answers right.
-/

namespace Patchbox
open Lib

/-- The patch lists the hash of `p`. -/
def AppliedPatch.DependsOn (q p : AppliedPatch) : Prop := p.sha1 ∈ q.deps

instance (q p : AppliedPatch) : Decidable (q.DependsOn p) :=
  inferInstanceAs (Decidable (_ ∈ _))

variable {newer older : List AppliedPatch} {p : AppliedPatch}

theorem hasDependentPatches_eq_true :
    hasDependentPatches p older = true ↔ ∃ q ∈ older, q.DependsOn p := by
  simp [hasDependentPatches, AppliedPatch.DependsOn]

/-- The dependency check on `p`, applied before the patches `newer` and after those in `older`,
and the undo requests that reach it: one that takes `p` out leaves no later patch that depends
on it, one that is refused has a live patch that does. -/
structure UndoSafe (newer : List AppliedPatch) (p : AppliedPatch) (older : List AppliedPatch) :
    Prop where
  check : hasDependentPatches p older = true ↔ ∃ q ∈ newer, q.DependsOn p
  taken : ∀ (arg : ℕ → Byte) (s : Sandbox), s.lpPatchHead = newer ++ p :: older →
    findHash (loadHash arg) s.lpPatchHead = some (newer, p, older) →
    (xenlpUndo4 arg s).ccode = 0 → ∀ q ∈ newer, ¬q.DependsOn p
  refused : ∀ (arg : ℕ → Byte) (s : Sandbox), s.lpPatchHead = newer ++ p :: older →
    findHash (loadHash arg) s.lpPatchHead = some (newer, p, older) →
    (xenlpUndo4 arg s).ccode ≠ 0 → ∃ q ∈ newer ++ older, q.DependsOn p

/-- A request that finds `p`, which every live patch has writes for, goes by the check. -/
theorem xenlpUndo4_ccode_of_found {arg : ℕ → Byte} {s : Sandbox} (hwrites : p.numwrites ≠ 0)
    (hfind : findHash (loadHash arg) s.lpPatchHead = some (newer, p, older)) :
    (xenlpUndo4 arg s).ccode = 0 ↔ hasDependentPatches p older = false := by
  cases hdep : hasDependentPatches p older with
  | true =>
      have hstop : undoTarget arg s = none := by
        simp [undoTarget, hfind, hdep]
      obtain ⟨ccode, hcode, heq⟩ := xenlpUndo4_of_none hstop
      simp [heq, hcode]
  | false =>
      have hgo : ¬(hasDependentPatches p older = true ∨ p.numwrites = 0) := by
        rw [hdep]
        simpa using hwrites
      rw [xenlpUndo4_of_some (undoTarget_eq_some.mpr ⟨hfind, hgo⟩)]
      simp

/-- **The check on one patch.** It and the undo of the patch are right exactly when some later
patch depends on it if and only if some earlier one does. -/
theorem undoSafe_iff (newer : List AppliedPatch) (p : AppliedPatch) (older : List AppliedPatch)
    (hwrites : p.numwrites ≠ 0) :
    UndoSafe newer p older ↔
      ((∃ q ∈ newer, q.DependsOn p) ↔ ∃ q ∈ older, q.DependsOn p) := by
  constructor
  · intro h
    exact h.check.symm.trans hasDependentPatches_eq_true
  · intro h
    have hcheck : hasDependentPatches p older = true ↔ ∃ q ∈ newer, q.DependsOn p :=
      hasDependentPatches_eq_true.trans h.symm
    refine ⟨hcheck, fun arg s _ hfind hcode q hq hdep => ?_, fun arg s _ hfind hcode => ?_⟩
    · have hfalse := (xenlpUndo4_ccode_of_found hwrites hfind).mp hcode
      rw [hcheck.mpr ⟨q, hq, hdep⟩] at hfalse
      nomatch hfalse
    · have htrue : hasDependentPatches p older = true := by
        rw [← Bool.not_eq_false, ← xenlpUndo4_ccode_of_found hwrites hfind]
        exact hcode
      obtain ⟨q, hq, hdep⟩ := hcheck.mp htrue
      exact ⟨q, List.mem_append_left _ hq, hdep⟩

/-- A live patch with the hash that starts with `tag`, and the given dependencies. -/
def patchOf (tag : Byte) (deps : List (Bytes shaDigestLength)) : AppliedPatch where
  map := ⟨0, 0⟩
  sha1 := loadHash fun i => if i = 0 then tag else 0
  numwrites := 1
  writes := []
  numdeps := deps.length
  deps := deps
  tags := fun _ => 0

/-- A patch that nothing depends on, between two that depend on nothing. -/
theorem undoSafe_independent :
    (patchOf 2 []).numwrites ≠ 0 ∧ UndoSafe [patchOf 3 []] (patchOf 2 []) [patchOf 1 []] := by
  have hwrites : (patchOf 2 []).numwrites ≠ 0 := by decide
  exact ⟨hwrites, (undoSafe_iff _ _ _ hwrites).mpr (by decide)⟩

/-- The patch applied first is the dependency of the second one, and can be taken out. -/
theorem undoSafe_dependency_taken :
    let p := patchOf 1 []
    let q := patchOf 2 [p.sha1]
    let s : Sandbox := ⟨fun _ => 0, [q, p], MapState.init fun _ => 0⟩
    q.DependsOn p ∧ ¬UndoSafe [q] p [] ∧
      (xenlpUndo4 (fun i => if i = 0 then 1 else 0) s).ccode = 0 := by
  refine ⟨by decide, fun h => ?_, by decide +kernel⟩
  exact absurd h.check (by decide)

end Patchbox
