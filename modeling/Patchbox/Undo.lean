import Patchbox.Apply

/-!
# Undoing a patch

`xenlpUndo4` looks for the newest live patch with the given hash. It refuses when
`hasDependentPatches` finds a dependent one among the patches further down the
list, which are the older ones. Otherwise the writes are exchanged back, the entry
leaves the list and its blob is unmapped.

## Main definitions

* `findHash` — the walk over `lp_patch_head`.
* `hasDependentPatches`, `xenlpUndo4` — the functions of `libsandbox.c`.
* `undoTarget` — which entry is taken out, if any.
* `xenlpUndo4_removes` — the statuses, and what a request changes.
-/

namespace Patchbox
open Lib

/-! ## The source functions -/

/-- The first entry with the hash, between the newer ones and the older ones. -/
def findHash (sha1 : Bytes shaDigestLength) :
    List AppliedPatch → Option (List AppliedPatch × AppliedPatch × List AppliedPatch)
  | [] => none
  | ap :: rest =>
      if ap.sha1 = sha1 then some ([], ap, rest)
      else (findHash sha1 rest).map fun found => (ap :: found.1, found.2)

/-- `has_dependent_patches`, for a patch with the entries `older` behind it. -/
def hasDependentPatches (patch : AppliedPatch) (older : List AppliedPatch) : Bool :=
  older.any fun ap => ap.deps.any fun dep => dep = patch.sha1

/-- The hash of an undo request: 24 bytes are copied, the last four are padding. -/
def loadHash (arg : ℕ → Byte) : Bytes shaDigestLength := fun i => arg i

/-- `xenlp_undo4`. -/
def xenlpUndo4 (arg : ℕ → Byte) (s : Sandbox) : Outcome :=
  let log := [.message 0 sizeofXenlpHash]
  match findHash (loadHash arg) s.lpPatchHead with
  | none => ⟨-enoent, s, log⟩
  | some (newer, ap, older) =>
      if hasDependentPatches ap older ∨ ap.numwrites = 0 then ⟨-enxio, s, log⟩
      else
        let (_, text) := swapTrampolines ap.writes s.text
        let (_, _, maps) := unmapPatchMap ap.map s.maps
        ⟨0, ⟨text, newer ++ older, maps⟩, log ++ exchanges ap.writes⟩

/-! ## Which entry goes -/

/-- What the walk finds splits the list at the first match. -/
theorem findHash_eq_some {sha1 : Bytes shaDigestLength} {l newer older : List AppliedPatch}
    {ap : AppliedPatch} (h : findHash sha1 l = some (newer, ap, older)) :
    l = newer ++ ap :: older ∧ ap.sha1 = sha1 ∧ ∀ p ∈ newer, p.sha1 ≠ sha1 := by
  induction l generalizing newer with
  | nil => simp [findHash] at h
  | cons p l ih =>
      by_cases hp : p.sha1 = sha1
      · simp only [findHash, if_pos hp, Option.some.injEq, Prod.mk.injEq] at h
        obtain ⟨rfl, rfl, rfl⟩ := h
        exact ⟨rfl, hp, by simp⟩
      · simp only [findHash, if_neg hp, Option.map_eq_some_iff] at h
        obtain ⟨⟨newer', ap', older'⟩, hfind, heq⟩ := h
        simp only [Prod.mk.injEq] at heq
        obtain ⟨rfl, rfl, rfl⟩ := heq
        obtain ⟨rfl, hsha, hnewer⟩ := ih hfind
        exact ⟨rfl, hsha, by simpa [hp] using hnewer⟩

theorem findHash_eq_none {sha1 : Bytes shaDigestLength} {l : List AppliedPatch} :
    findHash sha1 l = none ↔ ∀ p ∈ l, p.sha1 ≠ sha1 := by
  induction l with
  | nil => simp [findHash]
  | cons p l ih =>
      by_cases hp : p.sha1 = sha1 <;> simp [findHash, hp, ih]

/-- The entry a request takes out, between the newer and the older ones; none when the request
is refused. -/
def undoTarget (arg : ℕ → Byte) (s : Sandbox) :
    Option (List AppliedPatch × AppliedPatch × List AppliedPatch) :=
  (findHash (loadHash arg) s.lpPatchHead).filter fun t =>
    !(decide (hasDependentPatches t.2.1 t.2.2 = true ∨ t.2.1.numwrites = 0))

variable {arg : ℕ → Byte} {s : Sandbox} {newer older : List AppliedPatch} {ap : AppliedPatch}

theorem undoTarget_eq_some :
    undoTarget arg s = some (newer, ap, older) ↔
      findHash (loadHash arg) s.lpPatchHead = some (newer, ap, older) ∧
        ¬(hasDependentPatches ap older = true ∨ ap.numwrites = 0) := by
  rw [undoTarget, Option.filter_eq_some_iff, Bool.not_eq_true', decide_eq_false_iff_not]

/-- The list around the entry that goes. -/
theorem list_of_undoTarget (h : undoTarget arg s = some (newer, ap, older)) :
    s.lpPatchHead = newer ++ ap :: older :=
  (findHash_eq_some (undoTarget_eq_some.mp h).1).1

/-- The patches of the list are the one that goes and those that stay. -/
theorem mem_list_of_undoTarget (h : undoTarget arg s = some (newer, ap, older)) {p : AppliedPatch} :
    p ∈ s.lpPatchHead ↔ p = ap ∨ p ∈ newer ++ older := by
  rw [list_of_undoTarget h, List.mem_append, List.mem_cons, List.mem_append]
  exact or_left_comm

theorem xenlpUndo4_of_some (h : undoTarget arg s = some (newer, ap, older)) :
    xenlpUndo4 arg s =
      ⟨0, ⟨(swapTrampolines ap.writes s.text).2, newer ++ older,
          { s.maps with mapped := s.maps.mapped \ ap.map.released }⟩,
        .message 0 sizeofXenlpHash :: exchanges ap.writes⟩ := by
  obtain ⟨hfind, hgo⟩ := undoTarget_eq_some.mp h
  have hmaps := congrArg Prod.snd (unmapPatchMap_eq ap.map s.maps)
  simp only [xenlpUndo4, hfind, if_neg hgo, hmaps, List.singleton_append]

/-- A refused request changes nothing. -/
theorem xenlpUndo4_of_none (h : undoTarget arg s = none) :
    ∃ ccode, ccode ≠ 0 ∧ xenlpUndo4 arg s = ⟨ccode, s, [.message 0 sizeofXenlpHash]⟩ := by
  cases hfind : findHash (loadHash arg) s.lpPatchHead with
  | none => exact ⟨-enoent, by decide, by simp only [xenlpUndo4, hfind]⟩
  | some found =>
      obtain ⟨newer, ap, older⟩ := found
      have hrefuse : hasDependentPatches ap older = true ∨ ap.numwrites = 0 := by
        by_contra hgo
        rw [undoTarget_eq_some.mpr ⟨hfind, hgo⟩] at h
        nomatch h
      exact ⟨-enxio, by decide, by simp only [xenlpUndo4, hfind, if_pos hrefuse]⟩

/-- Only the search that finds nothing gives `ENOENT`. -/
theorem xenlpUndo4_ccode_eq_enoent :
    (xenlpUndo4 arg s).ccode = -enoent ↔ ∀ p ∈ s.lpPatchHead, p.sha1 ≠ loadHash arg := by
  rw [← findHash_eq_none, xenlpUndo4]
  cases hfind : findHash (loadHash arg) s.lpPatchHead with
  | none => simp
  | some found =>
      obtain ⟨newer, ap, older⟩ := found
      dsimp only
      split_ifs <;> simp

/-- **An undo request** takes out the newest patch with its hash and nothing else, and touches the
text of that patch only; or it changes nothing. -/
theorem xenlpUndo4_removes (arg : ℕ → Byte) (s : Sandbox) :
    ((xenlpUndo4 arg s).ccode = -enoent ↔ ∀ p ∈ s.lpPatchHead, p.sha1 ≠ loadHash arg) ∧
    ((xenlpUndo4 arg s).ccode ≠ 0 → (xenlpUndo4 arg s).sandbox = s) ∧
    ((xenlpUndo4 arg s).ccode = 0 → ∃ newer ap older,
      s.lpPatchHead = newer ++ ap :: older ∧ ap.sha1 = loadHash arg ∧
      (∀ p ∈ newer, p.sha1 ≠ loadHash arg) ∧
      (xenlpUndo4 arg s).sandbox.lpPatchHead = newer ++ older ∧
      ∀ x, (∀ pw ∈ ap.writes, x ∉ pw.block) → (xenlpUndo4 arg s).sandbox.text x = s.text x) := by
  refine ⟨xenlpUndo4_ccode_eq_enoent, ?_⟩
  cases htarget : undoTarget arg s with
  | none =>
      obtain ⟨ccode, hcode, heq⟩ := xenlpUndo4_of_none htarget
      rw [heq]
      exact ⟨fun _ => rfl, fun hzero => absurd hzero hcode⟩
  | some t =>
      obtain ⟨newer, ap, older⟩ := t
      obtain ⟨hlist, hsha1, hnewer⟩ := findHash_eq_some (undoTarget_eq_some.mp htarget).1
      rw [xenlpUndo4_of_some htarget]
      refine ⟨fun hne => absurd rfl hne, fun _ => ⟨newer, ap, older, hlist, hsha1, hnewer, rfl, ?_⟩⟩
      intro x hx
      exact swapTrampolines_text_of_not_mem hx

end Patchbox
