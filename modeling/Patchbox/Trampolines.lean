import Patchbox.Records
import Patchbox.Lib.Overlay

/-!
# Trampolines in the text

A live patch is a list of eight-byte writes. `swapTrampolines` exchanges the data
of each with the text, so that afterwards the writes hold what the text held. It
runs when a patch is applied and again, on the saved bytes, when it is undone.

Seen from above, the writes of a patch are one layer over the text. When their
ranges do not meet, the exchange lays that layer over the text and leaves the
hidden bytes in the writes.

## Main definitions

* `swapTrampolines`, `makeTextWriteable` — the functions of `libsandbox.c`.
* `WritesDisjoint`, `writeLayer` — the ranges of one patch, and its layer.
* `jumpTarget` — where the near jump at an address of the text leads.
-/

namespace Patchbox
open Lib

/-! ## The source functions -/

/-- `swap_trampolines`: the writes afterwards, and the text. -/
def swapTrampolines : List XenlpPatchWrite → Mem 64 → List XenlpPatchWrite × Mem 64
  | [], text => ([], text)
  | pw :: writes, text =>
      let oldData := text.read pw.hvabs 8
      let (writes, text) := swapTrampolines writes (text.write pw.hvabs pw.data)
      ({ pw with data := oldData } :: writes, text)

/-- `make_text_writeable`: the page of each write. A failing `mprotect` is only reported. -/
def makeTextWriteable (writes : List XenlpPatchWrite) : List Access :=
  writes.map fun pw => .protect (pw.hvabs &&& pageMask)

/-- The text accesses of `swap_trampolines`. -/
def exchanges (writes : List XenlpPatchWrite) : List Access :=
  writes.map fun pw => .exchange pw.hvabs

/-! ## A patch as a layer -/

/-- The eight bytes of text a write replaces. -/
abbrev XenlpPatchWrite.block (pw : XenlpPatchWrite) : Set Addr := Mem.block pw.hvabs 8

/-- No two ranges of the patch meet. -/
def WritesDisjoint (writes : List XenlpPatchWrite) : Prop :=
  writes.Pairwise fun pw pw' => Disjoint pw.block pw'.block

/-- The bytes the writes put into the text, the first write in front. -/
def writeLayer : List XenlpPatchWrite → Layer Addr Byte
  | [] => fun _ => none
  | pw :: writes => fun x =>
      if h : x ∈ pw.block then some (pw.data ⟨(x - pw.hvabs).toNat, h⟩) else writeLayer writes x

theorem writeLayer_cons_of_mem {pw : XenlpPatchWrite} {writes : List XenlpPatchWrite} {x : Addr}
    (h : x ∈ pw.block) :
    writeLayer (pw :: writes) x = some (pw.data ⟨(x - pw.hvabs).toNat, h⟩) := dif_pos h

theorem writeLayer_cons_of_not_mem {pw : XenlpPatchWrite} {writes : List XenlpPatchWrite}
    {x : Addr} (h : x ∉ pw.block) : writeLayer (pw :: writes) x = writeLayer writes x := dif_neg h

theorem mem_support_writeLayer {writes : List XenlpPatchWrite} {x : Addr} :
    x ∈ support (writeLayer writes) ↔ ∃ pw ∈ writes, x ∈ pw.block := by
  induction writes with
  | nil => simp [support, writeLayer]
  | cons pw writes ih =>
      by_cases h : x ∈ pw.block
      · simp [support, writeLayer_cons_of_mem h, h]
      · have htail : x ∈ support (writeLayer (pw :: writes)) ↔ x ∈ support (writeLayer writes) := by
          simp only [support, Set.mem_ofPred_eq, writeLayer_cons_of_not_mem h]
        rw [htail, ih, List.exists_mem_cons_iff]
        simp [h]

theorem writeLayer_eq_none {writes : List XenlpPatchWrite} {x : Addr}
    (h : ∀ pw ∈ writes, x ∉ pw.block) : writeLayer writes x = none := by
  have hx : x ∉ support (writeLayer writes) := by
    rw [mem_support_writeLayer]
    rintro ⟨pw, hpw, hmem⟩
    exact h pw hpw hmem
  simpa [support] using hx

/-- Two patches whose ranges do not meet are layers with disjoint supports. -/
theorem disjoint_support_writeLayer {writes writes' : List XenlpPatchWrite}
    (h : ∀ pw ∈ writes, ∀ pw' ∈ writes', Disjoint pw.block pw'.block) :
    Disjoint (support (writeLayer writes)) (support (writeLayer writes')) := by
  rw [Set.disjoint_left]
  intro x hx hx'
  obtain ⟨pw, hpw, hmem⟩ := mem_support_writeLayer.mp hx
  obtain ⟨pw', hpw', hmem'⟩ := mem_support_writeLayer.mp hx'
  exact Set.disjoint_left.mp (h pw hpw pw' hpw') hmem hmem'

/-- Among disjoint ranges a byte belongs to the one write around it. -/
theorem writeLayer_of_mem {writes : List XenlpPatchWrite} (h : WritesDisjoint writes)
    {pw : XenlpPatchWrite} (hpw : pw ∈ writes) {x : Addr} (hx : x ∈ pw.block) :
    writeLayer writes x = some (pw.data ⟨(x - pw.hvabs).toNat, hx⟩) := by
  induction writes with
  | nil => simp at hpw
  | cons pw' writes ih =>
      obtain ⟨hhead, hrest⟩ := List.pairwise_cons.mp h
      rcases List.mem_cons.mp hpw with rfl | hpw
      · exact writeLayer_cons_of_mem hx
      · rw [writeLayer_cons_of_not_mem (Set.disjoint_right.mp (hhead pw hpw) hx)]
        exact ih hrest hpw

/-- Two ranges of the patch are the same write or do not meet. -/
theorem WritesDisjoint.eq_or_disjoint {writes : List XenlpPatchWrite} (h : WritesDisjoint writes)
    {pw pw' : XenlpPatchWrite} (hpw : pw ∈ writes) (hpw' : pw' ∈ writes) :
    pw = pw' ∨ Disjoint pw.block pw'.block := by
  have : Std.Symm fun pw pw' : XenlpPatchWrite => Disjoint pw.block pw'.block :=
    ⟨fun _ _ hd => hd.symm⟩
  by_cases heq : pw = pw'
  · exact .inl heq
  · exact .inr (List.Pairwise.forall h hpw hpw' heq)

/-! ## What the exchange does -/

@[simp] theorem swapTrampolines_nil (text : Mem 64) : swapTrampolines [] text = ([], text) := rfl

theorem swapTrampolines_cons (pw : XenlpPatchWrite) (writes : List XenlpPatchWrite)
    (text : Mem 64) :
    swapTrampolines (pw :: writes) text =
      ({ pw with data := text.read pw.hvabs 8 }
          :: (swapTrampolines writes (text.write pw.hvabs pw.data)).1,
        (swapTrampolines writes (text.write pw.hvabs pw.data)).2) := rfl

/-- The exchange keeps the addresses. -/
theorem hvabs_swapTrampolines (writes : List XenlpPatchWrite) (text : Mem 64) :
    (swapTrampolines writes text).1.map XenlpPatchWrite.hvabs
      = writes.map XenlpPatchWrite.hvabs := by
  induction writes generalizing text with
  | nil => rfl
  | cons pw writes ih => simp [swapTrampolines_cons, ih]

/-- Whether ranges meet depends on the addresses only. -/
theorem writesDisjoint_congr {writes writes' : List XenlpPatchWrite}
    (h : writes.map XenlpPatchWrite.hvabs = writes'.map XenlpPatchWrite.hvabs) :
    WritesDisjoint writes ↔ WritesDisjoint writes' := by
  have hmap : ∀ ws : List XenlpPatchWrite, WritesDisjoint ws ↔
      (ws.map XenlpPatchWrite.hvabs).Pairwise
        fun a b => Disjoint (Mem.block a 8) (Mem.block b 8) := by
    intro ws
    rw [List.pairwise_map]
    rfl
  rw [hmap, hmap, h]

/-- So does the support of the layer. -/
theorem support_writeLayer_congr {writes writes' : List XenlpPatchWrite}
    (h : writes.map XenlpPatchWrite.hvabs = writes'.map XenlpPatchWrite.hvabs) :
    support (writeLayer writes) = support (writeLayer writes') := by
  have hmap : ∀ ws : List XenlpPatchWrite, ∀ x, x ∈ support (writeLayer ws) ↔
      ∃ a ∈ ws.map XenlpPatchWrite.hvabs, x ∈ Mem.block a 8 := by
    intro ws x
    simp [mem_support_writeLayer, List.mem_map]
  ext x
  rw [hmap, hmap, h]

/-- Bytes outside every range are left alone, whether or not the ranges meet. -/
theorem swapTrampolines_text_of_not_mem {writes : List XenlpPatchWrite} {text : Mem 64} {x : Addr}
    (h : ∀ pw ∈ writes, x ∉ pw.block) : (swapTrampolines writes text).2 x = text x := by
  induction writes generalizing text with
  | nil => rfl
  | cons pw writes ih =>
      rw [swapTrampolines_cons, ih fun pw' hpw' => h pw' (by simp [hpw'])]
      exact Mem.write_apply_not_mem text pw.data (h pw (by simp))

/-- **The exchange lays the patch over the text.** -/
theorem swapTrampolines_text {writes : List XenlpPatchWrite} (h : WritesDisjoint writes)
    (text : Mem 64) : (swapTrampolines writes text).2 = overlay text (writeLayer writes) := by
  induction writes generalizing text with
  | nil => rfl
  | cons pw writes ih =>
      obtain ⟨hpw, hrest⟩ := List.pairwise_cons.mp h
      rw [swapTrampolines_cons, ih hrest]
      funext x
      by_cases hx : x ∈ pw.block
      · have hnone : writeLayer writes x = none :=
          writeLayer_eq_none fun pw' hpw' => Set.disjoint_left.mp (hpw pw' hpw') hx
        simp only [overlay, hnone, writeLayer_cons_of_mem hx, Option.getD_none, Option.getD_some]
        exact Mem.write_apply_mem text pw.data hx
      · simp only [overlay, writeLayer_cons_of_not_mem hx]
        rw [Mem.write_apply_not_mem text pw.data hx]

/-- **The writes then hold what the patch hides.** -/
theorem swapTrampolines_saved {writes : List XenlpPatchWrite} (h : WritesDisjoint writes)
    (text : Mem 64) :
    writeLayer (swapTrampolines writes text).1 = covered text (writeLayer writes) := by
  induction writes generalizing text with
  | nil => rfl
  | cons pw writes ih =>
      obtain ⟨hpw, hrest⟩ := List.pairwise_cons.mp h
      rw [swapTrampolines_cons]
      funext x
      by_cases hx : x ∈ pw.block
      · refine (dif_pos hx).trans ?_
        simp only [covered, writeLayer_cons_of_mem hx, Option.map_some]
        exact congrArg some (Mem.apply_eq_read text hx).symm
      · refine (dif_neg hx).trans ?_
        simp only [ih hrest, covered, writeLayer_cons_of_not_mem hx,
          Mem.write_apply_not_mem text pw.data hx]

/-! ## Jumps -/

/-- Where the near jump at `a` leads, when there is one: past its five bytes, by a signed
displacement. -/
def jumpTarget (text : Mem 64) (a : Addr) : Option Addr :=
  if text a = 0xe9 then
    some (a + 5 + (word32 (fun i => text (a + 1 + BitVec.ofNat 64 i)) 0).signExtend 64)
  else none

/-- A jump is read from the eight bytes at its address. -/
theorem jumpTarget_congr {text text' : Mem 64} {a : Addr}
    (h : ∀ x ∈ Mem.block a 8, text x = text' x) : jumpTarget text a = jumpTarget text' a := by
  have hbyte : ∀ i < 8, text (a + BitVec.ofNat 64 i) = text' (a + BitVec.ofNat 64 i) :=
    fun i hi => h _ (Mem.offset_mem_block a hi)
  have hzero : text a = text' a := by simpa using hbyte 0 (by omega)
  have hword : leNat (fun i => text (a + 1 + BitVec.ofNat 64 i)) 4
      = leNat (fun i => text' (a + 1 + BitVec.ofNat 64 i)) 4 := by
    refine leNat_congr fun i hi => ?_
    have hadd : a + 1 + BitVec.ofNat 64 i = a + BitVec.ofNat 64 (i + 1) := by
      rw [BitVec.add_assoc, BitVec.ofNat_add, BitVec.add_comm (BitVec.ofNat 64 i)]
      rfl
    simpa only [hadd] using hbyte (i + 1) (by omega)
  simp only [jumpTarget, word32, Nat.zero_add, hzero, hword]

/-- The jump a write puts into the text. -/
def XenlpPatchWrite.jump (pw : XenlpPatchWrite) : Option Addr :=
  jumpTarget (Mem.write (fun _ => 0) pw.hvabs pw.data) pw.hvabs

end Patchbox
