import Patchbox.ApplyBuffer

/-!
# Relocations and the bounds of the blob

The check of a relocation subtracts four from the length of the blob. For a blob of less than
four bytes, or none, the difference wraps and every offset passes. A blob of exactly
`MAX_PATCH_SIZE` bytes passes the check of `xenlp_apply4` and is passed over by
`read_patch_data`, so its relocations go to a map that does not exist.

## Main definitions

* `XenlpApply4.InBlob` — a word of the blob that is mapped.
* `RelocsInside` — the relocations stay in the blob, and others are refused.
* `relocsInside_iff` — when they do.
-/

namespace Patchbox
open Lib

variable {img : Image} {env : ApplyEnv img} {arg : ℕ → Byte} {off : ℕ} {apply : XenlpApply4}
  {m : MapState}

/-- The four bytes at the offset are bytes of the blob, which is one that is mapped. -/
def XenlpApply4.InBlob (apply : XenlpApply4) (r : BitVec 32) : Prop :=
  apply.HasBlob ∧ r.toNat + 4 ≤ apply.bloblen.toNat

instance (apply : XenlpApply4) (r : BitVec 32) : Decidable (apply.InBlob r) :=
  inferInstanceAs (Decidable (_ ∧ _))

/-- Each word that a relocation changes is one of the blob where it is mapped, and data with
another offset are refused. -/
structure RelocsInside (img : Image) (env : ApplyEnv img) (arg : ℕ → Byte) (off : ℕ)
    (apply : XenlpApply4) (m : MapState) : Prop where
  inside : ∀ a, .relocate a ∈ (readPatchData img env arg off apply m).log →
    BlobOk env.toMapEnv apply m ∧ ∃ r, apply.InBlob r ∧
      a = (blobMap img env.toMapEnv apply m).addr + r.setWidth 64
  refused : ∀ r ∈ loadRelocs arg (apply.relocsOff off) apply.numrelocs.toNat,
    ¬apply.InBlob r → (readPatchData img env arg off apply m).ccode ≠ sandboxOk

/-! ## The words that are changed -/

theorem relocate_mem_relocAccesses {pm : PatchMap} {relocs : List (BitVec 32)} {a : Addr} :
    .relocate a ∈ relocAccesses pm relocs ↔ ∃ r ∈ relocs, a = pm.addr + r.setWidth 64 := by
  simp [relocAccesses, eq_comm]

theorem relocate_notMem_blobMessages {a : Addr} : .relocate a ∉ blobMessages off apply := by
  rw [blobMessages]
  split_ifs <;> simp

theorem relocate_notMem_relocMessages {a : Addr} :
    .relocate a ∉ relocMessages env off apply := by
  rw [relocMessages]
  split_ifs <;> simp

theorem relocate_notMem_writeMessages {a : Addr} :
    .relocate a ∉ writeMessages env off apply := by
  rw [writeMessages]
  split_ifs <;> simp

/-- They are those of the relocations that are applied. -/
theorem relocate_mem_log {a : Addr} :
    .relocate a ∈ (readPatchData img env arg off apply m).log ↔
      BlobOk env.toMapEnv apply m ∧ ∃ r ∈ performedRelocs env arg off apply,
        a = (blobMap img env.toMapEnv apply m).addr + r.setWidth 64 := by
  by_cases hblob : BlobOk env.toMapEnv apply m
  · rw [and_iff_right hblob, ← relocate_mem_relocAccesses]
    by_cases hdata : RelocsOk env arg off apply ∧ WritesOk env arg off apply
    · obtain ⟨writes, -, heq⟩ := readPatchData_eq_of_dataOk ⟨hblob, hdata⟩
      rw [(ReadOut.eq_mk heq).2.2.2.2]
      simp [relocate_notMem_blobMessages, relocate_notMem_relocMessages,
        relocate_notMem_writeMessages]
    · obtain ⟨ccode, -, heq⟩ := readPatchData_eq_of_not_dataOk hblob hdata
      have hrest : .relocate a ∉
          (if RelocsOk env arg off apply then writeMessages env off apply else []) := by
        split_ifs
        · exact relocate_notMem_writeMessages
        · exact List.not_mem_nil
      rw [(ReadOut.eq_mk heq).2.2.2.2]
      simp [relocate_notMem_blobMessages, relocate_notMem_relocMessages, hrest]
  · obtain ⟨ccode, pm, -, -, heq⟩ := readPatchData_of_not_blobOk arg off hblob
    simp [heq, hblob]

/-- Those that are applied have passed the check. -/
theorem le_relocLimit_of_mem_performedRelocs {r : BitVec 32}
    (h : r ∈ performedRelocs env arg off apply) : r.setWidth 64 ≤ relocLimit apply.bloblen := by
  rw [performedRelocs] at h
  split_ifs at h
  · rw [acceptedRelocs] at h
    have hpass := List.mem_takeWhile_imp h
    exact of_decide_eq_true hpass
  · exact absurd h List.not_mem_nil

/-- The first one is applied when there is memory for the array and it passes the check. -/
theorem performedRelocs_eq_nil_iff :
    performedRelocs env arg off apply = [] ↔
      apply.numrelocs = 0 ∨ env.callocRelocs = false ∨
        relocLimit apply.bloblen < (word32 arg (apply.relocsOff off)).setWidth 64 := by
  rw [performedRelocs, acceptedRelocs]
  by_cases hn : apply.numrelocs = 0
  · rw [hn]
    simp [loadRelocs_zero]
  · have hpos : apply.numrelocs.toNat ≠ 0 := fun hz => hn (BitVec.eq_of_toNat_eq hz)
    obtain ⟨n, hn'⟩ := Nat.exists_eq_succ_of_ne_zero hpos
    rw [hn', loadRelocs_succ, or_iff_right hn]
    by_cases hcalloc : env.callocRelocs = true
    · simp [hcalloc, List.takeWhile_cons, BitVec.not_le]
    · simp [hcalloc]

/-! ## When they stay in the blob -/

/-- Every offset that is read keeps the relocations inside, or there is nothing to refuse. -/
theorem ccode_ne_of_not_relocsOk (h : ¬RelocsOk env arg off apply) :
    (readPatchData img env arg off apply m).ccode ≠ sandboxOk :=
  fun hcode => h (readPatchData_ok_iff.mp hcode).2.1

/-- The relocations stay inside when none is applied. -/
theorem relocsInside_of_nil
    (h : ¬BlobOk env.toMapEnv apply m ∨ performedRelocs env arg off apply = []) :
    RelocsInside img env arg off apply m where
  inside := by
    intro a ha
    obtain ⟨hblob, r, hr, -⟩ := relocate_mem_log.mp ha
    rcases h with h | h
    · exact absurd hblob h
    · exact absurd (h ▸ hr) List.not_mem_nil
  refused := by
    intro r hr _ hcode
    have hdata := readPatchData_ok_iff.mp hcode
    rcases h with h | h
    · exact h hdata.1
    · rw [performedRelocs_of_relocsOk hdata.2.1] at h
      exact absurd (h ▸ hr) List.not_mem_nil

/-- They do for a blob of at least four bytes that is mapped. -/
theorem relocsInside_of_hasBlob (hge : 4 ≤ apply.bloblen.toNat) (hb : apply.HasBlob) :
    RelocsInside img env arg off apply m where
  inside := by
    intro a ha
    obtain ⟨hblob, r, hr, heq⟩ := relocate_mem_log.mp ha
    have hle := (le_relocLimit_iff hge).mp (le_relocLimit_of_mem_performedRelocs hr)
    exact ⟨hblob, r, ⟨hb, hle⟩, heq⟩
  refused := by
    intro r hr hout
    refine ccode_ne_of_not_relocsOk fun hrelocs => hout ⟨hb, (le_relocLimit_iff hge).mp ?_⟩
    have hn : apply.numrelocs ≠ 0 := by
      rintro hz
      rw [hz] at hr
      exact absurd hr List.not_mem_nil
    exact (hrelocs hn).2 r hr

/-- They do not when one is applied to another blob. -/
theorem not_relocsInside_of_applied (hblob : BlobOk env.toMapEnv apply m)
    (hne : performedRelocs env arg off apply ≠ [])
    (hshort : ¬(4 ≤ apply.bloblen.toNat ∧ apply.bloblen.toNat < maxPatchSize)) :
    ¬RelocsInside img env arg off apply m := by
  intro h
  obtain ⟨r, hr⟩ := List.exists_mem_of_ne_nil _ hne
  obtain ⟨-, r', ⟨hb, hle⟩, -⟩ := h.inside _ (relocate_mem_log.mpr ⟨hblob, r, hr, rfl⟩)
  exact hshort ⟨by omega, hb.2⟩

/-- **Relocations stay in the blob** when it has 4 to `MAX_PATCH_SIZE - 1` bytes, or when none is
applied; and only then. -/
theorem relocsInside_iff (env : ApplyEnv img) (arg : ℕ → Byte) (off : ℕ) (apply : XenlpApply4)
    (m : MapState) :
    RelocsInside img env arg off apply m ↔
      (4 ≤ apply.bloblen.toNat ∧ apply.bloblen.toNat < maxPatchSize) ∨
        ¬BlobOk env.toMapEnv apply m ∨ apply.numrelocs = 0 ∨ env.callocRelocs = false ∨
        relocLimit apply.bloblen < (word32 arg (apply.relocsOff off)).setWidth 64 := by
  rw [← performedRelocs_eq_nil_iff]
  constructor
  · intro h
    by_contra hcond
    obtain ⟨hshort, hnil⟩ := not_or.mp hcond
    obtain ⟨hblob, hne⟩ := not_or.mp hnil
    exact not_relocsInside_of_applied (not_not.mp hblob) hne hshort h
  · rintro (⟨hge, hlt⟩ | hnil)
    · refine relocsInside_of_hasBlob hge ⟨fun hz => ?_, hlt⟩
      rw [hz] at hge
      exact absurd hge (by decide)
    · exact relocsInside_of_nil hnil

/-- A message with one write and neither dependencies nor tags. -/
def messageOf (refabs : BitVec 64) (blob : List Byte) (relocs : List (BitVec 32))
    (pw : XenlpPatchWrite) : List Byte :=
  XenlpApply4.store ⟨fun _ => 0, refabs, BitVec.ofNat 32 blob.length,
    BitVec.ofNat 32 relocs.length, 1, 0, 0, 0, 0⟩
    ++ blob ++ relocs.flatMap storeReloc ++ pw.store

/-- Without a blob the header is accepted, and the relocation changes the word at address 16. -/
theorem blobless_relocated :
    let payload := messageOf 0x400000 [] [16] sampleWrite
    let arg := fromList payload fun _ => 0
    let m := MapState.init fun _ => 0
    (XenlpApply4.load arg).HeaderOk ∧ (XenlpApply4.load arg).declared = payload.length ∧
      ¬RelocsInside sampleImage sampleEnv arg sizeofXenlpApply4 (XenlpApply4.load arg) m := by
  refine ⟨by decide +kernel, by decide +kernel, ?_⟩
  exact not_relocsInside_of_applied (by decide +kernel) (by decide +kernel) (by decide +kernel)

end Patchbox
