import Patchbox.ReadPatch

/-!
# What reading the data of a patch returns and leaves

Each of the three sections has one lemma for when its condition holds and one for when it does not;
the whole function has them from its sections.

## Main definitions

* `relocatedMem` — the memory once the relocations were performed, as far as they were.
* `readPatchData_of_dataOk`, `readPatchData_of_not_dataOk` — what the function returns and leaves.
-/

namespace Patchbox
open Lib

variable {img : Image} {env : ApplyEnv img} {arg : ℕ → Byte} {off : ℕ} {apply : XenlpApply4}
  {m : MapState}

/-! ## The blob -/

/-- The mapping of the blob, null when there is none. -/
def blobMap (img : Image) (env : MapEnv img) (apply : XenlpApply4) (m : MapState) : PatchMap :=
  if apply.HasBlob then
    ⟨(nextMap (m.sample img env).last (apply.bloblen.setWidth 64)).addr, apply.bloblen.setWidth 64⟩
  else ⟨0, 0⟩

/-- The statics and pages once the blob is mapped. -/
def blobMaps (img : Image) (env : MapEnv img) (apply : XenlpApply4) (m : MapState) : MapState :=
  if apply.HasBlob then m.extend img env (apply.bloblen.setWidth 64) else m

/-- `relocrel` for a blob mapped at `pm`. -/
def XenlpApply4.relocrel (apply : XenlpApply4) (img : Image) (pm : PatchMap) : BitVec 32 :=
  if apply.HasBlob then
    (pm.addr - (apply.refabs + apply.runtimeConstant img)).setWidth 32
  else 0

/-- The message bytes read for the blob. -/
def blobMessages (off : ℕ) (apply : XenlpApply4) : List Access :=
  if apply.HasBlob then [.message off apply.bloblen.toNat] else []

theorem toNat_bloblen (apply : XenlpApply4) :
    (apply.bloblen.setWidth 64).toNat = apply.bloblen.toNat := by
  simp only [BitVec.toNat_setWidth]
  omega

/-- The memory once the blob is mapped and copied. -/
def blobMem (img : Image) (env : MapEnv img) (arg : ℕ → Byte) (off : ℕ) (apply : XenlpApply4)
    (m : MapState) : Mem 64 :=
  if apply.HasBlob then
    (blobMaps img env apply m).mem.write (n := apply.bloblen.toNat)
      (blobMap img env apply m).addr fun i => arg (off + i)
  else m.mem

/-- The state after the blob. -/
def blobState (img : Image) (env : MapEnv img) (arg : ℕ → Byte) (off : ℕ) (apply : XenlpApply4)
    (m : MapState) : ReadState where
  pm := blobMap img env apply m
  maps := { blobMaps img env apply m with mem := blobMem img env arg off apply m }
  off := apply.relocsOff off
  runtimeConstant := apply.runtimeConstant img
  relocrel := apply.relocrel img (blobMap img env apply m)
  log := blobMessages off apply

theorem readBlob_of_blobOk {env : MapEnv img} (h : BlobOk env apply m) :
    readBlob img env arg off apply m = .ok (blobState img env arg off apply m) := by
  by_cases hb : apply.HasBlob
  · have hpm := mapPatchMap_of_mappable ⟨0, apply.bloblen.setWidth 64⟩ (h hb)
    rw [readBlob, if_pos hb, hpm]
    simp only [if_pos hb, ne_eq, not_true_eq_false, if_false, blobState, blobMap, blobMaps,
      blobMem, XenlpApply4.relocsOff, XenlpApply4.blobBytes, XenlpApply4.runtimeConstant,
      XenlpApply4.relocrel, blobMessages]
    rw [← toNat_bloblen]
  · simp [readBlob, hb, blobState, blobMap, blobMaps, blobMem, XenlpApply4.relocsOff,
      XenlpApply4.blobBytes, XenlpApply4.runtimeConstant, XenlpApply4.relocrel, blobMessages]

/-- A blob that cannot be mapped ends the call: only the statics are sampled, nothing is read,
and the map that is left is null or `MAP_FAILED`. -/
theorem readBlob_of_not_blobOk {env : MapEnv img} (h : ¬BlobOk env apply m) :
    ∃ ccode pm, readBlob img env arg off apply m = .error ⟨ccode, pm, m.sample img env, [], []⟩ ∧
      ccode ≠ sandboxOk ∧ (pm.addr = 0 ∨ pm.addr = mapFailed) := by
  obtain ⟨hb, hm⟩ := Classical.not_imp.mp h
  obtain ⟨hcode, haddr, hmaps⟩ :=
    mapPatchMap_of_not_mappable ⟨0, apply.bloblen.setWidth 64⟩ hm
  refine ⟨_, _, ?_, hcode, haddr⟩
  simp only [readBlob, if_pos hb, ← hmaps]
  exact if_pos hcode

/-! ## The relocations -/

/-- The accesses of the relocations at the offsets `relocs`. -/
def relocAccesses (pm : PatchMap) (relocs : List (BitVec 32)) : List Access :=
  relocs.map fun r => .relocate (pm.addr + r.setWidth 64)

/-- The memory after the relocations at the offsets `relocs` of the blob at `addr`. -/
def relocateMem (addr : Addr) (relocrel : BitVec 32) (relocs : List (BitVec 32)) (mem : Mem 64) :
    Mem 64 :=
  relocs.foldl (fun mem r => subInt32 mem (addr + r.setWidth 64) relocrel) mem

/-- Relocating changes memory only. -/
theorem foldl_relocate (relocs : List (BitVec 32)) (st : ReadState) :
    relocs.foldl ReadState.relocate st =
      { st with
        maps := { st.maps with mem := relocateMem st.pm.addr st.relocrel relocs st.maps.mem }
        log := st.log ++ relocAccesses st.pm relocs } := by
  induction relocs generalizing st with
  | nil => simp [relocateMem, relocAccesses]
  | cons r relocs ih =>
      rw [List.foldl_cons, ih (st.relocate r)]
      simp [ReadState.relocate, relocateMem, relocAccesses]

/-- The offsets before the first one that fails its check. -/
def acceptedRelocs (bloblen : BitVec 32) (relocs : List (BitVec 32)) : List (BitVec 32) :=
  relocs.takeWhile fun r => r.setWidth 64 ≤ relocLimit bloblen

/-- The loop runs up to the first offset that fails its check. -/
theorem relocateAll_eq (bloblen : BitVec 32) (relocs : List (BitVec 32)) (st : ReadState) :
    relocateAll bloblen relocs st =
      if ∀ r ∈ relocs, r.setWidth 64 ≤ relocLimit bloblen then
        .ok (relocs.foldl ReadState.relocate st)
      else
        .error (sandboxErrInvalid,
          (acceptedRelocs bloblen relocs).foldl ReadState.relocate st) := by
  simp only [acceptedRelocs]
  induction relocs generalizing st with
  | nil => simp [relocateAll]
  | cons r relocs ih =>
      by_cases hr : r.setWidth 64 ≤ relocLimit bloblen
      · have hlt : ¬relocLimit bloblen < r.setWidth 64 := BitVec.not_lt.mpr hr
        simp only [relocateAll, if_neg hlt, ih, List.forall_mem_cons, hr, true_and,
          List.takeWhile_cons, decide_true, if_true, List.foldl_cons]
      · have hlt : relocLimit bloblen < r.setWidth 64 := BitVec.not_le.mp hr
        simp [relocateAll, hlt, hr]

/-- The message bytes read for the relocations. -/
def relocMessages (env : ApplyEnv img) (off : ℕ) (apply : XenlpApply4) : List Access :=
  if apply.numrelocs ≠ 0 ∧ env.callocRelocs then
    [.message (apply.relocsOff off) (4 * apply.numrelocs.toNat)]
  else []

/-- The relocations that are applied: those up to the first that fails its check, when there is
memory for the array. -/
def performedRelocs (env : ApplyEnv img) (arg : ℕ → Byte) (off : ℕ) (apply : XenlpApply4) :
    List (BitVec 32) :=
  if env.callocRelocs = true then
    acceptedRelocs apply.bloblen (loadRelocs arg (apply.relocsOff off) apply.numrelocs.toNat)
  else []

/-- Where all pass their checks, all are applied. -/
theorem performedRelocs_of_relocsOk (h : RelocsOk env arg off apply) :
    performedRelocs env arg off apply =
      loadRelocs arg (apply.relocsOff off) apply.numrelocs.toNat := by
  by_cases hn : apply.numrelocs = 0
  · have hnil : loadRelocs arg (apply.relocsOff off) apply.numrelocs.toNat = [] := by
      rw [hn]
      rfl
    rw [performedRelocs, hnil]
    exact ite_self []
  · obtain ⟨hcalloc, hrelocs⟩ := h hn
    rw [performedRelocs, if_pos hcalloc, acceptedRelocs]
    exact List.takeWhile_eq_self_iff.mpr fun r hr => decide_eq_true (hrelocs r hr)

theorem loadRelocs_zero (arg : ℕ → Byte) (off : ℕ) : loadRelocs arg off 0 = [] := rfl

theorem loadRelocs_succ (arg : ℕ → Byte) (off n : ℕ) :
    loadRelocs arg off (n + 1) = word32 arg off :: loadRelocs arg (off + 4) n := by
  rw [loadRelocs, List.ofFn_succ, loadRelocs]
  refine congrArg₂ List.cons rfl (congrArg List.ofFn (funext fun i => ?_))
  rw [Fin.val_succ, Nat.mul_succ, Nat.add_comm (4 * (i : ℕ)), ← Nat.add_assoc]

/-- The state after the relocations: the cursor has moved, memory and log have changed. -/
def ReadState.relocated (st : ReadState) (env : ApplyEnv img) (arg : ℕ → Byte) (off : ℕ)
    (apply : XenlpApply4) (cursor : ℕ) : ReadState :=
  { st with
    maps := { st.maps with
      mem := relocateMem st.pm.addr st.relocrel (performedRelocs env arg off apply) st.maps.mem }
    off := cursor
    log := st.log ++ relocMessages env off apply
      ++ relocAccesses st.pm (performedRelocs env arg off apply) }

theorem readRelocs_of_relocsOk (st : ReadState) (hoff : st.off = apply.relocsOff off)
    (h : RelocsOk env arg off apply) :
    readRelocs env arg apply st = .ok (st.relocated env arg off apply (apply.writesOff off)) := by
  rw [ReadState.relocated, performedRelocs_of_relocsOk h]
  by_cases hn : apply.numrelocs = 0
  · simp [readRelocs, hn, relocMessages, relocAccesses, loadRelocs_zero, relocateMem,
      XenlpApply4.writesOff, ← hoff]
  · obtain ⟨hcalloc, hrelocs⟩ := h hn
    rw [← hoff] at hrelocs
    simp only [readRelocs, hcalloc, Bool.true_eq_false, if_false, relocateAll_eq,
      if_pos hrelocs, foldl_relocate, relocMessages, ne_eq, hn, not_false_eq_true, and_self,
      if_true, XenlpApply4.writesOff, ← hoff]

/-- Relocations that cannot be stored, or one that fails its check, end the call with the
cursor anywhere and nothing changed but memory and log. -/
theorem readRelocs_of_not_relocsOk (st : ReadState) (hoff : st.off = apply.relocsOff off)
    (h : ¬RelocsOk env arg off apply) :
    ∃ ccode cursor, ccode ≠ sandboxOk ∧
      readRelocs env arg apply st = .error (ccode, st.relocated env arg off apply cursor) := by
  obtain ⟨hn, hfail⟩ := Classical.not_imp.mp h
  by_cases hcalloc : env.callocRelocs = true
  · have hrelocs : ¬∀ r ∈ loadRelocs arg st.off apply.numrelocs.toNat,
        r.setWidth 64 ≤ relocLimit apply.bloblen := by
      rw [hoff]
      exact fun hall => hfail ⟨hcalloc, hall⟩
    refine ⟨sandboxErrInvalid, st.off + 4 * apply.numrelocs.toNat, by decide, ?_⟩
    simp only [readRelocs, hcalloc, Bool.true_eq_false, if_false, relocateAll_eq,
      if_neg hrelocs, foldl_relocate, relocMessages, ne_eq, hn, not_false_eq_true, and_self,
      if_true, ReadState.relocated, performedRelocs, ← hoff]
  · exact ⟨sandboxErrNomem, st.off, by decide,
      by simp only [readRelocs, if_neg hn, hcalloc, if_true, relocMessages, and_false, if_false,
        Bool.false_eq_true, relocAccesses, List.map_nil, List.append_nil, ReadState.relocated,
        performedRelocs, relocateMem, List.foldl_nil]⟩

/-! ## The write records -/

/-- A record is moved exactly when it passes its checks. -/
theorem relocateWrite_isSome {runtimeConstant : BitVec 64} {r : BitVec 32}
    {pw : XenlpPatchWrite} :
    (relocateWrite img runtimeConstant r pw).isSome ↔ WriteOk img runtimeConstant pw := by
  have hrange : (pw.hvabs + runtimeConstant < img.start_ ∨ img.end_ ≤ pw.hvabs + runtimeConstant)
      ↔ ¬(img.start_ ≤ pw.hvabs + runtimeConstant ∧ pw.hvabs + runtimeConstant < img.end_) := by
    rw [not_and_or, BitVec.not_le, BitVec.not_lt]
  have hzero : 0 < pw.dataoff.toNat ↔ ¬pw.dataoff.toNat = 0 := Nat.pos_iff_ne_zero
  simp only [relocateWrite, WriteOk, hrange, hzero]
  split_ifs <;> simp_all

/-- Moving a record adds the constant to its address. -/
theorem hvabs_relocateWrite {runtimeConstant : BitVec 64} {relocrel : BitVec 32}
    {pw pw' : XenlpPatchWrite} (h : relocateWrite img runtimeConstant relocrel pw = some pw') :
    pw'.hvabs = pw.hvabs + runtimeConstant := by
  simp only [relocateWrite] at h
  split_ifs at h <;> cases h <;> rfl

/-- The loop accepts the records one by one. -/
theorem relocateWrites_eq_some {runtimeConstant : BitVec 64} {relocrel : BitVec 32}
    {writes writes' : List XenlpPatchWrite} :
    relocateWrites img runtimeConstant relocrel writes = some writes' ↔
      List.Forall₂ (fun pw pw' => relocateWrite img runtimeConstant relocrel pw = some pw')
        writes writes' := by
  induction writes generalizing writes' with
  | nil => simp [relocateWrites, eq_comm]
  | cons pw writes ih =>
      rw [relocateWrites, List.forall₂_cons_left_iff]
      cases relocateWrite img runtimeConstant relocrel pw with
      | none => simp
      | some pw' => simp only [Option.map_eq_some_iff, Option.some.injEq, ih]; grind

/-- Every record the loop leaves is one it accepted. -/
theorem mem_relocateWrites {runtimeConstant : BitVec 64} {relocrel : BitVec 32}
    {writes writes' : List XenlpPatchWrite}
    (h : relocateWrites img runtimeConstant relocrel writes = some writes')
    {pw' : XenlpPatchWrite} (hpw' : pw' ∈ writes') :
    ∃ pw ∈ writes, relocateWrite img runtimeConstant relocrel pw = some pw' := by
  rw [relocateWrites_eq_some] at h
  induction h with
  | nil => simp at hpw'
  | cons hmove _ ih =>
      rcases List.mem_cons.mp hpw' with rfl | hmem
      · exact ⟨_, List.mem_cons_self, hmove⟩
      · obtain ⟨pw, hpw, hpw'⟩ := ih hmem
        exact ⟨pw, List.mem_cons_of_mem _ hpw, hpw'⟩

theorem relocateWrites_isSome {runtimeConstant : BitVec 64} {r : BitVec 32}
    {writes : List XenlpPatchWrite} :
    (relocateWrites img runtimeConstant r writes).isSome ↔
      ∀ pw ∈ writes, WriteOk img runtimeConstant pw := by
  induction writes with
  | nil => simp [relocateWrites]
  | cons pw writes ih =>
      rw [List.forall_mem_cons, ← ih, ← relocateWrite_isSome (r := r), relocateWrites]
      cases relocateWrite img runtimeConstant r pw <;> simp

/-- The message bytes read for the write records. -/
def writeMessages (env : ApplyEnv img) (off : ℕ) (apply : XenlpApply4) : List Access :=
  if env.memalignWrites then
    [.message (apply.writesOff off) (sizeofXenlpPatchWrite * apply.numwrites.toNat)]
  else []

theorem posixMemalign_writes (available : Bool) :
    posixMemalign alignofXenlpPatchWrite available = 0 ↔ available = true := by
  cases available <;> decide

theorem readWrites_of_writesOk (st : ReadState) (hoff : st.off = apply.writesOff off)
    (hconst : st.runtimeConstant = apply.runtimeConstant img) (h : WritesOk env arg off apply) :
    ∃ writes, relocateWrites img st.runtimeConstant st.relocrel
        (loadWrites arg st.off apply.numwrites.toNat) = some writes ∧
      readWrites img env arg apply st =
        .ok (writes, { st with log := st.log ++ writeMessages env off apply }) := by
  obtain ⟨halloc, hall⟩ := h
  rw [← hoff, ← hconst] at hall
  obtain ⟨writes, hwrites⟩ := Option.isSome_iff_exists.mp
    ((relocateWrites_isSome (r := st.relocrel)).mpr hall)
  have hmem := (posixMemalign_writes env.memalignWrites).mpr halloc
  refine ⟨writes, hwrites, ?_⟩
  simp only [readWrites, hmem, ne_eq, not_true_eq_false, if_false, hwrites, writeMessages,
    if_pos halloc, ← hoff]

theorem readWrites_of_not_writesOk (st : ReadState) (hoff : st.off = apply.writesOff off)
    (hconst : st.runtimeConstant = apply.runtimeConstant img) (h : ¬WritesOk env arg off apply) :
    ∃ ccode, ccode ≠ sandboxOk ∧ readWrites img env arg apply st =
      .error (ccode, { st with log := st.log ++ writeMessages env off apply }) := by
  by_cases halloc : env.memalignWrites = true
  · have hnone : relocateWrites img st.runtimeConstant st.relocrel
        (loadWrites arg st.off apply.numwrites.toNat) = none := by
      rw [← Option.not_isSome_iff_eq_none, relocateWrites_isSome, hoff, hconst]
      exact fun hall => h ⟨halloc, hall⟩
    have hmem := (posixMemalign_writes env.memalignWrites).mpr halloc
    refine ⟨sandboxErrInvalid, by decide, ?_⟩
    simp only [readWrites, hmem, ne_eq, not_true_eq_false, if_false, hnone, writeMessages,
      if_pos halloc, ← hoff]
  · refine ⟨sandboxErrNomem, by decide, ?_⟩
    have hne := mt (posixMemalign_writes env.memalignWrites).mp halloc
    simp only [readWrites, ne_eq, hne, not_false_eq_true, if_true, writeMessages, if_neg halloc,
      List.append_nil]

/-! ## The whole function -/

/-- The state once the relocations were applied. -/
def relocatedState (img : Image) (env : ApplyEnv img) (off : ℕ) (apply : XenlpApply4)
    (m : MapState) (mem : Mem 64) (relocs : List (BitVec 32)) (cursor : ℕ) : ReadState where
  pm := blobMap img env.toMapEnv apply m
  maps := { blobMaps img env.toMapEnv apply m with mem := mem }
  off := cursor
  runtimeConstant := apply.runtimeConstant img
  relocrel := apply.relocrel img (blobMap img env.toMapEnv apply m)
  log := blobMessages off apply ++ relocMessages env off apply
    ++ relocAccesses (blobMap img env.toMapEnv apply m) relocs

/-- The memory once they were. -/
def relocatedMem (img : Image) (env : ApplyEnv img) (arg : ℕ → Byte) (off : ℕ)
    (apply : XenlpApply4) (m : MapState) : Mem 64 :=
  relocateMem (blobMap img env.toMapEnv apply m).addr
    (apply.relocrel img (blobMap img env.toMapEnv apply m)) (performedRelocs env arg off apply)
    (blobMem img env.toMapEnv arg off apply m)

theorem readRelocs_blobState_ok (m : MapState) (h : RelocsOk env arg off apply) :
    readRelocs env arg apply (blobState img env.toMapEnv arg off apply m) =
      .ok (relocatedState img env off apply m (relocatedMem img env arg off apply m)
        (performedRelocs env arg off apply) (apply.writesOff off)) :=
  readRelocs_of_relocsOk _ rfl h

theorem readRelocs_blobState_error (m : MapState) (h : ¬RelocsOk env arg off apply) :
    ∃ ccode cursor, ccode ≠ sandboxOk ∧
      readRelocs env arg apply (blobState img env.toMapEnv arg off apply m) =
        .error (ccode, relocatedState img env off apply m (relocatedMem img env arg off apply m)
          (performedRelocs env arg off apply) cursor) :=
  readRelocs_of_not_relocsOk _ rfl h

/-- Accepted data, with the memory and the relocations that they leave. -/
theorem readPatchData_eq_of_dataOk (h : DataOk env arg off apply m) :
    ∃ writes,
      relocateWrites img (apply.runtimeConstant img)
          (apply.relocrel img (blobMap img env.toMapEnv apply m))
          (loadWrites arg (apply.writesOff off) apply.numwrites.toNat) = some writes ∧
      readPatchData img env arg off apply m =
        { ccode := sandboxOk
          pm := blobMap img env.toMapEnv apply m
          maps := { blobMaps img env.toMapEnv apply m with
            mem := relocatedMem img env arg off apply m }
          writes := writes
          log := blobMessages off apply ++ relocMessages env off apply
            ++ relocAccesses (blobMap img env.toMapEnv apply m) (performedRelocs env arg off apply)
            ++ writeMessages env off apply } := by
  obtain ⟨hblob, hrelocs, hwrites⟩ := h
  have hst := readRelocs_blobState_ok m hrelocs
  obtain ⟨writes, hmoved, hread⟩ := readWrites_of_writesOk
    (relocatedState img env off apply m (relocatedMem img env arg off apply m)
      (performedRelocs env arg off apply) (apply.writesOff off)) rfl rfl hwrites
  refine ⟨writes, hmoved, ?_⟩
  simp only [readPatchData, readBlob_of_blobOk hblob, hst, hread]
  rfl

/-- **Accepted data.** The map and the moved writes come back; the cursor has passed over
every section. -/
theorem readPatchData_of_dataOk (h : DataOk env arg off apply m) :
    ∃ mem relocs writes,
      relocateWrites img (apply.runtimeConstant img)
          (apply.relocrel img (blobMap img env.toMapEnv apply m))
          (loadWrites arg (apply.writesOff off) apply.numwrites.toNat) = some writes ∧
      readPatchData img env arg off apply m =
        { ccode := sandboxOk
          pm := blobMap img env.toMapEnv apply m
          maps := { blobMaps img env.toMapEnv apply m with mem := mem }
          writes := writes
          log := blobMessages off apply ++ relocMessages env off apply
            ++ relocAccesses (blobMap img env.toMapEnv apply m) relocs
            ++ writeMessages env off apply } :=
  ⟨_, _, readPatchData_eq_of_dataOk h⟩

/-- **A blob that cannot be mapped.** Nothing is read and nothing was mapped. -/
theorem readPatchData_of_not_blobOk (arg : ℕ → Byte) (off : ℕ) (h : ¬BlobOk env.toMapEnv apply m) :
    ∃ ccode pm, ccode ≠ sandboxOk ∧ (pm.addr = 0 ∨ pm.addr = mapFailed) ∧
      readPatchData img env arg off apply m = ⟨ccode, pm, m.sample img env.toMapEnv, [], []⟩ := by
  obtain ⟨ccode, pm, heq, hcode, haddr⟩ :=
    @readBlob_of_not_blobOk img arg off apply m env.toMapEnv h
  refine ⟨ccode, pm, hcode, haddr, ?_⟩
  simp only [readPatchData, heq]

/-- Data refused after the blob, with the memory and the relocations that they leave. -/
theorem readPatchData_eq_of_not_dataOk (hblob : BlobOk env.toMapEnv apply m)
    (h : ¬(RelocsOk env arg off apply ∧ WritesOk env arg off apply)) :
    ∃ ccode, ccode ≠ sandboxOk ∧
      readPatchData img env arg off apply m =
        { ccode := ccode
          pm := (unmapPatchMap (blobMap img env.toMapEnv apply m)
            { blobMaps img env.toMapEnv apply m with
              mem := relocatedMem img env arg off apply m }).2.1
          maps := (unmapPatchMap (blobMap img env.toMapEnv apply m)
            { blobMaps img env.toMapEnv apply m with
              mem := relocatedMem img env arg off apply m }).2.2
          writes := []
          log := blobMessages off apply ++ relocMessages env off apply
            ++ relocAccesses (blobMap img env.toMapEnv apply m) (performedRelocs env arg off apply)
            ++ if RelocsOk env arg off apply then writeMessages env off apply else [] } := by
  by_cases hrelocs : RelocsOk env arg off apply
  · have hwrites : ¬WritesOk env arg off apply := fun hw => h ⟨hrelocs, hw⟩
    have hst := readRelocs_blobState_ok m hrelocs
    obtain ⟨ccode, hcode, hread⟩ := readWrites_of_not_writesOk
      (relocatedState img env off apply m (relocatedMem img env arg off apply m)
        (performedRelocs env arg off apply) (apply.writesOff off)) rfl rfl hwrites
    refine ⟨ccode, hcode, ?_⟩
    simp only [readPatchData, readBlob_of_blobOk hblob, hst, hread, if_pos hrelocs]
    rfl
  · obtain ⟨ccode, cursor, hcode, hst⟩ := readRelocs_blobState_error m hrelocs
    refine ⟨ccode, hcode, ?_⟩
    simp only [readPatchData, readBlob_of_blobOk hblob, hst, if_neg hrelocs, List.append_nil]
    rfl

/-- **Data refused after the blob.** The blob is unmapped again. -/
theorem readPatchData_of_not_dataOk (hblob : BlobOk env.toMapEnv apply m)
    (h : ¬(RelocsOk env arg off apply ∧ WritesOk env arg off apply)) :
    ∃ ccode mem relocs, ccode ≠ sandboxOk ∧
      readPatchData img env arg off apply m =
        { ccode := ccode
          pm := (unmapPatchMap (blobMap img env.toMapEnv apply m)
            { blobMaps img env.toMapEnv apply m with mem := mem }).2.1
          maps := (unmapPatchMap (blobMap img env.toMapEnv apply m)
            { blobMaps img env.toMapEnv apply m with mem := mem }).2.2
          writes := []
          log := blobMessages off apply ++ relocMessages env off apply
            ++ relocAccesses (blobMap img env.toMapEnv apply m) relocs
            ++ if RelocsOk env arg off apply then writeMessages env off apply else [] } := by
  obtain ⟨ccode, hcode, heq⟩ := readPatchData_eq_of_not_dataOk hblob h
  exact ⟨ccode, _, _, hcode, heq⟩

/-- `read_patch_data` succeeds exactly on accepted data. -/
theorem readPatchData_ok_iff :
    (readPatchData img env arg off apply m).ccode = sandboxOk ↔ DataOk env arg off apply m := by
  by_cases h : DataOk env arg off apply m
  · obtain ⟨mem, relocs, writes, -, heq⟩ := readPatchData_of_dataOk h
    simp [heq, h]
  by_cases hblob : BlobOk env.toMapEnv apply m
  · have hdata : ¬(RelocsOk env arg off apply ∧ WritesOk env arg off apply) :=
      fun hd => h ⟨hblob, hd⟩
    obtain ⟨ccode, mem, relocs, hcode, heq⟩ := readPatchData_of_not_dataOk hblob hdata
    simp [heq, h, hcode]
  · obtain ⟨ccode, pm, hcode, -, heq⟩ := readPatchData_of_not_blobOk arg off hblob
    simp [heq, h, hcode]

/-- The caller's cleanup, after its own or for the first time, leaves no page of the blob. -/
theorem unmap_readPatchData (h : BlobOk env.toMapEnv apply m) :
    (unmapPatchMap (readPatchData img env arg off apply m).pm
        (readPatchData img env arg off apply m).maps).2.2 =
      { blobMaps img env.toMapEnv apply m with
        mem := relocatedMem img env arg off apply m
        mapped := (blobMaps img env.toMapEnv apply m).mapped \
          (blobMap img env.toMapEnv apply m).released } := by
  by_cases hdata : RelocsOk env arg off apply ∧ WritesOk env arg off apply
  · obtain ⟨writes, -, heq⟩ := readPatchData_eq_of_dataOk ⟨h, hdata⟩
    rw [heq, unmapPatchMap_eq]
  · obtain ⟨ccode, -, heq⟩ := readPatchData_eq_of_not_dataOk h hdata
    -- the size was cleared by the callee, so the second call is refused
    have hnone : PatchMap.released ⟨(blobMap img env.toMapEnv apply m).addr, 0⟩ = ∅ :=
      released_eq_empty (.inr (.inr rfl))
    rw [heq, unmapPatchMap_eq, unmapPatchMap_eq, hnone, Finset.sdiff_empty]

/-- Where nothing was mapped there is nothing to clean up. -/
theorem unmap_readPatchData_of_not_blobOk (h : ¬BlobOk env.toMapEnv apply m) :
    (unmapPatchMap (readPatchData img env arg off apply m).pm
        (readPatchData img env arg off apply m).maps).2.2 = m.sample img env.toMapEnv := by
  obtain ⟨ccode, pm, -, haddr, heq⟩ := readPatchData_of_not_blobOk arg off h
  have hnone : pm.released = ∅ := released_eq_empty (haddr.imp_right .inl)
  rw [heq, unmapPatchMap_eq, hnone, Finset.sdiff_empty]

end Patchbox
