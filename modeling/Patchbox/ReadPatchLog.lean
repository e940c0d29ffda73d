import Patchbox.ReadPatchOutcome

/-!
# How far into a message the data reach

What `read_patch_data` reads of the message, from its log, and the statuses that it can return.

## Main definitions

* `messages`, `ReadsBelow` — the reads of a log, and a bound on them.
* `readsBelow_readPatchData` — how far into the message it reads.
-/

namespace Patchbox
open Lib

variable {img : Image} {env : ApplyEnv img} {arg : ℕ → Byte} {off : ℕ} {apply : XenlpApply4}
  {m : MapState}

/-! ## The bytes of the message that are read -/

/-- The part of a log that concerns the message. -/
def messages (log : List Access) : List (ℕ × ℕ) :=
  log.filterMap fun
    | .message off len => some (off, len)
    | _ => none

@[simp] theorem messages_append (log log' : List Access) :
    messages (log ++ log') = messages log ++ messages log' := List.filterMap_append

@[simp] theorem messages_relocAccesses (pm : PatchMap) (relocs : List (BitVec 32)) :
    messages (relocAccesses pm relocs) = [] := by
  simp [messages, relocAccesses]

/-- Every read of the message ends below `n`. -/
def ReadsBelow (n : ℕ) (log : List Access) : Prop := ∀ r ∈ messages log, r.1 + r.2 ≤ n

@[simp] theorem readsBelow_nil (n : ℕ) : ReadsBelow n [] := by simp [ReadsBelow, messages]

@[simp] theorem readsBelow_append {n : ℕ} {log log' : List Access} :
    ReadsBelow n (log ++ log') ↔ ReadsBelow n log ∧ ReadsBelow n log' := by
  simp [ReadsBelow, or_imp, forall_and]

@[simp] theorem readsBelow_relocAccesses (n : ℕ) (pm : PatchMap) (relocs : List (BitVec 32)) :
    ReadsBelow n (relocAccesses pm relocs) := by
  simp [ReadsBelow]

@[simp] theorem readsBelow_message {n o l : ℕ} : ReadsBelow n [.message o l] ↔ o + l ≤ n := by
  simp [ReadsBelow, messages]

/-- Each section that is reached ends below `n`: the blob when it is mapped, the relocations
when they are stored, the writes when the relocations pass. -/
def SectionsBelow (n : ℕ) (env : ApplyEnv img) (arg : ℕ → Byte) (off : ℕ) (apply : XenlpApply4)
    (m : MapState) : Prop :=
  BlobOk env.toMapEnv apply m →
    (apply.HasBlob → off + apply.bloblen.toNat ≤ n) ∧
    (apply.numrelocs ≠ 0 → env.callocRelocs = true →
      apply.relocsOff off + 4 * apply.numrelocs.toNat ≤ n) ∧
    (RelocsOk env arg off apply → env.memalignWrites = true →
      apply.writesOff off + sizeofXenlpPatchWrite * apply.numwrites.toNat ≤ n)

theorem readsBelow_blobMessages {n : ℕ} :
    ReadsBelow n (blobMessages off apply) ↔
      (apply.HasBlob → off + apply.bloblen.toNat ≤ n) := by
  by_cases h : apply.HasBlob <;> simp [blobMessages, h]

theorem readsBelow_relocMessages {n : ℕ} :
    ReadsBelow n (relocMessages env off apply) ↔
      (apply.numrelocs ≠ 0 → env.callocRelocs = true →
        apply.relocsOff off + 4 * apply.numrelocs.toNat ≤ n) := by
  by_cases h : apply.numrelocs ≠ 0 ∧ env.callocRelocs = true
  · rw [relocMessages, if_pos h, readsBelow_message]
    exact ⟨fun hle _ _ => hle, fun hall => hall h.1 h.2⟩
  · simp only [relocMessages, if_neg h, readsBelow_nil, true_iff]
    exact fun hn hcalloc => absurd ⟨hn, hcalloc⟩ h

theorem readsBelow_writeMessages {n : ℕ} :
    ReadsBelow n (writeMessages env off apply) ↔
      (env.memalignWrites = true →
        apply.writesOff off + sizeofXenlpPatchWrite * apply.numwrites.toNat ≤ n) := by
  by_cases h : env.memalignWrites = true <;> simp [writeMessages, h]

/-- **The reads of `read_patch_data`** stay below `n` exactly when each section reached does. -/
theorem readsBelow_readPatchData {n : ℕ} :
    ReadsBelow n (readPatchData img env arg off apply m).log ↔
      SectionsBelow n env arg off apply m := by
  by_cases hblob : BlobOk env.toMapEnv apply m
  · by_cases hdata : RelocsOk env arg off apply ∧ WritesOk env arg off apply
    · obtain ⟨mem, relocs, writes, -, heq⟩ := readPatchData_of_dataOk ⟨hblob, hdata⟩
      simp only [heq, readsBelow_append, readsBelow_relocAccesses, readsBelow_blobMessages,
        readsBelow_relocMessages, readsBelow_writeMessages, and_true, SectionsBelow, hblob,
        hdata.1, forall_const, and_assoc]
    · obtain ⟨ccode, mem, relocs, -, heq⟩ := readPatchData_of_not_dataOk hblob hdata
      by_cases hrelocs : RelocsOk env arg off apply <;>
        simp only [heq, readsBelow_append, readsBelow_relocAccesses, readsBelow_blobMessages,
          readsBelow_relocMessages, readsBelow_writeMessages, and_true, SectionsBelow, hblob,
          hrelocs, forall_const, and_assoc, if_true, if_false, readsBelow_nil, false_imp_iff]
  · obtain ⟨ccode, pm, -, -, heq⟩ := readPatchData_of_not_blobOk arg off hblob
    simp [heq, SectionsBelow, hblob]

/-! ## The statuses -/

/-- The statuses of `read_patch_data` and of what it calls. -/
def IsStatus (ccode : Int) : Prop :=
  ccode = sandboxOk ∨ ccode = sandboxErrNomem ∨ ccode = sandboxErrInvalid

theorem isStatus_mapPatchMap (env : MapEnv img) (pm : PatchMap) (m : MapState) :
    IsStatus (mapPatchMap img env pm m).1 := by
  rw [mapPatchMap]
  dsimp only
  split_ifs with haddr hlimit
  · exact .inr (.inr rfl)
  · exact .inr (.inr rfl)
  · cases mmap env (nextMap (m.sample img env).last pm.size) (m.sample img env) with
    | none => exact .inr (.inl rfl)
    | some m => exact .inl rfl

theorem isStatus_readBlob {env : MapEnv img} {arg : ℕ → Byte} {off : ℕ} {apply : XenlpApply4}
    {m : MapState} {out : ReadOut} (h : readBlob img env arg off apply m = .error out) :
    IsStatus out.ccode := by
  have hstatus := isStatus_mapPatchMap env ⟨0, apply.bloblen.setWidth 64⟩ m
  rw [readBlob] at h
  split_ifs at h with hblob
  generalize mapPatchMap img env ⟨0, apply.bloblen.setWidth 64⟩ m = r at h hstatus
  obtain ⟨ccode, pm, m'⟩ := r
  by_cases hcode : ccode = sandboxOk
  · simp [hcode] at h
  · simp only [ne_eq, hcode, not_false_eq_true, if_true, Except.error.injEq] at h
    exact h ▸ hstatus

theorem isStatus_relocateAll {bloblen : BitVec 32} {relocs : List (BitVec 32)} {st : ReadState}
    {ccode : Int} {st' : ReadState} (h : relocateAll bloblen relocs st = .error (ccode, st')) :
    IsStatus ccode := by
  induction relocs generalizing st with
  | nil => cases h
  | cons off relocs ih =>
      rw [relocateAll] at h
      split_ifs at h with hlimit
      · cases h
        exact .inr (.inr rfl)
      · exact ih h

theorem isStatus_readRelocs {env : ApplyEnv img} {arg : ℕ → Byte} {apply : XenlpApply4}
    {st st' : ReadState} {ccode : Int} (h : readRelocs env arg apply st = .error (ccode, st')) :
    IsStatus ccode := by
  rw [readRelocs] at h
  split_ifs at h with hzero hcalloc
  · cases h
    exact .inr (.inl rfl)
  · exact isStatus_relocateAll h

theorem isStatus_readWrites {env : ApplyEnv img} {arg : ℕ → Byte} {apply : XenlpApply4}
    {st st' : ReadState} {ccode : Int}
    (h : readWrites img env arg apply st = .error (ccode, st')) : IsStatus ccode := by
  rw [readWrites] at h
  split_ifs at h with hmem
  · cases h
    exact .inr (.inl rfl)
  · dsimp only at h
    split at h
    · cases h
      exact .inr (.inr rfl)
    · cases h

/-- **The statuses of `read_patch_data`.** -/
theorem isStatus_readPatchData (env : ApplyEnv img) (arg : ℕ → Byte) (off : ℕ)
    (apply : XenlpApply4) (m : MapState) :
    IsStatus (readPatchData img env arg off apply m).ccode := by
  rw [readPatchData]
  cases hblob : readBlob img env.toMapEnv arg off apply m with
  | error out => exact isStatus_readBlob hblob
  | ok st =>
      dsimp only
      cases hrelocs : readRelocs env arg apply st with
      | error e => exact @isStatus_readRelocs img env arg apply st e.2 e.1 hrelocs
      | ok st =>
          dsimp only
          cases hwrites : readWrites img env arg apply st with
          | error e => exact @isStatus_readWrites img env arg apply st e.2 e.1 hwrites
          | ok out => exact .inl rfl

end Patchbox
