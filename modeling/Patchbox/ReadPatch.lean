import Patchbox.PatchMap

/-!
# Reading the data of a patch

`readPatchData` takes the sections of an APPLY payload that follow the header:
the blob, which is mapped and copied, the relocations of the blob, and the write
records, which are moved to the running image. The message is unbounded memory:
nothing here is told how long the payload is. The accesses made on the way are
logged.

The three sections are three functions. Each comes with the condition under
which it succeeds, stated on the message and the environment alone.

Memory here has a byte at every address. An access that would fault is logged like
any other, and a bound on the accesses is a statement about the log.

## Main definitions

* `readPatchData` — `read_patch_data` of `libsandbox.c`.
* `BlobOk`, `RelocsOk`, `WritesOk`, `DataOk` — how far it gets.
-/

namespace Patchbox
open Lib

variable {img : Image}

/-- The system's answers to one APPLY request: the maps, `mmap`, and whether there is memory
for each allocation. -/
structure ApplyEnv (img : Image) extends MapEnv img where
  callocPatch : Bool
  callocRelocs : Bool
  memalignWrites : Bool
  memalignDeps : Bool

/-- `posix_memalign`: an alignment that is not a power of two and a multiple of the pointer
size is refused. -/
def posixMemalign (alignment : ℕ) (available : Bool) : Int :=
  if alignment % 8 ≠ 0 ∨ alignment &&& (alignment - 1) ≠ 0 then einval
  else if available then sandboxOk else enomem

/-- The local variables of `read_patch_data` between two sections. `off` is `arg`, as an
offset into the payload. -/
structure ReadState where
  pm : PatchMap
  maps : MapState
  off : ℕ
  runtimeConstant : BitVec 64
  relocrel : BitVec 32
  log : List Access

/-- What `read_patch_data` returns and leaves behind. -/
structure ReadOut where
  ccode : Int
  pm : PatchMap
  maps : MapState
  writes : List XenlpPatchWrite
  log : List Access

/-- The components of a result that is known as a whole. -/
theorem ReadOut.eq_mk {out : ReadOut} {ccode : Int} {pm : PatchMap} {maps : MapState}
    {writes : List XenlpPatchWrite} {log : List Access} (h : out = ⟨ccode, pm, maps, writes, log⟩) :
    out.ccode = ccode ∧ out.pm = pm ∧ out.maps = maps ∧ out.writes = writes ∧ out.log = log := by
  subst h
  exact ⟨rfl, rfl, rfl, rfl, rfl⟩

/-! ## The source function, section by section -/

/-- Blobs are optional, and one of the maximal size is passed over. -/
def XenlpApply4.HasBlob (h : XenlpApply4) : Prop := h.bloblen ≠ 0 ∧ h.bloblen.toNat < maxPatchSize

instance (h : XenlpApply4) : Decidable h.HasBlob := inferInstanceAs (Decidable (_ ∧ _))

/-- Map the blob, copy it, and compute the two relocation constants. A failing map returns
at once, past the cleanup label. -/
def readBlob (img : Image) (env : MapEnv img) (arg : ℕ → Byte) (off : ℕ) (apply : XenlpApply4)
    (m : MapState) : Except ReadOut ReadState :=
  if apply.HasBlob then
    let (ccode, pm, m) := mapPatchMap img env ⟨0, apply.bloblen.setWidth 64⟩ m
    if ccode ≠ sandboxOk then .error ⟨ccode, pm, m, [], []⟩
    else
      let runtimeConstant := img.start_ - apply.refabs
      let refabs := apply.refabs + runtimeConstant
      .ok
        { pm := pm
          maps := { m with
            mem := m.mem.write (n := pm.size.toNat) pm.addr fun i => arg (off + i) }
          off := off + apply.bloblen.toNat
          runtimeConstant := runtimeConstant
          relocrel := (pm.addr - refabs).setWidth 32
          log := [.message off pm.size.toNat] }
  else .ok ⟨⟨0, 0⟩, m, off, 0, 0, []⟩

/-- `*((int32_t *) p) -= d`. -/
def subInt32 (m : Mem 64) (p : Addr) (d : BitVec 32) : Mem 64 :=
  let v := word32 (fun i => m (p + BitVec.ofNat 64 i)) 0 - d
  m.write (n := 4) p fun i => leByte v.toNat i

/-- `bloblen - sizeof (int32_t)`, a `size_t`: it wraps for a blob of less than four bytes. -/
def relocLimit (bloblen : BitVec 32) : BitVec 64 := bloblen.setWidth 64 - 4

/-- For longer blobs the check keeps the word inside. -/
theorem le_relocLimit_iff {bloblen r : BitVec 32} (h : 4 ≤ bloblen.toNat) :
    r.setWidth 64 ≤ relocLimit bloblen ↔ r.toNat + 4 ≤ bloblen.toNat := by
  have hwide : ∀ v : BitVec 32, (v.setWidth 64).toNat = v.toNat := fun v => by
    rw [BitVec.toNat_setWidth]
    omega
  have hfour : (4 : BitVec 64).toNat = 4 := rfl
  rw [relocLimit, BitVec.le_def, BitVec.toNat_sub_of_le, hwide, hwide, hfour]
  · omega
  · rw [BitVec.le_def, hwide, hfour]
    exact h

/-- One relocated word: blob to hypervisor text. -/
def ReadState.relocate (st : ReadState) (off : BitVec 32) : ReadState :=
  let p := st.pm.addr + off.setWidth 64
  { st with
    maps := { st.maps with mem := subInt32 st.maps.mem p st.relocrel }
    log := st.log ++ [.relocate p] }

/-- The loop over the relocations. -/
def relocateAll (bloblen : BitVec 32) : List (BitVec 32) → ReadState →
    Except (Int × ReadState) ReadState
  | [], st => .ok st
  | off :: relocs, st =>
      if relocLimit bloblen < off.setWidth 64 then .error (sandboxErrInvalid, st)
      else relocateAll bloblen relocs (st.relocate off)

/-- Read the relocation offsets and apply them to the blob. -/
def readRelocs (env : ApplyEnv img) (arg : ℕ → Byte) (apply : XenlpApply4) (st : ReadState) :
    Except (Int × ReadState) ReadState :=
  if apply.numrelocs = 0 then .ok st
  else if env.callocRelocs = false then .error (sandboxErrNomem, st)
  else
    let len := 4 * apply.numrelocs.toNat
    relocateAll apply.bloblen (loadRelocs arg st.off apply.numrelocs.toNat)
      { st with off := st.off + len, log := st.log ++ [.message st.off len] }

/-- `*((uint64_t *) (data + off)) += relocrel`. -/
def addUint64 (data : Bytes 8) (off : ℕ) (relocrel : BitVec 32) : Bytes 8 :=
  data.set off 8 (word64 data.get off + relocrel.signExtend 64).toNat

/-- `*((int32_t *) (data + off)) += relocrel`. -/
def addInt32 (data : Bytes 8) (off : ℕ) (relocrel : BitVec 32) : Bytes 8 :=
  data.set off 4 (word32 data.get off + relocrel).toNat

/-- Verify one write record and apply its relocation: hypervisor text to blob. -/
def relocateWrite (img : Image) (runtimeConstant : BitVec 64) (relocrel : BitVec 32)
    (pw : XenlpPatchWrite) : Option XenlpPatchWrite :=
  let off := pw.dataoff
  let pw := { pw with hvabs := pw.hvabs + runtimeConstant }
  if pw.hvabs < img.start_ ∨ img.end_ ≤ pw.hvabs then none
  else if off.toInt < 0 then some pw
  else if pw.reloctype = xenlpRelocUint64 then
    if 0 < off.toNat then none
    else some { pw with data := addUint64 pw.data off.toNat relocrel }
  else if pw.reloctype = xenlpRelocInt32 then
    if 4 < off.toNat then none
    else some { pw with data := addInt32 pw.data off.toNat relocrel }
  else none

/-- The loop over the write records. -/
def relocateWrites (img : Image) (runtimeConstant : BitVec 64) (relocrel : BitVec 32) :
    List XenlpPatchWrite → Option (List XenlpPatchWrite)
  | [] => some []
  | pw :: writes =>
      match relocateWrite img runtimeConstant relocrel pw with
      | none => none
      | some pw => (relocateWrites img runtimeConstant relocrel writes).map (pw :: ·)

/-- Read the write records and move each to the running image. -/
def readWrites (img : Image) (env : ApplyEnv img) (arg : ℕ → Byte) (apply : XenlpApply4)
    (st : ReadState) : Except (Int × ReadState) (List XenlpPatchWrite × ReadState) :=
  if posixMemalign alignofXenlpPatchWrite env.memalignWrites ≠ 0 then
    .error (sandboxErrNomem, st)
  else
    let len := sizeofXenlpPatchWrite * apply.numwrites.toNat
    let st := { st with log := st.log ++ [.message st.off len] }
    match relocateWrites img st.runtimeConstant st.relocrel
        (loadWrites arg st.off apply.numwrites.toNat) with
    | none => .error (sandboxErrInvalid, st)
    | some writes => .ok (writes, st)

/-- The label `errout`. -/
def ReadState.errout (st : ReadState) (ccode : Int) : ReadOut :=
  let (_, pm, m) := unmapPatchMap st.pm st.maps
  ⟨ccode, pm, m, [], st.log⟩

/-- `read_patch_data`. -/
def readPatchData (img : Image) (env : ApplyEnv img) (arg : ℕ → Byte) (off : ℕ)
    (apply : XenlpApply4) (m : MapState) : ReadOut :=
  match readBlob img env.toMapEnv arg off apply m with
  | .error out => out
  | .ok st =>
    match readRelocs env arg apply st with
    | .error (ccode, st) => st.errout ccode
    | .ok st =>
      match readWrites img env arg apply st with
      | .error (ccode, st) => st.errout ccode
      | .ok (writes, st) => ⟨sandboxOk, st.pm, st.maps, writes, st.log⟩

/-! ## Where the sections lie -/

/-- The bytes the blob takes in the payload, none when it is passed over. -/
def XenlpApply4.blobBytes (apply : XenlpApply4) : ℕ :=
  if apply.HasBlob then apply.bloblen.toNat else 0

/-- Where the relocations are read, for a blob at `off`. -/
def XenlpApply4.relocsOff (apply : XenlpApply4) (off : ℕ) : ℕ := off + apply.blobBytes

/-- Where the write records are read, for a blob at `off`. -/
def XenlpApply4.writesOff (apply : XenlpApply4) (off : ℕ) : ℕ :=
  apply.relocsOff off + 4 * apply.numrelocs.toNat

/-- `runtime_constant`: how far the image was moved, zero when there is no blob. -/
def XenlpApply4.runtimeConstant (apply : XenlpApply4) (img : Image) : BitVec 64 :=
  if apply.HasBlob then img.start_ - apply.refabs else 0

/-! ## How far the function gets -/

/-- The blob, if there is one, can be mapped. -/
def BlobOk (env : MapEnv img) (apply : XenlpApply4) (m : MapState) : Prop :=
  apply.HasBlob → Mappable img env m (apply.bloblen.setWidth 64)

/-- The relocations, if there are any, can be stored, and each passes its check. -/
def RelocsOk (env : ApplyEnv img) (arg : ℕ → Byte) (off : ℕ) (apply : XenlpApply4) : Prop :=
  apply.numrelocs ≠ 0 → env.callocRelocs = true ∧
    ∀ r ∈ loadRelocs arg (apply.relocsOff off) apply.numrelocs.toNat,
      r.setWidth 64 ≤ relocLimit apply.bloblen

/-- The target lies in the image and the relocation, unless the offset is negative, is known
and inside the eight bytes. -/
def WriteOk (img : Image) (runtimeConstant : BitVec 64) (pw : XenlpPatchWrite) : Prop :=
  (img.start_ ≤ pw.hvabs + runtimeConstant ∧ pw.hvabs + runtimeConstant < img.end_) ∧
    (pw.dataoff.toInt < 0 ∨
      pw.reloctype = xenlpRelocUint64 ∧ pw.dataoff.toNat = 0 ∨
      pw.reloctype = xenlpRelocInt32 ∧ pw.dataoff.toNat ≤ 4)

/-- The write records can be stored, and each passes its checks. -/
def WritesOk (env : ApplyEnv img) (arg : ℕ → Byte) (off : ℕ) (apply : XenlpApply4) : Prop :=
  env.memalignWrites = true ∧
    ∀ pw ∈ loadWrites arg (apply.writesOff off) apply.numwrites.toNat,
      WriteOk img (apply.runtimeConstant img) pw

/-- All three sections are accepted. -/
def DataOk (env : ApplyEnv img) (arg : ℕ → Byte) (off : ℕ) (apply : XenlpApply4)
    (m : MapState) : Prop :=
  BlobOk env.toMapEnv apply m ∧ RelocsOk env arg off apply ∧ WritesOk env arg off apply

instance (env : MapEnv img) (apply : XenlpApply4) (m : MapState) :
    Decidable (BlobOk env apply m) := inferInstanceAs (Decidable (_ → _))

instance (env : ApplyEnv img) (arg : ℕ → Byte) (off : ℕ) (apply : XenlpApply4) :
    Decidable (RelocsOk env arg off apply) :=
  -- the instance for all words of 32 bits would be found first
  have := List.decidableBAll (fun r : BitVec 32 => r.setWidth 64 ≤ relocLimit apply.bloblen)
    (loadRelocs arg (apply.relocsOff off) apply.numrelocs.toNat)
  inferInstanceAs (Decidable (_ → _))

instance (runtimeConstant : BitVec 64) (pw : XenlpPatchWrite) :
    Decidable (WriteOk img runtimeConstant pw) := inferInstanceAs (Decidable (_ ∧ _))

instance (env : ApplyEnv img) (arg : ℕ → Byte) (off : ℕ) (apply : XenlpApply4) :
    Decidable (WritesOk env arg off apply) := inferInstanceAs (Decidable (_ ∧ _))

instance (env : ApplyEnv img) (arg : ℕ → Byte) (off : ℕ) (apply : XenlpApply4)
    (m : MapState) : Decidable (DataOk env arg off apply m) :=
  inferInstanceAs (Decidable (_ ∧ _))

end Patchbox
