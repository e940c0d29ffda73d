import Patchbox.CmdApplyResult
import Patchbox.Relocations

/-!
# The jumps at the patched functions

The client writes a jump for each function as if the blob stood at `refabs` and the function at
its link-time address. The server moves the write with the program and increases the word
behind the opcode by the distance of the blob. The jump then leads to the function's new
place in the blob, unless that is out of its reach.

## Main definitions

* `JumpFrom` — a write that puts a jump into the text.
* `functionsJump` — the writes for the functions, at the server.
-/

namespace Patchbox
open Lib

variable {img : Image} {env : ApplyEnv img} {arg : ℕ → Byte} {p : Patch} {func : FunctionPatch}
  {pw pw' : XenlpPatchWrite} {s : Sandbox}

/-! ## Data -/

/-- A word behind the first byte is increased, and the first byte stays. -/
theorem addInt32_one (data : Bytes 8) (relocrel : BitVec 32) :
    addInt32 data 1 relocrel 0 = data 0 ∧
      word32 (addInt32 data 1 relocrel).get 1 = word32 data.get 1 + relocrel := by
  constructor
  · rw [addInt32, Bytes.set, if_neg (by decide)]
  · rw [addInt32, word32, leNat_set data (by decide)]
    exact BitVec.eq_of_toNat_eq (by simp only [BitVec.toNat_ofNat]; omega)

/-- The data of a jump, as the client writes them. -/
theorem FunctionPatch.write_data (refabs : BitVec 64) (func : FunctionPatch) :
    (func.write refabs).data 0 = 0xe9 ∧ word32 (func.write refabs).data.get 1 =
      (refabs + func.newrel.setWidth 64 - func.oldabs - 5).setWidth 32 := by
  rw [FunctionPatch.write]
  dsimp only
  generalize (refabs + func.newrel.setWidth 64 - func.oldabs - 5).setWidth 32 = jmpoffset
  constructor
  · rw [Bytes.set, if_neg (by decide), Bytes.set, if_pos (by decide)]
    decide
  · rw [word32, leNat_set _ (by decide)]
    exact BitVec.eq_of_toNat_eq (by simp only [BitVec.toNat_ofNat]; omega)

/-- A 32-bit write behind the opcode that is accepted. -/
theorem relocateWrite_int32 {runtimeConstant : BitVec 64} {relocrel : BitVec 32}
    (htype : pw.reloctype = xenlpRelocInt32) (hoff : pw.dataoff = 1)
    (h : relocateWrite img runtimeConstant relocrel pw = some pw') :
    pw'.hvabs = pw.hvabs + runtimeConstant ∧ pw'.data = addInt32 pw.data 1 relocrel := by
  have hneg : ¬(1 : BitVec 8).toInt < 0 := by decide
  have hpos : ¬4 < (1 : BitVec 8).toNat := by decide
  have hne : xenlpRelocInt32 ≠ xenlpRelocUint64 := by decide
  rw [relocateWrite, hoff, htype] at h
  dsimp only at h
  rw [if_neg hneg, if_neg hne, if_pos rfl, if_neg hpos] at h
  split_ifs at h with hrange
  obtain rfl := Option.some.inj h
  exact ⟨rfl, rfl⟩

/-! ## Jumps -/

/-- Where data with the opcode lead once they are written. -/
theorem jumpTarget_write (text : Mem 64) (a : Addr) {data : Bytes 8} (hopcode : data 0 = 0xe9) :
    jumpTarget (text.write a data) a = some (a + 5 + (word32 data.get 1).signExtend 64) := by
  have hget : ∀ i < 8, (text.write a data) (a + BitVec.ofNat 64 i) = data.get i := by
    intro i hi
    have hoff := Mem.offset_toNat a (show i < 2 ^ 64 by omega)
    rw [Mem.write_apply_mem text data (Mem.offset_mem_block a hi), Bytes.get, dif_pos hi]
    simp only [hoff]
  have hzero : (text.write a data) a = 0xe9 := by
    have hfirst := hget 0 (by decide)
    rw [BitVec.add_zero] at hfirst
    rw [hfirst]
    exact hopcode
  have hword : word32 (fun i => (text.write a data) (a + 1 + BitVec.ofNat 64 i)) 0 =
      word32 data.get 1 := by
    refine word32_congr fun i hi => ?_
    have hplace : a + 1 + BitVec.ofNat 64 (0 + i) = a + BitVec.ofNat 64 (1 + i) := by
      rw [Nat.zero_add, BitVec.ofNat_add, BitVec.add_assoc]
      rfl
    rw [hplace]
    exact hget (1 + i) (by omega)
  rw [jumpTarget, if_pos hzero, hword]

/-- The write is for the eight bytes at `place`, and puts a jump to `target` there. -/
structure JumpFrom (pw : XenlpPatchWrite) (place target : Addr) : Prop where
  hvabs : pw.hvabs = place
  opcode : pw.data 0 = 0xe9
  displacement : word32 pw.data.get 1 = (target - place - 5).setWidth 32
  lands : Lib.Fits 32 (target - place - 5) →
    ∀ text : Mem 64, jumpTarget (text.write pw.hvabs pw.data) pw.hvabs = some target

/-- A jump leads to its target when the displacement is right. -/
theorem jumpFrom_of_refersTo {place target : Addr} (hhvabs : pw.hvabs = place)
    (hopcode : pw.data 0 = 0xe9)
    (hword : RefersTo (word32 pw.data.get 1) (place + 5) target) : JumpFrom pw place target := by
  have hsub : target - (place + 5) = target - place - 5 := by ring
  refine ⟨hhvabs, hopcode, by rw [← hsub]; exact hword, fun hfit text => ?_⟩
  rw [← hsub] at hfit
  rw [jumpTarget_write text _ hopcode, hhvabs, hword.lands hfit]

/-- The displacement that the client computes, corrected by the server. -/
theorem FunctionPatch.jumpFrom {refabs bias addr : BitVec 64}
    (h : relocateWrite img bias ((addr - (refabs + bias)).setWidth 32) (func.write refabs) =
      some pw) : JumpFrom pw (func.oldabs + bias) (addr + func.newrel.setWidth 64) := by
  obtain ⟨hopcode, hword⟩ := FunctionPatch.write_data refabs func
  obtain ⟨hhvabs, hdata⟩ := relocateWrite_int32 rfl rfl h
  obtain ⟨hfirst, hrest⟩ := addInt32_one (func.write refabs).data
    ((addr - (refabs + bias)).setWidth 32)
  have hlinked : RefersTo (word32 (func.write refabs).data.get 1) (func.oldabs + 5)
      (refabs + func.newrel.setWidth 64) := by
    rw [RefersTo, hword]
    congr 1
    ring
  have hplace : func.oldabs + 5 + bias = func.oldabs + bias + 5 := by ring
  have htarget : refabs + func.newrel.setWidth 64 + bias =
      refabs + bias + func.newrel.setWidth 64 := by ring
  have hmoved := hlinked.shift bias
  rw [hplace, htarget] at hmoved
  refine jumpFrom_of_refersTo hhvabs ?_ ?_
  · rw [hdata, hfirst, hopcode]
  · rw [hdata, hrest]
    exact hmoved.retarget (by decide) addr

/-! ## The message -/

theorem numwrites_header : (p.header (patchWrites p)).numwrites.toNat = p.funcs.1.length := by
  have hlt := p.funcs.2
  rw [Patch.header, length_patchWrites, BitVec.toNat_ofNat]
  exact Nat.mod_eq_of_lt (by omega)

theorem hasBlob_header {writes : List XenlpPatchWrite} (hge : 0 < p.blob.1.length)
    (hlt : p.blob.1.length < maxPatchSize) : (p.header writes).HasBlob := by
  rw [← Blob.toNat_bloblen] at hge hlt
  exact hasBlob_of_lt hge hlt

/-- The server finds the writes of the client behind its relocations. -/
theorem loadWrites_message (hb : (p.header (patchWrites p)).HasBlob) (beyond : ℕ → Byte) :
    loadWrites (fromList (p.message fillPatchBuf4) beyond)
      ((p.header (patchWrites p)).writesOff sizeofXenlpApply4) p.funcs.1.length =
        patchWrites p := by
  have hall := standsAt_fromList (p.message fillPatchBuf4) beyond
  generalize fromList (p.message fillPatchBuf4) beyond = arg at hall
  have hoff : (p.header (patchWrites p)).writesOff sizeofXenlpApply4 =
      sizeofXenlpApply4 + p.blob.1.length + 4 * p.relocs.1.length := by
    rw [XenlpApply4.writesOff, XenlpApply4.relocsOff, XenlpApply4.blobBytes, if_pos hb,
      toNat_numrelocs_header, Patch.header, Blob.toNat_bloblen]
  rw [Patch.message, fillPatchBuf4, Patch.sections] at hall
  simp only [List.flatten_cons, standsAt_append, XenlpApply4.length_store,
    length_flatMap_const length_storeReloc, Nat.zero_add] at hall
  rw [hoff, ← length_patchWrites]
  exact loadWrites_of_standsAt hall.2.2.2.1

/-- For each function there is a write that puts a jump from where the function is now to its
place in the blob. -/
def FunctionsJump (img : Image) (p : Patch) (out : ReadOut) : Prop :=
  ∀ (i : ℕ) func, p.funcs.1[i]? = some func → ∃ pw, out.writes[i]? = some pw ∧
    JumpFrom pw (func.oldabs + (img.start_ - p.refabs)) (out.pm.addr + func.newrel.setWidth 64)

/-- **The jumps of an accepted message** lead from the functions to the blob. -/
theorem functionsJump (env : ApplyEnv img) (p : Patch) (beyond : ℕ → Byte) (s : Sandbox)
    (hge : 0 < p.blob.1.length) (hlt : p.blob.1.length < maxPatchSize)
    (hcode : (patchData img env (fromList (p.message fillPatchBuf4) beyond) s).ccode = sandboxOk) :
    FunctionsJump img p (patchData img env (fromList (p.message fillPatchBuf4) beyond) s) := by
  have hb := @hasBlob_header p (patchWrites p) hge hlt
  have hmoved := patchData_writes hcode
  rw [load_message4, numwrites_header, loadWrites_message hb, relocrel_of_hasBlob hb,
    XenlpApply4.runtimeConstant, if_pos hb] at hmoved
  generalize patchData img env (fromList (p.message fillPatchBuf4) beyond) s = out at hmoved ⊢
  intro i func hfunc
  have hsent : (patchWrites p)[i]? = some (func.write p.refabs) := by
    rw [patchWrites, List.getElem?_map, hfunc, Option.map_some]
  obtain ⟨pw, hpw, hmove⟩ := exists_getElem_relocateWrites hmoved hsent
  exact ⟨pw, hpw, FunctionPatch.jumpFrom hmove⟩

theorem functionsJump_storedPatch :
    let arg := fromList (storedPatch.message fillPatchBuf4) fun _ => 0
    let s := Sandbox.init (fun _ => 0) fun _ => 0
    0 < storedPatch.funcs.1.length ∧ (patchData sampleImage sampleEnv arg s).ccode = sandboxOk ∧
      FunctionsJump sampleImage storedPatch (patchData sampleImage sampleEnv arg s) := by
  intro arg s
  have hcode : (patchData sampleImage sampleEnv arg s).ccode = sandboxOk := by decide +kernel
  exact ⟨by decide, hcode, functionsJump sampleEnv storedPatch (fun _ => 0) s (by decide)
    (by decide) hcode⟩

end Patchbox
