import Patchbox.RelocBounds
import Patchbox.Lib.Displacements

/-!
# What a relocation does

A blob is linked as if it stood at `refabs` beside a program at its link-time addresses. It is
mapped at another place beside a program that was loaded elsewhere. `read_patch_data` moves
`refabs` by the distance the program was moved, and corrects each word at a relocation by the
distance from there to the map. That is right for words that are relative to their place and
lead into the program. Words to be written into the program are corrected the other way, which
is right for the jumps; an absolute address of the blob needs the distance from the old
`refabs`, and more than 32 bits.

## Main definitions

* `wordAt` — a word in memory.
* `WordsDisjoint` — relocations of different words.
* `blob_relocated` — the blob afterwards.
* `pointer_relocated_iff` — when an absolute address is right.
-/

namespace Patchbox
open Lib

variable {img : Image} {env : ApplyEnv img} {arg : ℕ → Byte} {off : ℕ} {apply : XenlpApply4}
  {m : MapState} {s : Sandbox}

/-! ## Words in memory -/

/-- The 32-bit word at an address. -/
def wordAt (mem : Mem 64) (a : Addr) : BitVec 32 :=
  word32 (fun i => mem (a + BitVec.ofNat 64 i)) 0

/-- The bytes of a word, decreased. -/
def subWord (d : BitVec 32) (b : Bytes 4) : Bytes 4 := fun i => leByte (word32 b.get 0 - d).toNat i

theorem word32_congr {f g : ℕ → Byte} {o o' : ℕ} (h : ∀ i < 4, f (o + i) = g (o' + i)) :
    word32 f o = word32 g o' := by
  rw [word32, word32, leNat_congr h]

theorem get_read (mem : Mem 64) (a : Addr) {i : ℕ} (hi : i < 4) :
    (mem.read a 4).get i = mem (a + BitVec.ofNat 64 i) := by
  rw [Bytes.get, dif_pos hi, Mem.read]

theorem wordAt_eq_read (mem : Mem 64) (a : Addr) : wordAt mem a = word32 (mem.read a 4).get 0 := by
  refine word32_congr fun i hi => ?_
  rw [Nat.zero_add, get_read mem a hi]

theorem word32_subWord (d : BitVec 32) (b : Bytes 4) :
    word32 (subWord d b).get 0 = word32 b.get 0 - d := by
  generalize hv : word32 b.get 0 - d = v
  have hbytes : ∀ i < 4, (subWord d b).get (0 + i) = leByte v.toNat i := by
    intro i hi
    rw [Nat.zero_add, Bytes.get, dif_pos hi, subWord, hv]
  rw [word32, leNat_congr hbytes, leNat_leByte]
  exact BitVec.eq_of_toNat_eq (by simp only [BitVec.toNat_ofNat]; omega)

theorem subInt32_eq_modify (mem : Mem 64) (a : Addr) (d : BitVec 32) :
    subInt32 mem a d = mem.modify a (subWord d) := by
  rw [subInt32, Mem.modify]
  refine congrArg (mem.write a) (funext fun i => ?_)
  rw [subWord, ← wordAt_eq_read, wordAt]

/-- The relocations update one word after the other. -/
theorem relocateMem_eq_modifyAll (addr : Addr) (relocrel : BitVec 32) (relocs : List (BitVec 32))
    (mem : Mem 64) :
    relocateMem addr relocrel relocs mem =
      mem.modifyAll (relocs.map fun r => addr + r.setWidth 64) (subWord relocrel) := by
  rw [relocateMem, Mem.modifyAll, List.foldl_map]
  exact congrArg (fun f => relocs.foldl f mem)
    (funext fun mem => funext fun r => subInt32_eq_modify mem _ relocrel)

/-! ## Words at offsets -/

/-- Two words do not meet. -/
def WordsApart (r r' : BitVec 32) : Prop := r.toNat + 4 ≤ r'.toNat ∨ r'.toNat + 4 ≤ r.toNat

/-- No two relocations concern the same byte. -/
def WordsDisjoint (relocs : List (BitVec 32)) : Prop := relocs.Pairwise WordsApart

instance (r r' : BitVec 32) : Decidable (WordsApart r r') := inferInstanceAs (Decidable (_ ∨ _))

instance (relocs : List (BitVec 32)) : Decidable (WordsDisjoint relocs) :=
  inferInstanceAs (Decidable (List.Pairwise _ _))

theorem toNat_offset_sub (addr : Addr) {i j : ℕ} (hj : j ≤ i) (hi : i < 2 ^ 32) :
    (addr + BitVec.ofNat 64 i - (addr + BitVec.ofNat 64 j)).toNat = i - j ∧
      (addr + BitVec.ofNat 64 j - (addr + BitVec.ofNat 64 i)).toNat =
        (2 ^ 64 - (i - j)) % 2 ^ 64 := by
  have hpos : addr + BitVec.ofNat 64 i - (addr + BitVec.ofNat 64 j) =
      BitVec.ofNat 64 i - BitVec.ofNat 64 j := by ring
  have hneg : addr + BitVec.ofNat 64 j - (addr + BitVec.ofNat 64 i) =
      BitVec.ofNat 64 j - BitVec.ofNat 64 i := by ring
  rw [hpos, hneg]
  simp only [BitVec.toNat_sub, BitVec.toNat_ofNat]
  omega

theorem ofNat_toNat_setWidth (r : BitVec 32) : BitVec.ofNat 64 r.toNat = r.setWidth 64 := by
  apply BitVec.eq_of_toNat_eq
  rw [BitVec.toNat_ofNat, BitVec.toNat_setWidth]

/-- Words that do not meet in the blob do not meet in memory. -/
theorem WordsApart.disjoint {r r' : BitVec 32} (h : WordsApart r r') (addr : Addr) :
    Disjoint (Mem.block (addr + r.setWidth 64) 4) (Mem.block (addr + r'.setWidth 64) 4) := by
  have hlt := r.isLt
  have hlt' := r'.isLt
  rw [Mem.disjoint_block_iff (by decide), ← ofNat_toNat_setWidth, ← ofNat_toNat_setWidth]
  rcases h with h | h
  · obtain ⟨hpos, hneg⟩ := toNat_offset_sub addr (show r.toNat ≤ r'.toNat by omega) hlt'
    rw [hpos, hneg]
    omega
  · obtain ⟨hpos, hneg⟩ := toNat_offset_sub addr (show r'.toNat ≤ r.toNat by omega) hlt
    rw [hpos, hneg]
    omega

/-- A byte outside a word of the blob is outside it in memory. -/
theorem notMem_word {r : BitVec 32} {i : ℕ} (hi : i < 2 ^ 32)
    (h : i < r.toNat ∨ r.toNat + 4 ≤ i) (addr : Addr) :
    addr + BitVec.ofNat 64 i ∉ Mem.block (addr + r.setWidth 64) 4 := by
  have hlt := r.isLt
  rw [Mem.mem_block, ← ofNat_toNat_setWidth]
  rcases h with h | h
  · obtain ⟨-, hneg⟩ := toNat_offset_sub addr h.le hlt
    rw [hneg]
    omega
  · obtain ⟨hpos, -⟩ := toNat_offset_sub addr (show r.toNat ≤ i by omega) hi
    rw [hpos]
    omega

theorem WordsApart.symm {r r' : BitVec 32} (h : WordsApart r r') : WordsApart r' r := Or.symm h

/-- Around one of them, the others do not meet it. -/
theorem WordsDisjoint.split {relocs : List (BitVec 32)} (h : WordsDisjoint relocs)
    {r : BitVec 32} (hr : r ∈ relocs) :
    ∃ before behind, relocs = before ++ r :: behind ∧ ∀ r' ∈ before ++ behind, WordsApart r' r := by
  obtain ⟨before, behind, rfl⟩ := List.append_of_mem hr
  obtain ⟨-, hcons, hcross⟩ := List.pairwise_append.mp h
  refine ⟨before, behind, rfl, fun r' hr' => ?_⟩
  rcases List.mem_append.mp hr' with hbefore | hbehind
  · exact hcross r' hbefore r List.mem_cons_self
  · exact ((List.pairwise_cons.mp hcons).1 r' hbehind).symm

/-- A word that is relocated once. -/
theorem wordAt_relocateMem {before behind : List (BitVec 32)} {r : BitVec 32}
    (h : ∀ r' ∈ before ++ behind, WordsApart r' r) (addr : Addr) (relocrel : BitVec 32)
    (mem : Mem 64) :
    wordAt (relocateMem addr relocrel (before ++ r :: behind) mem) (addr + r.setWidth 64) =
      wordAt mem (addr + r.setWidth 64) - relocrel := by
  have hdisj : ∀ b ∈ (before.map fun r => addr + r.setWidth 64) ++
      (behind.map fun r => addr + r.setWidth 64),
      Disjoint (Mem.block b 4) (Mem.block (addr + r.setWidth 64) 4) := by
    intro b hb
    rw [← List.map_append] at hb
    obtain ⟨r', hr', rfl⟩ := List.mem_map.mp hb
    exact (h r' hr').disjoint addr
  rw [relocateMem_eq_modifyAll, wordAt_eq_read, wordAt_eq_read, List.map_append, List.map_cons,
    Mem.read_modifyAll mem _ (by decide) hdisj, word32_subWord]

/-- A byte that is not relocated. -/
theorem relocateMem_apply_not_mem {relocs : List (BitVec 32)} {addr a : Addr}
    {relocrel : BitVec 32} {mem : Mem 64}
    (h : ∀ r ∈ relocs, a ∉ Mem.block (addr + r.setWidth 64) 4) :
    relocateMem addr relocrel relocs mem a = mem a := by
  rw [relocateMem_eq_modifyAll]
  refine Mem.modifyAll_apply_not_mem mem _ fun b hb => ?_
  obtain ⟨r, hr, rfl⟩ := List.mem_map.mp hb
  exact h r hr

/-! ## The blob -/

/-- The blob is copied to its map. -/
theorem blobMem_apply (hb : apply.HasBlob) {i : ℕ} (hi : i < apply.bloblen.toNat) :
    blobMem img env.toMapEnv arg off apply m
      ((blobMap img env.toMapEnv apply m).addr + BitVec.ofNat 64 i) = arg (off + i) := by
  have hlt := apply.bloblen.isLt
  rw [blobMem, if_pos hb]
  generalize (blobMap img env.toMapEnv apply m).addr = addr
  generalize (blobMaps img env.toMapEnv apply m).mem = mem
  have hoff := Mem.offset_toNat addr (show i < 2 ^ 64 by omega)
  rw [Mem.write_apply_mem mem _ (Mem.offset_mem_block addr hi)]
  simp only [hoff]

theorem hasBlob_of_lt (hge : 0 < apply.bloblen.toNat) (hlt : apply.bloblen.toNat < maxPatchSize) :
    apply.HasBlob := by
  refine ⟨fun hz => ?_, hlt⟩
  rw [hz] at hge
  exact absurd hge (by decide)

theorem relocrel_of_hasBlob (hb : apply.HasBlob) (img : Image) (pm : PatchMap) :
    apply.relocrel img pm =
      (pm.addr - (apply.refabs + (img.start_ - apply.refabs))).setWidth 32 := by
  rw [XenlpApply4.relocrel, if_pos hb, XenlpApply4.runtimeConstant, if_pos hb]

/-- The relocations of a message. -/
def messageRelocs (arg : ℕ → Byte) : List (BitVec 32) :=
  loadRelocs arg ((XenlpApply4.load arg).relocsOff sizeofXenlpApply4)
    (XenlpApply4.load arg).numrelocs.toNat

/-- How far the program was moved from the place at which the message has it linked. -/
def loadBias (img : Image) (arg : ℕ → Byte) : BitVec 64 :=
  img.start_ - (XenlpApply4.load arg).refabs

/-- What the data of an accepted message leave in memory, and the map of the blob. -/
theorem patchData_mem (hb : (XenlpApply4.load arg).HasBlob)
    (h : (patchData img env arg s).ccode = sandboxOk) :
    (patchData img env arg s).pm = blobMap img env.toMapEnv (XenlpApply4.load arg) s.maps ∧
      (patchData img env arg s).maps.mem =
        relocateMem (blobMap img env.toMapEnv (XenlpApply4.load arg) s.maps).addr
          (((blobMap img env.toMapEnv (XenlpApply4.load arg) s.maps).addr -
            ((XenlpApply4.load arg).refabs + loadBias img arg)).setWidth 32)
          (messageRelocs arg)
          (blobMem img env.toMapEnv arg sizeofXenlpApply4 (XenlpApply4.load arg) s.maps) := by
  have hdata := ccode_patchData_iff.mp h
  obtain ⟨writes, -, heq⟩ := readPatchData_eq_of_dataOk hdata
  obtain ⟨-, hpm, hmaps, -, -⟩ := ReadOut.eq_mk heq
  have hmem := congrArg MapState.mem hmaps
  rw [relocatedMem, performedRelocs_of_relocsOk hdata.2.1, relocrel_of_hasBlob hb] at hmem
  exact ⟨hpm, hmem⟩

/-- The blob is copied to its map and then relocated. -/
theorem patchData_blob (hb : (XenlpApply4.load arg).HasBlob)
    (h : (patchData img env arg s).ccode = sandboxOk) :
    ∃ mem, (patchData img env arg s).maps.mem = relocateMem (patchData img env arg s).pm.addr
        (((patchData img env arg s).pm.addr -
          ((XenlpApply4.load arg).refabs + loadBias img arg)).setWidth 32) (messageRelocs arg) mem ∧
      ∀ i < (XenlpApply4.load arg).bloblen.toNat,
        mem ((patchData img env arg s).pm.addr + BitVec.ofNat 64 i) =
          arg (sizeofXenlpApply4 + i) := by
  obtain ⟨hpm, hmem⟩ := patchData_mem hb h
  rw [← hpm] at hmem
  refine ⟨_, hmem, fun i hi => ?_⟩
  rw [hpm]
  exact blobMem_apply hb hi

/-- A word of the blob in memory, for a relocation that no other one meets. -/
theorem wordAt_patchData (hb : (XenlpApply4.load arg).HasBlob)
    (hcode : (patchData img env arg s).ccode = sandboxOk) {before behind : List (BitVec 32)}
    {off : BitVec 32} (hrelocs : messageRelocs arg = before ++ off :: behind)
    (hapart : ∀ r ∈ before ++ behind, WordsApart r off)
    (hin : off.toNat + 4 ≤ (XenlpApply4.load arg).bloblen.toNat) :
    wordAt (patchData img env arg s).maps.mem ((patchData img env arg s).pm.addr +
        off.setWidth 64) =
      word32 arg (sizeofXenlpApply4 + off.toNat) - ((patchData img env arg s).pm.addr -
        ((XenlpApply4.load arg).refabs + loadBias img arg)).setWidth 32 := by
  obtain ⟨mem, hmem, hblob⟩ := patchData_blob hb hcode
  generalize patchData img env arg s = out at hmem hblob ⊢
  have hword : wordAt mem (out.pm.addr + off.setWidth 64) =
      word32 arg (sizeofXenlpApply4 + off.toNat) := by
    refine word32_congr fun i hi => ?_
    rw [Nat.zero_add, ← ofNat_toNat_setWidth, BitVec.add_assoc, ← BitVec.ofNat_add,
      hblob _ (by omega), Nat.add_assoc]
  rw [hmem, hrelocs, wordAt_relocateMem hapart, hword]

/-- The blob in memory is the message's but for the relocated words. Each of those is decreased
by the distance of the map, and leads to the text as it did. -/
structure BlobRelocated (img : Image) (arg : ℕ → Byte) (out : ReadOut) : Prop where
  bytes : ∀ i < (XenlpApply4.load arg).bloblen.toNat,
    (∀ r ∈ messageRelocs arg, i < r.toNat ∨ r.toNat + 4 ≤ i) →
      out.maps.mem (out.pm.addr + BitVec.ofNat 64 i) = arg (sizeofXenlpApply4 + i)
  words : ∀ r ∈ messageRelocs arg,
    wordAt out.maps.mem (out.pm.addr + r.setWidth 64) =
      word32 arg (sizeofXenlpApply4 + r.toNat) -
        (out.pm.addr - ((XenlpApply4.load arg).refabs + loadBias img arg)).setWidth 32
  refers : ∀ r ∈ messageRelocs arg, ∀ x target,
    RefersTo (word32 arg (sizeofXenlpApply4 + r.toNat)) ((XenlpApply4.load arg).refabs + x) target →
      RefersTo (wordAt out.maps.mem (out.pm.addr + r.setWidth 64)) (out.pm.addr + x)
        (target + loadBias img arg)

/-- **The blob after its relocations**, whatever their number and places. -/
theorem blob_relocated (env : ApplyEnv img) (arg : ℕ → Byte) (s : Sandbox)
    (hge : 4 ≤ (XenlpApply4.load arg).bloblen.toNat)
    (hlt : (XenlpApply4.load arg).bloblen.toNat < maxPatchSize)
    (hdisj : WordsDisjoint (messageRelocs arg))
    (hcode : (patchData img env arg s).ccode = sandboxOk) :
    BlobRelocated img arg (patchData img env arg s) := by
  have hb : (XenlpApply4.load arg).HasBlob := hasBlob_of_lt (by omega) hlt
  have hrelocs := (ccode_patchData_iff.mp hcode).2.1
  have hin : ∀ r ∈ messageRelocs arg, r.toNat + 4 ≤ (XenlpApply4.load arg).bloblen.toNat := by
    intro r hr
    rw [messageRelocs, ← performedRelocs_of_relocsOk hrelocs] at hr
    exact (le_relocLimit_iff hge).mp (le_relocLimit_of_mem_performedRelocs hr)
  have hwords : ∀ r ∈ messageRelocs arg, wordAt (patchData img env arg s).maps.mem
      ((patchData img env arg s).pm.addr + r.setWidth 64) =
        word32 arg (sizeofXenlpApply4 + r.toNat) - ((patchData img env arg s).pm.addr -
          ((XenlpApply4.load arg).refabs + loadBias img arg)).setWidth 32 := by
    intro r hr
    obtain ⟨before, behind, hsplit, hapart⟩ := hdisj.split hr
    exact wordAt_patchData hb hcode hsplit hapart (hin r hr)
  obtain ⟨mem, hmem, hblob⟩ := patchData_blob hb hcode
  generalize patchData img env arg s = out at hmem hblob hwords ⊢
  have hbytes : ∀ i < (XenlpApply4.load arg).bloblen.toNat,
      (∀ r ∈ messageRelocs arg, i < r.toNat ∨ r.toNat + 4 ≤ i) →
        out.maps.mem (out.pm.addr + BitVec.ofNat 64 i) = arg (sizeofXenlpApply4 + i) := by
    intro i hi hout
    have hlen := (XenlpApply4.load arg).bloblen.isLt
    rw [hmem, relocateMem_apply_not_mem fun r hr => notMem_word (hi.trans hlen) (hout r hr) _]
    exact hblob i hi
  refine ⟨hbytes, hwords, fun r hr x target href => ?_⟩
  have hplace : (XenlpApply4.load arg).refabs + x + loadBias img arg =
      (XenlpApply4.load arg).refabs + loadBias img arg + x := by ring
  have hmoved := href.shift (loadBias img arg)
  rw [hplace] at hmoved
  rw [hwords r hr]
  exact hmoved.move (by decide) out.pm.addr

theorem blob_relocated_twoRelocations :
    let arg := fromList (messageOf 0x400000 (List.replicate 16 1) [2, 10] sampleWrite) fun _ => 0
    let s := Sandbox.init (fun _ => 0) fun _ => 0
    4 ≤ (XenlpApply4.load arg).bloblen.toNat ∧ WordsDisjoint (messageRelocs arg) ∧
      messageRelocs arg = [2, 10] ∧ (patchData sampleImage sampleEnv arg s).ccode = sandboxOk ∧
      BlobRelocated sampleImage arg (patchData sampleImage sampleEnv arg s) := by
  intro arg s
  have hge : 4 ≤ (XenlpApply4.load arg).bloblen.toNat := by decide +kernel
  have hlt : (XenlpApply4.load arg).bloblen.toNat < maxPatchSize := by decide +kernel
  have hdisj : WordsDisjoint (messageRelocs arg) := by decide +kernel
  have hcode : (patchData sampleImage sampleEnv arg s).ccode = sandboxOk := by decide +kernel
  exact ⟨hge, hdisj, by decide +kernel, hcode, blob_relocated sampleEnv arg s hge hlt hdisj hcode⟩

/-! ## Pointers -/

/-- A write that was moved, and the one that was sent. -/
theorem getElem_relocateWrites {runtimeConstant : BitVec 64} {relocrel : BitVec 32} {o n : ℕ}
    {writes : List XenlpPatchWrite}
    (h : relocateWrites img runtimeConstant relocrel (loadWrites arg o n) = some writes) {i : ℕ}
    {pw : XenlpPatchWrite} (hpw : writes[i]? = some pw) :
    i < n ∧ relocateWrite img runtimeConstant relocrel
      (XenlpPatchWrite.load arg (o + sizeofXenlpPatchWrite * i)) = some pw := by
  have hall := relocateWrites_eq_some.mp h
  obtain ⟨hi, rfl⟩ := List.getElem?_eq_some_iff.mp hpw
  have hlen : n = writes.length := by
    rw [← hall.length_eq, loadWrites, List.length_ofFn]
  have hget := (List.forall₂_iff_get.mp hall).2 i (hall.length_eq ▸ hi) hi
  exact ⟨hlen ▸ hi, by simpa [loadWrites] using hget⟩

/-- Each write that was sent is moved. -/
theorem exists_getElem_relocateWrites {runtimeConstant : BitVec 64} {relocrel : BitVec 32}
    {sent writes : List XenlpPatchWrite}
    (h : relocateWrites img runtimeConstant relocrel sent = some writes) {i : ℕ}
    {pw : XenlpPatchWrite} (hpw : sent[i]? = some pw) :
    ∃ pw', writes[i]? = some pw' ∧ relocateWrite img runtimeConstant relocrel pw = some pw' := by
  have hall := relocateWrites_eq_some.mp h
  obtain ⟨hi, rfl⟩ := List.getElem?_eq_some_iff.mp hpw
  have hi' : i < writes.length := hall.length_eq ▸ hi
  exact ⟨writes[i], List.getElem?_eq_getElem hi', (List.forall₂_iff_get.mp hall).2 i hi hi'⟩

/-- The writes of an accepted message. -/
theorem patchData_writes (h : (patchData img env arg s).ccode = sandboxOk) :
    relocateWrites img ((XenlpApply4.load arg).runtimeConstant img)
        ((XenlpApply4.load arg).relocrel img (patchData img env arg s).pm)
        (loadWrites arg ((XenlpApply4.load arg).writesOff sizeofXenlpApply4)
          (XenlpApply4.load arg).numwrites.toNat) = some (patchData img env arg s).writes := by
  obtain ⟨writes, hmoved, heq⟩ := readPatchData_eq_of_dataOk (ccode_patchData_iff.mp h)
  obtain ⟨-, hpm, -, hwrites, -⟩ := ReadOut.eq_mk heq
  rw [patchData, hpm, hwrites]
  exact hmoved

theorem word64_addUint64 (data : Bytes 8) (relocrel : BitVec 32) :
    word64 (addUint64 data 0 relocrel).get 0 = word64 data.get 0 + relocrel.signExtend 64 := by
  rw [addUint64, word64, leNat_set data (by decide)]
  exact BitVec.eq_of_toNat_eq (by simp only [BitVec.toNat_ofNat]; omega)

/-- A 64-bit write that is accepted. -/
theorem relocateWrite_uint64 {runtimeConstant : BitVec 64} {relocrel : BitVec 32}
    {pw pw' : XenlpPatchWrite} (htype : pw.reloctype = xenlpRelocUint64) (hoff : pw.dataoff = 0)
    (h : relocateWrite img runtimeConstant relocrel pw = some pw') :
    word64 pw'.data.get 0 = word64 pw.data.get 0 + relocrel.signExtend 64 := by
  have hneg : ¬(0 : BitVec 8).toInt < 0 := by decide
  have hpos : ¬0 < (0 : BitVec 8).toNat := by decide
  rw [relocateWrite, hoff, htype] at h
  dsimp only at h
  rw [if_neg hneg, if_pos rfl, if_neg hpos] at h
  split_ifs at h with hrange
  obtain rfl := Option.some.inj h
  exact word64_addUint64 pw.data relocrel

/-- What was sent as a pointer to the place `k` of the blob. -/
structure SentPointer (arg : ℕ → Byte) (i : ℕ) (k : BitVec 64) : Prop where
  reloctype : (XenlpPatchWrite.load arg ((XenlpApply4.load arg).writesOff sizeofXenlpApply4
    + sizeofXenlpPatchWrite * i)).reloctype = xenlpRelocUint64
  dataoff : (XenlpPatchWrite.load arg ((XenlpApply4.load arg).writesOff sizeofXenlpApply4
    + sizeofXenlpPatchWrite * i)).dataoff = 0
  data : word64 (XenlpPatchWrite.load arg ((XenlpApply4.load arg).writesOff sizeofXenlpApply4
    + sizeofXenlpPatchWrite * i)).data.get 0 = (XenlpApply4.load arg).refabs + k

/-- Where the blob of a message will be mapped. -/
def messageMap (img : Image) (env : ApplyEnv img) (arg : ℕ → Byte) (s : Sandbox) : PatchMap :=
  blobMap img env.toMapEnv (XenlpApply4.load arg) s.maps

theorem pm_patchData (hb : (XenlpApply4.load arg).HasBlob)
    (hcode : (patchData img env arg s).ccode = sandboxOk) :
    (patchData img env arg s).pm = messageMap img env arg s :=
  (patchData_mem hb hcode).1

/-- **A pointer into the blob** is right when the program was moved by a multiple of `2 ^ 32`
and the distance from the old place of the blob to the new one fits in 32 bits; and only then. -/
theorem pointer_relocated_iff (env : ApplyEnv img) (arg : ℕ → Byte) (s : Sandbox)
    (hb : (XenlpApply4.load arg).HasBlob) (hcode : (patchData img env arg s).ccode = sandboxOk)
    (i : ℕ) (k : BitVec 64) (hsent : SentPointer arg i k) (pw : XenlpPatchWrite)
    (hpw : (patchData img env arg s).writes[i]? = some pw) :
    word64 pw.data.get 0 = (patchData img env arg s).pm.addr + k ↔
      (loadBias img arg).setWidth 32 = (0 : BitVec 32) ∧
        Fits 32 ((messageMap img env arg s).addr - (XenlpApply4.load arg).refabs) := by
  have hmoved := (getElem_relocateWrites (patchData_writes hcode) hpw).2
  have hdata := relocateWrite_uint64 hsent.reloctype hsent.dataoff hmoved
  rw [hsent.data, relocrel_of_hasBlob hb] at hdata
  rw [← pm_patchData hb hcode]
  generalize (patchData img env arg s).pm.addr = addr at hdata ⊢
  rw [hdata, loadBias]
  generalize (XenlpApply4.load arg).refabs = refabs
  have hcancel : refabs + k +
      ((addr - (refabs + (img.start_ - refabs))).setWidth 32).signExtend 64 =
      addr + k ↔
        ((addr - (refabs + (img.start_ - refabs))).setWidth 32).signExtend 64 = addr - refabs := by
    constructor
    · intro h
      linear_combination h
    · intro h
      linear_combination h
  have hbias : addr - refabs - (addr - (refabs + (img.start_ - refabs))) = img.start_ - refabs := by
    ring
  rw [hcancel, signExtend_setWidth_eq_iff (by decide), hbias]

/-- A pointer to the start of a blob that is linked at `refabs`, to be written at `0x1000` behind
it. -/
def pointerMessage (refabs : BitVec 64) : List Byte :=
  messageOf refabs (leBytes 4 0xc3) []
    ⟨refabs + 0x1000, fun i => leByte refabs.toNat i, xenlpRelocUint64, 0⟩

theorem pointer_relocated_iff_linked :
    let arg := fromList (pointerMessage 0x400000) fun _ => 0
    let s := Sandbox.init (fun _ => 0) fun _ => 0
    SentPointer arg 0 0 ∧ ∃ pw, (patchData sampleImage sampleEnv arg s).writes[0]? = some pw ∧
      (word64 pw.data.get 0 = (patchData sampleImage sampleEnv arg s).pm.addr + 0 ↔
        (loadBias sampleImage arg).setWidth 32 = (0 : BitVec 32) ∧
          Fits 32
            ((messageMap sampleImage sampleEnv arg s).addr - (XenlpApply4.load arg).refabs)) := by
  intro arg s
  have hsent : SentPointer arg 0 0 :=
    ⟨by decide +kernel, by decide +kernel, by decide +kernel⟩
  have hcode : (patchData sampleImage sampleEnv arg s).ccode = sandboxOk := by decide +kernel
  obtain ⟨pw, hpw⟩ : ∃ pw, (patchData sampleImage sampleEnv arg s).writes[0]? = some pw :=
    Option.isSome_iff_exists.mp (by decide +kernel)
  exact ⟨hsent, pw, hpw, pointer_relocated_iff sampleEnv arg s (by decide +kernel) hcode 0 0 hsent
    pw hpw⟩

/-- In a program that was linked at 0 and loaded at `0x400000` the pointer leads below the blob
by that distance. -/
theorem pointer_misses_blob :
    let arg := fromList (pointerMessage 0) fun _ => 0
    let out := patchData sampleImage sampleEnv arg (Sandbox.init (fun _ => 0) fun _ => 0)
    (XenlpApply4.load arg).HasBlob ∧ SentPointer arg 0 0 ∧ out.ccode = sandboxOk ∧
      out.pm.addr = 0x701000 ∧
      (out.writes[0]?.map fun pw => word64 pw.data.get 0) = some 0x301000 := by
  intro arg out
  exact ⟨by decide +kernel, ⟨by decide +kernel, by decide +kernel, by decide +kernel⟩,
    by decide +kernel, by decide +kernel, by decide +kernel⟩

end Patchbox
