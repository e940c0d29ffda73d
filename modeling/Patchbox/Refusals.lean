import Patchbox.Requests
import Patchbox.Dispatch
import Patchbox.Relocations

/-!
# What a refused APPLY leaves

A message can be refused after its blob was mapped and copied and some of its relocations were
performed. All of that happens in the new mapping, as long as the relocations have a blob to
stay in. The mapping lies above the heap, hence above the program, and above every mapping
that was handed out before.

## Main definitions

* `XenlpApply4.RoomForRelocs` — a blob for the relocations.
* `MapState.Held` — the addresses of the program and of what was handed out.
* `Untouched` — the text, the list and the live blobs are as before.
* `refused_untouched` — an APPLY that is answered with an error.
-/

namespace Patchbox
open Lib

variable {img : Image} {env : ApplyEnv img} {arg : ℕ → Byte} {off : ℕ} {apply : XenlpApply4}
  {m : MapState} {s : Sandbox} {x : Addr}

/-- A relocated blob is mapped, and a word fits into it. -/
def XenlpApply4.RoomForRelocs (apply : XenlpApply4) : Prop :=
  apply.numrelocs ≠ 0 → 4 ≤ apply.bloblen.toNat ∧ apply.bloblen.toNat < maxPatchSize

instance (apply : XenlpApply4) : Decidable apply.RoomForRelocs :=
  inferInstanceAs (Decidable (_ → _))

/-- An address of the program, or one below the end of a mapping that was handed out. -/
def MapState.Held (img : Image) (m : MapState) (x : Addr) : Prop :=
  x.toNat < img.end_.toNat ∨ ∃ pm, m.Placed img pm ∧ x.toNat < pm.stop

/-! ## The new mapping -/

/-- Where a blob is mapped, and with it the length of its mapping. -/
theorem blobMap_of_hasBlob (hb : apply.HasBlob) : blobMap img env.toMapEnv apply m =
    ⟨(nextMap (m.sample img env.toMapEnv).last (apply.bloblen.setWidth 64)).addr,
      apply.bloblen.setWidth 64⟩ := if_pos hb

theorem MapState.Above.extends_blobMaps (h : m.Above img) (hblob : BlobOk env.toMapEnv apply m)
    (hb : apply.HasBlob) : Extends img m (Patchbox.blobMaps img env.toMapEnv apply m)
      (blobMap img env.toMapEnv apply m) := by
  refine (h.blobMaps hblob).2.2 ?_
  rw [blobMap_of_hasBlob hb]
  intro hz
  have hnat := congrArg BitVec.toNat hz
  rw [toNat_bloblen] at hnat
  exact hb.1 (BitVec.eq_of_toNat_eq hnat)

/-- The mapping lies above what is held. -/
theorem MapState.Held.lt_blobMap (hx : m.Held img x) (h : m.Above img)
    (hblob : BlobOk env.toMapEnv apply m) (hb : apply.HasBlob) :
    x.toNat < (blobMap img env.toMapEnv apply m).addr.toNat := by
  have hext := h.extends_blobMaps hblob hb
  rcases hx with htext | ⟨pm, hpm, hlt⟩
  · exact htext.trans_le hext.placed.above_text
  · exact hlt.trans_le (hpm.stop_le.trans (hext.start hpm.sampled))

/-- The mapping has room for the blob, and lies in user space. -/
theorem blobMap_stop_le (hblob : BlobOk env.toMapEnv apply m) (hb : apply.HasBlob) :
    (blobMap img env.toMapEnv apply m).addr.toNat + apply.bloblen.toNat < 2 ^ 63 ∧
      (blobMap img env.toMapEnv apply m).addr.toNat +
        (mappedLen (apply.bloblen.setWidth 64)).toNat ≤ 2 ^ 63 := by
  obtain ⟨-, -, -, hle⟩ := hblob hb
  have hsize : (apply.bloblen.setWidth 64).toNat < maxPatchSize := by
    rw [toNat_bloblen]
    exact hb.2
  have hlen := toNat_mappedLen hsize
  rw [toNat_bloblen] at hlen
  rw [blobMap_of_hasBlob hb]
  simp only [nextMap, userSpaceEnd, pageSize] at hle hlen ⊢
  constructor
  · omega
  · exact hle

/-- Below the mapping the blob is not copied. -/
theorem blobMem_apply_of_lt (hblob : BlobOk env.toMapEnv apply m)
    (hx : apply.HasBlob → x.toNat < (blobMap img env.toMapEnv apply m).addr.toNat) :
    blobMem img env.toMapEnv arg off apply m x = m.mem x := by
  by_cases hb : apply.HasBlob
  · obtain ⟨hcopy, hzero⟩ := blobMap_stop_le hblob hb
    have hlt := hx hb
    have hout := Mem.not_mem_block_of_lt hlt
      (show _ + apply.bloblen.toNat ≤ 2 ^ 64 by omega)
    have hfresh := Mem.not_mem_block_of_lt hlt
      (show _ + (mappedLen (apply.bloblen.setWidth 64)).toNat ≤ 2 ^ 64 by omega)
    rw [blobMem, if_pos hb, Mem.write_apply_not_mem _ _ hout, blobMaps, if_pos hb]
    rw [Mem.mem_block, blobMap_of_hasBlob hb] at hfresh
    exact if_neg hfresh
  · rw [blobMem, if_neg hb]

/-- **Below the mapping nothing is relocated**, however far the relocations got. -/
theorem relocatedMem_apply_of_lt (hblob : BlobOk env.toMapEnv apply m)
    (hroom : apply.RoomForRelocs)
    (hx : apply.HasBlob → x.toNat < (blobMap img env.toMapEnv apply m).addr.toNat) :
    relocatedMem img env arg off apply m x = m.mem x := by
  rw [relocatedMem, relocateMem_apply_not_mem, blobMem_apply_of_lt hblob hx]
  intro r hr
  by_cases hn : apply.numrelocs = 0
  · rw [performedRelocs_eq_nil_iff.mpr (.inl hn)] at hr
    exact absurd hr List.not_mem_nil
  · obtain ⟨hge, hlt⟩ := hroom hn
    have hb : apply.HasBlob := hasBlob_of_lt (by omega) hlt
    have hin := (le_relocLimit_iff hge).mp (le_relocLimit_of_mem_performedRelocs hr)
    obtain ⟨hstop, -⟩ := blobMap_stop_le hblob hb
    have hbelow := hx hb
    have hplace : ((blobMap img env.toMapEnv apply m).addr + r.setWidth 64).toNat =
        (blobMap img env.toMapEnv apply m).addr.toNat + r.toNat := by
      rw [BitVec.toNat_add, BitVec.toNat_setWidth, Nat.mod_eq_of_lt (by omega),
        Nat.mod_eq_of_lt (by omega)]
    exact Mem.not_mem_block_of_lt (by omega) (by omega)

/-- No page that was mapped is given back with the blob. -/
theorem MapState.Above.mapped_subset (h : m.Above img) (hblob : BlobOk env.toMapEnv apply m) :
    m.mapped ⊆ (Patchbox.blobMaps img env.toMapEnv apply m).mapped \
      (blobMap img env.toMapEnv apply m).released := by
  intro n hn
  rw [Finset.mem_sdiff]
  by_cases hb : apply.HasBlob
  · have hext := h.extends_blobMaps hblob hb
    have hbelow := hext.fresh n hn
    refine ⟨?_, fun hreleased => ?_⟩
    · rw [Patchbox.blobMaps, if_pos hb]
      exact Finset.mem_union_left _ hn
    · rw [PatchMap.released] at hreleased
      split_ifs at hreleased
      · rw [pagesOf, Finset.mem_Ico] at hreleased
        have hal := hext.placed.aligned
        simp only [pageSize] at hreleased hal hbelow
        omega
      · exact absurd hreleased (Finset.notMem_empty n)
  · have hmap : blobMap img env.toMapEnv apply m = ⟨0, 0⟩ := if_neg hb
    rw [hmap, released_eq_empty (.inl rfl), Patchbox.blobMaps, if_neg hb]
    exact ⟨hn, Finset.notMem_empty n⟩

/-! ## The message -/

/-- The text, the list with what its entries saved, and the blobs of its entries are as before.
Nothing is written into the program, and no page is lost. -/
structure Untouched (img : Image) (s s' : Sandbox) : Prop where
  text : s'.text = s.text
  list : s'.lpPatchHead = s.lpPatchHead
  blobs : ∀ p ∈ s.lpPatchHead, ∀ i < p.map.size.toNat,
    s'.maps.mem (p.map.addr + BitVec.ofNat 64 i) = s.maps.mem (p.map.addr + BitVec.ofNat 64 i)
  program : ∀ x : Addr, x.toNat < img.end_.toNat → s'.maps.mem x = s.maps.mem x
  pages : s.maps.mapped ⊆ s'.maps.mapped

theorem Untouched.refl (img : Image) (s : Sandbox) : Untouched img s s :=
  ⟨rfl, rfl, fun _ _ _ _ => rfl, fun _ _ => rfl, Finset.Subset.refl _⟩

/-- The bytes of a live blob are held. -/
theorem Sandbox.Inv.held (h : s.Inv img) {p : AppliedPatch} (hp : p ∈ s.lpPatchHead) {i : ℕ}
    (hi : i < p.map.size.toNat) : s.maps.Held img (p.map.addr + BitVec.ofNat 64 i) := by
  have hne : p.map.size ≠ 0 := by
    intro hz
    rw [hz] at hi
    exact absurd hi (Nat.not_lt_zero i)
  have hplaced := h.placed p hp hne
  refine .inr ⟨p.map, hplaced, ?_⟩
  have hstop := PatchMap.stop_eq hplaced.size_lt
  have hle : (p.map.addr + BitVec.ofNat 64 i).toNat ≤ p.map.addr.toNat + i := by
    rw [BitVec.toNat_add, BitVec.toNat_ofNat]
    omega
  simp only [pageSize] at hstop
  omega

/-- Where what is held is kept, nothing is touched. -/
theorem Sandbox.Inv.untouched (h : s.Inv img) {maps : MapState}
    (hmem : ∀ x, s.maps.Held img x → maps.mem x = s.maps.mem x)
    (hpages : s.maps.mapped ⊆ maps.mapped) : Untouched img s { s with maps := maps } :=
  ⟨rfl, rfl, fun _ hp _ hi => hmem _ (h.held hp hi), fun x hx => hmem x (.inl hx), hpages⟩

/-- **A message that is not accepted** touches nothing. -/
theorem Sandbox.Inv.untouched_apply (h : s.Inv img) (hacc : ¬Accepted env arg s)
    (hroom : (XenlpApply4.load arg).RoomForRelocs) :
    Untouched img s (xenlpApply4 img env arg s).sandbox := by
  obtain ⟨ccode, maps, log, heq⟩ := xenlpApply4_of_not_accepted hacc
  have hmaps := maps_of_not_accepted hacc
  rw [Outcome.maps_eq heq] at hmaps
  rw [(Outcome.eq_mk heq).2.1]
  rcases hmaps with hmaps | hmaps | ⟨-, hblob, hmaps⟩
  · rw [hmaps]
    exact Untouched.refl img s
  · rw [hmaps]
    exact h.untouched (fun _ _ => rfl) (Finset.Subset.refl _)
  · rw [hmaps]
    refine h.untouched (fun x hx => ?_) (h.above.mapped_subset hblob)
    exact relocatedMem_apply_of_lt hblob hroom (hx.lt_blobMap h.above hblob)

/-- What the dispatcher makes of a message: an error that leaves the state as it is, or the result
of `xenlp_apply4` for a payload that was read. -/
theorem dispatchApply_outcome (env : ServeEnv img) (len : BitVec 32) (input : List Byte)
    (s : Sandbox) :
    (dispatchApply env len input s).sandbox = s ∨ ∃ patchBuf rest,
      readn input (len - BitVec.ofNat 32 sandboxMsgHdrlen).toNat = (some patchBuf, rest) ∧
      (dispatchApply env len input s).ccode =
        (xenlpApply4 img env.apply (fromList patchBuf env.beyond) s).ccode ∧
      (dispatchApply env len input s).sandbox =
        (xenlpApply4 img env.apply (fromList patchBuf env.beyond) s).sandbox := by
  generalize hn : (len - BitVec.ofNat 32 sandboxMsgHdrlen).toNat = n
  by_cases hread : n < sandboxAllocSize ∧ env.calloc = true ∧ n ≤ input.length
  · obtain ⟨hlt, hcalloc, hle⟩ := hread
    subst hn
    have heq := dispatchApply_of_le (s := s) hcalloc hlt hle rfl
    exact .inr ⟨_, _, readn_of_le hle, Reading.ccode_of_eq heq, Reading.sandbox_of_eq heq⟩
  · refine .inl ?_
    rw [dispatchApply, hn]
    split_ifs with hlarge hcalloc
    · rfl
    · rfl
    · have hlt : input.length < n := by
        refine Nat.lt_of_not_le fun hle => hread ⟨Nat.lt_of_not_le hlarge, ?_, hle⟩
        simpa using hcalloc
      rw [readn_of_lt hlt]

/-- **An APPLY that is answered with an error** touches nothing, after any requests. -/
theorem refused_untouched (text mem : Mem 64) (rs : List (Request img)) (env : ServeEnv img)
    (len : BitVec 32) (input : List Byte) (s : Sandbox)
    (hs : s = run Sandbox.step (Sandbox.init text mem) rs)
    (hroom : ∀ patchBuf rest,
      readn input (len - BitVec.ofNat 32 sandboxMsgHdrlen).toNat = (some patchBuf, rest) →
        (XenlpApply4.load (fromList patchBuf env.beyond)).RoomForRelocs)
    (hcode : (dispatchApply env len input s).ccode ≠ sandboxOk) :
    Untouched img s (dispatchApply env len input s).sandbox := by
  have hinv : s.Inv img :=
    hs ▸ run_invariant (fun _ r h => h.step r) (Sandbox.inv_init text mem) rs
  rcases dispatchApply_outcome env len input s with hsame | ⟨patchBuf, rest, hread, hc, hsandbox⟩
  · rw [hsame]
    exact Untouched.refl img s
  · rw [hsandbox]
    rw [hc] at hcode
    refine hinv.untouched_apply (fun hacc => hcode ?_) (hroom patchBuf rest hread)
    exact xenlpApply4_ccode_iff.mpr hacc.1

/-- A server with one live patch. -/
def oneLiveRun : List (Request sampleImage) :=
  [.apply sampleEnv (fromList (messageOf 0x400000 [0xc3, 0xc3, 0xc3, 0xc3] [] sampleWrite)
    fun _ => 0)]

/-- The second relocation lies outside the blob. -/
def halfwayMessage : List Byte := messageOf 0x400000 (List.replicate 8 1) [0, 100] sampleWrite

theorem refused_untouched_halfway :
    ∃ s, s = run Sandbox.step (Sandbox.init (fun _ => 0) fun _ => 0) oneLiveRun ∧
      s.lpPatchHead.length = 1 ∧
      (dispatchApply sampleServeEnv 120 halfwayMessage s).ccode = sandboxErrInvalid ∧
      Untouched sampleImage s (dispatchApply sampleServeEnv 120 halfwayMessage s).sandbox := by
  obtain ⟨s, hs⟩ : ∃ s, s = run Sandbox.step (Sandbox.init (fun _ => 0) fun _ => 0) oneLiveRun :=
    ⟨_, rfl⟩
  have hone : s.lpPatchHead.length = 1 := by
    rw [hs]
    decide +kernel
  have hcode : (dispatchApply sampleServeEnv 120 halfwayMessage s).ccode = sandboxErrInvalid := by
    rw [hs]
    decide +kernel
  have hroom : ∀ patchBuf rest, readn halfwayMessage
      ((120 : BitVec 32) - BitVec.ofNat 32 sandboxMsgHdrlen).toNat = (some patchBuf, rest) →
        (XenlpApply4.load (fromList patchBuf sampleServeEnv.beyond)).RoomForRelocs := by
    intro patchBuf rest hread
    have hlen : ((120 : BitVec 32) - BitVec.ofNat 32 sandboxMsgHdrlen).toNat =
        halfwayMessage.length := by decide +kernel
    rw [hlen, readn_length] at hread
    cases hread
    decide +kernel
  exact ⟨s, hs, hone, hcode, refused_untouched _ _ _ _ _ _ s hs hroom (by rw [hcode]; decide)⟩

end Patchbox
