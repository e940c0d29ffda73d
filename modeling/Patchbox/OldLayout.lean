import Patchbox.ApplyBuffer

/-!
# The older layout of an APPLY message

`fill_patch_buf3` writes the header of `struct xenlp_apply3`, and the message goes out
under the same id. The server has one decoder, for `struct xenlp_apply4`: it takes the
length of the blob for a reference address, the number of writes for the length of the
blob, and the two halves of the reference address for counts. What it does agrees with
what it does for `fill_patch_buf4` where both headers are refused. Where the newer
message is applied it can agree only for a patch whose numbers coincide.

## Main definitions

* `XenlpApply3`, `fillPatchBuf3` — the header, and `fill_patch_buf3` of `raxlpxs.c`.
* `XenlpApply3.asApply4` — the header that the server sees.
* `SameEffect` — the same result and the same state.
* `sameEffect_encodings` — when the two messages agree.
-/

namespace Patchbox
open Lib

variable {img : Image}

/-! ## The source function -/

/-- `struct xenlp_apply3`. -/
structure XenlpApply3 where
  sha1 : Bytes shaDigestLength
  bloblen : BitVec 32
  numrelocs : BitVec 32
  numwrites : BitVec 32
  refabs : BitVec 64
  numdeps : BitVec 32
  taglen : BitVec 32

/-- `sizeof (struct xenlp_apply3)`, its padding included. -/
abbrev sizeofXenlpApply3 : ℕ := 56

/-- The bytes of the header, padding included. -/
def XenlpApply3.store (h : XenlpApply3) : List Byte :=
  h.sha1.toList ++ List.replicate 4 0 ++ leBytes 4 h.bloblen.toNat ++ leBytes 4 h.numrelocs.toNat
    ++ leBytes 4 h.numwrites.toNat ++ List.replicate 4 0 ++ leBytes 8 h.refabs.toNat
    ++ leBytes 4 h.numdeps.toNat ++ leBytes 4 h.taglen.toNat

@[simp] theorem XenlpApply3.length_store (h : XenlpApply3) : h.store.length = sizeofXenlpApply3 := by
  simp [XenlpApply3.store]

/-- The header of the older message. -/
def Patch.header3 (p : Patch) (writes : List XenlpPatchWrite) : XenlpApply3 where
  sha1 := p.sha1
  bloblen := p.blob.bloblen
  numrelocs := p.relocs.count.setWidth 32
  numwrites := BitVec.ofNat 32 writes.length
  refabs := p.refabs
  numdeps := p.deps.count.setWidth 32
  taglen := BitVec.ofNat 32 p.taglen

/-- `fill_patch_buf3`: the bytes put into the buffer. -/
def fillPatchBuf3 (p : Patch) (writes : List XenlpPatchWrite) : List Byte :=
  (p.header3 writes).store ++ p.blob.1 ++ p.relocs.1.flatMap storeReloc
    ++ writes.flatMap XenlpPatchWrite.store ++ (p.deps.1.flatMap fun d => storeHash d.sha1)
    ++ p.tags.1.take p.taglen

/-! ## The header at the server -/

/-- The older header as the decoder of the newer one reads it. The length of the tags is taken
from the four bytes behind it. -/
def XenlpApply3.asApply4 (h : XenlpApply3) (behind : BitVec 32) : XenlpApply4 where
  sha1 := h.sha1
  refabs := BitVec.ofNat 64 (h.bloblen.toNat + h.numrelocs.toNat * 256 ^ 4)
  bloblen := h.numwrites
  numrelocs := 0
  numwrites := h.refabs.setWidth 32
  numexctblents := (h.refabs >>> 32).setWidth 32
  numpreexctblents := h.numdeps
  numdeps := h.taglen
  taglen := behind

/-- The word at an offset where two shorter ones stand. -/
theorem word64_of_halves {f : ℕ → Byte} {off : ℕ} {lo hi : BitVec 32}
    (hlo : StandsAt f off (leBytes 4 lo.toNat)) (hhi : StandsAt f (off + 4) (leBytes 4 hi.toNat)) :
    word64 f off = BitVec.ofNat 64 (lo.toNat + hi.toNat * 256 ^ 4) := by
  have hlow : leBytes 4 (lo.toNat + hi.toNat * 256 ^ 4) = leBytes 4 lo.toNat := by
    rw [← leBytes_mod, Nat.add_mul_mod_self_right, leBytes_mod]
  have hhigh : (lo.toNat + hi.toNat * 256 ^ 4) / 256 ^ 4 = hi.toNat := by omega
  have hstands : StandsAt f off (leBytes (4 + 4) (lo.toNat + hi.toNat * 256 ^ 4)) := by
    rw [leBytes_add, standsAt_append, length_leBytes, hlow, hhigh]
    exact ⟨hlo, hhi⟩
  have hlt : lo.toNat + hi.toNat * 256 ^ 4 < 256 ^ (4 + 4) := by omega
  rw [word64, StandsAt.leNat hstands, Nat.mod_eq_of_lt hlt]

/-- The two shorter words where a long one stands. -/
theorem word32_of_long {f : ℕ → Byte} {off : ℕ} {v : BitVec 64}
    (h : StandsAt f off (leBytes 8 v.toNat)) :
    word32 f off = v.setWidth 32 ∧ word32 f (off + 4) = (v >>> 32).setWidth 32 := by
  have hsplit : leBytes 8 v.toNat = leBytes 4 v.toNat ++ leBytes 4 (v.toNat / 256 ^ 4) :=
    leBytes_add 4 4 v.toNat
  rw [hsplit, standsAt_append, length_leBytes] at h
  obtain ⟨hlo, hhi⟩ := h
  constructor
  · rw [word32, StandsAt.leNat hlo]
    exact BitVec.eq_of_toNat_eq (by simp)
  · rw [word32, StandsAt.leNat hhi]
    exact BitVec.eq_of_toNat_eq (by simp [Nat.shiftRight_eq_div_pow])

/-- **The server reads the older header as a newer one.** -/
theorem load_of_standsAt_old {arg : ℕ → Byte} {h : XenlpApply3} (hs : StandsAt arg 0 h.store) :
    XenlpApply4.load arg = h.asApply4 (word32 arg 56) := by
  simp only [XenlpApply3.store, standsAt_append, List.length_append, Bytes.length_toList,
    List.length_replicate, length_leBytes, and_assoc, Nat.zero_add] at hs
  obtain ⟨hsha1, -, hbloblen, hnumrelocs, hnumwrites, hpad, hrefabs, hnumdeps, htaglen⟩ := hs
  have hsha1 := StandsAt.bytes hsha1
  simp only [Nat.zero_add] at hsha1
  obtain ⟨hlow, hhigh⟩ := word32_of_long hrefabs
  have hzero : word32 arg 36 = 0 := by
    have hbytes : leBytes 4 (0 : BitVec 32).toNat = List.replicate 4 0 := by decide
    exact StandsAt.word32 (hbytes ▸ hpad)
  simp only [XenlpApply4.load, XenlpApply3.asApply4, hsha1, word64_of_halves hbloblen hnumrelocs,
    StandsAt.word32 hnumwrites, hzero, hlow, hhigh, StandsAt.word32 hnumdeps,
    StandsAt.word32 htaglen]

variable {p : Patch} {writes : List XenlpPatchWrite}

/-- The header of the newer message. -/
theorem load_fillPatchBuf4 (p : Patch) (writes : List XenlpPatchWrite) (beyond : ℕ → Byte) :
    XenlpApply4.load (fromList (fillPatchBuf4 p writes) beyond) = p.header writes := by
  have hall := standsAt_fromList (fillPatchBuf4 p writes) beyond
  generalize fromList (fillPatchBuf4 p writes) beyond = arg at hall
  simp only [fillPatchBuf4, Patch.sections, List.flatten_cons] at hall
  exact load_of_standsAt (standsAt_append.mp hall).1

/-- The header of the older message. -/
theorem load_fillPatchBuf3 (p : Patch) (writes : List XenlpPatchWrite) (beyond : ℕ → Byte) :
    ∃ behind, XenlpApply4.load (fromList (fillPatchBuf3 p writes) beyond) =
      (p.header3 writes).asApply4 behind := by
  have hall := standsAt_fromList (fillPatchBuf3 p writes) beyond
  generalize fromList (fillPatchBuf3 p writes) beyond = arg at hall
  simp only [fillPatchBuf3, List.append_assoc] at hall
  exact ⟨_, load_of_standsAt_old (standsAt_append.mp hall).1⟩

/-! ## When the two messages agree -/

/-- The same result and the same state. -/
def SameEffect (out out' : Outcome) : Prop :=
  out.ccode = out'.ccode ∧ out.sandbox = out'.sandbox

/-- The header checks, on the older header as the server reads it. -/
def Patch.MisreadOk (p : Patch) (writes : List XenlpPatchWrite) : Prop :=
  ((p.header3 writes).asApply4 0).HeaderOk

instance (p : Patch) (writes : List XenlpPatchWrite) : Decidable (p.MisreadOk writes) :=
  inferInstanceAs (Decidable (XenlpApply4.HeaderOk _))

variable {env : ApplyEnv img} {s : Sandbox} {beyond beyond' : ℕ → Byte}

theorem headerOk_fillPatchBuf3 :
    (XenlpApply4.load (fromList (fillPatchBuf3 p writes) beyond)).HeaderOk ↔
      p.MisreadOk writes := by
  obtain ⟨behind, hload⟩ := load_fillPatchBuf3 p writes beyond
  rw [hload]
  exact Iff.rfl

/-- A header that is refused is answered `SANDBOX_ERR_INVALID`. -/
theorem xenlpApply4_of_not_headerOk {arg : ℕ → Byte} (h : ¬(XenlpApply4.load arg).HeaderOk) :
    xenlpApply4 img env arg s = ⟨sandboxErrInvalid, s, [.message 0 sizeofXenlpApply4]⟩ := by
  rw [xenlpApply4]
  split_ifs with hlen hwrites hexc hcalloc
  · rfl
  · rfl
  · rfl
  · exact absurd ⟨Nat.le_of_not_lt hlen, hwrites, by tauto⟩ h
  · exact absurd ⟨Nat.le_of_not_lt hlen, hwrites, by tauto⟩ h

/-- Without memory for the record a header that passes is answered `SANDBOX_ERR_NOMEM`. -/
theorem xenlpApply4_of_no_memory {arg : ℕ → Byte} (h : (XenlpApply4.load arg).HeaderOk)
    (hcalloc : env.callocPatch = false) :
    xenlpApply4 img env arg s = ⟨sandboxErrNomem, s, [.message 0 sizeofXenlpApply4]⟩ := by
  obtain ⟨hlen, hwrites, hexc, hpre⟩ := h
  have htables : ¬((XenlpApply4.load arg).numexctblents ≠ 0 ∨
      (XenlpApply4.load arg).numpreexctblents ≠ 0) := by
    rw [hexc, hpre]
    simp
  simp only [xenlpApply4, if_neg (Nat.not_lt.mpr hlen), if_neg hwrites, if_neg htables, hcalloc,
    if_true]

/-- Two headers that are refused have the same effect, none. -/
theorem sameEffect_of_refused {arg arg' : ℕ → Byte} (h : ¬(XenlpApply4.load arg).HeaderOk)
    (h' : ¬(XenlpApply4.load arg').HeaderOk) :
    SameEffect (xenlpApply4 img env arg s) (xenlpApply4 img env arg' s) := by
  rw [xenlpApply4_of_not_headerOk h, xenlpApply4_of_not_headerOk h']
  exact ⟨rfl, rfl⟩

/-- Without memory for the record the results tell whether the headers passed. -/
theorem sameEffect_of_no_memory {arg arg' : ℕ → Byte} (hcalloc : env.callocPatch = false) :
    SameEffect (xenlpApply4 img env arg s) (xenlpApply4 img env arg' s) ↔
      ((XenlpApply4.load arg).HeaderOk ↔ (XenlpApply4.load arg').HeaderOk) := by
  have hcodes : sandboxErrInvalid ≠ sandboxErrNomem := by decide
  by_cases h : (XenlpApply4.load arg).HeaderOk
  · by_cases h' : (XenlpApply4.load arg').HeaderOk
    · rw [xenlpApply4_of_no_memory h hcalloc, xenlpApply4_of_no_memory h' hcalloc]
      exact iff_of_true ⟨rfl, rfl⟩ (iff_of_true h h')
    · rw [xenlpApply4_of_no_memory h hcalloc, xenlpApply4_of_not_headerOk h']
      exact iff_of_false (fun hs => hcodes hs.1.symm) fun hiff => h' (hiff.mp h)
  · by_cases h' : (XenlpApply4.load arg').HeaderOk
    · rw [xenlpApply4_of_not_headerOk h, xenlpApply4_of_no_memory h' hcalloc]
      exact iff_of_false (fun hs => hcodes hs.1) fun hiff => h (hiff.mpr h')
    · exact iff_of_true (sameEffect_of_refused h h') (iff_of_false h h')

/-- An effect that inserts a patch is that of an accepted message, with the same patch. -/
theorem SameEffect.accepted {arg arg' : ℕ → Byte}
    (h : SameEffect (xenlpApply4 img env arg s) (xenlpApply4 img env arg' s))
    (hacc : Accepted env arg' s) :
    Accepted env arg s ∧ insertedPatch img env arg s = insertedPatch img env arg' s := by
  have hlist' := Sandbox.list_eq (Outcome.eq_mk (xenlpApply4_of_accepted hacc)).2.1
  rw [← h.2] at hlist'
  by_cases hacc3 : Accepted env arg s
  · have hlist := Sandbox.list_eq (Outcome.eq_mk (xenlpApply4_of_accepted hacc3)).2.1
    rw [hlist'] at hlist
    exact ⟨hacc3, (List.cons.inj hlist).1.symm⟩
  · obtain ⟨ccode, maps, log, heq⟩ := xenlpApply4_of_not_accepted hacc3
    have hlist := Sandbox.list_eq (Outcome.eq_mk heq).2.1
    rw [hlist'] at hlist
    exact absurd hlist (List.cons_ne_self _ _)

/-- The size of a patch's blob is the length in its header, or zero. -/
theorem size_blobMap (env : MapEnv img) (apply : XenlpApply4) (m : MapState) :
    (blobMap img env apply m).size.toNat = if apply.HasBlob then apply.bloblen.toNat else 0 := by
  rw [blobMap]
  split_ifs
  · exact toNat_bloblen apply
  · rfl

/-- The numbers of a patch that can be applied from both messages. -/
structure Patch.Coincident (p : Patch) (writes : List XenlpPatchWrite) : Prop where
  deps : p.deps.1 = []
  tags : p.taglen = 0
  refabs : p.refabs.toNat = writes.length
  bloblen : p.blob.1.length = writes.length

/-- Where the newer message is read, the two agree only on coincident numbers. -/
theorem Sendable.coincident (h : Sendable img p writes) (hmem : MemoryAvailable env s.maps p)
    (hsame : SameEffect (xenlpApply4 img env (fromList (fillPatchBuf3 p writes) beyond) s)
      (xenlpApply4 img env (fromList (fillPatchBuf4 p writes) beyond') s)) :
    p.Coincident writes := by
  have hread' := h.readable hmem beyond'
  have hload' := load_fillPatchBuf4 p writes beyond'
  obtain ⟨behind, hload⟩ := load_fillPatchBuf3 p writes beyond
  have hread : Readable env (fromList (fillPatchBuf3 p writes) beyond) s :=
    xenlpApply4_ccode_iff.mp (hsame.1.trans (xenlpApply4_ccode_iff.mpr hread'))
  generalize fromList (fillPatchBuf3 p writes) beyond = arg at *
  generalize fromList (fillPatchBuf4 p writes) beyond' = arg' at *
  obtain ⟨-, -, hhigh, hnumdeps⟩ := hread.1.1
  rw [hload] at hhigh hnumdeps
  have hdeps : p.deps.1 = [] := (@numdeps_header_eq_zero p writes).mp hnumdeps
  have hacc' : Accepted env arg' s := ⟨hread', hload' ▸ numdeps_header_eq_zero.mpr hdeps⟩
  obtain ⟨hacc, hpatch⟩ := hsame.accepted hacc'
  have htaglen : (p.header writes).taglen.toNat = 0 := by
    have hz := hacc.2
    rw [hload] at hz
    exact congrArg BitVec.toNat hz
  have hnumwrites : p.refabs.setWidth 32 = BitVec.ofNat 32 writes.length := by
    have hfield := congrArg AppliedPatch.numwrites hpatch
    rw [insertedPatch, insertedPatch, numwrites_newPatch, numwrites_newPatch, hload, hload']
      at hfield
    exact hfield
  have hsize : (blobMap img env.toMapEnv (XenlpApply4.load arg) s.maps).size.toNat =
      (blobMap img env.toMapEnv (XenlpApply4.load arg') s.maps).size.toNat := by
    rw [← map_insertedPatch hacc, ← map_insertedPatch hacc', hpatch]
  rw [size_blobMap, size_blobMap, hload, hload', if_pos h.hasBlob] at hsize
  have hlt := h.writes_lt
  refine ⟨hdeps, toNat_taglen_header ▸ htaglen, ?_, ?_⟩
  · have hlow := congrArg BitVec.toNat hnumwrites
    have hzero := congrArg BitVec.toNat hhigh
    simp only [XenlpApply3.asApply4, Patch.header3, BitVec.toNat_setWidth,
      BitVec.toNat_ushiftRight, BitVec.ofNat_eq_ofNat, BitVec.toNat_ofNat,
      Nat.shiftRight_eq_div_pow] at hlow hzero
    omega
  · have hge := h.blob_ge
    have hbloblen : (p.header writes).bloblen.toNat = p.blob.1.length := Blob.toNat_bloblen _
    rw [hbloblen] at hsize
    split_ifs at hsize
    · rw [← hsize]
      exact h.toNat_numwrites
    · omega

/-- **The two encodings.** They agree where the server refuses both headers. Without memory for
the record they agree only where it judges the headers alike, and where it can read the newer
message only if the patch has neither dependencies nor tags and its reference address, the
length of its blob and the number of its writes are the same number. -/
theorem sameEffect_encodings (p : Patch) (writes : List XenlpPatchWrite)
    (env : ApplyEnv img) (s : Sandbox) (beyond beyond' : ℕ → Byte) :
    let out := xenlpApply4 img env (fromList (fillPatchBuf3 p writes) beyond) s
    let out' := xenlpApply4 img env (fromList (fillPatchBuf4 p writes) beyond') s
    (¬p.MisreadOk writes ∧ ¬(p.header writes).HeaderOk → SameEffect out out') ∧
      (env.callocPatch = false →
        (SameEffect out out' ↔ (p.MisreadOk writes ↔ (p.header writes).HeaderOk))) ∧
      (Sendable img p writes → MemoryAvailable env s.maps p → SameEffect out out' →
        p.Coincident writes) := by
  intro out out'
  have hheader : (XenlpApply4.load (fromList (fillPatchBuf3 p writes) beyond)).HeaderOk ↔
      p.MisreadOk writes := headerOk_fillPatchBuf3
  have hheader' : (XenlpApply4.load (fromList (fillPatchBuf4 p writes) beyond')).HeaderOk ↔
      (p.header writes).HeaderOk := by
    rw [load_fillPatchBuf4]
  refine ⟨fun hrefused => ?_, fun hcalloc => ?_, fun hsend hmem hsame => ?_⟩
  · exact sameEffect_of_refused (mt hheader.mp hrefused.1) (mt hheader'.mp hrefused.2)
  · rw [← hheader, ← hheader']
    exact sameEffect_of_no_memory hcalloc
  · exact hsend.coincident hmem hsame

/-- The sample patch has the same sections in both messages; only the newer one is applied. -/
theorem sameEffect_fails_samplePatch :
    let p := samplePatch .nil
    let s := Sandbox.init (fun _ => 0) fun _ => 0
    p.exctblents.1 = [] ∧ p.preexctblents.1 = [] ∧
      ¬SameEffect
        (xenlpApply4 sampleImage sampleEnv
          (fromList (fillPatchBuf3 p [sampleWrite]) fun _ => 0) s)
        (xenlpApply4 sampleImage sampleEnv
          (fromList (fillPatchBuf4 p [sampleWrite]) fun _ => 0) s) := by
  refine ⟨rfl, rfl, fun hsame => ?_⟩
  have hrefabs := ((sendable_samplePatch .nil).coincident (memoryAvailable_samplePatch .nil)
    hsame).refabs
  exact absurd hrefabs (by decide)

end Patchbox
