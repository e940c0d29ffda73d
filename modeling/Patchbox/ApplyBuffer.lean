import Patchbox.Apply
import Patchbox.PatchRecords

/-!
# The buffer of an APPLY message

The client lays a patch out as a header and seven sections. The server finds the
blob, the relocations and the writes where the client put them. It looks for the
dependencies and the tags at the start of the blob: the function that reads the
blob advances its own copy of the pointer, and the caller goes on with the old one.
So a patch survives the passage exactly when it has neither.

## Main definitions

* `fillPatchBuf4` — `fill_patch_buf4` of `raxlpxs.c`.
* `spans` — where the sections of a buffer stand.
* `RoundTrips` — the server has the client's patch, and read each section in its place.
* `fillPatchBuf4_roundTrips` — when it does.
-/

namespace Patchbox
open Lib

variable {img : Image}

/-! ## Storing the records -/

/-- The bytes of the header, padding included. -/
def XenlpApply4.store (h : XenlpApply4) : List Byte :=
  h.sha1.toList ++ List.replicate 4 0 ++ leBytes 8 h.refabs.toNat ++ leBytes 4 h.bloblen.toNat
    ++ leBytes 4 h.numrelocs.toNat ++ leBytes 4 h.numwrites.toNat
    ++ leBytes 4 h.numexctblents.toNat ++ leBytes 4 h.numpreexctblents.toNat
    ++ leBytes 4 h.numdeps.toNat ++ leBytes 4 h.taglen.toNat ++ List.replicate 4 0

/-- The bytes of a write record. -/
def XenlpPatchWrite.store (pw : XenlpPatchWrite) : List Byte :=
  leBytes 8 pw.hvabs.toNat ++ pw.data.toList ++ [pw.reloctype, pw.dataoff] ++ List.replicate 6 0

/-- The bytes of a relocation. -/
def storeReloc (r : BitVec 32) : List Byte := leBytes 4 r.toNat

/-- The bytes of a `struct xenlp_exctbl_entry`. -/
def ExctblEntry.store (e : ExctblEntry) : List Byte :=
  leBytes 4 e.addrrel.toNat ++ leBytes 4 e.contrel.toNat

/-- The bytes of a `struct xenlp_hash`. -/
def storeHash (sha1 : Bytes shaDigestLength) : List Byte := sha1.toList ++ List.replicate 4 0

@[simp] theorem XenlpApply4.length_store (h : XenlpApply4) : h.store.length = sizeofXenlpApply4 := by
  simp [XenlpApply4.store]

@[simp] theorem XenlpPatchWrite.length_store (pw : XenlpPatchWrite) :
    pw.store.length = sizeofXenlpPatchWrite := by
  simp [XenlpPatchWrite.store]

@[simp] theorem length_storeReloc (r : BitVec 32) : (storeReloc r).length = 4 := by
  simp [storeReloc]

/-! ## The source function -/

/-- `strlen` of a buffer with a terminator behind it. -/
def strlen (s : List Byte) : ℕ := (s.takeWhile (· ≠ 0)).length

/-- `strnlen`. -/
def strnlen (s : List Byte) (maxlen : ℕ) : ℕ := min (strlen s) maxlen

/-- The bytes of the tags that are sent. -/
def Patch.taglen (p : Patch) : ℕ := strnlen p.tags.1 (maxTagsLen - 1)

/-- The header of the message. -/
def Patch.header (p : Patch) (writes : List XenlpPatchWrite) : XenlpApply4 where
  sha1 := p.sha1
  refabs := p.refabs
  bloblen := p.blob.bloblen
  numrelocs := p.relocs.count.setWidth 32
  numwrites := BitVec.ofNat 32 writes.length
  numexctblents := p.exctblents.count.setWidth 32
  numpreexctblents := p.preexctblents.count.setWidth 32
  numdeps := p.deps.count.setWidth 32
  taglen := BitVec.ofNat 32 p.taglen

/-- The header and the sections, in the order in which they are laid out. -/
def Patch.sections (p : Patch) (writes : List XenlpPatchWrite) : List (List Byte) :=
  [(p.header writes).store, p.blob.1, p.relocs.1.flatMap storeReloc,
    writes.flatMap XenlpPatchWrite.store, p.exctblents.1.flatMap ExctblEntry.store,
    p.preexctblents.1.flatMap ExctblEntry.store,
    p.deps.1.flatMap fun d => storeHash d.sha1, p.tags.1.take p.taglen]

/-- `fill_patch_buf4`: the bytes put into the buffer. -/
def fillPatchBuf4 (p : Patch) (writes : List XenlpPatchWrite) : List Byte :=
  (p.sections writes).flatten

/-! ## What the server must have -/

/-- Where the sections of a buffer stand, from offset `off` on; empty ones are left out. -/
def spans : ℕ → List (List Byte) → List (ℕ × ℕ)
  | _, [] => []
  | off, bs :: rest =>
      (if bs = [] then [] else [(off, bs.length)]) ++ spans (off + bs.length) rest

/-- The first `min (strlen tags) 127` bytes of the tags, and a NUL. -/
def TagsKept (p : Patch) (tags : Bytes maxTagsLen) : Prop :=
  tags.toList.take (p.taglen + 1) = p.tags.1.take p.taglen ++ [0]

/-- The patch was inserted with the client's hash, dependencies and tags, and each section was
read where it stands. -/
def RoundTrips (p : Patch) (writes : List XenlpPatchWrite) (s : Sandbox) (out : Outcome) : Prop :=
  (∃ patch, out.sandbox.lpPatchHead = patch :: s.lpPatchHead ∧ patch.sha1 = p.sha1 ∧
    patch.numdeps = p.deps.count.setWidth 32 ∧ patch.deps = p.deps.1.map Dependency.sha1 ∧
    TagsKept p patch.tags) ∧
  messages out.log = spans 0 (p.sections writes)

/-- A patch the client may send: no exception tables, a blob that is mapped, relocations inside
it, and at least one write, each of them valid. -/
structure Sendable (img : Image) (p : Patch) (writes : List XenlpPatchWrite) : Prop where
  exctblents : p.exctblents.1 = []
  preexctblents : p.preexctblents.1 = []
  blob_ge : 4 ≤ p.blob.1.length
  blob_lt : p.blob.1.length < maxPatchSize
  relocs : ∀ r ∈ p.relocs.1, r.toNat + 4 ≤ p.blob.1.length
  writes_ne : writes ≠ []
  writes_lt : writes.length < 2 ^ 32
  valid : ∀ pw ∈ writes, WriteOk img (img.start_ - p.refabs) pw

/-- Every allocation succeeds, and so does the mapping of the blob. -/
structure MemoryAvailable (env : ApplyEnv img) (m : MapState) (p : Patch) : Prop where
  callocPatch : env.callocPatch = true
  callocRelocs : env.callocRelocs = true
  memalignWrites : env.memalignWrites = true
  memalignDeps : env.memalignDeps = true
  mappable : Mappable img env.toMapEnv m (p.blob.bloblen.setWidth 64)

/-! ## Loading what was stored -/

theorem load_of_standsAt {arg : ℕ → Byte} {h : XenlpApply4} (hs : StandsAt arg 0 h.store) :
    XenlpApply4.load arg = h := by
  simp only [XenlpApply4.store, standsAt_append, List.length_append, Bytes.length_toList,
    List.length_replicate, length_leBytes, and_assoc, Nat.zero_add] at hs
  obtain ⟨hsha1, -, hrefabs, hbloblen, hnumrelocs, hnumwrites, hexct, hpre, hnumdeps, htaglen, -⟩ :=
    hs
  have hsha1 := StandsAt.bytes hsha1
  simp only [Nat.zero_add] at hsha1
  simp only [XenlpApply4.load, hsha1, StandsAt.word64 hrefabs, StandsAt.word32 hbloblen,
    StandsAt.word32 hnumrelocs, StandsAt.word32 hnumwrites, StandsAt.word32 hexct,
    StandsAt.word32 hpre, StandsAt.word32 hnumdeps, StandsAt.word32 htaglen]

theorem loadWrite_of_standsAt {arg : ℕ → Byte} {off : ℕ} {pw : XenlpPatchWrite}
    (hs : StandsAt arg off pw.store) : XenlpPatchWrite.load arg off = pw := by
  simp only [XenlpPatchWrite.store, standsAt_append, List.length_append, Bytes.length_toList,
    length_leBytes, and_assoc] at hs
  obtain ⟨hhvabs, hdata, hkind, -⟩ := hs
  have hreloctype : arg (off + 16) = pw.reloctype := hkind 0 (by simp)
  have hdataoff : arg (off + 17) = pw.dataoff := hkind 1 (by simp)
  simp only [XenlpPatchWrite.load, StandsAt.word64 hhvabs, StandsAt.bytes hdata, hreloctype,
    hdataoff]

theorem loadWrites_of_standsAt {arg : ℕ → Byte} {off : ℕ} {writes : List XenlpPatchWrite}
    (hs : StandsAt arg off (writes.flatMap XenlpPatchWrite.store)) :
    loadWrites arg off writes.length = writes := by
  refine List.ext_getElem (by simp [loadWrites]) fun i hi hi' => ?_
  simp only [loadWrites, List.getElem_ofFn]
  exact loadWrite_of_standsAt (hs.flatMap XenlpPatchWrite.length_store hi')

theorem loadRelocs_of_standsAt {arg : ℕ → Byte} {off : ℕ} {relocs : List (BitVec 32)}
    (hs : StandsAt arg off (relocs.flatMap storeReloc)) :
    loadRelocs arg off relocs.length = relocs := by
  refine List.ext_getElem (by simp [loadRelocs]) fun i hi hi' => ?_
  simp only [loadRelocs, List.getElem_ofFn]
  exact StandsAt.word32 (hs.flatMap length_storeReloc hi')

/-! ## The header at the server -/

variable {p : Patch} {writes : List XenlpPatchWrite}

theorem taglen_le (p : Patch) : p.taglen ≤ maxTagsLen - 1 := Nat.min_le_right _ _

theorem taglen_le_length (p : Patch) : p.taglen ≤ p.tags.1.length :=
  (Nat.min_le_left _ _).trans (List.takeWhile_prefix _).length_le

@[simp] theorem toNat_taglen_header :
    (p.header writes).taglen.toNat = p.taglen := by
  have hle := taglen_le p
  simp only [maxTagsLen] at hle
  simp only [Patch.header, BitVec.toNat_ofNat]
  omega

theorem toNat_setWidth_count {α : Type} (l : Counted α) :
    (l.count.setWidth 32).toNat = l.1.length := by
  have hlt := l.2
  rw [BitVec.toNat_setWidth, Counted.toNat_count]
  omega

@[simp] theorem toNat_numrelocs_header :
    (p.header writes).numrelocs.toNat = p.relocs.1.length := toNat_setWidth_count p.relocs

theorem numdeps_header_eq_zero : (p.header writes).numdeps = 0 ↔ p.deps.1 = [] := by
  rw [← BitVec.toNat_inj, Patch.header, toNat_setWidth_count]
  exact List.length_eq_zero_iff

theorem Sendable.toNat_numwrites (h : Sendable img p writes) :
    (p.header writes).numwrites.toNat = writes.length := by
  simp only [Patch.header, BitVec.toNat_ofNat]
  exact Nat.mod_eq_of_lt h.writes_lt

theorem Sendable.hasBlob (h : Sendable img p writes) : (p.header writes).HasBlob := by
  have hge := h.blob_ge
  refine ⟨fun hz => ?_, ?_⟩
  · have hnat : p.blob.1.length = 0 := by rw [← Blob.toNat_bloblen]; exact congrArg BitVec.toNat hz
    omega
  · rw [Patch.header, Blob.toNat_bloblen]
    exact h.blob_lt

theorem Sendable.headerOk (h : Sendable img p writes) : (p.header writes).HeaderOk := by
  refine ⟨Nat.le_of_lt h.hasBlob.2, fun hz => ?_, ?_, ?_⟩
  · have hnat := congrArg BitVec.toNat hz
    rw [h.toNat_numwrites] at hnat
    exact h.writes_ne (List.length_eq_zero_iff.mp hnat)
  · rw [← BitVec.toNat_inj, Patch.header, toNat_setWidth_count, h.exctblents]
    rfl
  · rw [← BitVec.toNat_inj, Patch.header, toNat_setWidth_count, h.preexctblents]
    rfl

theorem Sendable.relocsOff (h : Sendable img p writes) (off : ℕ) :
    (p.header writes).relocsOff off = off + p.blob.1.length := by
  rw [XenlpApply4.relocsOff, XenlpApply4.blobBytes, if_pos h.hasBlob, Patch.header,
    Blob.toNat_bloblen]

theorem Sendable.writesOff (h : Sendable img p writes) (off : ℕ) :
    (p.header writes).writesOff off = off + p.blob.1.length + 4 * p.relocs.1.length := by
  rw [XenlpApply4.writesOff, h.relocsOff, toNat_numrelocs_header]

/-! ## The sections at the server -/

/-- Without exception tables six sections are left. -/
theorem Sendable.fillPatchBuf4_eq (h : Sendable img p writes) :
    fillPatchBuf4 p writes =
      (p.header writes).store ++ (p.blob.1 ++ (p.relocs.1.flatMap storeReloc ++
        (writes.flatMap XenlpPatchWrite.store ++
          ((p.deps.1.flatMap fun d => storeHash d.sha1) ++ p.tags.1.take p.taglen)))) := by
  simp [fillPatchBuf4, Patch.sections, h.exctblents, h.preexctblents]

/-- The server finds the header, the relocations and the writes. -/
theorem Sendable.load (h : Sendable img p writes) (beyond : ℕ → Byte) :
    let arg := fromList (fillPatchBuf4 p writes) beyond
    XenlpApply4.load arg = p.header writes ∧
      loadRelocs arg ((p.header writes).relocsOff sizeofXenlpApply4) p.relocs.1.length
        = p.relocs.1 ∧
      loadWrites arg ((p.header writes).writesOff sizeofXenlpApply4) writes.length = writes := by
  intro arg
  have hall := standsAt_fromList (fillPatchBuf4 p writes) beyond
  rw [h.fillPatchBuf4_eq] at hall
  simp only [standsAt_append, XenlpApply4.length_store,
    length_flatMap_const length_storeReloc, Nat.zero_add] at hall
  obtain ⟨hheader, -, hrelocs, hwrites, -, -⟩ := hall
  rw [← h.fillPatchBuf4_eq] at hheader hrelocs hwrites
  rw [h.relocsOff, h.writesOff]
  exact ⟨load_of_standsAt hheader, loadRelocs_of_standsAt hrelocs, loadWrites_of_standsAt hwrites⟩

theorem le_relocLimit {bloblen r : BitVec 32} (h : r.toNat + 4 ≤ bloblen.toNat) :
    r.setWidth 64 ≤ relocLimit bloblen :=
  (le_relocLimit_iff (by omega)).mpr h

/-- **The server can read every patch that is sent.** -/
theorem Sendable.readable (h : Sendable img p writes) {env : ApplyEnv img} {s : Sandbox}
    (hmem : MemoryAvailable env s.maps p) (beyond : ℕ → Byte) :
    Readable env (fromList (fillPatchBuf4 p writes) beyond) s := by
  obtain ⟨hload, hrelocs, hwrites⟩ := h.load beyond
  refine ⟨⟨hload ▸ h.headerOk, hmem.callocPatch⟩, ?_⟩
  rw [hload]
  refine ⟨fun _ => hmem.mappable, fun _ => ⟨hmem.callocRelocs, fun r hr => ?_⟩,
    hmem.memalignWrites, fun pw hpw => ?_⟩
  · rw [toNat_numrelocs_header, hrelocs] at hr
    exact le_relocLimit (by rw [Patch.header, Blob.toNat_bloblen]; exact h.relocs r hr)
  · rw [h.toNat_numwrites, hwrites] at hpw
    rw [XenlpApply4.runtimeConstant, if_pos h.hasBlob]
    exact h.valid pw hpw

/-! ## The reads and the spans -/

variable {env : ApplyEnv img} {arg : ℕ → Byte} {s : Sandbox}

theorem messages_makeTextWriteable (writes : List XenlpPatchWrite) :
    messages (makeTextWriteable writes) = [] := by
  simp [messages, makeTextWriteable]

theorem messages_exchanges (writes : List XenlpPatchWrite) : messages (exchanges writes) = [] := by
  simp [messages, exchanges]

theorem messages_cons_message (off len : ℕ) (log : List Access) :
    messages (.message off len :: log) = (off, len) :: messages log := rfl

/-- The reads in the log of an accepted message, whatever its parts are. -/
theorem messages_parts {blob relocs writes tags accesses protects swaps : List Access}
    (haccesses : messages accesses = []) (hprotects : messages protects = [])
    (hswaps : messages swaps = []) (off len : ℕ) :
    messages (.message off len :: (blob ++ relocs ++ accesses ++ writes) ++ tags ++ protects
        ++ swaps)
      = (off, len) :: messages blob ++ messages relocs ++ messages writes ++ messages tags := by
  simp only [List.cons_append, messages_cons_message, messages_append, haccesses, hprotects,
    hswaps, List.append_nil]

/-- The reads for an accepted message, section by section. -/
theorem messages_of_accepted (h : Accepted env arg s) :
    messages (xenlpApply4 img env arg s).log =
      (0, sizeofXenlpApply4) :: messages (blobMessages sizeofXenlpApply4 (XenlpApply4.load arg))
        ++ messages (relocMessages env sizeofXenlpApply4 (XenlpApply4.load arg))
        ++ messages (writeMessages env sizeofXenlpApply4 (XenlpApply4.load arg))
        ++ messages (tagMessages sizeofXenlpApply4 (XenlpApply4.load arg).taglen) := by
  obtain ⟨mem, relocs, writes, -, heq⟩ := readPatchData_of_dataOk h.1.2
  have hlog : (patchData img env arg s).log = _ := (ReadOut.eq_mk heq).2.2.2.2
  rw [(Outcome.eq_mk (xenlpApply4_of_accepted h)).2.2, hlog]
  exact messages_parts (messages_relocAccesses _ _) (messages_makeTextWriteable _)
    (messages_exchanges _) 0 sizeofXenlpApply4

/-- Where the client put the sections of a patch without dependencies; the tags come last. -/
theorem Sendable.spans_sections (h : Sendable img p writes) (hdeps : p.deps.1 = []) :
    spans 0 (p.sections writes) =
      (0, sizeofXenlpApply4) :: messages (blobMessages sizeofXenlpApply4 (p.header writes))
        ++ messages (if p.relocs.1 = [] then [] else
          [.message (sizeofXenlpApply4 + p.blob.1.length) (4 * p.relocs.1.length)])
        ++ [(sizeofXenlpApply4 + p.blob.1.length + 4 * p.relocs.1.length,
          sizeofXenlpPatchWrite * writes.length)]
        ++ if p.taglen = 0 then [] else
          [(sizeofXenlpApply4 + p.blob.1.length + 4 * p.relocs.1.length
            + sizeofXenlpPatchWrite * writes.length, p.taglen)] := by
  have hhead : (p.header writes).store ≠ [] := by
    rw [ne_eq, ← List.length_eq_zero_iff, XenlpApply4.length_store]
    decide
  have hblob : p.blob.1 ≠ [] := by
    rw [ne_eq, ← List.length_eq_zero_iff]
    have hge := h.blob_ge
    omega
  have hrelocs := flatMap_const_eq_nil length_storeReloc (by decide) p.relocs.1
  have hwrites : writes.flatMap XenlpPatchWrite.store ≠ [] :=
    mt (flatMap_const_eq_nil XenlpPatchWrite.length_store (by decide) writes).mp h.writes_ne
  have htags : (p.tags.1.take p.taglen).length = p.taglen :=
    List.length_take_of_le (taglen_le_length p)
  have htags_nil : p.tags.1.take p.taglen = [] ↔ p.taglen = 0 := by
    rw [← List.length_eq_zero_iff, htags]
  simp only [Patch.sections, spans, hdeps, h.exctblents, h.preexctblents, List.flatMap_nil,
    List.length_nil, hhead, hblob, hwrites, hrelocs, htags_nil, htags, if_true, if_false,
    XenlpApply4.length_store, length_flatMap_const length_storeReloc,
    length_flatMap_const XenlpPatchWrite.length_store, Nat.zero_add, Nat.add_zero,
    List.append_nil, List.nil_append, blobMessages, if_pos h.hasBlob]
  have hbloblen : (p.header writes).bloblen.toNat = p.blob.1.length := Blob.toNat_bloblen _
  split <;> simp [messages, hbloblen]

theorem Sendable.relocMessages_header (h : Sendable img p writes)
    (hmem : MemoryAvailable env s.maps p) :
    relocMessages env sizeofXenlpApply4 (p.header writes) =
      if p.relocs.1 = [] then [] else
        [.message (sizeofXenlpApply4 + p.blob.1.length) (4 * p.relocs.1.length)] := by
  have hzero : (p.header writes).numrelocs = 0 ↔ p.relocs.1 = [] := by
    rw [← BitVec.toNat_inj, toNat_numrelocs_header]
    exact List.length_eq_zero_iff
  rw [relocMessages, h.relocsOff, toNat_numrelocs_header]
  by_cases hnil : p.relocs.1 = []
  · rw [if_pos hnil, if_neg fun hcond => hcond.1 (hzero.mpr hnil)]
  · rw [if_neg hnil, if_pos ⟨mt hzero.mp hnil, hmem.callocRelocs⟩]

theorem Sendable.writeMessages_header (h : Sendable img p writes)
    (hmem : MemoryAvailable env s.maps p) :
    messages (writeMessages env sizeofXenlpApply4 (p.header writes)) =
      [(sizeofXenlpApply4 + p.blob.1.length + 4 * p.relocs.1.length,
        sizeofXenlpPatchWrite * writes.length)] := by
  rw [writeMessages, if_pos hmem.memalignWrites, h.writesOff, h.toNat_numwrites]
  rfl

theorem messages_tagMessages_header :
    messages (tagMessages sizeofXenlpApply4 (p.header writes).taglen) =
      if p.taglen = 0 then [] else [(sizeofXenlpApply4, p.taglen)] := by
  have hle := taglen_le p
  rw [tagMessages, toNat_taglen_header]
  by_cases hz : p.taglen = 0
  · rw [if_pos hz, hz]
    rfl
  · rw [if_neg hz, if_pos ⟨Nat.pos_of_ne_zero hz, by omega⟩]
    rfl

/-- The reads of a patch without dependencies are its spans when there are no tags, and only
then: tags are read where the blob is. -/
theorem Sendable.messages_eq_spans (h : Sendable img p writes)
    (hmem : MemoryAvailable env s.maps p) (hacc : Accepted env arg s)
    (hload : XenlpApply4.load arg = p.header writes) (hdeps : p.deps.1 = []) :
    messages (xenlpApply4 img env arg s).log = spans 0 (p.sections writes) ↔ p.taglen = 0 := by
  rw [messages_of_accepted hacc, hload, h.spans_sections hdeps, h.relocMessages_header hmem,
    h.writeMessages_header hmem, messages_tagMessages_header, List.append_cancel_left_eq]
  by_cases hz : p.taglen = 0
  · rw [if_pos hz, if_pos hz]
    exact iff_of_true rfl hz
  · rw [if_neg hz, if_neg hz]
    refine iff_of_false (fun heq => ?_) hz
    have hge := h.blob_ge
    have hoff := congrArg Prod.fst (List.singleton_inj.mp heq)
    omega

/-- No tags are kept as no tags. -/
theorem tagsKept_of_taglen (hz : p.taglen = 0) :
    TagsKept p (readTags arg sizeofXenlpApply4 (p.header writes).taglen) := by
  have htaglen : (p.header writes).taglen.toNat = 0 := toNat_taglen_header.trans hz
  rw [TagsKept, hz, List.take_zero, List.nil_append, Nat.zero_add]
  refine List.ext_getElem (by simp) fun i hi hi' => ?_
  simp [readTags, htaglen]

theorem Sandbox.list_eq {s' : Sandbox} {text : Mem 64} {list : List AppliedPatch}
    {maps : MapState} (h : s' = ⟨text, list, maps⟩) : s'.lpPatchHead = list := by
  subst h
  rfl

/-- **A patch survives the passage** exactly when it has neither dependencies nor tags. -/
theorem fillPatchBuf4_roundTrips (h : Sendable img p writes)
    (hmem : MemoryAvailable env s.maps p) (beyond : ℕ → Byte) :
    RoundTrips p writes s
        (xenlpApply4 img env (fromList (fillPatchBuf4 p writes) beyond) s) ↔
      p.deps.1 = [] ∧ p.taglen = 0 := by
  have hread := h.readable hmem beyond
  have hload := (h.load beyond).1
  generalize fromList (fillPatchBuf4 p writes) beyond = arg at hread hload
  have hnumdeps : (XenlpApply4.load arg).numdeps = 0 ↔ p.deps.1 = [] := by
    rw [hload, numdeps_header_eq_zero]
  by_cases hdeps : p.deps.1 = []
  · have hacc : Accepted env arg s := ⟨hread, hnumdeps.mpr hdeps⟩
    have hlist := Sandbox.list_eq (Outcome.eq_mk (xenlpApply4_of_accepted hacc)).2.1
    rw [RoundTrips, h.messages_eq_spans hmem hacc hload hdeps, and_iff_right hdeps]
    refine and_iff_right_of_imp fun hz => ⟨_, hlist, ?_, ?_, ?_, ?_⟩
    · rw [insertedPatch, sha1_newPatch, hload, Patch.header]
    · rw [insertedPatch, numdeps_newPatch, hload, Patch.header]
    · rw [insertedPatch, deps_newPatch, hdeps, List.map_nil]
    · rw [insertedPatch, tags_newPatch, hload]
      exact tagsKept_of_taglen hz
  · -- a patch with dependencies is not inserted
    have hacc : ¬Accepted env arg s := fun hacc => hdeps (hnumdeps.mp hacc.2)
    obtain ⟨ccode, maps, log, heq⟩ := xenlpApply4_of_not_accepted hacc
    have hlist := Sandbox.list_eq (Outcome.eq_mk heq).2.1
    rw [RoundTrips, hlist]
    constructor
    · rintro ⟨⟨patch, hcons, -⟩, -⟩
      exact absurd hcons.symm (List.cons_ne_self _ _)
    · exact fun hboth => absurd hboth.1 hdeps

/-- A patch of a blob of four bytes, with the given tags. -/
def samplePatch (tags : Counted Byte) : Patch where
  version := 4
  sha1 := fun _ => 0
  xenversion := fun _ => 0
  xencompiledate := fun _ => 0
  crowbarabs := 0
  refabs := 0x400000
  blob := ⟨leBytes 4 0xc3, by decide⟩
  relocs := .nil
  relocsAlloc := 0
  checks := .nil
  funcs := .nil
  tables := .nil
  tags := tags
  relocs3 := .nil
  symbols := .nil
  deps := .nil
  exctblents := .nil
  preexctblents := .nil
  conflicts := .nil

/-- A jump from `0x401000` to its blob. -/
def sampleWrite : XenlpPatchWrite where
  hvabs := 0x401000
  data := fun i => (0xe9 :: leBytes 4 (2 ^ 32 - 0x1005) ++ List.replicate 3 0).getD i 0
  reloctype := xenlpRelocInt32
  dataoff := 1

theorem sendable_samplePatch (tags : Counted Byte) :
    Sendable sampleImage (samplePatch tags) [sampleWrite] where
  exctblents := rfl
  preexctblents := rfl
  blob_ge := by simp [samplePatch]
  blob_lt := by simp [samplePatch, maxPatchSize]
  relocs := by simp [samplePatch]
  writes_ne := by simp
  writes_lt := by simp
  valid := by
    simp only [List.mem_singleton, forall_eq, samplePatch]
    decide

theorem memoryAvailable_samplePatch (tags : Counted Byte) :
    MemoryAvailable sampleEnv (MapState.init fun _ => 0) (samplePatch tags) where
  callocPatch := rfl
  callocRelocs := rfl
  memalignWrites := rfl
  memalignDeps := rfl
  mappable := by
    simp only [samplePatch]
    decide +kernel

/-- The patch without tags survives. -/
theorem fillPatchBuf4_roundTrips_samplePatch :
    let p := samplePatch .nil
    let s := Sandbox.init (fun _ => 0) fun _ => 0
    RoundTrips p [sampleWrite] s
      (xenlpApply4 sampleImage sampleEnv
        (fromList (fillPatchBuf4 p [sampleWrite]) fun _ => 0) s) :=
  (fillPatchBuf4_roundTrips (sendable_samplePatch .nil) (memoryAvailable_samplePatch .nil)
    fun _ => 0).mpr ⟨rfl, by decide⟩

/-- With a tag of one letter the byte of the tag is read from the blob. -/
theorem fillPatchBuf4_tag_lost :
    let p := samplePatch ⟨[0x78], by simp⟩
    let s := Sandbox.init (fun _ => 0) fun _ => 0
    Sendable sampleImage p [sampleWrite] ∧ MemoryAvailable sampleEnv s.maps p ∧
      ¬RoundTrips p [sampleWrite] s
        (xenlpApply4 sampleImage sampleEnv
          (fromList (fillPatchBuf4 p [sampleWrite]) fun _ => 0) s) := by
  have hsend := sendable_samplePatch ⟨[0x78], by simp⟩
  have hmem := memoryAvailable_samplePatch ⟨[0x78], by simp⟩
  refine ⟨hsend, hmem, fun h => ?_⟩
  have hread := hsend.readable (s := Sandbox.init (fun _ => 0) fun _ => 0) hmem fun _ => 0
  have hload := (hsend.load fun _ => 0).1
  have hnumdeps : (XenlpApply4.load (fromList (fillPatchBuf4 (samplePatch ⟨[0x78], by simp⟩)
      [sampleWrite]) fun _ => 0)).numdeps = 0 := by
    rw [hload, numdeps_header_eq_zero]
    rfl
  have htaglen := (hsend.messages_eq_spans hmem ⟨hread, hnumdeps⟩ hload rfl).mp h.2
  exact absurd htaglen (by decide)

end Patchbox
