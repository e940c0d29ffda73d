import Patchbox.ReadPatchLog
import Patchbox.Trampolines

/-!
# Applying a patch

`xenlpApply4` checks the header of an APPLY payload, has the data read, reads the
dependencies and the tags, and only then touches the text and the list of live
patches. Its many exits share one result variable. The block that reads the
dependencies declares a second one of the same name, so a failure there leaves
through the cleanup with the first one still at `SANDBOX_OK`.

## Main definitions

* `Sandbox` — the text, the list of live patches and the allocator.
* `xenlpApply4` — `xenlp_apply4` of `libsandbox.c`.
* `Received`, `Accepted` — how far a message gets.
* `xenlpApply4_ok_iff_inserted` — when the result agrees with the effect.
* `xenlpApply4_payload` — when the reads stay inside the payload.
-/

namespace Patchbox
open Lib

variable {img : Image}

/-- The server: the text, `lp_patch_head` newest first, and the sandbox memory. -/
structure Sandbox where
  text : Mem 64
  lpPatchHead : List AppliedPatch
  maps : MapState

/-- The state before the first request. -/
def Sandbox.init (text mem : Mem 64) : Sandbox := ⟨text, [], MapState.init mem⟩

/-- What a request returns and leaves behind. -/
structure Outcome where
  ccode : Int
  sandbox : Sandbox
  log : List Access

/-- The components of a result that is known as a whole. -/
theorem Outcome.eq_mk {out : Outcome} {ccode : Int} {s : Sandbox} {log : List Access}
    (h : out = ⟨ccode, s, log⟩) : out.ccode = ccode ∧ out.sandbox = s ∧ out.log = log := by
  subst h
  exact ⟨rfl, rfl, rfl⟩

/-- So too when only the allocator was touched. -/
theorem Outcome.maps_eq {out : Outcome} {ccode : Int} {s : Sandbox} {maps : MapState}
    {log : List Access} (h : out = ⟨ccode, { s with maps := maps }, log⟩) :
    out.sandbox.maps = maps := by
  subst h
  rfl

/-! ## The source function -/

/-- The dependencies, and the log. An inner `ccode` shadows the result: after an error the
caller finds its own unchanged. `memcpy` returns its destination, which is taken for a
fault. -/
def readDeps (env : ApplyEnv img) (off : ℕ) (apply : XenlpApply4) :
    Except (List Access) (List (Bytes shaDigestLength)) :=
  if apply.numdeps = 0 then .ok []
  else if posixMemalign alignofXenlpHash env.memalignDeps ≠ sandboxOk then .error []
  else .error [.message off (sizeofXenlpHash * apply.numdeps.toNat)]

/-- The tags of a record cleared by `calloc`; the terminator is already there. -/
def readTags (arg : ℕ → Byte) (off : ℕ) (taglen : BitVec 32) : Bytes maxTagsLen := fun i =>
  if (0 < taglen.toNat ∧ taglen.toNat ≤ maxTagsLen) ∧ i < taglen.toNat then arg (off + i) else 0

/-- The message bytes read for the tags. -/
def tagMessages (off : ℕ) (taglen : BitVec 32) : List Access :=
  if 0 < taglen.toNat ∧ taglen.toNat ≤ maxTagsLen then [.message off taglen.toNat] else []

/-- The label `errout`. -/
def Sandbox.errout (s : Sandbox) (out : ReadOut) (log : List Access) : Outcome :=
  let (_, _, maps) := unmapPatchMap out.pm out.maps
  ⟨out.ccode, { s with maps := maps }, log⟩

/-- The record of a live patch. -/
def newPatch (apply : XenlpApply4) (pm : PatchMap) (deps : List (Bytes shaDigestLength))
    (tags : Bytes maxTagsLen) (writes : List XenlpPatchWrite) : AppliedPatch where
  map := pm
  sha1 := apply.sha1
  numwrites := apply.numwrites
  writes := writes
  numdeps := apply.numdeps
  deps := deps
  tags := tags

section newPatch
variable (apply : XenlpApply4) (pm : PatchMap) (deps : List (Bytes shaDigestLength))
  (tags : Bytes maxTagsLen) (writes : List XenlpPatchWrite)

@[simp] theorem map_newPatch : (newPatch apply pm deps tags writes).map = pm := rfl

@[simp] theorem sha1_newPatch : (newPatch apply pm deps tags writes).sha1 = apply.sha1 := rfl

@[simp] theorem writes_newPatch : (newPatch apply pm deps tags writes).writes = writes := rfl

@[simp] theorem deps_newPatch : (newPatch apply pm deps tags writes).deps = deps := rfl

@[simp] theorem tags_newPatch : (newPatch apply pm deps tags writes).tags = tags := rfl

@[simp] theorem numdeps_newPatch :
    (newPatch apply pm deps tags writes).numdeps = apply.numdeps := rfl

@[simp] theorem numwrites_newPatch :
    (newPatch apply pm deps tags writes).numwrites = apply.numwrites := rfl

end newPatch

/-- The part of `xenlp_apply4` behind `read_patch_data`. The pointer `arg` is still where the
blob starts: only the callee advanced its own copy over blob, relocations and writes. -/
def Sandbox.finish (s : Sandbox) (env : ApplyEnv img) (arg : ℕ → Byte) (apply : XenlpApply4)
    (out : ReadOut) : Outcome :=
  let off := sizeofXenlpApply4
  let log := .message 0 sizeofXenlpApply4 :: out.log
  if out.ccode ≠ sandboxOk then s.errout out log
  else
    match readDeps env off apply with
    | .error deps => s.errout out (log ++ deps)
    | .ok deps =>
      let tags := readTags arg off apply.taglen
      let (writes, text) := swapTrampolines out.writes s.text
      let patch := newPatch apply out.pm deps tags writes
      { ccode := out.ccode
        sandbox := ⟨text, patch :: s.lpPatchHead, out.maps⟩
        log := log ++ tagMessages off apply.taglen ++ makeTextWriteable out.writes
          ++ exchanges out.writes }

/-- `xenlp_apply4`. -/
def xenlpApply4 (img : Image) (env : ApplyEnv img) (arg : ℕ → Byte) (s : Sandbox) : Outcome :=
  let apply := XenlpApply4.load arg
  let log := [.message 0 sizeofXenlpApply4]
  if maxPatchSize < apply.bloblen.toNat then ⟨sandboxErrInvalid, s, log⟩
  else if apply.numwrites = 0 then ⟨sandboxErrInvalid, s, log⟩
  else if apply.numexctblents ≠ 0 ∨ apply.numpreexctblents ≠ 0 then ⟨sandboxErrInvalid, s, log⟩
  else if env.callocPatch = false then ⟨sandboxErrNomem, s, log⟩
  else s.finish env arg apply (readPatchData img env arg sizeofXenlpApply4 apply s.maps)

/-! ## How far a message gets -/

/-- The checks on the header. -/
def XenlpApply4.HeaderOk (apply : XenlpApply4) : Prop :=
  apply.bloblen.toNat ≤ maxPatchSize ∧ apply.numwrites ≠ 0 ∧
    apply.numexctblents = 0 ∧ apply.numpreexctblents = 0

instance (apply : XenlpApply4) : Decidable apply.HeaderOk :=
  inferInstanceAs (Decidable (_ ∧ _ ∧ _ ∧ _))

/-- The header is accepted and there is memory for the record. -/
def Received (env : ApplyEnv img) (arg : ℕ → Byte) : Prop :=
  (XenlpApply4.load arg).HeaderOk ∧ env.callocPatch = true

/-- The data are accepted as well. -/
def Readable (env : ApplyEnv img) (arg : ℕ → Byte) (s : Sandbox) : Prop :=
  Received env arg ∧ DataOk env arg sizeofXenlpApply4 (XenlpApply4.load arg) s.maps

/-- The message declares no dependency either. -/
def Accepted (env : ApplyEnv img) (arg : ℕ → Byte) (s : Sandbox) : Prop :=
  Readable env arg s ∧ (XenlpApply4.load arg).numdeps = 0

instance (env : ApplyEnv img) (arg : ℕ → Byte) : Decidable (Received env arg) :=
  inferInstanceAs (Decidable (_ ∧ _))

instance (env : ApplyEnv img) (arg : ℕ → Byte) (s : Sandbox) : Decidable (Readable env arg s) :=
  inferInstanceAs (Decidable (_ ∧ _))

instance (env : ApplyEnv img) (arg : ℕ → Byte) (s : Sandbox) : Decidable (Accepted env arg s) :=
  inferInstanceAs (Decidable (_ ∧ _))

/-- The data of a message, as `xenlp_apply4` has them read. -/
def patchData (img : Image) (env : ApplyEnv img) (arg : ℕ → Byte) (s : Sandbox) : ReadOut :=
  readPatchData img env arg sizeofXenlpApply4 (XenlpApply4.load arg) s.maps

/-- The record inserted for an accepted message. -/
def insertedPatch (img : Image) (env : ApplyEnv img) (arg : ℕ → Byte) (s : Sandbox) :
    AppliedPatch :=
  newPatch (XenlpApply4.load arg) (patchData img env arg s).pm []
    (readTags arg sizeofXenlpApply4 (XenlpApply4.load arg).taglen)
    (swapTrampolines (patchData img env arg s).writes s.text).1

variable {env : ApplyEnv img} {arg : ℕ → Byte} {s : Sandbox}

/-- A header that is refused changes nothing, and only the header is read. -/
theorem xenlpApply4_of_not_received (h : ¬Received env arg) :
    ∃ ccode, ccode ≠ sandboxOk ∧
      xenlpApply4 img env arg s = ⟨ccode, s, [.message 0 sizeofXenlpApply4]⟩ := by
  rw [xenlpApply4]
  split_ifs with hlen hwrites hexc hcalloc
  · exact ⟨sandboxErrInvalid, by decide, rfl⟩
  · exact ⟨sandboxErrInvalid, by decide, rfl⟩
  · exact ⟨sandboxErrInvalid, by decide, rfl⟩
  · exact ⟨sandboxErrNomem, by decide, rfl⟩
  · obtain ⟨hexc, hpre⟩ := not_or.mp hexc
    refine absurd ⟨⟨Nat.le_of_not_lt hlen, hwrites, not_not.mp hexc, not_not.mp hpre⟩, ?_⟩ h
    simpa using hcalloc

/-- Past the header, the rest of the function. -/
theorem xenlpApply4_of_received (h : Received env arg) :
    xenlpApply4 img env arg s =
      s.finish env arg (XenlpApply4.load arg) (patchData img env arg s) := by
  obtain ⟨⟨hlen, hwrites, hexc, hpre⟩, hcalloc⟩ := h
  have htables : ¬((XenlpApply4.load arg).numexctblents ≠ 0 ∨
      (XenlpApply4.load arg).numpreexctblents ≠ 0) := by
    rw [hexc, hpre]
    simp
  simp only [xenlpApply4, if_neg (Nat.not_lt.mpr hlen), if_neg hwrites, if_neg htables, hcalloc,
    Bool.true_eq_false, if_false, patchData]

theorem ccode_patchData_iff :
    (patchData img env arg s).ccode = sandboxOk ↔
      DataOk env arg sizeofXenlpApply4 (XenlpApply4.load arg) s.maps := by
  rw [patchData, readPatchData_ok_iff]

/-- Data that were refused are unmapped, and the result says so. -/
theorem Sandbox.finish_of_error {apply : XenlpApply4} {out : ReadOut}
    (h : out.ccode ≠ sandboxOk) :
    s.finish env arg apply out =
      ⟨out.ccode, { s with maps := (unmapPatchMap out.pm out.maps).2.2 },
        .message 0 sizeofXenlpApply4 :: out.log⟩ := by
  rw [Sandbox.finish]
  exact if_pos h

theorem posixMemalign_deps (available : Bool) :
    posixMemalign alignofXenlpHash available ≠ sandboxOk := by
  cases available <;> decide

/-- With a dependency the patch is thrown away, and the result is `SANDBOX_OK`. The hash type
holds characters only, so its alignment is refused and no dependency is read. -/
theorem Sandbox.finish_of_deps {apply : XenlpApply4} {out : ReadOut}
    (h : out.ccode = sandboxOk) (hdeps : apply.numdeps ≠ 0) :
    s.finish env arg apply out =
      ⟨sandboxOk, { s with maps := (unmapPatchMap out.pm out.maps).2.2 },
        .message 0 sizeofXenlpApply4 :: out.log⟩ := by
  simp only [Sandbox.finish, h, readDeps, if_neg hdeps, ne_eq, posixMemalign_deps,
    not_true_eq_false, not_false_eq_true, if_true, if_false, Sandbox.errout, List.append_nil]

theorem readDeps_of_no_deps {apply : XenlpApply4} (off : ℕ) (h : apply.numdeps = 0) :
    readDeps env off apply = .ok [] := if_pos h

/-- Without one it is inserted at the head and its writes are exchanged. -/
theorem Sandbox.finish_of_no_deps {apply : XenlpApply4} {out : ReadOut}
    (h : out.ccode = sandboxOk) (hdeps : apply.numdeps = 0) :
    s.finish env arg apply out =
      { ccode := sandboxOk
        sandbox :=
          ⟨(swapTrampolines out.writes s.text).2,
            newPatch apply out.pm [] (readTags arg sizeofXenlpApply4 apply.taglen)
              (swapTrampolines out.writes s.text).1 :: s.lpPatchHead, out.maps⟩
        log := .message 0 sizeofXenlpApply4 :: out.log
          ++ tagMessages sizeofXenlpApply4 apply.taglen ++ makeTextWriteable out.writes
          ++ exchanges out.writes } := by
  simp only [Sandbox.finish, h, readDeps_of_no_deps _ hdeps, ne_eq, not_true_eq_false, if_false]

theorem xenlpApply4_of_not_readable (hr : Received env arg) (h : ¬Readable env arg s) :
    ∃ ccode, ccode ≠ sandboxOk ∧ xenlpApply4 img env arg s =
      ⟨ccode, { s with maps := (unmapPatchMap (patchData img env arg s).pm
          (patchData img env arg s).maps).2.2 },
        .message 0 sizeofXenlpApply4 :: (patchData img env arg s).log⟩ := by
  have hcode : (patchData img env arg s).ccode ≠ sandboxOk :=
    fun hok => h ⟨hr, ccode_patchData_iff.mp hok⟩
  exact ⟨_, hcode, by rw [xenlpApply4_of_received hr, Sandbox.finish_of_error hcode]⟩

theorem xenlpApply4_of_deps (h : Readable env arg s) (hdeps : (XenlpApply4.load arg).numdeps ≠ 0) :
    xenlpApply4 img env arg s =
      ⟨sandboxOk, { s with maps := (unmapPatchMap (patchData img env arg s).pm
          (patchData img env arg s).maps).2.2 },
        .message 0 sizeofXenlpApply4 :: (patchData img env arg s).log⟩ := by
  rw [xenlpApply4_of_received h.1, Sandbox.finish_of_deps (ccode_patchData_iff.mpr h.2) hdeps]

/-- **An accepted message.** -/
theorem xenlpApply4_of_accepted (h : Accepted env arg s) :
    xenlpApply4 img env arg s =
      { ccode := sandboxOk
        sandbox :=
          ⟨(swapTrampolines (patchData img env arg s).writes s.text).2,
            insertedPatch img env arg s :: s.lpPatchHead, (patchData img env arg s).maps⟩
        log := .message 0 sizeofXenlpApply4 :: (patchData img env arg s).log
          ++ tagMessages sizeofXenlpApply4 (XenlpApply4.load arg).taglen
          ++ makeTextWriteable (patchData img env arg s).writes
          ++ exchanges (patchData img env arg s).writes } := by
  rw [xenlpApply4_of_received h.1.1,
    Sandbox.finish_of_no_deps (ccode_patchData_iff.mpr h.1.2) h.2, insertedPatch]

/-- The result is `SANDBOX_OK` whenever the data are read. -/
theorem xenlpApply4_ccode_iff :
    (xenlpApply4 img env arg s).ccode = sandboxOk ↔ Readable env arg s := by
  by_cases hr : Received env arg
  · by_cases h : Readable env arg s
    · by_cases hdeps : (XenlpApply4.load arg).numdeps = 0
      · rw [xenlpApply4_of_accepted ⟨h, hdeps⟩]
        exact iff_of_true rfl h
      · rw [xenlpApply4_of_deps h hdeps]
        exact iff_of_true rfl h
    · obtain ⟨ccode, hcode, heq⟩ := xenlpApply4_of_not_readable hr h
      rw [heq]
      exact iff_of_false hcode h
  · obtain ⟨ccode, hcode, heq⟩ := xenlpApply4_of_not_received (s := s) hr
    rw [heq]
    exact iff_of_false hcode fun h => hr h.1

theorem isStatus_finish {apply : XenlpApply4} {out : ReadOut} (h : IsStatus out.ccode) :
    IsStatus (s.finish env arg apply out).ccode := by
  by_cases hcode : out.ccode = sandboxOk
  · by_cases hdeps : apply.numdeps = 0
    · rw [Sandbox.finish_of_no_deps hcode hdeps]
      exact .inl rfl
    · rw [Sandbox.finish_of_deps hcode hdeps]
      exact .inl rfl
  · rw [Sandbox.finish_of_error hcode]
    exact h

/-- **The statuses of `xenlp_apply4`.** -/
theorem isStatus_xenlpApply4 : IsStatus (xenlpApply4 img env arg s).ccode := by
  rw [xenlpApply4]
  split_ifs with hlen hwrites hexc hcalloc
  · exact .inr (.inr rfl)
  · exact .inr (.inr rfl)
  · exact .inr (.inr rfl)
  · exact .inr (.inl rfl)
  · exact isStatus_finish (isStatus_readPatchData _ _ _ _ _)

/-- Only an accepted message changes the list or the text. -/
theorem xenlpApply4_of_not_accepted (h : ¬Accepted env arg s) :
    ∃ ccode maps log, xenlpApply4 img env arg s = ⟨ccode, { s with maps := maps }, log⟩ := by
  by_cases hr : Received env arg
  · by_cases hd : Readable env arg s
    · exact ⟨_, _, _, xenlpApply4_of_deps hd fun hz => h ⟨hd, hz⟩⟩
    · obtain ⟨ccode, -, heq⟩ := xenlpApply4_of_not_readable hr hd
      exact ⟨ccode, _, _, heq⟩
  · obtain ⟨ccode, -, heq⟩ := xenlpApply4_of_not_received (s := s) hr
    exact ⟨ccode, s.maps, _, heq⟩

/-- What a message that is not accepted leaves of the allocator: nothing new, its statics set
on first use, or a blob that was mapped, filled and unmapped. -/
theorem maps_of_not_accepted (h : ¬Accepted env arg s) :
    (xenlpApply4 img env arg s).sandbox.maps = s.maps ∨
      (xenlpApply4 img env arg s).sandbox.maps = s.maps.sample img env.toMapEnv ∨
      Received env arg ∧ BlobOk env.toMapEnv (XenlpApply4.load arg) s.maps ∧
        (xenlpApply4 img env arg s).sandbox.maps =
          { blobMaps img env.toMapEnv (XenlpApply4.load arg) s.maps with
            mem := relocatedMem img env arg sizeofXenlpApply4 (XenlpApply4.load arg) s.maps
            mapped := (blobMaps img env.toMapEnv (XenlpApply4.load arg) s.maps).mapped \
              (blobMap img env.toMapEnv (XenlpApply4.load arg) s.maps).released } := by
  by_cases hr : Received env arg
  · have hmaps : (xenlpApply4 img env arg s).sandbox.maps =
        (unmapPatchMap (patchData img env arg s).pm (patchData img env arg s).maps).2.2 := by
      by_cases hd : Readable env arg s
      · exact Outcome.maps_eq (xenlpApply4_of_deps hd fun hz => h ⟨hd, hz⟩)
      · obtain ⟨ccode, -, heq⟩ := xenlpApply4_of_not_readable hr hd
        exact Outcome.maps_eq heq
    rw [hmaps, patchData]
    by_cases hblob : BlobOk env.toMapEnv (XenlpApply4.load arg) s.maps
    · exact .inr (.inr ⟨hr, hblob, unmap_readPatchData hblob⟩)
    · exact .inr (.inl (unmap_readPatchData_of_not_blobOk hblob))
  · obtain ⟨ccode, -, heq⟩ := xenlpApply4_of_not_received (s := s) hr
    exact .inl (congrArg Sandbox.maps (Outcome.eq_mk heq).2.1)

/-- An accepted message keeps its blob. -/
theorem patchData_of_accepted (h : Accepted env arg s) :
    (patchData img env arg s).pm = blobMap img env.toMapEnv (XenlpApply4.load arg) s.maps ∧
      ∃ mem, (patchData img env arg s).maps =
        { blobMaps img env.toMapEnv (XenlpApply4.load arg) s.maps with mem := mem } := by
  obtain ⟨mem, relocs, writes, -, heq⟩ := readPatchData_of_dataOk h.1.2
  obtain ⟨-, hpm, hmaps, -, -⟩ := ReadOut.eq_mk heq
  exact ⟨hpm, mem, hmaps⟩

/-- The inserted entry keeps the map of its blob. -/
theorem map_insertedPatch (h : Accepted env arg s) : (insertedPatch img env arg s).map =
    blobMap img env.toMapEnv (XenlpApply4.load arg) s.maps := by
  rw [insertedPatch, map_newPatch, (patchData_of_accepted h).1]

/-! ## The result and the effect -/

/-- One new entry with the given hash at the head, and all its writes exchanged. -/
def Inserted (sha1 : Bytes shaDigestLength) (writes : List XenlpPatchWrite) (s s' : Sandbox) :
    Prop :=
  ∃ patch, s'.lpPatchHead = patch :: s.lpPatchHead ∧ patch.sha1 = sha1 ∧
    patch.writes = (swapTrampolines writes s.text).1 ∧
    s'.text = (swapTrampolines writes s.text).2

theorem inserted_newPatch {apply : XenlpApply4} {pm : PatchMap}
    {deps : List (Bytes shaDigestLength)} {tags : Bytes maxTagsLen}
    {writes : List XenlpPatchWrite} {maps : MapState} :
    Inserted apply.sha1 writes s
      ⟨(swapTrampolines writes s.text).2,
        newPatch apply pm deps tags (swapTrampolines writes s.text).1 :: s.lpPatchHead, maps⟩ :=
  ⟨_, rfl, rfl, rfl, rfl⟩

theorem not_inserted_self {sha1 : Bytes shaDigestLength} {writes : List XenlpPatchWrite}
    {maps : MapState} : ¬Inserted sha1 writes s { s with maps := maps } := by
  rintro ⟨patch, hlist, -⟩
  exact List.cons_ne_self _ _ hlist.symm

/-- The effect of an APPLY message with the writes that were read from it. -/
theorem inserted_iff :
    Inserted (XenlpApply4.load arg).sha1 (patchData img env arg s).writes s
      (xenlpApply4 img env arg s).sandbox ↔ Accepted env arg s := by
  by_cases h : Accepted env arg s
  · rw [xenlpApply4_of_accepted h]
    exact iff_of_true inserted_newPatch h
  · obtain ⟨ccode, maps, log, heq⟩ := xenlpApply4_of_not_accepted h
    rw [heq]
    exact iff_of_false not_inserted_self h

/-- **The result agrees with the effect** unless a message that is accepted up to there
declares dependencies. -/
theorem xenlpApply4_ok_iff_inserted :
    ((xenlpApply4 img env arg s).ccode = sandboxOk ↔
        Inserted (XenlpApply4.load arg).sha1 (patchData img env arg s).writes s
          (xenlpApply4 img env arg s).sandbox) ↔
      ((XenlpApply4.load arg).numdeps = 0 ∨ ¬Readable env arg s) := by
  rw [xenlpApply4_ccode_iff, inserted_iff, Accepted]
  tauto

/-- No allocation fails. -/
def sampleEnv : ApplyEnv sampleImage where
  toMapEnv := sampleMapEnv true
  callocPatch := true
  callocRelocs := true
  memalignWrites := true
  memalignDeps := true

/-- A header with a blob of four bytes, one write, and the given counts of dependencies and
tag bytes. -/
def sampleHeader (numdeps taglen : ℕ) : List Byte :=
  List.replicate 24 0 ++ leBytes 8 0x400000 ++ leBytes 4 4 ++ leBytes 4 0 ++ leBytes 4 1
    ++ leBytes 4 0 ++ leBytes 4 0 ++ leBytes 4 numdeps ++ leBytes 4 taglen ++ leBytes 4 0

/-- The blob, and a jump to it at `0x401000`. -/
def sampleSections : List Byte :=
  leBytes 4 0xc3 ++ (leBytes 8 0x401000 ++ (0xe9 :: leBytes 7 0) ++ [1, 1] ++ leBytes 6 0)

/-- A complete message that names one patch it depends on. -/
def samplePayload : List Byte := sampleHeader 1 0 ++ sampleSections ++ List.replicate 24 0

/-- The message with a dependency is answered `SANDBOX_OK` and thrown away. -/
theorem xenlpApply4_ok_not_inserted :
    let arg := fromList samplePayload fun _ => 0
    let s := Sandbox.init (fun _ => 0) fun _ => 0
    let out := xenlpApply4 sampleImage sampleEnv arg s
    (XenlpApply4.load arg).declared ≤ samplePayload.length ∧
      ¬(out.ccode = sandboxOk ↔
        Inserted (XenlpApply4.load arg).sha1 (patchData sampleImage sampleEnv arg s).writes s
          out.sandbox) := by
  refine ⟨by decide +kernel, ?_⟩
  rw [xenlpApply4_ccode_iff, inserted_iff]
  decide +kernel

/-! ## The reads and the payload -/

theorem readsBelow_header {n : ℕ} {log : List Access} :
    ReadsBelow n (.message 0 sizeofXenlpApply4 :: log) ↔
      sizeofXenlpApply4 ≤ n ∧ ReadsBelow n log := by
  rw [← List.singleton_append, readsBelow_append, readsBelow_message, Nat.zero_add]

theorem readsBelow_tagMessages {n off : ℕ} {taglen : BitVec 32} (h : off + taglen.toNat ≤ n) :
    ReadsBelow n (tagMessages off taglen) := by
  rw [tagMessages]
  split
  · exact readsBelow_message.mpr h
  · exact readsBelow_nil n

theorem readsBelow_makeTextWriteable (n : ℕ) (writes : List XenlpPatchWrite) :
    ReadsBelow n (makeTextWriteable writes) := by
  simp [ReadsBelow, messages, makeTextWriteable]

theorem readsBelow_exchanges (n : ℕ) (writes : List XenlpPatchWrite) :
    ReadsBelow n (exchanges writes) := by
  simp [ReadsBelow, messages, exchanges]

theorem readsBelow_patchData {n : ℕ} :
    ReadsBelow n (patchData img env arg s).log ↔
      SectionsBelow n env arg sizeofXenlpApply4 (XenlpApply4.load arg) s.maps := by
  rw [patchData, readsBelow_readPatchData]

/-- `n` bytes are enough for the header, for each section that is reached, and, once the data
are accepted, for all that the counts announce. -/
def PayloadCovers (n : ℕ) (env : ApplyEnv img) (arg : ℕ → Byte) (s : Sandbox) : Prop :=
  sizeofXenlpApply4 ≤ n ∧
    (Received env arg →
      SectionsBelow n env arg sizeofXenlpApply4 (XenlpApply4.load arg) s.maps) ∧
    (Readable env arg s → (XenlpApply4.load arg).declared ≤ n)

/-- The tags are read at the start of the blob, so they end where the counts do, or before. -/
theorem tags_le_declared (apply : XenlpApply4) :
    sizeofXenlpApply4 + apply.taglen.toNat ≤ apply.declared := by
  rw [XenlpApply4.declared]
  omega

theorem readsBelow_of_accepted {n : ℕ} (h : Accepted env arg s) :
    ReadsBelow n (xenlpApply4 img env arg s).log ↔
      sizeofXenlpApply4 ≤ n ∧
        SectionsBelow n env arg sizeofXenlpApply4 (XenlpApply4.load arg) s.maps ∧
        ReadsBelow n (tagMessages sizeofXenlpApply4 (XenlpApply4.load arg).taglen) := by
  have hlog := congrArg Outcome.log (xenlpApply4_of_accepted h)
  rw [hlog, readsBelow_append, readsBelow_append, readsBelow_append, readsBelow_header,
    readsBelow_patchData]
  have htext := readsBelow_makeTextWriteable n (patchData img env arg s).writes
  have hexchange := readsBelow_exchanges n (patchData img env arg s).writes
  rw [and_iff_left hexchange, and_iff_left htext, and_assoc]

theorem readsBelow_of_received {n : ℕ} (hr : Received env arg) (h : ¬Accepted env arg s) :
    ReadsBelow n (xenlpApply4 img env arg s).log ↔
      sizeofXenlpApply4 ≤ n ∧
        SectionsBelow n env arg sizeofXenlpApply4 (XenlpApply4.load arg) s.maps := by
  have hlog : (xenlpApply4 img env arg s).log
      = .message 0 sizeofXenlpApply4 :: (patchData img env arg s).log := by
    by_cases hd : Readable env arg s
    · exact congrArg Outcome.log (xenlpApply4_of_deps hd fun hz => h ⟨hd, hz⟩)
    · obtain ⟨ccode, -, heq⟩ := xenlpApply4_of_not_readable hr hd
      exact congrArg Outcome.log heq
  rw [hlog, readsBelow_header, readsBelow_patchData]

theorem readsBelow_of_not_received {n : ℕ} (hr : ¬Received env arg) :
    ReadsBelow n (xenlpApply4 img env arg s).log ↔ sizeofXenlpApply4 ≤ n := by
  obtain ⟨ccode, -, heq⟩ := xenlpApply4_of_not_received (s := s) hr
  rw [congrArg Outcome.log heq, readsBelow_message, Nat.zero_add]

/-- **The reads stay in the payload, and a payload that is too short is refused**, exactly
when the payload covers what is reached. -/
theorem xenlpApply4_payload (payload : List Byte) (beyond : ℕ → Byte) :
    (ReadsBelow payload.length (xenlpApply4 img env (fromList payload beyond) s).log ∧
        (payload.length < (XenlpApply4.load (fromList payload beyond)).declared →
          (xenlpApply4 img env (fromList payload beyond) s).ccode ≠ sandboxOk)) ↔
      PayloadCovers payload.length env (fromList payload beyond) s := by
  generalize fromList payload beyond = arg
  generalize payload.length = n
  rw [Ne, xenlpApply4_ccode_iff, PayloadCovers, imp_not_comm, Nat.not_lt, ← and_assoc]
  refine and_congr_left fun hle => ?_
  by_cases ha : Accepted env arg s
  · have htags := readsBelow_tagMessages ((tags_le_declared _).trans (hle ha.1))
    rw [readsBelow_of_accepted ha]
    exact and_congr_right fun _ => ⟨fun h _ => h.1, fun h => ⟨h ha.1.1, htags⟩⟩
  by_cases hr : Received env arg
  · rw [readsBelow_of_received hr ha]
    exact and_congr_right fun _ => ⟨fun h _ => h, fun h => h hr⟩
  · rw [readsBelow_of_not_received hr]
    exact ⟨fun h => ⟨h, fun hc => absurd hc hr⟩, fun h => h.1⟩

/-- A header alone is read far beyond, and accepted when the memory behind it fits. -/
theorem xenlpApply4_short_payload :
    let payload := sampleHeader 0 0
    let arg := fromList payload fun i => sampleSections.getD (i - payload.length) 0
    let out := xenlpApply4 sampleImage sampleEnv arg (Sandbox.init (fun _ => 0) fun _ => 0)
    payload.length < sandboxAllocSize ∧
      ¬(ReadsBelow payload.length out.log ∧
        (payload.length < (XenlpApply4.load arg).declared → out.ccode ≠ sandboxOk)) := by
  refine ⟨by decide +kernel, fun h => ?_⟩
  exact h.2 (by decide +kernel) (xenlpApply4_ccode_iff.mpr (by decide +kernel))

end Patchbox
