import Patchbox.Jumps

/-!
# Second-level relocations

A patch may call into another one. The client finds out where that one was mapped and corrects
the word in the blob, which then leads to the right run-time address from where the blob was
linked. It hands the word on to the server among the relocations that lead into the program.
The server adds the distance the program was moved, which is already in the word.

## Main definitions

* `blobWord` — a word of a blob.
* `LinkedTo` — the word of a second-level relocation, as it was linked.
* `LeadsTo` — the word in the server's memory.
* `dependency_reached_iff` — when it leads into the dependency.
-/

namespace Patchbox
open Lib

variable {img : Image} {env : ApplyEnv img} {arg : ℕ → Byte} {p : Patch} {s t : Sandbox}

/-! ## Words of a blob -/

/-- The word at an offset of a blob. -/
def blobWord (blob : Blob) (off : ℕ) : BitVec 32 := word32 (bytesOf blob.1) off

/-- Around bytes that are replaced nothing changes. -/
theorem getElem?_replace {l new : List Byte} {off i : ℕ} (hin : off + new.length ≤ l.length)
    (h : i < off ∨ off + new.length ≤ i) :
    (l.take off ++ new ++ l.drop (off + new.length))[i]? = l[i]? := by
  have hlen : (l.take off ++ new).length = off + new.length := by
    rw [List.length_append, List.length_take]
    omega
  rcases h with h | h
  · rw [List.append_assoc, List.getElem?_append_left (by rw [List.length_take]; omega),
      List.getElem?_take_of_lt h]
  · rw [List.getElem?_append_right (by rw [hlen]; exact h), hlen, List.getElem?_drop,
      Nat.add_sub_cancel' h]

/-- The bytes around a word that is increased. -/
theorem bytesOf_addWord_of_apart {blob : Blob} {off i : ℕ} (v : BitVec 32)
    (h : i < off ∨ off + 4 ≤ i) : bytesOf (addWord blob off v).1 i = bytesOf blob.1 i := by
  rw [addWord]
  split_ifs with hin
  · have hget := @getElem?_replace blob.1 (leBytes 4 (word32 (bytesOf blob.1) off + v).toNat) off i
    rw [length_leBytes] at hget
    rw [bytesOf, fromList, List.getD_eq_getElem?_getD, hget hin h, bytesOf, fromList,
      List.getD_eq_getElem?_getD]
  · rfl

theorem blobWord_addWord {blob : Blob} {off : ℕ} (h : off + 4 ≤ blob.1.length) (v : BitVec 32) :
    blobWord (addWord blob off v) off = blobWord blob off + v := by
  have hall := standsAt_fromList (addWord blob off v).1 fun _ => 0
  rw [← bytesOf] at hall
  generalize hw : bytesOf (addWord blob off v).1 = f at hall
  rw [addWord, dif_pos h, standsAt_append, standsAt_append, List.length_take,
    Nat.min_eq_left (by omega), Nat.zero_add] at hall
  rw [blobWord, hw, blobWord]
  exact StandsAt.word32 hall.1.2

theorem blobWord_addWord_of_apart {blob : Blob} {off o : ℕ} (v : BitVec 32)
    (h : o + 4 ≤ off ∨ off + 4 ≤ o) : blobWord (addWord blob o v) off = blobWord blob off := by
  refine word32_congr fun i hi => bytesOf_addWord_of_apart v ?_
  omega

/-! ## The client's loop -/

theorem adjustBlob_append (deps : List Dependency) (l l' : List Reloc3) (blob : Blob) :
    adjustBlob deps (l ++ l') blob = adjustBlob deps l' (adjustBlob deps l blob) := by
  rw [adjustBlob, List.foldl_append]
  rfl

theorem adjustBlob_cons (deps : List Dependency) (rel3 : Reloc3) (l : List Reloc3) (blob : Blob) :
    adjustBlob deps (rel3 :: l) blob = adjustBlob deps l (addWord blob rel3.offset.toNat
      ((deps[rel3.index.toNat]?.map Dependency.reladdr).getD 0)) := rfl

/-- Relocations of other words leave a word alone. -/
theorem blobWord_adjustBlob_of_apart {deps : List Dependency} {l : List Reloc3} {off : BitVec 32}
    (blob : Blob) (h : ∀ rel3 ∈ l, WordsApart rel3.offset off) :
    blobWord (adjustBlob deps l blob) off.toNat = blobWord blob off.toNat := by
  induction l generalizing blob with
  | nil => rfl
  | cons rel3 l ih =>
      obtain ⟨hhead, hrest⟩ := List.forall_mem_cons.mp h
      rw [adjustBlob_cons, ih _ hrest]
      exact blobWord_addWord_of_apart _ hhead

/-- A word that is relocated once. -/
theorem blobWord_adjustBlob {deps : List Dependency} {before behind : List Reloc3} {rel3 : Reloc3}
    {d : Dependency} {blob : Blob} (hd : deps[rel3.index.toNat]? = some d)
    (hin : rel3.offset.toNat + 4 ≤ blob.1.length)
    (h : ∀ r ∈ before ++ behind, WordsApart r.offset rel3.offset) :
    blobWord (adjustBlob deps (before ++ rel3 :: behind) blob) rel3.offset.toNat =
      blobWord blob rel3.offset.toNat + d.reladdr := by
  have hbefore : ∀ r ∈ before, WordsApart r.offset rel3.offset :=
    fun r hr => h r (List.mem_append_left behind hr)
  have hbehind : ∀ r ∈ behind, WordsApart r.offset rel3.offset :=
    fun r hr => h r (List.mem_append_right before hr)
  rw [adjustBlob_append, adjustBlob_cons, hd, Option.map_some, Option.getD_some,
    blobWord_adjustBlob_of_apart _ hbehind, blobWord_addWord (by rw [length_adjustBlob]; exact hin),
    blobWord_adjustBlob_of_apart _ hbefore]

/-! ## The message -/

/-- The server finds the blob and the relocations of the client. -/
theorem load_sections (hb : (p.header (patchWrites p)).HasBlob) (beyond : ℕ → Byte) :
    StandsAt (fromList (p.message fillPatchBuf4) beyond) sizeofXenlpApply4 p.blob.1 ∧
      messageRelocs (fromList (p.message fillPatchBuf4) beyond) = p.relocs.1 := by
  have hload := @load_message4 p beyond
  have hall := standsAt_fromList (p.message fillPatchBuf4) beyond
  generalize fromList (p.message fillPatchBuf4) beyond = arg at hall hload
  have hoff : (p.header (patchWrites p)).relocsOff sizeofXenlpApply4 =
      sizeofXenlpApply4 + p.blob.1.length := by
    rw [XenlpApply4.relocsOff, XenlpApply4.blobBytes, if_pos hb, Patch.header, Blob.toNat_bloblen]
  rw [Patch.message, fillPatchBuf4, Patch.sections] at hall
  simp only [List.flatten_cons, standsAt_append, XenlpApply4.length_store, Nat.zero_add] at hall
  refine ⟨hall.2.1, ?_⟩
  rw [messageRelocs, hload, hoff, toNat_numrelocs_header]
  exact loadRelocs_of_standsAt hall.2.2.1

/-- A word of the blob in the message. -/
theorem word32_of_standsAt {f : ℕ → Byte} {o : ℕ} {blob : Blob} (h : StandsAt f o blob.1) {off : ℕ}
    (hin : off + 4 ≤ blob.1.length) : word32 f (o + off) = blobWord blob off := by
  refine word32_congr fun i hi => ?_
  have hlt : off + i < blob.1.length := by omega
  rw [Nat.add_assoc, h (off + i) hlt, bytesOf, fromList_lt hlt]

/-! ## The word at the server -/

/-- The word at `off`, counted from the place `x` of the blob, leads to `target`. -/
def LeadsTo (out : ReadOut) (off : BitVec 32) (x : BitVec 64) (target : Addr) : Prop :=
  RefersTo (wordAt out.maps.mem (out.pm.addr + off.setWidth 64)) (out.pm.addr + x) target

instance (out : ReadOut) (off : BitVec 32) (x : BitVec 64) (target : Addr) :
    Decidable (LeadsTo out off x target) := inferInstanceAs (Decidable (RefersTo _ _ _))

/-- The second-level relocation `rel3` stands between `before` and `behind`. Its word lies in the
blob, is no other relocation's, and leads to the place `k` of the dependency, counted from the
place `x`, as both patches were linked. -/
structure LinkedTo (p : Patch) (before behind : List Reloc3) (rel3 : Reloc3) (d : Dependency)
    (x k : BitVec 64) : Prop where
  relocs3 : p.relocs3.1 = before ++ rel3 :: behind
  dep : p.deps.1[rel3.index.toNat]? = some d
  inside : rel3.offset.toNat + 4 ≤ p.blob.1.length
  apart : ∀ r ∈ p.relocs.1 ++ (before ++ behind).map Reloc3.offset, WordsApart r rel3.offset
  refers : RefersTo (blobWord p.blob rel3.offset.toNat) (p.refabs + x) (d.refabs + k)

variable {before behind : List Reloc3} {rel3 : Reloc3} {d : Dependency} {pi : XenlpPatchInfo3}
  {x k : BitVec 64}

/-- The client makes the word lead to where the dependency was mapped. -/
theorem LinkedTo.refers_sent (h : LinkedTo p before behind rel3 d x k)
    (hlive : patchInfo t d.sha1 = some pi) :
    RefersTo (blobWord (p.sent t).blob rel3.offset.toNat) (p.refabs + x) (pi.hvaddr + k) := by
  have hdep : (resolveDeps t p).1[rel3.index.toNat]? = some (d.resolve pi) := by
    rw [resolveDeps, List.getElem?_map, h.dep, Option.map_some, resolveIn, hlive, Option.elim_some]
  have hapart : ∀ r ∈ before ++ behind, WordsApart r.offset rel3.offset := fun r hr =>
    h.apart _ (List.mem_append_right _ (List.mem_map_of_mem hr))
  have hword : blobWord (p.sent t).blob rel3.offset.toNat =
      blobWord p.blob rel3.offset.toNat + (pi.hvaddr - d.refabs).setWidth 32 := by
    have hblob : (p.sent t).blob =
        adjustBlob (resolveDeps t p).1 (before ++ rel3 :: behind) p.blob := by
      rw [← h.relocs3]
      rfl
    rw [hblob, blobWord_adjustBlob hdep h.inside hapart]
    rfl
  rw [hword]
  exact h.refers.retarget (by decide) pi.hvaddr

/-- The relocation is among those that are sent, unless it was lost with their number. -/
theorem LinkedTo.relocs_sent (h : LinkedTo p before behind rel3 d x k) (t : Sandbox)
    (hsent : p.relocs.1.length + before.length < (p.relocs.count + p.relocs3.count).toNat) :
    ∃ behind', (p.sent t).relocs.1 =
        (p.relocs.1 ++ before.map Reloc3.offset) ++ rel3.offset :: behind' ∧
      ∀ r ∈ (p.relocs.1 ++ before.map Reloc3.offset) ++ behind', WordsApart r rel3.offset := by
  have hrelocs : (p.sent t).relocs.1 = ((p.relocs.1 ++ before.map Reloc3.offset) ++
      rel3.offset :: behind.map Reloc3.offset).take (p.relocs.count + p.relocs3.count).toNat := by
    have hval : (p.sent t).relocs.1 = (p.relocs.1 ++ p.relocs3.1.map Reloc3.offset).take
        (p.relocs.count + p.relocs3.count).toNat := rfl
    rw [hval, h.relocs3, List.map_append, List.map_cons, List.append_assoc]
  generalize (p.relocs.count + p.relocs3.count).toNat = n at hsent hrelocs
  have hlen : (p.relocs.1 ++ before.map Reloc3.offset).length =
      p.relocs.1.length + before.length := by
    rw [List.length_append, List.length_map]
  obtain ⟨m, hm⟩ := Nat.exists_eq_add_of_lt hsent
  have htake : n - (p.relocs.1.length + before.length) = m + 1 := by omega
  refine ⟨(behind.map Reloc3.offset).take m, ?_, fun r hr => h.apart r ?_⟩
  · rw [hrelocs, List.take_append, List.take_of_length_le (by omega), hlen, htake,
      List.take_succ_cons]
  · rw [List.map_append, ← List.append_assoc]
    rcases List.mem_append.mp hr with hbefore | hbehind
    · exact List.mem_append_left _ hbefore
    · exact List.mem_append_right _ (List.mem_of_mem_take hbehind)

/-- **A word that leads to a dependency** does so in the server's memory when the program was moved
by a multiple of `2 ^ 32`, and only then. -/
theorem dependency_reached_iff (env : ApplyEnv img) (p : Patch) (beyond : ℕ → Byte)
    (s t : Sandbox) (hlt : p.blob.1.length < maxPatchSize) (before behind : List Reloc3)
    (rel3 : Reloc3) (d : Dependency) (pi : XenlpPatchInfo3) (x k : BitVec 64)
    (hlinked : LinkedTo p before behind rel3 d x k) (hlive : patchInfo t d.sha1 = some pi)
    (hsent : p.relocs.1.length + before.length < (p.relocs.count + p.relocs3.count).toNat)
    (hcode : (patchData img env (fromList ((p.sent t).message fillPatchBuf4) beyond) s).ccode =
      sandboxOk) :
    LeadsTo (patchData img env (fromList ((p.sent t).message fillPatchBuf4) beyond) s) rel3.offset x
        (pi.hvaddr + k) ↔ (img.start_ - p.refabs).setWidth 32 = (0 : BitVec 32) := by
  have hinside := hlinked.inside
  have hlen : (p.sent t).blob.1.length = p.blob.1.length := length_blob_adjusted
  have hb : ((p.sent t).header (patchWrites (p.sent t))).HasBlob :=
    hasBlob_header (by omega) (by omega)
  have hload := @load_message4 (p.sent t) beyond
  obtain ⟨hstands, hrelocs⟩ := load_sections hb beyond
  obtain ⟨behind', hsplit, hapart⟩ := hlinked.relocs_sent t hsent
  generalize fromList ((p.sent t).message fillPatchBuf4) beyond = arg at *
  have hbloblen : (XenlpApply4.load arg).bloblen.toNat = (p.sent t).blob.1.length := by
    rw [hload, Patch.header, Blob.toNat_bloblen]
  have hrefabs : (XenlpApply4.load arg).refabs = p.refabs := congrArg XenlpApply4.refabs hload
  have hword := wordAt_patchData (hload ▸ hb) hcode (hrelocs.trans hsplit) hapart (by omega)
  rw [word32_of_standsAt hstands (by omega), hrefabs] at hword
  generalize patchData img env arg s = out at hword ⊢
  -- the client's correction, the move of the program, and the move of the blob
  have hplace : p.refabs + x + loadBias img arg = p.refabs + loadBias img arg + x := by ring
  have hmoved := (hlinked.refers_sent hlive).shift (loadBias img arg)
  rw [hplace] at hmoved
  have hfinal := hmoved.move (by decide) out.pm.addr
  rw [← hword] at hfinal
  have hbias : pi.hvaddr + k + loadBias img arg - (pi.hvaddr + k) = img.start_ - p.refabs := by
    rw [loadBias, hrefabs]
    ring
  rw [LeadsTo, hfinal.iff_of_target (by decide), hbias]

/-- A call to the place at which the blob is linked. -/
def callerBlob : Blob := ⟨leBytes 4 (2 ^ 32 - 4) ++ leBytes 4 0xc3, by decide⟩

/-- A patch whose blob calls into one that was linked at the same place. -/
def callerPatch (refabs : BitVec 64) : Patch :=
  { storedPatch with
    sha1 := fun _ => 1
    refabs := refabs
    blob := callerBlob
    relocs := .nil
    funcs := .single ⟨.single 0x66, refabs + 0x1000, 4⟩
    relocs3 := .single ⟨0, 0⟩
    deps := .single ⟨fun _ => 0, refabs, 0⟩ }

theorem linkedTo_callerPatch (refabs : BitVec 64) :
    LinkedTo (callerPatch refabs) [] [] ⟨0, 0⟩ ⟨fun _ => 0, refabs, 0⟩ 4 0 where
  relocs3 := rfl
  dep := rfl
  inside := show 0 + 4 ≤ callerBlob.1.length by decide +kernel
  apart := fun r hr => absurd hr List.not_mem_nil
  refers := by
    have hword : blobWord callerBlob 0 = -4 := by decide +kernel
    have hdist : refabs + 0 - (refabs + 4) = (-4 : BitVec 64) := by ring
    have hrefers : RefersTo (blobWord callerBlob 0) (refabs + 4) (refabs + 0) := by
      rw [RefersTo, hdist, hword]
      rfl
    exact hrefers

/-- A server with one live patch. -/
def calleeSandbox : Sandbox :=
  (xenlpApply4 sampleImage sampleEnv (fromList (messageOf 0x400000 [0xc3, 0xc3, 0xc3, 0xc3] []
    sampleWrite) fun _ => 0) (Sandbox.init (fun _ => 0) fun _ => 0)).sandbox

/-- The patch is at the start of the heap. -/
theorem patchInfo_calleeSandbox :
    (patchInfo calleeSandbox fun _ => 0).map XenlpPatchInfo3.hvaddr = some 0x701000 := by
  decide +kernel

theorem dependency_reached_iff_linked :
    let p := callerPatch 0x400000
    let arg := fromList ((p.sent calleeSandbox).message fillPatchBuf4) fun _ => 0
    ∃ rel3 d pi, LinkedTo p [] [] rel3 d 4 0 ∧ patchInfo calleeSandbox d.sha1 = some pi ∧
      (patchData sampleImage sampleEnv arg calleeSandbox).ccode = sandboxOk ∧
        (LeadsTo (patchData sampleImage sampleEnv arg calleeSandbox) rel3.offset 4 (pi.hvaddr + 0) ↔
          (sampleImage.start_ - p.refabs).setWidth 32 = (0 : BitVec 32)) := by
  intro p arg
  obtain ⟨pi, hlive, -⟩ := Option.map_eq_some_iff.mp patchInfo_calleeSandbox
  have hlinked := linkedTo_callerPatch 0x400000
  have hcode : (patchData sampleImage sampleEnv arg calleeSandbox).ccode = sandboxOk := by
    decide +kernel
  have hsent : p.relocs.1.length + ([] : List Reloc3).length <
      (p.relocs.count + p.relocs3.count).toNat := by decide +kernel
  have hlt : p.blob.1.length < maxPatchSize := by decide +kernel
  exact ⟨_, _, pi, hlinked, hlive, hcode, dependency_reached_iff sampleEnv p (fun _ => 0)
    calleeSandbox calleeSandbox hlt [] [] ⟨0, 0⟩ ⟨fun _ => 0, 0x400000, 0⟩ pi 4 0 hlinked hlive
    hsent hcode⟩

/-- In a program that was linked at 0 and loaded at `0x400000` the word leads past the dependency
by that distance. -/
theorem dependency_missed :
    let p := callerPatch 0
    let arg := fromList ((p.sent calleeSandbox).message fillPatchBuf4) fun _ => 0
    let out := patchData sampleImage sampleEnv arg calleeSandbox
    ∃ rel3 d pi, LinkedTo p [] [] rel3 d 4 0 ∧ patchInfo calleeSandbox d.sha1 = some pi ∧
      messageRelocs arg = [rel3.offset] ∧ out.ccode = sandboxOk ∧
        ¬LeadsTo out rel3.offset 4 (pi.hvaddr + 0) := by
  intro p arg out
  obtain ⟨pi, hlive, haddr⟩ := Option.map_eq_some_iff.mp patchInfo_calleeSandbox
  refine ⟨⟨0, 0⟩, ⟨fun _ => 0, 0, 0⟩, pi, linkedTo_callerPatch 0, hlive, by decide +kernel,
    by decide +kernel, ?_⟩
  rw [haddr]
  decide +kernel

end Patchbox
