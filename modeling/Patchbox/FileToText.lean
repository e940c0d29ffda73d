import Patchbox.CmdUndo
import Patchbox.SecondLevel

/-!
# From the file to the running program

The parts of the way a patch takes are put together: the command loads a file, sends the patch
and returns 0. Then the program jumps from each function of the file to the new code, whose
words lead into the program from where they are now. Taking the patch out again gives the text
back.

## Main definitions

* `Patch.Regular` — what a patch has to be for this.
* `RunsIn` — what the program does with the patch.
* `cmdApply_runsIn` — what the command has done when it returns 0.
* `cmdUndo_cmdApply` — both commands, one after the other.
-/

namespace Patchbox
open Lib

variable {img : Image} {env : ApplyEnv img} {p : Patch} {s s' : Sandbox} {beyond : ℕ → Byte}

/-! ## The program with the patch -/

/-- How far the program was moved from the place at which the patch has it linked. -/
def Patch.bias (img : Image) (p : Patch) : BitVec 64 := img.start_ - p.refabs

/-- The blob is one that the server maps, and neither functions nor relocations overlap. -/
structure Patch.Regular (p : Patch) : Prop where
  blob_ge : 4 ≤ p.blob.1.length
  blob_lt : p.blob.1.length < maxPatchSize
  funcs : p.funcs.1.Pairwise fun func func' =>
    Disjoint (Mem.block func.oldabs 8) (Mem.block func'.oldabs 8)
  relocs : WordsDisjoint p.relocs.1

/-- The program has the patch `p` on top: each function within reach jumps to its new code, the
rest of the text is as it was, and can be had back; the blob is the one in the file, and what
its relocated words refer to was moved with the program. -/
structure RunsIn (img : Image) (p : Patch) (ap : AppliedPatch) (s s' : Sandbox) : Prop where
  list : s'.lpPatchHead = ap :: s.lpPatchHead
  sha1 : ap.sha1 = p.sha1
  jumps : ∀ func ∈ p.funcs.1,
    Lib.Fits 32 (ap.map.addr + func.newrel.setWidth 64 - (func.oldabs + p.bias img) - 5) →
      jumpTarget s'.text (func.oldabs + p.bias img) =
        some (ap.map.addr + func.newrel.setWidth 64)
  elsewhere : ∀ x, (∀ func ∈ p.funcs.1, x ∉ Mem.block (func.oldabs + p.bias img) 8) →
    s'.text x = s.text x
  restores : (swapTrampolines ap.writes s'.text).2 = s.text
  bytes : ∀ i < p.blob.1.length, (∀ r ∈ p.relocs.1, i < r.toNat ∨ r.toNat + 4 ≤ i) →
    s'.maps.mem (ap.map.addr + BitVec.ofNat 64 i) = bytesOf p.blob.1 i
  refers : ∀ r ∈ p.relocs.1, ∀ x target,
    RefersTo (blobWord p.blob r.toNat) (p.refabs + x) target →
      RefersTo (wordAt s'.maps.mem (ap.map.addr + r.setWidth 64)) (ap.map.addr + x)
        (target + p.bias img)

/-! ## The text -/

section Text

variable {bias addr : BitVec 64} {funcs : List FunctionPatch} {writes : List XenlpPatchWrite}

/-- Each write is the jump of its function. -/
def Jumping (bias addr : BitVec 64) (funcs : List FunctionPatch) (writes : List XenlpPatchWrite) :
    Prop :=
  List.Forall₂ (fun func pw => JumpFrom pw (func.oldabs + bias) (addr + func.newrel.setWidth 64))
    funcs writes

/-- The writes of an accepted message. -/
theorem jumping_patchData (hb : (p.header (patchWrites p)).HasBlob)
    (hcode : (patchData img env (fromList (p.message fillPatchBuf4) beyond) s).ccode = sandboxOk) :
    Jumping (p.bias img) (patchData img env (fromList (p.message fillPatchBuf4) beyond) s).pm.addr
      p.funcs.1 (patchData img env (fromList (p.message fillPatchBuf4) beyond) s).writes := by
  have hmoved := patchData_writes hcode
  rw [load_message4, numwrites_header, loadWrites_message hb, relocrel_of_hasBlob hb,
    XenlpApply4.runtimeConstant, if_pos hb, relocateWrites_eq_some, patchWrites,
    List.forall₂_map_left_iff] at hmoved
  exact hmoved.imp fun func pw hpw => FunctionPatch.jumpFrom hpw

theorem Jumping.hvabs (h : Jumping bias addr funcs writes) :
    writes.map XenlpPatchWrite.hvabs = funcs.map fun func => func.oldabs + bias := by
  induction h with
  | nil => rfl
  | cons hhead _ ih => rw [List.map_cons, List.map_cons, hhead.hvabs, ih]

/-- A function has a write. -/
theorem Jumping.exists_write (h : Jumping bias addr funcs writes) {func : FunctionPatch}
    (hfunc : func ∈ funcs) : ∃ pw ∈ writes,
      JumpFrom pw (func.oldabs + bias) (addr + func.newrel.setWidth 64) := by
  induction h with
  | nil => exact absurd hfunc List.not_mem_nil
  | cons hhead _ ih =>
      rcases List.mem_cons.mp hfunc with rfl | hfunc
      · exact ⟨_, List.mem_cons_self, hhead⟩
      · obtain ⟨pw, hpw, hjump⟩ := ih hfunc
        exact ⟨pw, List.mem_cons_of_mem _ hpw, hjump⟩

/-- Ranges that do not meet where they are linked do not meet where they are moved to. -/
theorem disjoint_block_add {a b : Addr} (h : Disjoint (Mem.block a 8) (Mem.block b 8))
    (bias : BitVec 64) : Disjoint (Mem.block (a + bias) 8) (Mem.block (b + bias) 8) := by
  have hsub : ∀ x y : Addr, x + bias - (y + bias) = x - y := fun x y => by ring
  rw [Mem.disjoint_block_iff (by decide), hsub, hsub]
  exact (Mem.disjoint_block_iff (by decide)).mp h

theorem Jumping.writesDisjoint (h : Jumping bias addr funcs writes)
    (hfuncs : funcs.Pairwise fun func func' =>
      Disjoint (Mem.block func.oldabs 8) (Mem.block func'.oldabs 8)) : WritesDisjoint writes := by
  have hmap : (writes.map XenlpPatchWrite.hvabs).Pairwise fun a b =>
      Disjoint (Mem.block a 8) (Mem.block b 8) := by
    rw [h.hvabs, List.pairwise_map]
    exact hfuncs.imp fun hd => disjoint_block_add hd bias
  rw [List.pairwise_map] at hmap
  exact hmap

/-- At a write the text jumps where the write leads. -/
theorem jumpTarget_swapTrampolines (hd : WritesDisjoint writes) {pw : XenlpPatchWrite}
    (hpw : pw ∈ writes) (text : Mem 64) :
    jumpTarget (swapTrampolines writes text).2 pw.hvabs =
      jumpTarget (text.write pw.hvabs pw.data) pw.hvabs := by
  refine jumpTarget_congr fun x hx => ?_
  rw [swapTrampolines_text hd, overlay_of_mem (writeLayer_of_mem hd hpw hx),
    Mem.write_apply_mem text pw.data hx]

/-- The exchange on what it saved. -/
theorem swapTrampolines_restores (hd : WritesDisjoint writes) (text : Mem 64) :
    (swapTrampolines (swapTrampolines writes text).1 (swapTrampolines writes text).2).2 = text := by
  have hsaved : WritesDisjoint (swapTrampolines writes text).1 :=
    (writesDisjoint_congr (hvabs_swapTrampolines writes text)).mpr hd
  rw [swapTrampolines_text hsaved, swapTrampolines_saved hd, swapTrampolines_text hd,
    overlay_overlay_covered]

end Text

/-! ## The blob -/

section Blob

variable {blob : Blob} {addr : Addr} {relocs : List (BitVec 32)} {relocrel : BitVec 32}
  {mem : Mem 64}

/-- A byte that is not relocated. -/
theorem byte_relocateMem
    (hblob : ∀ i < blob.1.length, mem (addr + BitVec.ofNat 64 i) = bytesOf blob.1 i) {i : ℕ}
    (hi : i < blob.1.length) (hout : ∀ r ∈ relocs, i < r.toNat ∨ r.toNat + 4 ≤ i) :
    relocateMem addr relocrel relocs mem (addr + BitVec.ofNat 64 i) = bytesOf blob.1 i := by
  have hlt : i < 2 ^ 32 := hi.trans blob.2
  rw [relocateMem_apply_not_mem fun r hr => notMem_word hlt (hout r hr) _]
  exact hblob i hi

/-- A word that is relocated. -/
theorem word_relocateMem
    (hblob : ∀ i < blob.1.length, mem (addr + BitVec.ofNat 64 i) = bytesOf blob.1 i)
    (hdisj : WordsDisjoint relocs) {r : BitVec 32} (hr : r ∈ relocs)
    (hin : r.toNat + 4 ≤ blob.1.length) :
    wordAt (relocateMem addr relocrel relocs mem) (addr + r.setWidth 64) =
      blobWord blob r.toNat - relocrel := by
  obtain ⟨before, behind, hsplit, hapart⟩ := hdisj.split hr
  have hword : wordAt mem (addr + r.setWidth 64) = blobWord blob r.toNat := by
    refine word32_congr fun i hi => ?_
    rw [Nat.zero_add, ← ofNat_toNat_setWidth, BitVec.add_assoc, ← BitVec.ofNat_add]
    exact hblob _ (by omega)
  rw [hsplit, wordAt_relocateMem hapart, hword]

end Blob

/-! ## The server -/

/-- What an accepted message with a blob leaves in memory. -/
theorem blob_patchData (hb : (p.header (patchWrites p)).HasBlob)
    (hcode : (patchData img env (fromList (p.message fillPatchBuf4) beyond) s).ccode = sandboxOk) :
    ∃ mem, (patchData img env (fromList (p.message fillPatchBuf4) beyond) s).maps.mem =
        relocateMem (patchData img env (fromList (p.message fillPatchBuf4) beyond) s).pm.addr
          (((patchData img env (fromList (p.message fillPatchBuf4) beyond) s).pm.addr -
            (p.refabs + p.bias img)).setWidth 32) p.relocs.1 mem ∧
      ∀ i < p.blob.1.length,
        mem ((patchData img env (fromList (p.message fillPatchBuf4) beyond) s).pm.addr +
          BitVec.ofNat 64 i) = bytesOf p.blob.1 i := by
  have hload := @load_message4 p beyond
  obtain ⟨hstands, hrelocs⟩ := load_sections hb beyond
  generalize fromList (p.message fillPatchBuf4) beyond = arg at *
  have hbloblen : (XenlpApply4.load arg).bloblen.toNat = p.blob.1.length := by
    rw [hload, Patch.header, Blob.toNat_bloblen]
  have hrefabs : (XenlpApply4.load arg).refabs = p.refabs := congrArg XenlpApply4.refabs hload
  obtain ⟨mem, hmem, hblob⟩ := patchData_blob (hload ▸ hb) hcode
  rw [hrelocs, hrefabs, loadBias, hrefabs] at hmem
  refine ⟨mem, hmem, fun i hi => ?_⟩
  rw [hblob i (hbloblen ▸ hi), hstands i hi, bytesOf, fromList_lt hi]

/-- The relocations of an accepted message lie in the blob. -/
theorem relocs_inside (hge : 4 ≤ p.blob.1.length) (hb : (p.header (patchWrites p)).HasBlob)
    (hcode : (patchData img env (fromList (p.message fillPatchBuf4) beyond) s).ccode = sandboxOk)
    {r : BitVec 32} (hr : r ∈ p.relocs.1) : r.toNat + 4 ≤ p.blob.1.length := by
  have hload := @load_message4 p beyond
  obtain ⟨-, hrelocs⟩ := load_sections hb beyond
  have hok := (ccode_patchData_iff.mp hcode).2.1
  generalize fromList (p.message fillPatchBuf4) beyond = arg at *
  have hbloblen : (XenlpApply4.load arg).bloblen.toNat = p.blob.1.length := by
    rw [hload, Patch.header, Blob.toNat_bloblen]
  rw [← hrelocs, messageRelocs, ← performedRelocs_of_relocsOk hok] at hr
  rw [← hbloblen]
  exact (le_relocLimit_iff (hbloblen ▸ hge)).mp (le_relocLimit_of_mem_performedRelocs hr)

/-- The components of a state that is known as a whole. -/
theorem Sandbox.eq_mk {text : Mem 64} {list : List AppliedPatch} {maps : MapState}
    (h : s = ⟨text, list, maps⟩) : s.text = text ∧ s.lpPatchHead = list ∧ s.maps = maps := by
  subst h
  exact ⟨rfl, rfl, rfl⟩

/-- The record and the state behind an accepted message. -/
theorem exists_inserted {arg : ℕ → Byte} (hacc : Accepted env arg s)
    (hs' : s' = (xenlpApply4 img env arg s).sandbox) :
    ∃ ap, s'.lpPatchHead = ap :: s.lpPatchHead ∧ ap.sha1 = (XenlpApply4.load arg).sha1 ∧
      ap.map = (patchData img env arg s).pm ∧
      ap.writes = (swapTrampolines (patchData img env arg s).writes s.text).1 ∧
      s'.text = (swapTrampolines (patchData img env arg s).writes s.text).2 ∧
      s'.maps = (patchData img env arg s).maps := by
  have hout := hs'.trans (Outcome.eq_mk (xenlpApply4_of_accepted hacc)).2.1
  have hsha1 : (insertedPatch img env arg s).sha1 = (XenlpApply4.load arg).sha1 := by
    rw [insertedPatch, sha1_newPatch]
  have hmap : (insertedPatch img env arg s).map = (patchData img env arg s).pm := by
    rw [insertedPatch, map_newPatch]
  have hwrites : (insertedPatch img env arg s).writes =
      (swapTrampolines (patchData img env arg s).writes s.text).1 := by
    rw [insertedPatch, writes_newPatch]
  obtain ⟨htext, hlist, hmaps⟩ := Sandbox.eq_mk hout
  exact ⟨insertedPatch img env arg s, hlist, hsha1, hmap, hwrites, htext, hmaps⟩

/-- **A message with a regular patch and no dependencies** that is answered `SANDBOX_OK`. -/
theorem runsIn_of_message4 (hreg : p.Regular) (hdeps : p.deps.1 = [])
    (hcode : (xenlpApply4 img env (fromList (p.message fillPatchBuf4) beyond) s).ccode = sandboxOk)
    (hs' : s' = (xenlpApply4 img env (fromList (p.message fillPatchBuf4) beyond) s).sandbox) :
    ∃ ap, RunsIn img p ap s s' := by
  have hge := hreg.blob_ge
  have hb := @hasBlob_header p (patchWrites p) (by omega) hreg.blob_lt
  have hload := @load_message4 p beyond
  have hread := xenlpApply4_ccode_iff.mp hcode
  have hdata := ccode_patchData_iff.mpr hread.2
  have hjumping := jumping_patchData hb hdata
  have hinside := @relocs_inside img env p s beyond hge hb hdata
  obtain ⟨mem, hmem, hblob⟩ := blob_patchData hb hdata
  generalize fromList (p.message fillPatchBuf4) beyond = arg at *
  have hacc : Accepted env arg s := ⟨hread, by rw [hload]; exact numdeps_header_eq_zero.mpr hdeps⟩
  obtain ⟨ap, hlist, hsha1, hmap, hsaved, htext, hmaps⟩ := exists_inserted hacc hs'
  rw [hload] at hsha1
  rw [← hmap] at hjumping hmem hblob
  rw [← hmaps] at hmem
  generalize (patchData img env arg s).writes = writes at hjumping hsaved htext
  have hd := hjumping.writesDisjoint hreg.funcs
  refine ⟨ap, hlist, hsha1, fun func hfunc hfit => ?_, fun x hx => ?_, ?_, fun i hi hno => ?_,
    fun r hr x target href => ?_⟩
  · obtain ⟨pw, hpw, hjump⟩ := hjumping.exists_write hfunc
    rw [htext, ← hjump.hvabs, jumpTarget_swapTrampolines hd hpw]
    exact hjump.lands hfit s.text
  · rw [htext]
    refine swapTrampolines_text_of_not_mem fun pw hpw hin => ?_
    have hplace := List.mem_map_of_mem (f := XenlpPatchWrite.hvabs) hpw
    rw [hjumping.hvabs] at hplace
    obtain ⟨func, hfunc, heq⟩ := List.mem_map.mp hplace
    rw [XenlpPatchWrite.block, ← heq] at hin
    exact hx func hfunc hin
  · rw [htext, hsaved]
    exact swapTrampolines_restores hd s.text
  · rw [hmem]
    exact byte_relocateMem hblob hi hno
  · have hmoved := href.shift (p.bias img)
    have hplace : p.refabs + x + p.bias img = p.refabs + p.bias img + x := by ring
    rw [hplace] at hmoved
    rw [hmem, word_relocateMem hblob hreg.relocs hr (hinside hr)]
    exact hmoved.move (by decide) ap.map.addr

/-! ## The command -/

section Whole

variable {info : List Byte} {ok : Sandbox → Prop} {l : Link} {tr : List (ClientRequest ⊕ ℕ)}

/-- Nothing is resolved in a patch without dependencies. -/
theorem sent_of_no_deps (hdeps : p.deps.1 = []) (hrelocs3 : p.relocs3.1 = []) (s : Sandbox) :
    p.sent s = p := by
  have hresolved : (resolveDeps s p).1 = p.deps.1 :=
    (congrArg (List.map (resolveIn s)) hdeps).trans hdeps.symm
  have hblob : adjustBlob (resolveDeps s p).1 p.relocs3.1 p.blob = p.blob := by
    rw [hrelocs3]
    rfl
  have hcount : (p.relocs.count + p.relocs3.count).toNat = p.relocs.1.length := by
    have hzero : p.relocs3.count = 0 := BitVec.eq_of_toNat_eq (by
      rw [Counted.toNat_count, hrelocs3]
      rfl)
    rw [hzero, add_zero, Counted.toNat_count]
  have hrelocs : appendRelocs p.relocs p.relocs3 = p.relocs := by
    apply Subtype.ext
    rw [appendRelocs]
    dsimp only
    rw [hcount, hrelocs3, List.map_nil, List.append_nil, List.take_length]
  have hsent : ∀ (deps : Counted Dependency) (blob : Blob) (relocs : Counted (BitVec 32)),
      deps = p.deps → blob = p.blob → relocs = p.relocs →
        { p with deps := deps, blob := blob, relocs := relocs } = p := by
    rintro _ _ _ rfl rfl rfl
    rfl
  exact hsent _ _ _ (Subtype.ext hresolved) hblob hrelocs

/-- What the command has done when the patch is live in the end. -/
def LiveAfter (img : Image) (p : Patch) (s s' : Sandbox) : Prop :=
  Applied s p.sha1 ∧ s' = s ∨
    ¬Applied s p.sha1 ∧ p.deps.1 = [] ∧ p.relocs3.1 = [] ∧ ∃ ap, RunsIn img p ap s s'

/-- The first pass. -/
theorem safe_cmdApply4_runsIn (hreg : p.Regular) (hclean : l.Clean) :
    (cmdApply4 p).Safe (sandboxService img info) ok (fun _ _ => True)
      (fun r s' l' _ => ∀ p', r = some p' →
        FirstPass (fun s' => Applied s' p.sha1 → LiveAfter img p s s') p p' s' l') s l tr := by
  have hblob : p.blob.1.length < 2 ^ 31 := hreg.blob_lt.trans (by decide)
  have hlen := (length_message_lt (blob_lt_sent hblob s)).1
  refine safe_applyPatch hclean rfl hlen (fun _ => trivial) (fun _ _ _ _ _ => trivial)
    (fun _ _ _ _ _ => trivial) (fun _ _ _ _ h => by cases h)
    (fun l' hclean' _ happlied p' h => ?_)
    fun env beyond s' l' hsearched hcode hs' hindex _ hclean' _ p' h => ?_
  · obtain rfl := Option.some.inj h
    exact ⟨hclean', fun _ => .inl ⟨happlied, rfl⟩, rfl, hblob, fun _ => happlied⟩
  · obtain rfl := Option.some.inj h
    have hlive := list_of_message4 hcode hs'
    refine ⟨hclean', fun happlied => ?_, rfl, blob_lt_sent hblob s, hlive.1⟩
    by_cases hdeps : p.deps.1 = []
    · -- without dependencies no second-level relocation has an index
      have hrelocs3 : p.relocs3.1 = [] := List.eq_nil_iff_forall_not_mem.mpr fun r hr => by
        have hlt := hindex r hr
        rw [hdeps] at hlt
        exact Nat.not_lt_zero _ hlt
      rw [sent_of_no_deps hdeps hrelocs3] at hcode hs'
      exact .inr ⟨hsearched.new, hdeps, hrelocs3, runsIn_of_message4 hreg hdeps hcode hs'⟩
    · have hlist := hlive.2 fun hnil => hdeps (deps_adjusted_eq_nil.mp hnil)
      rw [Applied, hlist] at happlied
      exact absurd happlied hsearched.new

/-- The second pass changes nothing, or fails. -/
theorem safe_cmdApply3_same {p' : Patch} {Q : Sandbox → Prop} (h : FirstPass Q p p' s l) :
    (cmdApply3 p').Safe (sandboxService img info) ok (fun _ _ => True)
      (fun r s' _ _ => r ≠ none → s' = s ∧ Applied s p.sha1) s l tr := by
  rw [cmdApply3]
  split_ifs
  · exact fun hr => absurd rfl hr
  · have hlen := (length_message_lt (blob_lt_sent h.blob_lt s)).2
    refine safe_applyPatch h.clean rfl hlen (fun _ => trivial) (fun _ _ _ _ _ => trivial)
      (fun _ _ _ _ _ => trivial) (fun _ _ _ hr => absurd rfl hr)
      (fun l' _ _ happlied _ => ⟨rfl, h.sha1_eq ▸ happlied⟩)
      fun env beyond s' l' hsearched hcode _ _ _ _ _ _ => ?_
    have hdeps := deps_adjusted_eq_nil.mp (deps_of_message3 hcode)
    exact absurd (h.sha1_eq ▸ h.live hdeps) hsearched.new

/-- What the command has done when it returns 0. -/
theorem liveAfter_of_cmdApply (hash : List Byte → Bytes shaDigestLength)
    {filename f : List Byte} (hload : loadPatchFile hash filename f = some p) (hreg : p.Regular)
    (env : ℕ → SystemEnv img info) {l' : Link} (hclean : l.Clean)
    (hret : ((cmdApply hash filename (some f)).run (sandboxService img info) env s l).2 =
      some (0, s', l')) : LiveAfter img p s s' := by
  have hsafe : (cmdApply hash filename (some f)).Safe (sandboxService img info)
      (fun _ => True) (fun _ _ => True) (fun b s' _ _ => b = 0 → LiveAfter img p s s') s l [] := by
    refine safe_cmdApply hload hclean (fun _ => trivial) (fun _ _ _ _ hb h => absurd h hb)
      fun l' n hclean' _ _ => ?_
    refine safe_applyWithCaps (fun _ _ _ _ hb h => absurd h hb)
      (safe_cmdApply4_runsIn hreg hclean') fun p' s' l' tr' hmid => ?_
    refine (safe_cmdApply3_same hmid).mono fun r s'' l'' tr'' hr hne _ => ?_
    obtain ⟨rfl, happlied⟩ := hr hne
    exact hmid.kept happlied
  exact (hsafe.run (fun _ => trivial) trivial env).2 0 s' l' hret rfl

/-- **When the command returns 0** on a file with a regular patch, the patch was live and nothing
has changed, or it depends on no other one and runs in the program from now on. -/
theorem cmdApply_runsIn (hash : List Byte → Bytes shaDigestLength) (filename f : List Byte)
    (p : Patch) (hload : loadPatchFile hash filename f = some p) (hreg : p.Regular)
    (info : List Byte) (env : ℕ → SystemEnv img info) (s s' : Sandbox) (l l' : Link)
    (hclean : l.Clean)
    (hret : ((cmdApply hash filename (some f)).run (sandboxService img info) env s l).2 =
      some (0, s', l')) : LiveAfter img p s s' :=
  liveAfter_of_cmdApply hash hload hreg env hclean hret

theorem regular_storedPatch (hash : List Byte → Bytes shaDigestLength) :
    (storedPatch.loaded hash).Regular where
  blob_ge := show 4 ≤ storedPatch.blob.1.length by decide
  blob_lt := show storedPatch.blob.1.length < maxPatchSize by decide
  funcs := List.pairwise_singleton _ _
  relocs := show WordsDisjoint storedPatch.relocs.1 by decide

theorem cmdApply_runsIn_storedPatch :
    let hash : List Byte → Bytes shaDigestLength := fun l _ => l.headD 0
    let s := Sandbox.init (fun _ => 0) fun _ => 0
    ∃ s' l', ((cmdApply hash [] (some (storedPatch.encode hash))).run
        (sandboxService sampleImage sampleInfo) (fun _ => sampleSystemEnv) s Link.fresh).2 =
          some (0, s', l') ∧
      ¬Applied s (storedPatch.loaded hash).sha1 ∧
        LiveAfter sampleImage (storedPatch.loaded hash) s s' := by
  intro hash s
  have hload := @loadPatchFile_of_encode hash [] storedPatch (.inr (.inl rfl))
    ⟨by decide, by decide⟩
  have hcode : ((cmdApply hash [] (some (storedPatch.encode hash))).run
      (sandboxService sampleImage sampleInfo) (fun _ => sampleSystemEnv) s Link.fresh).2.map
        Prod.fst = some 0 := by
    rw [cmdApply_of_load hload]
    decide +kernel
  obtain ⟨⟨b, s', l'⟩, hrun, hb⟩ := Option.map_eq_some_iff.mp hcode
  obtain rfl : b = 0 := hb
  exact ⟨s', l', hrun, fun ⟨_, hap, _⟩ => List.not_mem_nil hap,
    cmdApply_runsIn hash [] _ _ hload (regular_storedPatch hash) sampleInfo _ s s' _ l'
      Link.clean_fresh hrun⟩

/-! ## And back -/

/-- The patch on top is the one that is taken out. -/
theorem RunsIn.takenOut {ap : AppliedPatch} {s₁ s₂ : Sandbox} (h : RunsIn img p ap s s₁)
    (htaken : TakenOut p.sha1 s₁ s₂) : s₂.text = s.text ∧ s₂.lpPatchHead = s.lpPatchHead := by
  obtain ⟨newer, ap', older, hlist, -, hnewer, rfl⟩ := htaken
  rw [h.list] at hlist
  cases newer with
  | nil =>
      obtain ⟨rfl, rfl⟩ := List.cons.inj hlist
      exact ⟨h.restores, rfl⟩
  | cons p' newer =>
      obtain ⟨rfl, -⟩ := List.cons.inj hlist
      exact absurd h.sha1 (hnewer _ List.mem_cons_self)

/-- **Both commands.** A client applies the patch of a file; then another one takes it out, by the
text of its hash. When both commands return 0, text and list are what they were. -/
theorem cmdUndo_cmdApply (hash : List Byte → Bytes shaDigestLength) (filename f : List Byte)
    (p : Patch) (hload : loadPatchFile hash filename f = some p) (hreg : p.Regular)
    (info : List Byte) (env env' : ℕ → SystemEnv img info) (behind rest : List Byte)
    (s s₁ s₂ : Sandbox) (l l₁ l' l₂ : Link) (hclean : l.Clean) (hclean' : l'.Clean)
    (hnew : ¬Applied s p.sha1)
    (happly : ((cmdApply hash filename (some f)).run (sandboxService img info) env s l).2 =
      some (0, s₁, l₁))
    (hundo : ((cmdUndo behind (hexText p.sha1.toList ++ 0 :: rest)).run (sandboxService img info)
      env' s₁ l').2 = some (0, s₂, l₂)) :
    s₂.text = s.text ∧ s₂.lpPatchHead = s.lpPatchHead := by
  obtain ⟨happlied, -⟩ | ⟨-, -, -, ap, hruns⟩ :=
    liveAfter_of_cmdApply hash hload hreg env hclean happly
  · exact absurd happlied hnew
  · obtain ⟨-, htaken⟩ | ⟨hret, -⟩ := takenOut_of_cmdUndo env' behind rest hclean' hundo
    · exact hruns.takenOut htaken
    · exact absurd hret (by decide)

theorem cmdUndo_cmdApply_storedPatch :
    let hash : List Byte → Bytes shaDigestLength := fun l _ => l.headD 0
    let p := storedPatch.loaded hash
    let s := Sandbox.init (fun _ => 0) fun _ => 0
    ∃ s₁ l₁ s₂ l₂, ((cmdApply hash [] (some (storedPatch.encode hash))).run
        (sandboxService sampleImage sampleInfo) (fun _ => sampleSystemEnv) s Link.fresh).2 =
          some (0, s₁, l₁) ∧
      ((cmdUndo [] (hexText p.sha1.toList ++ 0 :: [])).run (sandboxService sampleImage sampleInfo)
        (fun _ => sampleSystemEnv) s₁ Link.fresh).2 = some (0, s₂, l₂) ∧
        s₂.text = s.text ∧ s₂.lpPatchHead = s.lpPatchHead := by
  intro hash p s
  have hload : loadPatchFile hash [] (storedPatch.encode hash) = some p :=
    loadPatchFile_of_encode hash (.inr (.inl rfl)) ⟨by decide, by decide⟩
  have hcode : ((cmdApply hash [] (some (storedPatch.encode hash))).run
      (sandboxService sampleImage sampleInfo) (fun _ => sampleSystemEnv) s Link.fresh).2.bind
        (fun r => ((cmdUndo [] (hexText p.sha1.toList ++ 0 :: [])).run
          (sandboxService sampleImage sampleInfo) (fun _ => sampleSystemEnv) r.2.1
            Link.fresh).2.map fun r' => (r.1, r'.1)) = some (0, 0) := by
    rw [cmdApply_of_load hload]
    decide +kernel
  obtain ⟨⟨b, s₁, l₁⟩, happly, hrest⟩ := Option.bind_eq_some_iff.mp hcode
  obtain ⟨⟨b', s₂, l₂⟩, hundo, hret⟩ := Option.map_eq_some_iff.mp hrest
  obtain ⟨hb, hb'⟩ := Prod.mk.inj hret
  obtain rfl : b = 0 := hb
  obtain rfl : b' = 0 := hb'
  exact ⟨s₁, l₁, s₂, l₂, happly, hundo,
    cmdUndo_cmdApply hash [] _ p hload (regular_storedPatch hash) sampleInfo _ _ [] [] s s₁ s₂ _ l₁
      _ l₂ Link.clean_fresh Link.clean_fresh (fun ⟨_, hap, _⟩ => List.not_mem_nil hap) happly
      hundo⟩

end Whole

end Patchbox
