import Patchbox.Undo
import Patchbox.Lib.Runs

/-!
# Runs of requests and the pages they hold

A server takes APPLY and undo requests in any order, accepted or not. Between two
requests every live blob lies above the program and below the mark of the
allocator, and no two of them meet. The pages that are mapped should be those of
the live blobs. They are, as long as no blob is released whose length is a whole
number of pages: such a blob is mapped with one page more than is unmapped.

## Main definitions

* `Request`, `Sandbox.step` — one request, and the state after it.
* `Sandbox.Inv` — where the live blobs lie.
* `WholePages` — the requests that release a blob of whole pages.
* `mapped_eq_live` — the pages held along a run.
-/

namespace Patchbox
open Lib

variable {img : Image}

/-- A request as the library sees it: the message, and for APPLY the system's answers. -/
inductive Request (img : Image) where
  | apply (env : ApplyEnv img) (arg : ℕ → Byte)
  | undo (arg : ℕ → Byte)

/-- Serve one request. -/
def Request.serve (s : Sandbox) : Request img → Outcome
  | .apply env arg => xenlpApply4 img env arg s
  | .undo arg => xenlpUndo4 arg s

/-- The state after one request. -/
def Sandbox.step (s : Sandbox) (r : Request img) : Sandbox := (r.serve s).sandbox

theorem step_apply (s : Sandbox) (env : ApplyEnv img) (arg : ℕ → Byte) :
    s.step (.apply env arg) = (xenlpApply4 img env arg s).sandbox := by
  rw [Sandbox.step, Request.serve]

theorem step_undo (s : Sandbox) (arg : ℕ → Byte) :
    s.step (Request.undo arg : Request img) = (xenlpUndo4 arg s).sandbox := by
  rw [Sandbox.step, Request.serve]

/-! ## Where the blobs lie -/

/-- The mapping of the blob; a patch without one has none. -/
def PatchMap.blobRange (pm : PatchMap) : Set ℕ := if pm.size = 0 then ∅ else pm.range

/-- The pages of the mapping. -/
def PatchMap.pages (pm : PatchMap) : Finset ℕ :=
  if pm.size = 0 then ∅ else pagesOf pm.addr.toNat (mappedLen pm.size).toNat

/-- One mapping ends before the other starts. -/
def PatchMap.Apart (pm pm' : PatchMap) : Prop :=
  pm.stop ≤ pm'.addr.toNat ∨ pm'.stop ≤ pm.addr.toNat

theorem PatchMap.Apart.symm {pm pm' : PatchMap} (h : pm.Apart pm') : pm'.Apart pm := Or.symm h

/-- A mapping that was handed out: aligned, above the program, below the allocator's mark. -/
structure MapState.Placed (img : Image) (m : MapState) (pm : PatchMap) : Prop where
  sampled : m.last.addr ≠ 0
  pos : pm.addr ≠ 0
  above_text : img.end_.toNat ≤ pm.addr.toNat
  aligned : pm.addr.toNat % pageSize = 0
  size_lt : pm.size.toNat < maxPatchSize
  stop_le : pm.stop ≤ m.last.stop

/-- The invariant of the allocator, and where it stands with respect to the program. -/
structure MapState.Above (img : Image) (m : MapState) : Prop where
  wf : m.WF
  above_text : m.last.addr ≠ 0 → img.end_.toNat ≤ m.last.addr.toNat

theorem MapState.above_init (mem : Mem 64) : (MapState.init mem).Above img where
  wf := MapState.wf_init mem
  above_text := fun h => absurd rfl h

/-- Memory may change and pages may go. -/
theorem MapState.Above.forget {m : MapState} (h : m.Above img) (mem : Mem 64) {pages : Finset ℕ}
    (hp : pages ⊆ m.mapped) : ({ m with mem := mem, mapped := pages } : MapState).Above img where
  wf := ⟨h.wf.aligned, h.wf.size_lt, h.wf.stop_le, fun p hm => h.wf.pages_lt p (hp hm),
    fun h0 => ⟨(h.wf.fresh h0).1, Finset.subset_empty.mp ((h.wf.fresh h0).2 ▸ hp)⟩⟩
  above_text := h.above_text

theorem MapState.Placed.congr {m m' : MapState} {pm : PatchMap} (h : m.Placed img pm)
    (hlast : m'.last = m.last) : m'.Placed img pm :=
  ⟨hlast ▸ h.sampled, h.pos, h.above_text, h.aligned, h.size_lt, hlast ▸ h.stop_le⟩

theorem MapState.Placed.forget {m : MapState} {pm : PatchMap} (h : m.Placed img pm)
    (mem : Mem 64) (pages : Finset ℕ) :
    ({ m with mem := mem, mapped := pages } : MapState).Placed img pm := h.congr rfl

theorem MapState.Above.sample {m : MapState} (h : m.Above img) (env : MapEnv img) :
    (m.sample img env).Above img where
  wf := h.wf.sample env
  above_text := by
    by_cases h0 : m.last.addr = 0
    · rw [MapState.sample_last_of_eq env h0]
      intro hne
      cases hm : heapEntry env.procmaps with
      | none => simp [findSandboxStart, hm] at hne
      | some iter =>
          have habove := iter.heap_above (heapTag_of_heapEntry hm)
          rw [toNat_findSandboxStart hm]
          omega
    · rw [MapState.sample_last_of_ne env h0]
      exact h.above_text

theorem MapState.Placed.sample {m : MapState} {pm : PatchMap} (h : m.Placed img pm)
    (env : MapEnv img) : (m.sample img env).Placed img pm :=
  h.congr (MapState.sample_last_of_ne env h.sampled)

/-- What a successful mapping does to the allocator. -/
structure Extends (img : Image) (m m' : MapState) (pm : PatchMap) : Prop where
  above : m'.Above img
  placed : m'.Placed img pm
  start : m.last.addr ≠ 0 → m.last.stop ≤ pm.addr.toNat
  fresh : ∀ n ∈ m.mapped, n * pageSize < pm.addr.toNat
  keeps : ∀ {old}, m.Placed img old → m'.Placed img old

theorem MapState.Above.extend {m : MapState} (h : m.Above img) {env : MapEnv img}
    {size : BitVec 64} (hsize : size.toNat < maxPatchSize) (hm : Mappable img env m size) :
    Extends img m (m.extend img env size)
      ⟨(nextMap (m.sample img env).last size).addr, size⟩ := by
  have hs := h.sample env
  have haddr : (nextMap (m.sample img env).last size).addr.toNat = (m.sample img env).last.stop :=
    hs.wf.toNat_nextMap size
  have hle : (m.sample img env).last.addr.toNat ≤ (m.sample img env).last.stop := by
    rw [PatchMap.stop]
    omega
  have htext := hs.above_text hm.1
  have hne : (nextMap (m.sample img env).last size).addr ≠ 0 := by
    intro hz
    have hpos := hs.wf.stop_pos
    rw [hz] at haddr
    exact hpos.ne haddr
  have hwf := h.wf.extend hsize hm
  refine ⟨⟨hwf, fun _ => ?_⟩, ⟨hne, hne, ?_, hwf.aligned, hsize, le_refl _⟩, fun h0 => ?_,
    fun n hn => ?_, fun hold => ?_⟩
  · change img.end_.toNat ≤ (nextMap (m.sample img env).last size).addr.toNat
    omega
  · change img.end_.toNat ≤ (nextMap (m.sample img env).last size).addr.toNat
    omega
  · change m.last.stop ≤ (nextMap (m.sample img env).last size).addr.toNat
    rw [haddr, MapState.sample_last_of_ne env h0]
  · change _ < (nextMap (m.sample img env).last size).addr.toNat
    rw [haddr]
    exact hs.wf.pages_lt n hn
  · refine ⟨hne, hold.pos, hold.above_text, hold.aligned, hold.size_lt, ?_⟩
    have hstop := (hold.sample env).stop_le
    change _ ≤ (nextMap (m.sample img env).last size).addr.toNat + _
    omega

/-- The new mapping is apart from every older one. -/
theorem Extends.apart {m m' : MapState} {pm old : PatchMap} (h : Extends img m m' pm)
    (hold : m.Placed img old) : pm.Apart old :=
  .inr (hold.stop_le.trans (h.start hold.sampled))

/-! ## The invariant of the server -/

/-- The live blobs lie where the allocator put them, apart from each other. -/
structure Sandbox.Inv (img : Image) (s : Sandbox) : Prop where
  above : s.maps.Above img
  placed : ∀ p ∈ s.lpPatchHead, p.map.size ≠ 0 → s.maps.Placed img p.map
  apart : s.lpPatchHead.Pairwise fun p q =>
    p.map.size ≠ 0 → q.map.size ≠ 0 → p.map.Apart q.map

theorem Sandbox.inv_init (text mem : Mem 64) : (Sandbox.init text mem).Inv img where
  above := MapState.above_init mem
  placed := by simp [Sandbox.init]
  apart := List.Pairwise.nil

/-- The allocator once the blob of a message is mapped. -/
theorem MapState.Above.blobMaps {m : MapState} (h : m.Above img) {env : MapEnv img}
    {apply : XenlpApply4} (hblob : BlobOk env apply m) :
    (blobMaps img env apply m).Above img ∧
      (∀ {old}, m.Placed img old → (blobMaps img env apply m).Placed img old) ∧
      ((blobMap img env apply m).size ≠ 0 →
        Extends img m (blobMaps img env apply m) (blobMap img env apply m)) := by
  by_cases hb : apply.HasBlob
  · have hsize : (apply.bloblen.setWidth 64).toNat < maxPatchSize := by
      rw [toNat_bloblen]
      exact hb.2
    have hext := h.extend hsize (hblob hb)
    simp only [Patchbox.blobMaps, blobMap, if_pos hb]
    exact ⟨hext.above, hext.keeps, fun _ => hext⟩
  · simp only [Patchbox.blobMaps, blobMap, if_neg hb]
    exact ⟨h, id, fun hne => absurd rfl hne⟩

/-- What a request does. A refused one may set the statics, or map a blob and release it; an
accepted one exchanges its writes and keeps its blob, or takes an entry out. -/
inductive Served (img : Image) (s : Sandbox) : Request img → Sandbox → Prop where
  | refused {r : Request img} : Served img s r s
  | sampled (env : ApplyEnv img) (arg : ℕ → Byte) {maps : MapState} :
      ¬Accepted env arg s →
      maps = s.maps.sample img env.toMapEnv →
      Served img s (.apply env arg) { s with maps := maps }
  | released (env : ApplyEnv img) (arg : ℕ → Byte) (mem : Mem 64) {maps : MapState} :
      Received env arg → ¬Accepted env arg s →
      BlobOk env.toMapEnv (XenlpApply4.load arg) s.maps →
      maps =
        { blobMaps img env.toMapEnv (XenlpApply4.load arg) s.maps with
          mem := mem
          mapped := (blobMaps img env.toMapEnv (XenlpApply4.load arg) s.maps).mapped \
            (blobMap img env.toMapEnv (XenlpApply4.load arg) s.maps).released } →
      Served img s (.apply env arg) { s with maps := maps }
  | applied (env : ApplyEnv img) (arg : ℕ → Byte) (mem : Mem 64) {writes : List XenlpPatchWrite}
      {patch : AppliedPatch} {maps : MapState} :
      Accepted env arg s →
      writes = (patchData img env arg s).writes →
      patch = insertedPatch img env arg s →
      maps = { blobMaps img env.toMapEnv (XenlpApply4.load arg) s.maps with mem := mem } →
      Served img s (.apply env arg)
        ⟨(swapTrampolines writes s.text).2, patch :: s.lpPatchHead, maps⟩
  | undone (arg : ℕ → Byte) {newer older : List AppliedPatch} {ap : AppliedPatch}
      {maps : MapState} :
      undoTarget arg s = some (newer, ap, older) →
      maps = { s.maps with mapped := s.maps.mapped \ ap.map.released } →
      Served img s (.undo arg) ⟨(swapTrampolines ap.writes s.text).2, newer ++ older, maps⟩

theorem Served.of_eq {s s' t : Sandbox} {r : Request img} (h : Served img s r t) (heq : s' = t) :
    Served img s r s' := heq ▸ h

/-- Every request is one of these. -/
theorem served (s : Sandbox) (r : Request img) : Served img s r (s.step r) := by
  cases r with
  | apply env arg =>
      rw [step_apply]
      by_cases h : Accepted env arg s
      · obtain ⟨-, mem, hmaps⟩ := patchData_of_accepted h
        have heq := (Outcome.eq_mk (xenlpApply4_of_accepted h)).2.1
        exact (Served.applied env arg mem h rfl rfl hmaps).of_eq heq
      · obtain ⟨ccode, maps, log, heq⟩ := xenlpApply4_of_not_accepted h
        have hmaps := maps_of_not_accepted h
        rw [Outcome.maps_eq heq] at hmaps
        rw [(Outcome.eq_mk heq).2.1]
        rcases hmaps with hmaps | hmaps | ⟨hr, hblob, hmaps⟩
        · rw [hmaps]
          exact .refused
        · exact .sampled env arg h hmaps
        · exact .released env arg _ hr h hblob hmaps
  | undo arg =>
      rw [step_undo]
      cases h : undoTarget arg s with
      | some t =>
          obtain ⟨newer, ap, older⟩ := t
          exact (Served.undone arg h rfl).of_eq (Outcome.eq_mk (xenlpUndo4_of_some h)).2.1
      | none =>
          obtain ⟨ccode, -, heq⟩ := xenlpUndo4_of_none h
          rw [(Outcome.eq_mk heq).2.1]
          exact .refused

/-- A request moves the allocator upward only: what was handed out stays below its mark. -/
theorem Served.maps {s s' : Sandbox} {r : Request img} (hserved : Served img s r s')
    (h : s.maps.Above img) :
    s'.maps.Above img ∧ ∀ pm, s.maps.Placed img pm → s'.maps.Placed img pm := by
  cases hserved with
  | refused => exact ⟨h, fun _ hp => hp⟩
  | @sampled env arg maps hacc hmaps =>
      have habove : maps.Above img := hmaps ▸ h.sample _
      exact ⟨habove, fun pm hp => hmaps ▸ hp.sample _⟩
  | @released env arg mem maps hr hacc hblob hmaps =>
      obtain ⟨hblobs, hkept, -⟩ := h.blobMaps hblob
      have habove : maps.Above img := hmaps ▸ hblobs.forget mem Finset.sdiff_subset
      exact ⟨habove, fun pm hp => hmaps ▸ (hkept hp).forget mem _⟩
  | @applied env arg mem writes patch maps hacc hwrites hpatch hmaps =>
      obtain ⟨hblobs, hkept, -⟩ := h.blobMaps hacc.1.2.1
      have habove : maps.Above img := hmaps ▸ hblobs.forget mem (Finset.Subset.refl _)
      exact ⟨habove, fun pm hp => hmaps ▸ (hkept hp).forget mem _⟩
  | @undone arg newer older ap maps hundo hmaps =>
      have habove : maps.Above img := hmaps ▸ h.forget _ Finset.sdiff_subset
      exact ⟨habove, fun pm hp => hmaps ▸ hp.forget _ _⟩

/-- The blob of an accepted message is apart from all that was handed out before. -/
theorem Accepted.apart {s : Sandbox} (h : s.maps.Above img) {env : ApplyEnv img}
    {arg : ℕ → Byte} (hacc : Accepted env arg s)
    (hne : (insertedPatch img env arg s).map.size ≠ 0) :
    (∀ pm, s.maps.Placed img pm → (insertedPatch img env arg s).map.Apart pm) ∧
      (blobMaps img env.toMapEnv (XenlpApply4.load arg) s.maps).Placed img
        (insertedPatch img env arg s).map := by
  obtain ⟨-, -, hnew⟩ := h.blobMaps hacc.1.2.1
  rw [map_insertedPatch hacc] at hne ⊢
  exact ⟨fun pm hp => (hnew hne).apart hp, (hnew hne).placed⟩

/-- **Every request keeps the invariant.** -/
theorem Sandbox.Inv.step {s : Sandbox} (h : s.Inv img) (r : Request img) : (s.step r).Inv img := by
  have hserved := served s r
  generalize s.step r = s' at hserved
  obtain ⟨habove, hkeeps⟩ := hserved.maps h.above
  cases hserved with
  | refused => exact h
  | sampled => exact ⟨habove, fun p hp hne => hkeeps _ (h.placed p hp hne), h.apart⟩
  | released => exact ⟨habove, fun p hp hne => hkeeps _ (h.placed p hp hne), h.apart⟩
  | @applied env arg mem writes patch maps hacc hwrites hpatch hmaps =>
      subst hpatch
      refine ⟨habove, fun p hp hne => ?_, List.pairwise_cons.mpr ⟨?_, h.apart⟩⟩
      · rcases List.mem_cons.mp hp with rfl | hp
        · exact hmaps ▸ (hacc.apart h.above hne).2.forget mem _
        · exact hkeeps _ (h.placed p hp hne)
      · exact fun q hq hne hneq => (hacc.apart h.above hne).1 _ (h.placed q hq hneq)
  | @undone arg newer older ap maps hundo hmaps =>
      have hsub : (newer ++ older).Sublist s.lpPatchHead := by
        rw [list_of_undoTarget hundo]
        exact (List.sublist_cons_self _ _).append_left _
      exact ⟨habove, fun p hp hne => hkeeps _ (h.placed p (hsub.subset hp) hne),
        h.apart.sublist hsub⟩

/-! ## The pages that are held -/

/-- The pages of an aligned mapping, in bytes. -/
theorem PatchMap.mem_pages {pm : PatchMap} (hal : pm.addr.toNat % pageSize = 0)
    (hlt : pm.size.toNat < maxPatchSize) (hne : pm.size ≠ 0) {n : ℕ} :
    n ∈ pm.pages ↔ pm.addr.toNat ≤ n * pageSize ∧ n * pageSize < pm.stop := by
  have hlen := toNat_mappedLen hlt
  rw [PatchMap.pages, if_neg hne, pagesOf, Finset.mem_Ico, PatchMap.stop]
  simp only [pageSize] at hal hlen ⊢
  omega

/-- Mappings that are apart share no page. -/
theorem MapState.Placed.disjoint_pages {m : MapState} {pm pm' : PatchMap}
    (h : m.Placed img pm) (h' : m.Placed img pm') (hne : pm.size ≠ 0) (hne' : pm'.size ≠ 0)
    (hapart : pm.Apart pm') {n : ℕ} (hn : n ∈ pm.pages) : n ∉ pm'.pages := by
  intro hn'
  rw [PatchMap.mem_pages h.aligned h.size_lt hne] at hn
  rw [PatchMap.mem_pages h'.aligned h'.size_lt hne'] at hn'
  rcases hapart with hle | hle <;> omega

/-- What is unmapped is what was mapped, unless the blob fills its last page. -/
theorem MapState.Placed.released_eq {m : MapState} {pm : PatchMap} (h : m.Placed img pm)
    (hpart : pm.size.toNat % pageSize ≠ 0) : pm.released = pm.pages := by
  have hne : pm.size ≠ 0 := by
    rintro hz
    rw [hz] at hpart
    exact hpart rfl
  have hlen := toNat_mappedLen h.size_lt
  rw [PatchMap.released, if_pos ⟨h.pos, h.aligned, hne⟩, PatchMap.pages, if_neg hne]
  simp only [pagesOf, hlen]
  congr 1
  have hal := h.aligned
  simp only [pageSize] at hal hpart ⊢
  omega

/-- The mapped pages are those of the live blobs. -/
def PagesExact (s : Sandbox) : Prop :=
  ∀ n, n ∈ s.maps.mapped ↔ ∃ p ∈ s.lpPatchHead, n ∈ p.map.pages

theorem pagesExact_init (text mem : Mem 64) : PagesExact (Sandbox.init text mem) := by
  simp [PagesExact, Sandbox.init, MapState.init]

/-- The request releases a blob whose length is a whole number of pages: an APPLY message that
is refused after its blob was mapped, or an undo. -/
def WholePages (s : Sandbox) : Request img → Prop
  | .apply env arg =>
      Received env arg ∧ ¬Accepted env arg s ∧
        BlobOk env.toMapEnv (XenlpApply4.load arg) s.maps ∧
        (XenlpApply4.load arg).HasBlob ∧ (XenlpApply4.load arg).bloblen.toNat % pageSize = 0
  | .undo arg => ∃ t ∈ undoTarget arg s, t.2.1.map.size ≠ 0 ∧ t.2.1.map.size.toNat % pageSize = 0

instance (s : Sandbox) (r : Request img) : Decidable (WholePages s r) :=
  match r with
  | .apply _ _ => inferInstanceAs (Decidable (_ ∧ _ ∧ _ ∧ _ ∧ _))
  | .undo _ => inferInstanceAs (Decidable (∃ t ∈ _, _))

theorem pages_of_size_zero {pm : PatchMap} (h : pm.size = 0) : pm.pages = ∅ := if_pos h

/-- The blob of a message adds its pages, all of them new. -/
theorem MapState.Above.mapped_blobMaps {m : MapState} (h : m.Above img) {env : MapEnv img}
    {apply : XenlpApply4} (hblob : BlobOk env apply m) :
    (Patchbox.blobMaps img env apply m).mapped = m.mapped ∪ (blobMap img env apply m).pages ∧
      ∀ n ∈ m.mapped, n ∉ (blobMap img env apply m).pages := by
  by_cases hb : apply.HasBlob
  · have hne : apply.bloblen.setWidth 64 ≠ 0 := by
      intro hz
      have hnat := toNat_bloblen apply
      rw [hz] at hnat
      exact hb.1 (BitVec.eq_of_toNat_eq hnat.symm)
    obtain ⟨-, -, hnew⟩ := h.blobMaps hblob
    simp only [Patchbox.blobMaps, blobMap, if_pos hb] at hnew ⊢
    have hplaced := (hnew hne).placed
    refine ⟨?_, fun n hn hn' => ?_⟩
    · rw [PatchMap.pages, if_neg hne]
      rfl
    · rw [PatchMap.mem_pages hplaced.aligned hplaced.size_lt hne] at hn'
      exact absurd hn'.1 (Nat.not_le.mpr ((hnew hne).fresh n hn))
  · simp only [Patchbox.blobMaps, blobMap, if_neg hb, pages_of_size_zero, Finset.union_empty,
      true_and]
    exact fun n _ => Finset.notMem_empty n

/-- Releasing that blob gives the old pages back, when its last page is not full. -/
theorem MapState.Above.sdiff_released {m : MapState} (h : m.Above img) {env : MapEnv img}
    {apply : XenlpApply4} (hblob : BlobOk env apply m)
    (hpart : ¬(apply.HasBlob ∧ apply.bloblen.toNat % pageSize = 0)) :
    (Patchbox.blobMaps img env apply m).mapped \ (blobMap img env apply m).released
      = m.mapped := by
  obtain ⟨hmapped, hnew⟩ := h.mapped_blobMaps hblob
  by_cases hb : apply.HasBlob
  · obtain ⟨-, -, hext⟩ := h.blobMaps hblob
    have hsize : (blobMap img env apply m).size = apply.bloblen.setWidth 64 := by
      rw [blobMap, if_pos hb]
    have hrem : (blobMap img env apply m).size.toNat % pageSize ≠ 0 := by
      rw [hsize, toNat_bloblen]
      exact fun hz => hpart ⟨hb, hz⟩
    have hne : (blobMap img env apply m).size ≠ 0 := by
      intro hz
      rw [hz] at hrem
      exact hrem rfl
    rw [(hext hne).placed.released_eq hrem, hmapped]
    ext n
    have hdisjoint := hnew n
    simp only [Finset.mem_sdiff, Finset.mem_union]
    tauto
  · have hmap : blobMap img env apply m = ⟨0, 0⟩ := if_neg hb
    rw [hmap] at hmapped ⊢
    rw [hmapped, released_eq_empty (.inl rfl), pages_of_size_zero rfl, Finset.union_empty,
      Finset.sdiff_empty]

/-- An entry that is taken out is apart from those that stay. -/
theorem Sandbox.Inv.apart_undone {s : Sandbox} (h : s.Inv img)
    {newer older : List AppliedPatch} {ap : AppliedPatch}
    (hlist : s.lpPatchHead = newer ++ ap :: older) {p : AppliedPatch} (hp : p ∈ newer ++ older)
    (hne : p.map.size ≠ 0) (hap : ap.map.size ≠ 0) : p.map.Apart ap.map := by
  have hpair := h.apart
  rw [hlist, List.pairwise_append, List.pairwise_cons] at hpair
  obtain ⟨-, ⟨hafter, -⟩, hbefore⟩ := hpair
  rcases List.mem_append.mp hp with hp | hp
  · exact hbefore p hp ap (by simp) hne hap
  · exact (hafter p hp hap hne).symm

/-- It shares no page with them. -/
theorem Sandbox.Inv.disjoint_undone {s : Sandbox} (h : s.Inv img) {arg : ℕ → Byte}
    {newer older : List AppliedPatch} {ap : AppliedPatch}
    (hundo : undoTarget arg s = some (newer, ap, older)) {p : AppliedPatch}
    (hp : p ∈ newer ++ older) {n : ℕ} (hn : n ∈ p.map.pages) : n ∉ ap.map.pages := by
  by_cases hne : p.map.size = 0
  · rw [pages_of_size_zero hne] at hn
    exact absurd hn (Finset.notMem_empty n)
  by_cases hap : ap.map.size = 0
  · rw [pages_of_size_zero hap]
    exact Finset.notMem_empty n
  have hplaced := h.placed p ((mem_list_of_undoTarget hundo).mpr (.inr hp)) hne
  have hplaced' := h.placed ap ((mem_list_of_undoTarget hundo).mpr (.inl rfl)) hap
  exact hplaced.disjoint_pages hplaced' hne hap
    (h.apart_undone (list_of_undoTarget hundo) hp hne hap) hn

/-- **A request keeps the pages exact** unless it releases whole pages. -/
theorem PagesExact.step {s : Sandbox} (h : s.Inv img) (hp : PagesExact s) {r : Request img}
    (hr : ¬WholePages s r) : PagesExact (s.step r) := by
  have hserved := served s r
  generalize s.step r = s' at hserved
  cases hserved with
  | refused => exact hp
  | @sampled env arg maps hacc hmaps =>
      have hmapped : maps.mapped = s.maps.mapped := by
        rw [hmaps, MapState.sample, MapState.mapped_mk]
      intro n
      rw [hmapped]
      exact hp n
  | @released env arg mem maps hrec hacc hblob hmaps =>
      have hpart : ¬((XenlpApply4.load arg).HasBlob ∧
          (XenlpApply4.load arg).bloblen.toNat % pageSize = 0) :=
        fun hwhole => hr ⟨hrec, hacc, hblob, hwhole⟩
      have hmapped : maps.mapped = s.maps.mapped := by
        rw [hmaps, MapState.mapped_mk]
        exact h.above.sdiff_released hblob hpart
      intro n
      rw [hmapped]
      exact hp n
  | @applied env arg mem writes patch maps hacc hwrites hpatch hmaps =>
      have hmap : patch.map = _ := hpatch ▸ map_insertedPatch hacc
      have hmapped : maps.mapped = s.maps.mapped ∪ patch.map.pages := by
        rw [hmaps, MapState.mapped_mk, hmap]
        exact (h.above.mapped_blobMaps hacc.1.2.1).1
      intro n
      rw [hmapped, Finset.mem_union, hp n, List.exists_mem_cons_iff, or_comm]
  | @undone arg newer older ap maps hundo hmaps =>
      have hmapped : maps.mapped = s.maps.mapped \ ap.map.pages := by
        have hreleased : ap.map.released = ap.map.pages := by
          by_cases hne : ap.map.size = 0
          · rw [pages_of_size_zero hne, released_eq_empty (.inr (.inr hne))]
          · have hmem : ap ∈ s.lpPatchHead := (mem_list_of_undoTarget hundo).mpr (.inl rfl)
            exact (h.placed ap hmem hne).released_eq
              fun hwhole => hr ⟨_, hundo, hne, hwhole⟩
        rw [hmaps, MapState.mapped_mk, hreleased]
      intro n
      rw [hmapped, Finset.mem_sdiff, hp n]
      constructor
      · rintro ⟨⟨p, hmem, hn⟩, hnot⟩
        rcases (mem_list_of_undoTarget hundo).mp hmem with rfl | hstays
        · exact absurd hn hnot
        · exact ⟨p, hstays, hn⟩
      · rintro ⟨p, hstays, hn⟩
        exact ⟨⟨p, (mem_list_of_undoTarget hundo).mpr (.inr hstays), hn⟩,
          h.disjoint_undone hundo hstays hn⟩

/-- **The pages along a run.** When no request releases a blob of whole pages, the mapped
pages are, in every state reached, those of the live blobs. -/
theorem mapped_eq_live (text mem : Mem 64) (rs : List (Request img))
    (h : Along Sandbox.step (fun s r => ¬WholePages s r) (Sandbox.init text mem) rs) :
    Always Sandbox.step PagesExact (Sandbox.init text mem) rs := by
  have hall : Always Sandbox.step (fun s => s.Inv img ∧ PagesExact s)
      (Sandbox.init text mem) rs :=
    h.always (fun s r hs hr => ⟨hs.1.step r, hs.2.step hs.1 hr⟩)
      ⟨Sandbox.inv_init text mem, pagesExact_init text mem⟩
  exact hall.mono fun s hs => hs.2

/-- A message with a hash that starts with `tag`, a blob of `size` zero bytes, and at `hvabs`
a jump to the blob, as memory. -/
def blobMessage (tag : Byte) (size hvabs : ℕ) : ℕ → Byte :=
  fromList
    (tag :: List.replicate 23 0 ++ leBytes 8 0x400000 ++ leBytes 4 size ++ leBytes 4 0
      ++ leBytes 4 1 ++ List.replicate 20 0)
    fun i => if i < 64 + size then 0
      else (leBytes 8 hvabs ++ (0xe9 :: leBytes 4 (2 ^ 32 + 0x400000 - hvabs - 5))
        ++ List.replicate 3 0 ++ [1, 1]).getD (i - (64 + size)) 0

/-- The hash of such a message. -/
def tagHash (tag : Byte) : ℕ → Byte := fun i => if i = 0 then tag else 0

/-- Apply a blob of 4096 bytes, and undo it. -/
def wholePageRun : List (Request sampleImage) :=
  [.apply sampleEnv (blobMessage 1 4096 0x401000), .undo (tagHash 1)]

/-- One page stays mapped when no patch is live any more. -/
theorem page_leaked :
    (run Sandbox.step (Sandbox.init (fun _ => 0) fun _ => 0) wholePageRun).lpPatchHead = [] ∧
      ¬PagesExact (run Sandbox.step (Sandbox.init (fun _ => 0) fun _ => 0) wholePageRun) := by
  have hlist : (run Sandbox.step (Sandbox.init (fun _ => 0) fun _ => 0)
      wholePageRun).lpPatchHead = [] := by decide +kernel
  refine ⟨hlist, fun h => ?_⟩
  have hmem : 0x702 ∈ (run Sandbox.step (Sandbox.init (fun _ => 0) fun _ => 0)
      wholePageRun).maps.mapped := by decide +kernel
  obtain ⟨p, hp, -⟩ := (h 0x702).mp hmem
  rw [hlist] at hp
  exact List.not_mem_nil hp

/-- Apply a blob of ten bytes, have a message with a dependency thrown away, and undo. -/
def partPageRun : List (Request sampleImage) :=
  [.apply sampleEnv (blobMessage 1 10 0x401000),
    .apply sampleEnv (fromList samplePayload fun _ => 0), .undo (tagHash 1)]

/-- The condition holds along a run that maps, releases and undoes. -/
theorem mapped_eq_live_partPageRun :
    Along Sandbox.step (fun s r => ¬WholePages s r)
      (Sandbox.init (fun _ => 0) fun _ => 0) partPageRun ∧
    Always Sandbox.step PagesExact (Sandbox.init (fun _ => 0) fun _ => 0) partPageRun := by
  have halong : Along Sandbox.step (fun s r => ¬WholePages s r)
      (Sandbox.init (fun _ => 0) fun _ => 0) partPageRun :=
    ⟨by decide +kernel, by decide +kernel, by decide +kernel, trivial⟩
  exact ⟨halong, mapped_eq_live _ _ partPageRun halong⟩

end Patchbox
