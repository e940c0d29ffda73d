import Patchbox.Records
import Patchbox.Lib.Pages
import Patchbox.Lib.Runs

/-!
# Mapping memory for a patch blob

`mapPatchMap` walks upward from a point above the heap. It remembers the last
mapping, with its length in bytes rather than in pages, and asks `mmap` for the
next one at a fixed address. The pages it maps, and those `unmapPatchMap` gives
back, are kept as a set of page numbers.

Linux supplies the facts that a `ProcMap` carries: mappings are page aligned, and
the heap lies in user space, above the program image.

## Main definitions

* `MapState` — the static variables of `map_patch_map`, the pages, their bytes.
* `findSandboxStart`, `mapPatchMap`, `unmapPatchMap` — the functions of `libsandbox.c`.
* `Mappable` — when a mapping succeeds.
* `MapState.WF` — the invariant of the allocator.
* `mapPatchMap_runs` — what a run of calls hands out.
-/

namespace Patchbox
open Lib

/-- The text `[heap]` that marks the heap in `/proc/<pid>/maps`. -/
def heapTag : List Char := ['[', 'h', 'e', 'a', 'p', ']']

/-- The part of a `procmaps_struct` that is read here, with what Linux promises of it. -/
structure ProcMap (img : Image) where
  addrEnd : Addr
  pathname : List Char
  page_aligned : addrEnd.toNat % pageSize = 0
  user_space : heapTag <:+: pathname → addrEnd.toNat ≤ userSpaceEnd
  heap_above : heapTag <:+: pathname → img.end_.toNat ≤ addrEnd.toNat

/-- What the system answers to one call: the parsed maps, and whether `mmap` succeeds. -/
structure MapEnv (img : Image) where
  procmaps : Option (List (ProcMap img))
  mmapOk : Bool

/-- The static variables of `map_patch_map`, the pages it holds and their contents. -/
structure MapState where
  last : PatchMap
  ultimateLimit : Addr
  mapped : Finset ℕ
  mem : Mem 64

theorem MapState.mapped_mk (last : PatchMap) (ultimateLimit : Addr) (mapped : Finset ℕ)
    (mem : Mem 64) : MapState.mapped ⟨last, ultimateLimit, mapped, mem⟩ = mapped := rfl

/-- Statics are zero when the program starts. -/
def MapState.init (mem : Mem 64) : MapState := ⟨⟨0, 0⟩, 0, ∅, mem⟩

variable {img : Image}

/-! ## The source functions -/

/-- The first entry whose path name contains the heap tag. -/
def heapEntry (procmaps : Option (List (ProcMap img))) : Option (ProcMap img) :=
  (procmaps.getD []).find? fun iter => decide (heapTag <:+: iter.pathname)

/-- `find_sandbox_start`: the end of the heap plus a hole, zero when there is no heap. -/
def findSandboxStart (procmaps : Option (List (ProcMap img))) : Addr :=
  match heapEntry procmaps with
  | some iter => iter.addrEnd + 0x100000
  | none => 0

/-- The numbers of the pages that the `len` bytes at `addr` touch. -/
def pagesOf (addr len : ℕ) : Finset ℕ :=
  Finset.Ico (addr / pageSize) ((addr + len + (pageSize - 1)) / pageSize)

/-- `mmap` at a fixed address: fresh zero pages, or failure. No range outside user space maps. -/
def mmap (env : MapEnv img) (next : PatchMap) (m : MapState) : Option MapState :=
  if env.mmapOk ∧ next.addr.toNat + next.size.toNat ≤ userSpaceEnd then
    some { m with
      mapped := m.mapped ∪ pagesOf next.addr.toNat next.size.toNat
      mem := fun x => if (x - next.addr).toNat < next.size.toNat then 0 else m.mem x }
  else none

/-- `munmap`: the touched pages go; an unaligned address or an empty range is `EINVAL`. -/
def munmap (addr len : BitVec 64) (m : MapState) : Int × MapState :=
  if addr.toNat % pageSize ≠ 0 ∨ len = 0 then (-1, m)
  else (0, { m with mapped := m.mapped \ pagesOf addr.toNat len.toNat })

/-- `MAP_FAILED`, the pointer `(void *) -1`. -/
def mapFailed : Addr := -1

/-- The statics after they are set on first use. `_start` is declared a `uintptr_t`, so the
limit is that many words above it. -/
def MapState.sample (img : Image) (env : MapEnv img) (m : MapState) : MapState :=
  { m with
    ultimateLimit :=
      if m.ultimateLimit = 0 then (img.start_ + 8 * 0xffffffff) &&& pageMask else m.ultimateLimit
    last :=
      if m.last.addr = 0 then { m.last with addr := findSandboxStart env.procmaps } else m.last }

/-- The length `map_patch_map` maps for a blob of `size` bytes. -/
def mappedLen (size : BitVec 64) : BitVec 64 := (size + 0x1000) &&& pageMask

/-- Where the next mapping goes, and how long it is. -/
def nextMap (last : PatchMap) (size : BitVec 64) : PatchMap :=
  ⟨(last.addr + last.size + 0x1000) &&& pageMask, mappedLen size⟩

/-- `map_patch_map`: the status, `*pm`, and the statics afterwards. -/
def mapPatchMap (img : Image) (env : MapEnv img) (pm : PatchMap) (m : MapState) :
    Int × PatchMap × MapState :=
  let m := m.sample img env
  if m.last.addr = 0 then (sandboxErrInvalid, pm, m)
  else
    let next := nextMap m.last pm.size
    if m.ultimateLimit ≤ next.addr + next.size then
      -- last is left alone, so that its address can be used again
      (sandboxErrInvalid, ⟨mapFailed, 0⟩, m)
    else
      match mmap env next m with
      | none => (sandboxErrNomem, ⟨mapFailed, pm.size⟩, m)
      | some m => (sandboxOk, ⟨next.addr, pm.size⟩, { m with last := ⟨next.addr, pm.size⟩ })

/-- `unmap_patch_map`. The address is kept, the size is cleared. -/
def unmapPatchMap (pm : PatchMap) (m : MapState) : Int × PatchMap × MapState :=
  if pm.addr ≠ 0 then
    let (ccode, m) := munmap pm.addr pm.size m
    (ccode, { pm with size := 0 }, m)
  else (sandboxOk, ⟨0, 0⟩, m)

/-! ## When a mapping succeeds -/

/-- The condition under which `map_patch_map` maps `size` bytes. -/
def Mappable (img : Image) (env : MapEnv img) (m : MapState) (size : BitVec 64) : Prop :=
  let m := m.sample img env
  let next := nextMap m.last size
  m.last.addr ≠ 0 ∧ next.addr + next.size < m.ultimateLimit ∧
    env.mmapOk ∧ next.addr.toNat + next.size.toNat ≤ userSpaceEnd

instance (env : MapEnv img) (m : MapState) (size : BitVec 64) :
    Decidable (Mappable img env m size) := inferInstanceAs (Decidable (_ ∧ _ ∧ _ ∧ _))

/-- The statics and pages after a mapping that succeeded. -/
def MapState.extend (img : Image) (env : MapEnv img) (m : MapState) (size : BitVec 64) :
    MapState :=
  let m := m.sample img env
  let next := nextMap m.last size
  { m with
    last := ⟨next.addr, size⟩
    mapped := m.mapped ∪ pagesOf next.addr.toNat next.size.toNat
    mem := fun x => if (x - next.addr).toNat < next.size.toNat then 0 else m.mem x }

variable {env : MapEnv img} {m : MapState}

theorem mapPatchMap_of_mappable (pm : PatchMap) (h : Mappable img env m pm.size) :
    mapPatchMap img env pm m =
      (sandboxOk, ⟨(nextMap (m.sample img env).last pm.size).addr, pm.size⟩,
        m.extend img env pm.size) := by
  obtain ⟨haddr, hlimit, hmmap, huser⟩ := h
  simp only [mapPatchMap, if_neg haddr, if_neg (BitVec.not_le.mpr hlimit), mmap,
    if_pos (And.intro hmmap huser)]
  rfl

/-- A failing call changes nothing but the statics it samples, and leaves an address that
is either the caller's or `MAP_FAILED`. -/
theorem mapPatchMap_of_not_mappable (pm : PatchMap) (h : ¬Mappable img env m pm.size) :
    (mapPatchMap img env pm m).1 ≠ sandboxOk ∧
      ((mapPatchMap img env pm m).2.1.addr = pm.addr ∨
        (mapPatchMap img env pm m).2.1.addr = mapFailed) ∧
      (mapPatchMap img env pm m).2.2 = m.sample img env := by
  simp only [mapPatchMap]
  by_cases haddr : (m.sample img env).last.addr = 0
  · rw [if_pos haddr]
    exact ⟨(by decide : sandboxErrInvalid ≠ sandboxOk), .inl rfl, rfl⟩
  rw [if_neg haddr]
  by_cases hlimit : (m.sample img env).ultimateLimit ≤
      (nextMap (m.sample img env).last pm.size).addr
        + (nextMap (m.sample img env).last pm.size).size
  · rw [if_pos hlimit]
    exact ⟨(by decide : sandboxErrInvalid ≠ sandboxOk), .inr rfl, rfl⟩
  have hmmap : ¬(env.mmapOk ∧ (nextMap (m.sample img env).last pm.size).addr.toNat
      + (nextMap (m.sample img env).last pm.size).size.toNat ≤ userSpaceEnd) :=
    fun hm => h ⟨haddr, BitVec.not_le.mp hlimit, hm.1, hm.2⟩
  rw [if_neg hlimit]
  simp only [mmap, if_neg hmmap]
  exact ⟨by decide, .inr trivial, trivial⟩

/-- The pages `unmap_patch_map` gives back. -/
def PatchMap.released (pm : PatchMap) : Finset ℕ :=
  if pm.addr ≠ 0 ∧ pm.addr.toNat % pageSize = 0 ∧ pm.size ≠ 0 then
    pagesOf pm.addr.toNat pm.size.toNat
  else ∅

/-- Unmapping keeps the address, clears the size and changes the set of pages only. -/
theorem unmapPatchMap_eq (pm : PatchMap) (m : MapState) :
    (unmapPatchMap pm m).2 = (⟨pm.addr, 0⟩, { m with mapped := m.mapped \ pm.released }) := by
  by_cases h0 : pm.addr = 0
  · simp [unmapPatchMap, PatchMap.released, h0]
  by_cases hinval : pm.addr.toNat % pageSize ≠ 0 ∨ pm.size = 0
  · have hnone : pm.released = ∅ := if_neg fun h => by tauto
    rw [hnone, Finset.sdiff_empty]
    simp only [unmapPatchMap, if_pos (Ne.intro h0), munmap, if_pos hinval]
  · have hsome : pm.released = pagesOf pm.addr.toNat pm.size.toNat := if_pos (by tauto)
    rw [hsome]
    simp only [unmapPatchMap, if_pos (Ne.intro h0), munmap, if_neg hinval]

/-- There is nothing to give back where no mapping succeeded. -/
theorem released_eq_empty {pm : PatchMap} (h : pm.addr = 0 ∨ pm.addr = mapFailed ∨ pm.size = 0) :
    pm.released = ∅ := by
  refine if_neg fun hne => ?_
  rcases h with h | h | h
  · exact hne.1 h
  · have hal := hne.2.1
    rw [h] at hal
    exact absurd hal (by decide)
  · exact hne.2.2 h

/-! ## The allocator's invariant -/

theorem toNat_and_pageMask (x : Addr) :
    (x &&& pageMask).toNat = x.toNat / pageSize * pageSize :=
  toNat_and_not_low x 12

theorem toNat_mappedLen {size : BitVec 64} (h : size.toNat < maxPatchSize) :
    (mappedLen size).toNat = (size.toNat + pageSize) / pageSize * pageSize := by
  have hsum : (size + 0x1000).toNat = size.toNat + pageSize := by
    simp only [BitVec.toNat_add, BitVec.reduceToNat, pageSize, maxPatchSize] at h ⊢
    omega
  rw [mappedLen, toNat_and_pageMask, hsum]

theorem toNat_mappedLen_zero : (mappedLen 0).toNat = pageSize := by decide

/-- The first address above a mapping. -/
def PatchMap.stop (pm : PatchMap) : ℕ := pm.addr.toNat + (mappedLen pm.size).toNat

/-- The half-open range of addresses that was mapped. -/
def PatchMap.range (pm : PatchMap) : Set ℕ := Set.Ico pm.addr.toNat pm.stop

theorem PatchMap.stop_eq {pm : PatchMap} (h : pm.size.toNat < maxPatchSize) :
    pm.stop = pm.addr.toNat + (pm.size.toNat + pageSize) / pageSize * pageSize := by
  rw [PatchMap.stop, toNat_mappedLen h]

/-- What holds of the statics and the pages between calls: the remembered address is
aligned, the remembered length is a blob length, and no page lies above the remembered
mapping. -/
structure MapState.WF (m : MapState) : Prop where
  aligned : m.last.addr.toNat % pageSize = 0
  size_lt : m.last.size.toNat < maxPatchSize
  stop_le : m.last.stop ≤ userSpaceEnd + 0x101000
  pages_lt : ∀ p ∈ m.mapped, p * pageSize < m.last.stop
  fresh : m.last.addr = 0 → m.last.size = 0 ∧ m.mapped = ∅

theorem MapState.wf_init (mem : Mem 64) : (MapState.init mem).WF where
  aligned := rfl
  size_lt := (by decide : (0 : ℕ) < maxPatchSize)
  stop_le := by
    have hstop : PatchMap.stop ⟨0, 0⟩ = pageSize := by rw [PatchMap.stop, toNat_mappedLen_zero]; rfl
    change PatchMap.stop ⟨0, 0⟩ ≤ userSpaceEnd + 0x101000
    rw [hstop]
    simp only [pageSize, userSpaceEnd]
    omega
  pages_lt := by simp [MapState.init]
  fresh := fun _ => ⟨rfl, rfl⟩

/-- Pages may go at any time. -/
theorem MapState.WF.of_subset (h : m.WF) {s : Finset ℕ} (hs : s ⊆ m.mapped) :
    ({ m with mapped := s } : MapState).WF where
  aligned := h.aligned
  size_lt := h.size_lt
  stop_le := h.stop_le
  pages_lt := fun p hp => h.pages_lt p (hs hp)
  fresh := fun h0 => ⟨(h.fresh h0).1, Finset.subset_empty.mp ((h.fresh h0).2 ▸ hs)⟩

theorem heapTag_of_heapEntry {procmaps : Option (List (ProcMap img))} {iter : ProcMap img}
    (h : heapEntry procmaps = some iter) : heapTag <:+: iter.pathname := by
  simpa using List.find?_some h

theorem findSandboxStart_eq {procmaps : Option (List (ProcMap img))} {iter : ProcMap img}
    (h : heapEntry procmaps = some iter) :
    findSandboxStart procmaps = iter.addrEnd + 0x100000 := by
  rw [findSandboxStart, h]

theorem toNat_findSandboxStart {procmaps : Option (List (ProcMap img))} {iter : ProcMap img}
    (h : heapEntry procmaps = some iter) :
    (findSandboxStart procmaps).toNat = iter.addrEnd.toNat + 0x100000 := by
  have huser : iter.addrEnd.toNat ≤ 2 ^ 63 := iter.user_space (heapTag_of_heapEntry h)
  have hhole : (0x100000 : Addr).toNat = 0x100000 := by decide
  rw [findSandboxStart_eq h, BitVec.toNat_add, hhole]
  exact Nat.mod_eq_of_lt (by omega)

/-- The start is page aligned, and at most the hole above user space. -/
theorem findSandboxStart_le (procmaps : Option (List (ProcMap img))) :
    (findSandboxStart procmaps).toNat % pageSize = 0 ∧
      (findSandboxStart procmaps).toNat ≤ userSpaceEnd + 0x100000 := by
  cases hm : heapEntry procmaps with
  | none => simp [findSandboxStart, hm]
  | some iter =>
      have hp := iter.page_aligned
      have hu := iter.user_space (heapTag_of_heapEntry hm)
      rw [toNat_findSandboxStart hm]
      simp only [pageSize, userSpaceEnd] at hp hu ⊢
      omega

theorem MapState.sample_last_of_eq (env : MapEnv img) (h : m.last.addr = 0) :
    (m.sample img env).last = ⟨findSandboxStart env.procmaps, m.last.size⟩ := if_pos h

theorem MapState.sample_last_of_ne (env : MapEnv img) (h : m.last.addr ≠ 0) :
    (m.sample img env).last = m.last := if_neg h

/-- Setting the statics on first use keeps the invariant. -/
theorem MapState.WF.sample (h : m.WF) (env : MapEnv img) : (m.sample img env).WF := by
  by_cases h0 : m.last.addr = 0
  · obtain ⟨hsize, hempty⟩ := h.fresh h0
    have hlast := MapState.sample_last_of_eq env h0
    obtain ⟨hal, hle⟩ := findSandboxStart_le env.procmaps
    rw [hsize] at hlast
    constructor
    · rw [hlast]; exact hal
    · rw [hlast]; exact (by decide : (0 : ℕ) < maxPatchSize)
    · rw [hlast, PatchMap.stop, toNat_mappedLen_zero]
      dsimp only [pageSize]
      omega
    · exact fun p hp => absurd (hempty ▸ hp : p ∈ (∅ : Finset ℕ)) (Finset.notMem_empty p)
    · exact fun _ => ⟨by rw [hlast], hempty⟩
  · have hlast := MapState.sample_last_of_ne env h0
    exact ⟨hlast ▸ h.aligned, hlast ▸ h.size_lt, hlast ▸ h.stop_le,
      fun p hp => hlast ▸ h.pages_lt p hp, fun hz => absurd (hlast ▸ hz) h0⟩

/-- The next mapping starts where the remembered one stops. -/
theorem MapState.WF.toNat_nextMap (h : m.WF) (size : BitVec 64) :
    (nextMap m.last size).addr.toNat = m.last.stop := by
  have ha := h.aligned
  have hs := h.size_lt
  have hstop := h.stop_le
  rw [PatchMap.stop_eq hs] at hstop ⊢
  simp only [nextMap, toNat_and_pageMask, BitVec.toNat_add, BitVec.reduceToNat, pageSize,
    maxPatchSize, userSpaceEnd] at ha hs hstop ⊢
  omega

theorem MapState.WF.stop_pos (h : m.WF) : 0 < m.last.stop := by
  rw [PatchMap.stop_eq h.size_lt]
  simp only [pageSize]
  omega

theorem MapState.WF.stop_aligned (h : m.WF) : m.last.stop % pageSize = 0 := by
  rw [← h.toNat_nextMap 0]
  simp only [nextMap, toNat_and_pageMask, Nat.mul_mod_left]

/-- A successful mapping keeps the invariant. -/
theorem MapState.WF.extend (h : m.WF) {size : BitVec 64} (hsize : size.toNat < maxPatchSize)
    (hm : Mappable img env m size) : (m.extend img env size).WF := by
  have hw := h.sample env
  have hnext : (m.extend img env size).last.addr.toNat = (m.sample img env).last.stop :=
    hw.toNat_nextMap size
  have hstop : (m.extend img env size).last.stop
      = (m.sample img env).last.stop + (mappedLen size).toNat := by
    rw [PatchMap.stop, hnext]; rfl
  have hlen := toNat_mappedLen hsize
  have hal := hw.stop_aligned
  have huser : (nextMap (m.sample img env).last size).addr.toNat + (mappedLen size).toNat
      ≤ userSpaceEnd := hm.2.2.2
  rw [hw.toNat_nextMap size] at huser
  constructor
  · rw [hnext]; exact hal
  · exact hsize
  · rw [hstop]; omega
  · intro p hp
    rw [hstop]
    rcases Finset.mem_union.mp hp with hp | hp
    · have := hw.pages_lt p hp
      omega
    · have hp' := (Finset.mem_Ico.mp hp).2
      rw [hw.toNat_nextMap size] at hp'
      change p < (_ + (mappedLen size).toNat + (pageSize - 1)) / pageSize at hp'
      simp only [pageSize] at *
      omega
  · intro h0
    have hpos := hw.stop_pos
    rw [← hnext, h0] at hpos
    exact absurd hpos (lt_irrefl 0)

/-! ## Runs of calls -/

/-- A call of `map_patch_map` for a blob of `size` bytes, or of `unmap_patch_map`. -/
inductive MapCall (img : Image) where
  | map (env : MapEnv img) (size : BitVec 64)
  | unmap (pm : PatchMap)

/-- The statics, the heap entry they were sampled from, and the mappings handed out so far,
newest first. -/
structure MapRun (img : Image) where
  state : MapState
  heap : Option (ProcMap img)
  handed : List PatchMap

/-- The start of a run. -/
def MapRun.init (mem : Mem 64) : MapRun img := ⟨MapState.init mem, none, []⟩

/-- One call. The caller's `pm` has a null address and the blob's length. -/
def MapRun.step (r : MapRun img) : MapCall img → MapRun img
  | .map env size =>
      let (ccode, pm, m) := mapPatchMap img env ⟨0, size⟩ r.state
      { state := m
        heap := if r.state.last.addr = 0 then heapEntry env.procmaps else r.heap
        handed := if ccode = sandboxOk then pm :: r.handed else r.handed }
  | .unmap pm => { r with state := (unmapPatchMap pm r.state).2.2 }

/-- A mapping as a half-open block. -/
def PatchMap.block (pm : PatchMap) : ℕ × ℕ := (pm.addr.toNat, pm.stop)

/-- The mappings ascend from the heap end plus the hole, and the statics remember the last. -/
structure MapRun.Inv (r : MapRun img) : Prop where
  wf : r.state.WF
  unsampled : r.state.last.addr = 0 → r.handed = []
  ascending : r.state.last.addr ≠ 0 → ∃ h, r.heap = some h ∧
    Ascending (h.addrEnd.toNat + 0x101000) (r.handed.map PatchMap.block) ∧
    r.state.last.stop = top (h.addrEnd.toNat + 0x101000) (r.handed.map PatchMap.block)
  entries : ∀ pm ∈ r.handed, pm.addr.toNat % pageSize = 0 ∧ pm.size.toNat < maxPatchSize

/-- The statics of the first sample put the floor one page above the hole. -/
theorem MapRun.Inv.sample {r : MapRun img} (h : r.Inv) (env : MapEnv img) :
    MapRun.Inv
      { state := r.state.sample img env
        heap := if r.state.last.addr = 0 then heapEntry env.procmaps else r.heap
        handed := r.handed } := by
  by_cases h0 : r.state.last.addr = 0
  · have hnil := h.unsampled h0
    have hlast := MapState.sample_last_of_eq env h0
    rw [(h.wf.fresh h0).1] at hlast
    refine ⟨h.wf.sample env, fun _ => hnil, fun hne => ?_, h.entries⟩
    dsimp only at hne ⊢
    rw [if_pos h0]
    cases he : heapEntry env.procmaps with
    | none => rw [hlast] at hne; simp [findSandboxStart, he] at hne
    | some iter =>
        refine ⟨iter, rfl, ?_⟩
        rw [hnil]
        refine ⟨trivial, ?_⟩
        rw [hlast, PatchMap.stop, toNat_mappedLen_zero, toNat_findSandboxStart he]
        rfl
  · have hlast := MapState.sample_last_of_ne env h0
    refine ⟨h.wf.sample env, fun hz => absurd (hlast ▸ hz) h0, fun _ => ?_, h.entries⟩
    dsimp only
    rw [if_neg h0, hlast]
    exact h.ascending h0

/-- The length a call asks to map. -/
def MapCall.blobSize : MapCall img → ℕ
  | .map _ size => size.toNat
  | .unmap _ => 0

/-- **One call keeps the mappings ascending.** -/
theorem MapRun.Inv.step {r : MapRun img} (h : r.Inv) (c : MapCall img)
    (hc : c.blobSize < maxPatchSize) : (r.step c).Inv := by
  cases c with
  | unmap pm =>
      simp only [MapRun.step, unmapPatchMap_eq]
      exact ⟨h.wf.of_subset Finset.sdiff_subset, h.unsampled, h.ascending, h.entries⟩
  | map env size =>
      have hs := h.sample env
      by_cases hm : Mappable img env r.state size
      · -- the new block starts where the remembered one stops
        obtain ⟨iter, hheap, hasc, hstop⟩ := hs.ascending hm.1
        have hwf := h.wf.extend hc hm
        have haddr : (nextMap (r.state.sample img env).last size).addr.toNat
            = (r.state.sample img env).last.stop := hs.wf.toNat_nextMap size
        have hpos : (r.state.extend img env size).last.addr ≠ 0 := by
          intro hz
          have hzero : (nextMap (r.state.sample img env).last size).addr.toNat = 0 := by
            change (nextMap (r.state.sample img env).last size).addr = 0 at hz
            rw [hz]; rfl
          have hstop := hs.wf.stop_pos
          exact absurd (haddr ▸ hzero) hstop.ne'
        have hlen := toNat_mappedLen hc
        simp only [MapRun.step, mapPatchMap_of_mappable ⟨0, size⟩ hm, if_true]
        refine ⟨hwf, fun hz => absurd hz hpos, fun _ => ⟨iter, hheap, ⟨?_, ?_, hasc⟩, rfl⟩, ?_⟩
        · rw [← hstop]; exact haddr.ge
        · change (nextMap _ size).addr.toNat < (nextMap _ size).addr.toNat + (mappedLen size).toNat
          simp only [pageSize] at hlen
          omega
        · intro pm hpm
          rcases List.mem_cons.mp hpm with rfl | hpm
          · exact ⟨hwf.aligned, hc⟩
          · exact h.entries pm hpm
      · obtain ⟨hcode, -, hstate⟩ := mapPatchMap_of_not_mappable ⟨0, size⟩ hm
        simp only [MapRun.step, hstate, if_neg hcode]
        exact hs

theorem MapRun.inv_init (mem : Mem 64) : (MapRun.init mem : MapRun img).Inv where
  wf := MapState.wf_init mem
  unsampled := fun _ => rfl
  ascending := fun h => absurd rfl h
  entries := fun _ hpm => absurd hpm List.not_mem_nil

/-- **What a run of calls hands out**: page-aligned mappings above the heap and its hole, each
long enough for its blob, at increasing addresses and without overlap. -/
theorem mapPatchMap_runs (mem : Mem 64) (calls : List (MapCall img))
    (hsize : ∀ c ∈ calls, c.blobSize < maxPatchSize) :
    (∀ pm ∈ (run MapRun.step (MapRun.init mem) calls).handed,
      pm.addr.toNat % pageSize = 0 ∧
      (∃ heap, (run MapRun.step (MapRun.init mem) calls).heap = some heap ∧
        heap.addrEnd.toNat + 0x100000 < pm.addr.toNat) ∧
      pm.addr.toNat + pm.size.toNat ≤ pm.stop) ∧
    (run MapRun.step (MapRun.init mem) calls).handed.Pairwise fun newer older =>
      older.addr.toNat < newer.addr.toNat ∧ Disjoint newer.range older.range := by
  have hinv : (run MapRun.step (MapRun.init mem) calls).Inv := by
    have halong : Along MapRun.step (fun _ c => c.blobSize < maxPatchSize)
        (MapRun.init mem) calls := by
      generalize MapRun.init mem = r
      induction calls generalizing r with
      | nil => trivial
      | cons c cs ih =>
          exact ⟨hsize c (by simp), ih (fun d hd => hsize d (by simp [hd])) _⟩
    exact halong.invariant (fun r c h hc => h.step c hc) (MapRun.inv_init mem)
  generalize run MapRun.step (MapRun.init mem) calls = r at hinv
  by_cases h0 : r.state.last.addr = 0
  · rw [hinv.unsampled h0]
    exact ⟨fun _ hpm => absurd hpm List.not_mem_nil, List.Pairwise.nil⟩
  obtain ⟨heap, hheap, hasc, -⟩ := hinv.ascending h0
  constructor
  · intro pm hpm
    obtain ⟨hal, hlt⟩ := hinv.entries pm hpm
    have hfloor := hasc.floor_le (List.mem_map_of_mem (f := PatchMap.block) hpm)
    refine ⟨hal, ⟨heap, hheap, ?_⟩, ?_⟩
    · simp only [PatchMap.block] at hfloor
      omega
    · rw [PatchMap.stop_eq hlt]
      simp only [pageSize]
      omega
  · have hpair := List.pairwise_map.mp hasc.pairwise
    refine hpair.imp_of_mem fun {newer older} _ holder hle => ⟨?_, ?_⟩
    · exact (hasc.lt (List.mem_map_of_mem (f := PatchMap.block) holder)).trans_le hle
    · exact disjoint_of_le (b := newer.block) (c := older.block) hle

/-- A program of one mebibyte. -/
def sampleImage : Image := ⟨0x400000, 0x500000⟩

/-- A heap right above it. -/
def sampleHeap : ProcMap sampleImage where
  addrEnd := 0x600000
  pathname := heapTag
  page_aligned := by decide
  user_space := fun _ => by decide
  heap_above := fun _ => by decide

/-- The maps are read, and `mmap` succeeds or not. -/
def sampleMapEnv (mmapOk : Bool) : MapEnv sampleImage := ⟨some [sampleHeap], mmapOk⟩

/-- A page, a failing call, the page returned, and ten bytes. -/
def sampleCalls : List (MapCall sampleImage) :=
  [.map (sampleMapEnv true) 4096, .map (sampleMapEnv false) 10, .unmap ⟨0x701000, 4096⟩,
    .map (sampleMapEnv true) 10]

/-- The second mapping starts two pages above the first, which was one page too long. -/
theorem mapPatchMap_runs_sample :
    let r := run MapRun.step (MapRun.init fun _ => 0) sampleCalls
    r.handed = [⟨0x703000, 10⟩, ⟨0x701000, 4096⟩] ∧
    (∀ pm ∈ r.handed,
      pm.addr.toNat % pageSize = 0 ∧
      (∃ heap, r.heap = some heap ∧ heap.addrEnd.toNat + 0x100000 < pm.addr.toNat) ∧
      pm.addr.toNat + pm.size.toNat ≤ pm.stop) ∧
    r.handed.Pairwise fun newer older =>
      older.addr.toNat < newer.addr.toNat ∧ Disjoint newer.range older.range :=
  ⟨by decide, mapPatchMap_runs _ sampleCalls (by decide)⟩

end Patchbox
