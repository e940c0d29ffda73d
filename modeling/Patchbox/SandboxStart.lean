import Patchbox.ProcMaps

/-!
# Mapping memory, from the text of the maps

`map_patch_map` looks for the heap as long as it remembers no mapping. Each time it parses the maps
again, with the static pointer of `pmparser_next` as the last search left it: null when the heap
was not found, and pointing to a node that is freed when it was. In no run this pointer is used
again, so that what the calls return is what they return when the parsed maps are given.

## Main definitions

* `MapsLine` — a line of the maps, and what Linux promises of the mapping.
* `mapPatchMapBy` — `map_patch_map`, on the text of the maps.
* `FollowsMaps` — the text is read as the maps that were given.
* `mapPatchMap_text` — every run on texts is one on maps.
-/

namespace Patchbox
open Lib

variable {img : Image}

/-! ## Lines and entries -/

/-- The characters of a path. -/
def charsOf (s : List Byte) : List Char := s.map fun c => Char.ofNat c.toNat

theorem ofNat_toNat_char : ∀ c : Byte, BitVec.ofNat 8 (Char.ofNat c.toNat).toNat = c := by
  decide +kernel

theorem heapTag_infix_iff (s : List Byte) : heapTag <:+: charsOf s ↔ heapBytes <:+: s := by
  constructor
  · intro h
    have hback : (charsOf s).map (fun c => BitVec.ofNat 8 c.toNat) = s := by
      rw [charsOf, List.map_map]
      exact (List.map_congr_left fun c _ => ofNat_toNat_char c).trans (List.map_id s)
    have hinfix := h.map fun c : Char => BitVec.ofNat 8 c.toNat
    rwa [hback] at hinfix
  · intro h
    exact h.map fun c => Char.ofNat c.toNat

/-- A line, and what Linux promises of the mapping. -/
structure MapsLine (img : Image) extends LineText where
  proper : toLineText.Proper
  page_aligned : toLineText.addrEnd.toNat % pageSize = 0
  user_space : heapBytes <:+: toLineText.pathname → toLineText.addrEnd.toNat ≤ userSpaceEnd
  heap_above : heapBytes <:+: toLineText.pathname → img.end_.toNat ≤ toLineText.addrEnd.toNat

/-- The entry of the line. -/
def MapsLine.procMap (l : MapsLine img) : ProcMap img where
  addrEnd := l.addrEnd
  pathname := charsOf l.pathname
  page_aligned := l.page_aligned
  user_space h := l.user_space ((heapTag_infix_iff _).mp h)
  heap_above h := l.heap_above ((heapTag_infix_iff _).mp h)

/-- The entry of the heap is that of its line. -/
theorem heapEntry_procMap (ls : List (MapsLine img)) :
    heapEntry (some (ls.map MapsLine.procMap)) =
      (ls.find? fun l => isHeap l.entry).map MapsLine.procMap := by
  rw [heapEntry, Option.getD_some, List.find?_map]
  have hsame : ((fun iter : ProcMap img => decide (heapTag <:+: iter.pathname)) ∘
      MapsLine.procMap) = fun l : MapsLine img => isHeap l.entry := by
    funext l
    exact decide_eq_decide.mpr (heapTag_infix_iff _)
  rw [hsame]

theorem startOfLines_eq (ls : List (MapsLine img)) :
    startOfLines (ls.map MapsLine.toLineText) =
      findSandboxStart (some (ls.map MapsLine.procMap)) := by
  rw [startOfLines, startOf, findSandboxStart, heapEntry_procMap, List.map_map, List.find?_map]
  have hsame : isHeap ∘ (LineText.entry ∘ MapsLine.toLineText) =
      fun l : MapsLine img => isHeap l.entry := rfl
  rw [hsame]
  cases ls.find? fun l => isHeap l.entry <;> rfl

/-! ## The function -/

/-- What the system answers to one call: the lines of the maps, when they can be opened, what the
buffer for a line holds, and whether `mmap` succeeds. -/
structure MapsFile (img : Image) where
  lines : Option (List (MapsLine img))
  buf : List Byte
  mmapOk : Bool

def MapsFile.text (f : MapsFile img) : Option (List Byte) :=
  f.lines.map fun ls => mapsText (ls.map MapsLine.toLineText)

/-- The same answer, with the maps parsed. -/
def MapsFile.env (f : MapsFile img) : MapEnv img := ⟨f.lines.map (·.map MapsLine.procMap), f.mmapOk⟩

/-- The statics of `map_patch_map` are set on first use. -/
def MapState.sampleBy (img : Image) (fuel : ℕ) (file : Option (List Byte)) (buf : List Byte)
    (s : Parser) (m : MapState) : Except Stuck (Parser × MapState) := do
  let ultimateLimit :=
    if m.ultimateLimit = 0 then (img.start_ + 8 * 0xffffffff) &&& pageMask else m.ultimateLimit
  if m.last.addr = 0 then
    let (addr, s) ← findSandboxStartBy fuel file buf s
    return (s, { m with ultimateLimit, last := { m.last with addr } })
  else return (s, { m with ultimateLimit })

/-- `map_patch_map` behind this. -/
def mapNext (env : MapEnv img) (pm : PatchMap) (m : MapState) : Int × PatchMap × MapState :=
  if m.last.addr = 0 then (sandboxErrInvalid, pm, m)
  else
    let next := nextMap m.last pm.size
    if m.ultimateLimit ≤ next.addr + next.size then (sandboxErrInvalid, ⟨mapFailed, 0⟩, m)
    else
      match mmap env next m with
      | none => (sandboxErrNomem, ⟨mapFailed, pm.size⟩, m)
      | some m => (sandboxOk, ⟨next.addr, pm.size⟩, { m with last := ⟨next.addr, pm.size⟩ })

/-- `map_patch_map`, with `fuel` rounds for the loops over the maps. -/
def mapPatchMapBy (img : Image) (fuel : ℕ) (file : Option (List Byte)) (buf : List Byte)
    (mmapOk : Bool) (pm : PatchMap) (s : Parser) (m : MapState) :
    Except Stuck (Int × PatchMap × Parser × MapState) := do
  let (s, m) ← m.sampleBy img fuel file buf s
  let (ccode, pm, m) := mapNext (⟨none, mmapOk⟩ : MapEnv img) pm m
  return (ccode, pm, s, m)

theorem mapPatchMap_eq_mapNext (env : MapEnv img) (pm : PatchMap) (m : MapState) :
    mapPatchMap img env pm m = mapNext env pm (m.sample img env) := rfl

/-! ## One call -/

/-- The text can be read: it is not a single line, and there are rounds enough for it. -/
def MapsFile.Readable (fuel : ℕ) (f : MapsFile img) : Prop :=
  ∀ ls, f.lines = some ls → ls.length ≠ 1 ∧ ls.length < fuel

variable {f : MapsFile img} {fuel : ℕ} {m : MapState} {s : Parser}

/-- The text is searched as the maps are. -/
theorem findSandboxStartBy_file (hf : f.Readable fuel) (hs : s.Ready) : ∃ s',
    findSandboxStartBy fuel f.text f.buf s = .ok (findSandboxStart f.env.procmaps, s') ∧
      s'.nodes.live = s.nodes.live ∧ (heapEntry f.env.procmaps = none → s'.Ready) := by
  cases hlines : f.lines with
  | none =>
      rw [MapsFile.text, MapsFile.env, hlines]
      exact ⟨s, rfl, rfl, fun _ => hs⟩
  | some ls =>
      obtain ⟨hone, hlt⟩ := hf ls hlines
      have hlen : (ls.map MapsLine.toLineText).length = ls.length := List.length_map ..
      have hproper : ∀ l ∈ ls.map MapsLine.toLineText, l.Proper := by
        intro l hl
        obtain ⟨l, -, rfl⟩ := List.mem_map.mp hl
        exact l.proper
      obtain ⟨s', hstart, hsearched⟩ := findSandboxStartBy_text hproper (hlen ▸ hone)
        (hlen ▸ hlt) f.buf hs
      rw [MapsFile.text, MapsFile.env, hlines]
      refine ⟨s', ?_, hsearched.live, fun hnone => hsearched.ready ?_⟩
      · rw [startOfLines_eq] at hstart
        exact hstart
      · have hnone' : heapEntry (some (ls.map MapsLine.procMap)) = none := hnone
        rw [heapEntry_procMap, Option.map_eq_none_iff] at hnone'
        rw [List.map_map, List.find?_map, Option.map_eq_none_iff]
        exact hnone'

/-- The parser between two calls: it is ready as long as no mapping is remembered. No node lives. -/
structure Parser.Between (s : Parser) (m : MapState) : Prop where
  ready : m.last.addr = 0 → s.Ready
  live : ∀ q, s.nodes.live q = none

/-- A start that was found is no null pointer. -/
theorem findSandboxStart_ne_zero {procmaps : Option (List (ProcMap img))} {iter : ProcMap img}
    (h : heapEntry procmaps = some iter) : findSandboxStart procmaps ≠ 0 := by
  intro hzero
  have hnat := toNat_findSandboxStart h
  rw [hzero] at hnat
  exact absurd hnat (by simp)

theorem sampleBy_eq (hf : f.Readable fuel) (hs : s.Between m) : ∃ s',
    m.sampleBy img fuel f.text f.buf s = .ok (s', m.sample img f.env) ∧
      s'.Between (m.sample img f.env) := by
  by_cases h0 : m.last.addr = 0
  · obtain ⟨s', hfind, hlive, hready⟩ := findSandboxStartBy_file hf (hs.ready h0)
    have hlast := MapState.sample_last_of_eq f.env h0
    refine ⟨s', ?_, fun hz => hready ?_, fun q => (congrFun hlive q).trans (hs.live q)⟩
    · rw [MapState.sampleBy]
      simp only [if_pos h0]
      rw [bind_of_ok hfind, MapState.sample, if_pos h0]
      rfl
    · by_contra hne
      obtain ⟨iter, hiter⟩ := Option.ne_none_iff_exists'.mp hne
      rw [hlast] at hz
      exact findSandboxStart_ne_zero hiter hz
  · have hlast := MapState.sample_last_of_ne f.env h0
    refine ⟨s, ?_, fun hz => absurd (hlast ▸ hz) h0, hs.live⟩
    rw [MapState.sampleBy]
    simp only [if_neg h0]
    rw [MapState.sample, if_neg h0]
    rfl

/-- A mapping that is remembered is not forgotten. -/
theorem mapNext_last_ne_zero {env : MapEnv img} (hwf : m.WF) (pm : PatchMap)
    (hne : m.last.addr ≠ 0) : (mapNext env pm m).2.2.last.addr ≠ 0 := by
  simp only [mapNext, if_neg hne]
  split_ifs with hlimit
  · exact hne
  · cases hmmap : mmap env (nextMap m.last pm.size) m with
    | none => exact hne
    | some m' =>
        intro hz
        have hz' : (nextMap m.last pm.size).addr = 0 := hz
        have hstop := hwf.toNat_nextMap pm.size
        rw [hz'] at hstop
        exact absurd hstop hwf.stop_pos.ne

/-- **A call on the text** is one on the maps. -/
theorem mapPatchMapBy_eq (hf : f.Readable fuel) (hs : s.Between m) (hwf : m.WF) (pm : PatchMap) :
    ∃ s', mapPatchMapBy img fuel f.text f.buf f.mmapOk pm s m =
        .ok ((mapPatchMap img f.env pm m).1, (mapPatchMap img f.env pm m).2.1, s',
          (mapPatchMap img f.env pm m).2.2) ∧
      s'.Between (mapPatchMap img f.env pm m).2.2 := by
  obtain ⟨s', hsample, hs'⟩ := sampleBy_eq hf hs
  refine ⟨s', ?_, fun hz => hs'.ready ?_, hs'.live⟩
  · rw [mapPatchMapBy, bind_of_ok hsample]
    rfl
  · by_contra hne
    rw [mapPatchMap_eq_mapNext] at hz
    exact mapNext_last_ne_zero (hwf.sample f.env) pm hne hz

/-! ## Runs of calls -/

/-- A call of `map_patch_map` for a blob of `size` bytes, or of `unmap_patch_map`. -/
inductive MapsCall (img : Image) where
  | map (file : MapsFile img) (size : BitVec 64)
  | unmap (pm : PatchMap)

/-- The same call, with the maps parsed. -/
def MapsCall.parsed : MapsCall img → MapCall img
  | .map file size => .map file.env size
  | .unmap pm => .unmap pm

def MapsCall.Readable (fuel : ℕ) : MapsCall img → Prop
  | .map file _ => file.Readable fuel
  | .unmap _ => True

/-- The statics of both files, and the mappings handed out so far, newest first. -/
structure MapsRun where
  parser : Parser
  state : MapState
  handed : List PatchMap

/-- The start of a run. -/
def MapsRun.init (mem : Mem 64) : MapsRun := ⟨Parser.init, MapState.init mem, []⟩

/-- One call. -/
def MapsRun.step (fuel : ℕ) (r : MapsRun) : MapsCall img → Except Stuck MapsRun
  | .map file size => do
    let (ccode, pm, s, m) ←
      mapPatchMapBy img fuel file.text file.buf file.mmapOk ⟨0, size⟩ r.parser r.state
    return ⟨s, m, if ccode = sandboxOk then pm :: r.handed else r.handed⟩
  | .unmap pm => .ok { r with state := (unmapPatchMap pm r.state).2.2 }

/-- A run on texts follows one on maps: the statics of `map_patch_map` are the same, what was
handed out is, and the parser waits for the next search. -/
structure FollowsMaps (r : MapsRun) (a : MapRun img) : Prop where
  state : r.state = a.state
  handed : r.handed = a.handed
  between : r.parser.Between r.state

variable {r : MapsRun} {a : MapRun img}

/-- **One call keeps this.** -/
theorem FollowsMaps.step (h : FollowsMaps r a) (hwf : a.state.WF) {c : MapsCall img}
    (hc : c.Readable fuel) : ∃ r', r.step fuel c = .ok r' ∧ FollowsMaps r' (a.step c.parsed) := by
  cases c with
  | map file size =>
      obtain ⟨s', hcall, hbetween⟩ := mapPatchMapBy_eq hc h.between (h.state ▸ hwf) ⟨0, size⟩
      refine ⟨_, bind_of_ok hcall, ?_, ?_, hbetween⟩
      · rw [h.state]
        rfl
      · rw [h.state, h.handed]
        rfl
  | unmap pm =>
      refine ⟨_, rfl, ?_, h.handed, fun hz => ?_, h.between.live⟩
      · rw [h.state]
        rfl
      · rw [unmapPatchMap_eq] at hz
        exact h.between.ready hz

theorem followsMaps_init (mem : Mem 64) :
    FollowsMaps (MapsRun.init mem) (MapRun.init mem : MapRun img) where
  state := rfl
  handed := rfl
  between := ⟨fun _ => Parser.ready_init, fun _ => rfl⟩

/-- A run from states that follow each other. -/
theorem FollowsMaps.run {calls : List (MapsCall img)} (h : FollowsMaps r a) (hinv : a.Inv)
    (hsize : ∀ c ∈ calls, c.parsed.blobSize < maxPatchSize)
    (hread : ∀ c ∈ calls, c.Readable fuel) :
    ∃ r', calls.foldlM (MapsRun.step fuel) r = .ok r' ∧
      FollowsMaps r' (Lib.run MapRun.step a (calls.map MapsCall.parsed)) := by
  induction calls generalizing r a with
  | nil => exact ⟨r, rfl, h⟩
  | cons c calls ih =>
      obtain ⟨hc, hsize⟩ := List.forall_mem_cons.mp hsize
      obtain ⟨hcread, hread⟩ := List.forall_mem_cons.mp hread
      obtain ⟨r₁, hstep, h₁⟩ := h.step hinv.wf hcread
      obtain ⟨r', hrun, h'⟩ := ih h₁ (hinv.step c.parsed hc) hsize hread
      refine ⟨r', ?_, h'⟩
      rw [List.foldlM_cons, bind_of_ok hstep]
      exact hrun

/-- **Every run on texts is one on maps.** For every run of `map_patch_map` and `unmap_patch_map`
with blobs of less than `MAX_PATCH_SIZE` bytes, in which the maps, when they can be opened, are text
as Linux writes it, with lines of at most 259 bytes and no single line: no call reads a node that is
freed or loops for ever, each returns what it does on the parsed maps, and no node is left
behind. -/
theorem mapPatchMap_text (mem : Mem 64) (calls : List (MapsCall img)) (fuel : ℕ)
    (hsize : ∀ c ∈ calls, c.parsed.blobSize < maxPatchSize)
    (hread : ∀ c ∈ calls, c.Readable fuel) :
    ∃ r : MapsRun, calls.foldlM (MapsRun.step fuel) (MapsRun.init mem) = .ok r ∧
      FollowsMaps r (run MapRun.step (MapRun.init mem) (calls.map MapsCall.parsed)) ∧
      ∀ q, r.parser.nodes.live q = none := by
  obtain ⟨r, hrun, h⟩ := (followsMaps_init mem).run (MapRun.inv_init mem) hsize hread
  exact ⟨r, hrun, h, h.between.live⟩

/-- The program, and the heap above it. -/
def sampleProgram : MapsLine sampleImage where
  toLineText := programLine
  proper := programLine_proper
  page_aligned := by decide
  user_space := by decide
  heap_above := by decide

def sampleHeapLine : MapsLine sampleImage where
  toLineText := heapLine
  proper := heapLine_proper
  page_aligned := by decide
  user_space := by decide
  heap_above := by decide

/-- The maps before there is a heap and after, which are parsed, and later ones, which are not. -/
def sampleMapsCalls : List (MapsCall sampleImage) :=
  [.map ⟨some [sampleProgram, sampleProgram], [], true⟩ 10,
    .map ⟨some [sampleProgram, sampleHeapLine], [], true⟩ 4096,
    .unmap ⟨0x701000, 4096⟩,
    .map ⟨some [], [], true⟩ 10]

theorem sampleMapsCalls_readable : ∀ c ∈ sampleMapsCalls, c.Readable 3 := by
  have hfile : ∀ (ls : List (MapsLine sampleImage)) (mmapOk : Bool), ls.length ≠ 1 → ls.length < 3 →
      MapsFile.Readable 3 ⟨some ls, [], mmapOk⟩ := by
    intro ls mmapOk hone hlt ls' hls
    obtain rfl := Option.some.inj hls
    exact ⟨hone, hlt⟩
  intro c hc
  simp only [sampleMapsCalls, List.mem_cons, List.not_mem_nil, or_false] at hc
  rcases hc with rfl | rfl | rfl | rfl
  · exact hfile _ _ (by decide) (by decide)
  · exact hfile _ _ (by decide) (by decide)
  · trivial
  · exact hfile _ _ (by decide) (by decide)

theorem mapPatchMap_text_sample : ∃ r : MapsRun,
    sampleMapsCalls.foldlM (MapsRun.step 3) (MapsRun.init fun _ => 0) = .ok r ∧
      r.handed = [⟨0x703000, 10⟩, ⟨0x701000, 4096⟩] := by
  obtain ⟨r, hrun, hfollows, -⟩ :=
    mapPatchMap_text (fun _ => 0) sampleMapsCalls 3 (by decide) sampleMapsCalls_readable
  exact ⟨r, hrun, hfollows.handed.trans (by decide)⟩

end Patchbox
