import Patchbox.Requests

/-!
# Where the blobs may lie

`find_sandbox_start` names two requirements for the maps of live patches. They must
be near enough to the functions that are patched, and clear of the other mappings of
the process, the heap included. Both rest on the walk of `map_patch_map`: its limit
is computed once from `_start`, and its start once from the end of the heap, while
the process goes on mapping and unmapping around it.

## Main definitions

* `PatchMap.InReach` — what a near jump needs of a mapping.
* `handed_inReach_iff` — the runs whose mappings are all in reach.
* `Process`, `ProcessEvent` — the sandbox among the other mappings of its process.
* `mapFixed_fresh` — the runs whose fixed mappings replace nothing.
-/

namespace Patchbox
open Lib

variable {img : Image}

/-! ## Near jumps -/

/-- Every byte of the blob is a signed 32-bit displacement away from the end of a five-byte
jump at any text address. -/
def PatchMap.InReach (img : Image) (pm : PatchMap) : Prop :=
  ∀ t b : ℕ, img.start_.toNat ≤ t → t < img.end_.toNat →
    pm.addr.toNat ≤ b → b < pm.addr.toNat + pm.size.toNat →
      -2 ^ 31 ≤ (b : ℤ) - (t + 5) ∧ (b : ℤ) - (t + 5) ≤ 2 ^ 31 - 1

/-- Where the reach of a jump at the first text address ends. -/
def Image.reachEnd (img : Image) : ℕ := img.start_.toNat + 5 + 2 ^ 31

/-- The call is refused, or what it asks for fits below the end of the reach, counted from
where the allocator stands. -/
def MapCall.Near (m : MapState) : MapCall img → Prop
  | .map env size =>
      Mappable img env m size → size = 0 ∨
        (m.sample img env).last.stop + size.toNat ≤ img.reachEnd
  | .unmap _ => True

instance (m : MapState) (c : MapCall img) : Decidable (c.Near m) :=
  match c with
  | .map _ _ => inferInstanceAs (Decidable (_ → _))
  | .unmap _ => inferInstanceAs (Decidable True)

/-- Above the text only the first text address and the last byte matter. -/
theorem PatchMap.inReach_iff {pm : PatchMap} (htext : img.start_.toNat < img.end_.toNat)
    (habove : img.end_.toNat ≤ pm.addr.toNat) :
    pm.InReach img ↔ pm.size = 0 ∨ pm.addr.toNat + pm.size.toNat ≤ img.reachEnd := by
  rw [Image.reachEnd]
  constructor
  · intro h
    by_cases h0 : pm.size = 0
    · exact .inl h0
    · have hpos : pm.size.toNat ≠ 0 := fun hz => h0 (BitVec.eq_of_toNat_eq hz)
      have hlast := (h img.start_.toNat (pm.addr.toNat + pm.size.toNat - 1) le_rfl htext
        (by omega) (by omega)).2
      exact .inr (by omega)
  · intro h t b hstart hend hlow hhigh
    rcases h with h0 | hle
    · rw [h0] at hhigh
      exact absurd hhigh (Nat.not_lt.mpr hlow)
    · constructor
      · omega
      · omega

/-- One call keeps the allocator above the program. -/
theorem MapState.Above.mapRun_step {r : MapRun img} (h : r.state.Above img) (c : MapCall img)
    (hc : c.blobSize < maxPatchSize) : (r.step c).state.Above img := by
  cases c with
  | unmap pm =>
      simp only [MapRun.step, unmapPatchMap_eq]
      exact h.forget _ Finset.sdiff_subset
  | map env size =>
      by_cases hm : Mappable img env r.state size
      · simp only [MapRun.step, mapPatchMap_of_mappable ⟨0, size⟩ hm]
        exact (h.extend hc hm).above
      · obtain ⟨-, -, hstate⟩ := mapPatchMap_of_not_mappable ⟨0, size⟩ hm
        simp only [MapRun.step, hstate]
        exact h.sample env

/-- **One call** hands out a mapping in reach, or none, exactly when it is near. -/
theorem handed_step_inReach_iff {r : MapRun img} (htext : img.start_.toNat < img.end_.toNat)
    (h : r.state.Above img) (c : MapCall img) (hc : c.blobSize < maxPatchSize) :
    (∀ pm ∈ (r.step c).handed, pm.InReach img) ↔
      (∀ pm ∈ r.handed, pm.InReach img) ∧ c.Near r.state := by
  cases c with
  | unmap pm => simp only [MapRun.step, MapCall.Near, and_true]
  | map env size =>
      by_cases hm : Mappable img env r.state size
      · have hplaced := (h.extend hc hm).placed
        have haddr := (h.sample env).wf.toNat_nextMap size
        have hreach := PatchMap.inReach_iff htext hplaced.above_text
        rw [haddr] at hreach
        simp only [MapRun.step, mapPatchMap_of_mappable ⟨0, size⟩ hm, if_true,
          List.forall_mem_cons, MapCall.Near, hm, true_imp_iff]
        rw [hreach, and_comm]
      · obtain ⟨hcode, -, -⟩ := mapPatchMap_of_not_mappable ⟨0, size⟩ hm
        simp only [MapRun.step, if_neg hcode, MapCall.Near, hm, false_imp_iff, and_true]

/-- **The mappings along a run.** All of them are in reach of every text address exactly when
every call is near: the limit of the source lets a mapping start eight times as far away as
its comment says. -/
theorem handed_inReach_iff (mem : Mem 64) (calls : List (MapCall img))
    (htext : img.start_.toNat < img.end_.toNat)
    (hsize : ∀ c ∈ calls, c.blobSize < maxPatchSize) :
    (∀ pm ∈ (run MapRun.step (MapRun.init mem) calls).handed, pm.InReach img) ↔
      Along MapRun.step (fun r c => c.Near r.state) (MapRun.init mem) calls := by
  suffices hrun : ∀ (cs : List (MapCall img)) (r : MapRun img), r.state.Above img →
      (∀ c ∈ cs, c.blobSize < maxPatchSize) →
      ((∀ pm ∈ (run MapRun.step r cs).handed, pm.InReach img) ↔
        (∀ pm ∈ r.handed, pm.InReach img) ∧
          Along MapRun.step (fun r c => c.Near r.state) r cs) by
    have hinit := hrun calls (MapRun.init mem) (MapState.above_init mem) hsize
    simpa [MapRun.init] using hinit
  intro cs
  induction cs with
  | nil =>
      intro r _ _
      simp
  | cons c cs ih =>
      intro r hr hcs
      have hc := hcs c (by simp)
      rw [run_cons, ih (r.step c) (hr.mapRun_step c hc) fun d hd => hcs d (by simp [hd]),
        handed_step_inReach_iff htext hr c hc, along_cons, and_assoc]

/-- The calls of the sample run are near. -/
theorem handed_inReach_sample :
    let r := run MapRun.step (MapRun.init fun _ => 0) sampleCalls
    r.handed = [⟨0x703000, 10⟩, ⟨0x701000, 4096⟩] ∧ ∀ pm ∈ r.handed, pm.InReach sampleImage := by
  refine ⟨by decide, ?_⟩
  have hreach := handed_inReach_iff (fun _ => 0) sampleCalls (by decide) (by decide)
  exact hreach.mpr ⟨by decide, by decide, by decide, by decide, trivial⟩

/-- A heap that has grown to four gigabytes. -/
def farHeap : ProcMap sampleImage where
  addrEnd := 0x100000000
  pathname := heapTag
  page_aligned := by decide
  user_space := fun _ => by decide
  heap_above := fun _ => by decide

/-- One mapping above it. -/
def farCalls : List (MapCall sampleImage) := [.map ⟨some [farHeap], true⟩ 10]

/-- The call is answered `SANDBOX_OK`, and no jump reaches the mapping. -/
theorem handed_out_of_reach :
    ¬∀ pm ∈ (run MapRun.step (MapRun.init fun _ => 0) farCalls).handed,
      pm.InReach sampleImage := by
  have hhanded : (run MapRun.step (MapRun.init fun _ => 0) farCalls).handed =
      [⟨0x100101000, 10⟩] := by decide
  rw [hhanded]
  intro h
  have hreach := (h ⟨0x100101000, 10⟩ (by simp) 0x400000 0x100101000 (by decide) (by decide)
    (by decide) (by decide)).2
  omega

/-! ## The other mappings of the process -/

/-- A mapping that is not a blob: its entry in `/proc/<pid>/maps`, and the pages it holds.
`find_sandbox_start` reads the entries only before the first blob is mapped. -/
structure Region (img : Image) extends ProcMap img where
  pages : Finset ℕ
  below_end : ∀ n ∈ pages, n * pageSize < addrEnd.toNat

/-- The sandbox, and what else is mapped. -/
structure Process (img : Image) where
  sandbox : Sandbox
  others : List (Region img)

/-- What happens to a process: its other mappings change, or a request is served. -/
inductive ProcessEvent (img : Image) where
  | change (others : List (Region img))
  | apply (env : ApplyEnv img) (arg : ℕ → Byte)
  | undo (arg : ℕ → Byte)

/-- The kernel places what the process maps around the pages that are held. -/
def Fits (others : List (Region img)) (held : Finset ℕ) : Prop :=
  ∀ r ∈ others, ∀ n ∈ r.pages, n ∉ held

instance (others : List (Region img)) (held : Finset ℕ) : Decidable (Fits others held) :=
  inferInstanceAs (Decidable (∀ _ ∈ _, _))

/-- The listing shows the mappings of the moment, when it can be read. -/
def Process.listed (p : Process img) (env : ApplyEnv img) : ApplyEnv img :=
  { env with procmaps := env.procmaps.map fun _ => p.others.map Region.toProcMap }

/-- The request that an event is. -/
def Process.request (p : Process img) : ProcessEvent img → Option (Request img)
  | .change _ => none
  | .apply env arg => some (.apply (p.listed env) arg)
  | .undo arg => some (.undo arg)

/-- The pages that `map_patch_map` maps with `MAP_FIXED` while an event is served. It is called
for a message whose header is accepted and declares a blob. -/
def Process.mapFixed (p : Process img) : ProcessEvent img → Finset ℕ
  | .apply env arg =>
      let apply := XenlpApply4.load arg
      if Received env arg ∧ apply.HasBlob then
        let (ccode, pm, _) := mapPatchMap img (p.listed env).toMapEnv
          ⟨0, apply.bloblen.setWidth 64⟩ p.sandbox.maps
        if ccode = sandboxOk then pagesOf pm.addr.toNat (mappedLen pm.size).toNat else ∅
      else ∅
  | _ => ∅

/-- What is left of a mapping once `MAP_FIXED` has replaced some of its pages. -/
def Region.without (r : Region img) (fixed : Finset ℕ) : Region img :=
  { r with
    pages := r.pages \ fixed
    below_end := fun n hn => r.below_end n (Finset.mem_sdiff.mp hn).1 }

/-- One event. A change that does not fit is refused. -/
def Process.step (p : Process img) (e : ProcessEvent img) : Process img :=
  match e with
  | .change others => if Fits others p.sandbox.maps.mapped then { p with others := others } else p
  | .apply env arg =>
      { sandbox := p.sandbox.step (.apply (p.listed env) arg)
        others := p.others.map fun r => r.without (p.mapFixed (.apply env arg)) }
  | .undo arg => { p with sandbox := p.sandbox.step (Request.undo arg : Request img) }

/-- The pages mapped with `MAP_FIXED` belong to no mapping of the moment, another one or a
blob's. -/
def Process.Fresh (p : Process img) (e : ProcessEvent img) : Prop :=
  ∀ n ∈ p.mapFixed e, n ∉ p.sandbox.maps.mapped ∧ ∀ r ∈ p.others, n ∉ r.pages

/-- The limit of `map_patch_map`. -/
def Image.ultimateLimit (img : Image) : ℕ := ((img.start_ + 8 * 0xffffffff) &&& pageMask).toNat

/-- No other mapping has a page between `mark` and the limit. -/
def Unbarred (others : List (Region img)) (mark : ℕ) : Prop :=
  ∀ r ∈ others, ∀ n ∈ r.pages, n * pageSize < mark ∨ img.ultimateLimit ≤ n * pageSize

/-- The event leaves the allocator its way: the first request that may map finds nothing between
the heap with its hole and the limit, and no later change puts a mapping above the last blob. -/
def Process.LeavesRoom (p : Process img) : ProcessEvent img → Prop
  | .change others =>
      Fits others p.sandbox.maps.mapped → p.sandbox.maps.last.addr ≠ 0 →
        Unbarred others p.sandbox.maps.last.stop
  | .apply env _ =>
      p.sandbox.maps.last.addr = 0 →
        Unbarred p.others (p.sandbox.maps.sample img (p.listed env).toMapEnv).last.stop
  | .undo _ => True

instance (others : List (Region img)) (mark : ℕ) : Decidable (Unbarred others mark) :=
  inferInstanceAs (Decidable (∀ _ ∈ _, ∀ _ ∈ _, _))

instance (p : Process img) (e : ProcessEvent img) : Decidable (p.LeavesRoom e) :=
  match e with
  | .change _ => inferInstanceAs (Decidable (_ → _ → _))
  | .apply _ _ => inferInstanceAs (Decidable (_ → _))
  | .undo _ => inferInstanceAs (Decidable True)

/-- The allocator is above the program, its limit is the one computed from `_start`, and once
its start was sampled the way up to the limit is free. -/
structure Process.Inv (p : Process img) : Prop where
  above : p.sandbox.maps.Above img
  limit : p.sandbox.maps.ultimateLimit.toNat ≤ img.ultimateLimit
  clear : p.sandbox.maps.last.addr ≠ 0 → Unbarred p.others p.sandbox.maps.last.stop

/-- A process before the first request. -/
def Process.init (text mem : Mem 64) (others : List (Region img)) : Process img :=
  ⟨Sandbox.init text mem, others⟩

theorem Process.inv_init (text mem : Mem 64) (others : List (Region img)) :
    (Process.init text mem others).Inv where
  above := MapState.above_init mem
  limit := Nat.zero_le _
  clear := fun h => absurd rfl h

theorem MapState.sample_ultimateLimit {m : MapState} (env : MapEnv img)
    (h : m.ultimateLimit.toNat ≤ img.ultimateLimit) :
    (m.sample img env).ultimateLimit.toNat ≤ img.ultimateLimit := by
  by_cases h0 : m.ultimateLimit = 0
  · rw [MapState.sample, h0]
    exact le_rfl
  · have heq : (m.sample img env).ultimateLimit = m.ultimateLimit := if_neg h0
    rw [heq]
    exact h

/-- Fewer pages are free as well. -/
theorem Unbarred.without {others : List (Region img)} {mark mark' : ℕ} (h : Unbarred others mark)
    (hle : mark ≤ mark') (fixed : Finset ℕ) :
    Unbarred (others.map fun r => r.without fixed) mark' := by
  intro r hr n hn
  obtain ⟨r', hr', rfl⟩ := List.mem_map.mp hr
  rcases h r' hr' n (Finset.mem_sdiff.mp hn).1 with hlt | hle'
  · exact .inl (hlt.trans_le hle)
  · exact .inr hle'

/-- The statics once the blob of a message is mapped. -/
theorem blobMaps_statics (env : MapEnv img) (apply : XenlpApply4) (m : MapState) :
    ((blobMaps img env apply m).last = m.last ∧
        (blobMaps img env apply m).ultimateLimit = m.ultimateLimit) ∨
      (blobMaps img env apply m).ultimateLimit = (m.sample img env).ultimateLimit ∧
        ∃ size, (blobMaps img env apply m).last = ⟨(nextMap (m.sample img env).last size).addr, size⟩ := by
  rw [blobMaps]
  split_ifs
  · exact .inr ⟨rfl, _, rfl⟩
  · exact .inl ⟨rfl, rfl⟩

/-- Memory and pages are apart from the statics. -/
theorem MapState.statics_eq {m m' : MapState} {mapped : Finset ℕ} {mem : Mem 64}
    (h : m' = { m with mapped := mapped, mem := mem }) :
    m'.last = m.last ∧ m'.ultimateLimit = m.ultimateLimit := by
  subst h
  exact ⟨rfl, rfl⟩

/-- What a request does to the statics: nothing, or it samples them and may map a blob where
the sampled mark is. -/
theorem Served.statics {s s' : Sandbox} {r : Request img} (h : Served img s r s') :
    (s'.maps.last = s.maps.last ∧ s'.maps.ultimateLimit = s.maps.ultimateLimit) ∨
      ∃ env arg, r = .apply env arg ∧
        s'.maps.ultimateLimit = (s.maps.sample img env.toMapEnv).ultimateLimit ∧
        (s'.maps.last = (s.maps.sample img env.toMapEnv).last ∨
          ∃ size, s'.maps.last =
            ⟨(nextMap (s.maps.sample img env.toMapEnv).last size).addr, size⟩) := by
  cases h with
  | refused => exact .inl ⟨rfl, rfl⟩
  | @sampled env arg maps hacc hmaps =>
      subst hmaps
      exact .inr ⟨env, arg, rfl, rfl, .inl rfl⟩
  | @released env arg mem maps hrec hacc hblob hmaps =>
      obtain ⟨hlast, hlimit⟩ := MapState.statics_eq hmaps
      rcases blobMaps_statics env.toMapEnv (XenlpApply4.load arg) s.maps with
        ⟨hl, hu⟩ | ⟨hu, size, hl⟩
      · exact .inl ⟨hlast.trans hl, hlimit.trans hu⟩
      · exact .inr ⟨env, arg, rfl, hlimit.trans hu, .inr ⟨size, hlast.trans hl⟩⟩
  | @applied env arg mem writes patch maps hacc hwrites hpatch hmaps =>
      obtain ⟨hlast, hlimit⟩ := MapState.statics_eq hmaps
      rcases blobMaps_statics env.toMapEnv (XenlpApply4.load arg) s.maps with
        ⟨hl, hu⟩ | ⟨hu, size, hl⟩
      · exact .inl ⟨hlast.trans hl, hlimit.trans hu⟩
      · exact .inr ⟨env, arg, rfl, hlimit.trans hu, .inr ⟨size, hlast.trans hl⟩⟩
  | @undone arg newer older ap maps hundo hmaps =>
      exact .inl (MapState.statics_eq hmaps)

/-- A request leaves the mark where it was, or at or above the mark it samples. -/
theorem Served.mark {s s' : Sandbox} {r : Request img} (h : Served img s r s')
    (habove : s.maps.Above img) :
    s'.maps.last = s.maps.last ∨ ∃ env arg, r = .apply env arg ∧
      (s.maps.sample img env.toMapEnv).last.stop ≤ s'.maps.last.stop := by
  rcases h.statics with ⟨hlast, -⟩ | ⟨env, arg, rfl, -, hlast | ⟨size, hlast⟩⟩
  · exact .inl hlast
  · exact .inr ⟨env, arg, rfl, by rw [hlast]⟩
  · refine .inr ⟨env, arg, rfl, ?_⟩
    rw [hlast, ← (habove.sample env.toMapEnv).wf.toNat_nextMap size]
    exact Nat.le_add_right _ _

/-- The mark that a message finds is free up to the limit. -/
theorem Process.Inv.unbarred {p : Process img} (h : p.Inv) {env : ApplyEnv img}
    {arg : ℕ → Byte} (hroom : p.LeavesRoom (.apply env arg)) :
    Unbarred p.others (p.sandbox.maps.sample img (p.listed env).toMapEnv).last.stop := by
  by_cases h0 : p.sandbox.maps.last.addr = 0
  · exact hroom h0
  · rw [MapState.sample_last_of_ne _ h0]
    exact h.clear h0

/-- **One event keeps the way free.** -/
theorem Process.Inv.step {p : Process img} (h : p.Inv) {e : ProcessEvent img}
    (hroom : p.LeavesRoom e) : (p.step e).Inv := by
  have hserve : ∀ r : Request img, (p.sandbox.step r).maps.Above img ∧
      (p.sandbox.step r).maps.ultimateLimit.toNat ≤ img.ultimateLimit := by
    intro r
    have hserved := served p.sandbox r
    refine ⟨(hserved.maps h.above).1, ?_⟩
    rcases hserved.statics with ⟨-, hl⟩ | ⟨env, arg, -, hl, -⟩
    · rw [hl]
      exact h.limit
    · rw [hl]
      exact MapState.sample_ultimateLimit env.toMapEnv h.limit
  cases e with
  | change others =>
      rw [Process.step]
      split_ifs with hfits
      · exact ⟨h.above, h.limit, fun hne => hroom hfits hne⟩
      · exact h
  | apply env arg =>
      obtain ⟨habove, hlimit⟩ := hserve (.apply (p.listed env) arg)
      refine ⟨habove, hlimit, fun hne => ?_⟩
      have hfree := h.unbarred hroom
      rcases (served p.sandbox (.apply (p.listed env) arg)).mark h.above with
        hlast | ⟨env', arg', heq, hle⟩
      · refine Unbarred.without hfree ?_ _
        have hne' : p.sandbox.maps.last.addr ≠ 0 := by
          rw [← hlast]
          exact hne
        rw [MapState.sample_last_of_ne _ hne']
        exact (congrArg PatchMap.stop hlast).ge
      · cases heq
        exact hfree.without hle _
  | undo arg =>
      obtain ⟨habove, hlimit⟩ := hserve (.undo arg)
      refine ⟨habove, hlimit, fun hne => ?_⟩
      rcases (served p.sandbox (Request.undo arg : Request img)).mark h.above with
        hlast | ⟨env', arg', heq, -⟩
      · have hlast' : (p.step (.undo arg)).sandbox.maps.last = p.sandbox.maps.last := hlast
        rw [hlast'] at hne ⊢
        exact h.clear hne
      · cases heq

/-- The pages of a mapping that succeeds lie between the mark and the limit. -/
theorem Mappable.between {env : MapEnv img} {m : MapState} {size : BitVec 64}
    (hm : Mappable img env m size) (hwf : (m.sample img env).WF)
    (hlt : size.toNat < maxPatchSize) (hne : size ≠ 0) {n : ℕ}
    (hn : n ∈ pagesOf (nextMap (m.sample img env).last size).addr.toNat (mappedLen size).toNat) :
    (m.sample img env).last.stop ≤ n * pageSize ∧
      n * pageSize < (m.sample img env).ultimateLimit.toNat := by
  obtain ⟨-, hlimit, -, huser⟩ := hm
  have hstart := hwf.toNat_nextMap size
  have hpages : n ∈ PatchMap.pages ⟨(nextMap (m.sample img env).last size).addr, size⟩ := by
    rw [PatchMap.pages, if_neg hne]
    exact hn
  obtain ⟨hlow, hhigh⟩ := (@PatchMap.mem_pages ⟨(nextMap (m.sample img env).last size).addr, size⟩
    (hstart ▸ hwf.stop_aligned) hlt hne n).mp hpages
  -- the sum that the source compares with the limit does not wrap
  have hsum : ((nextMap (m.sample img env).last size).addr
      + (nextMap (m.sample img env).last size).size).toNat
      = (nextMap (m.sample img env).last size).addr.toNat + (mappedLen size).toNat := by
    rw [BitVec.toNat_add]
    exact Nat.mod_eq_of_lt (by simp only [userSpaceEnd] at huser; omega)
  have hlimit' := BitVec.lt_def.mp hlimit
  rw [hsum] at hlimit'
  simp only [PatchMap.stop] at hhigh
  rw [hstart] at hlow
  exact ⟨hlow, by omega⟩

/-- The pages mapped for a message lie between the mark and the limit. -/
theorem Process.Inv.mem_mapFixed {p : Process img} (h : p.Inv) {env : ApplyEnv img}
    {arg : ℕ → Byte} {n : ℕ} (hn : n ∈ p.mapFixed (.apply env arg)) :
    (p.sandbox.maps.sample img (p.listed env).toMapEnv).last.stop ≤ n * pageSize ∧
      n * pageSize < img.ultimateLimit := by
  have hwf := (h.above.sample (p.listed env).toMapEnv).wf
  have hlimit := MapState.sample_ultimateLimit (p.listed env).toMapEnv h.limit
  simp only [Process.mapFixed] at hn
  by_cases hb : Received env arg ∧ (XenlpApply4.load arg).HasBlob
  · rw [if_pos hb] at hn
    by_cases hm : Mappable img (p.listed env).toMapEnv p.sandbox.maps
        ((XenlpApply4.load arg).bloblen.setWidth 64)
    · have hsize := toNat_bloblen (XenlpApply4.load arg)
      have hne : (XenlpApply4.load arg).bloblen.setWidth 64 ≠ 0 := by
        intro hz
        rw [hz] at hsize
        exact hb.2.1 (BitVec.eq_of_toNat_eq hsize.symm)
      rw [mapPatchMap_of_mappable ⟨0, (XenlpApply4.load arg).bloblen.setWidth 64⟩ hm] at hn
      have hlt : ((XenlpApply4.load arg).bloblen.setWidth 64).toNat < maxPatchSize := by
        rw [hsize]
        exact hb.2.2
      obtain ⟨hmark, hend⟩ := hm.between hwf hlt hne hn
      exact ⟨hmark, hend.trans_le hlimit⟩
    · have hcode := (mapPatchMap_of_not_mappable
        ⟨0, (XenlpApply4.load arg).bloblen.setWidth 64⟩ hm).1
      rw [if_neg hcode] at hn
      exact absurd hn (Finset.notMem_empty n)
  · rw [if_neg hb] at hn
    exact absurd hn (Finset.notMem_empty n)

/-- **One event maps fresh pages only** where the way is free. -/
theorem Process.Inv.fresh {p : Process img} (h : p.Inv) {e : ProcessEvent img}
    (hroom : p.LeavesRoom e) : p.Fresh e := by
  cases e with
  | change others => exact fun n hn => absurd hn (Finset.notMem_empty n)
  | undo arg => exact fun n hn => absurd hn (Finset.notMem_empty n)
  | apply env arg =>
      intro n hn
      obtain ⟨hmark, hlimit⟩ := h.mem_mapFixed hn
      refine ⟨fun hheld => ?_, fun r hr hother => ?_⟩
      · have hbelow := (h.above.sample (p.listed env).toMapEnv).wf.pages_lt n hheld
        omega
      · rcases h.unbarred hroom r hr n hother with hlt | hle
        · omega
        · omega

/-- **The fixed mappings of a run.** While every event leaves the allocator its way, no page
that `map_patch_map` maps belonged to the heap, to another mapping or to a live blob. -/
theorem mapFixed_fresh (text mem : Mem 64) (others : List (Region img))
    (es : List (ProcessEvent img))
    (h : Along Process.step Process.LeavesRoom (Process.init text mem others) es) :
    Along Process.step Process.Fresh (Process.init text mem others) es :=
  h.of_invariant (fun _ _ hp he => hp.step he) (fun _ _ hp he => hp.fresh he)
    (Process.inv_init text mem others)

theorem toNat_pageStart {stop : ℕ} (h : stop ≤ 0x1000) :
    (BitVec.ofNat 64 (stop * pageSize)).toNat = stop * pageSize := by
  rw [BitVec.toNat_ofNat]
  exact Nat.mod_eq_of_lt (by simp only [pageSize]; omega)

/-- The heap of the sample program, from the end of the image up to the page `stop`. -/
def heapRegion (stop : ℕ) (h : 0x500 ≤ stop ∧ stop ≤ 0x1000) : Region sampleImage where
  addrEnd := BitVec.ofNat 64 (stop * pageSize)
  pathname := heapTag
  page_aligned := by rw [toNat_pageStart h.2]; exact Nat.mul_mod_left _ _
  user_space := fun _ => by
    rw [toNat_pageStart h.2]
    simp only [pageSize, userSpaceEnd]
    omega
  heap_above := fun _ => by
    rw [toNat_pageStart h.2]
    change 0x500000 ≤ _
    simp only [pageSize]
    omega
  pages := Finset.Ico 0x500 stop
  below_end := fun n hn => by
    rw [toNat_pageStart h.2]
    exact Nat.mul_lt_mul_of_pos_right (Finset.mem_Ico.mp hn).2 (by decide)

/-- Apply ten bytes, grow the heap inside its hole, apply ten more, and undo the first. -/
def roomyRun : List (ProcessEvent sampleImage) :=
  [.apply sampleEnv (blobMessage 1 10 0x401000), .change [heapRegion 0x680 (by decide)],
    .apply sampleEnv (blobMessage 2 10 0x402000), .undo (tagHash 1)]

/-- Every event of that run leaves room. -/
theorem mapFixed_fresh_roomyRun :
    let p := Process.init (fun _ => 0) (fun _ => 0) [heapRegion 0x600 (by decide)]
    Along Process.step Process.LeavesRoom p roomyRun ∧
      Along Process.step Process.Fresh p roomyRun := by
  have halong : Along Process.step Process.LeavesRoom
      (Process.init (fun _ => 0) (fun _ => 0) [heapRegion 0x600 (by decide)]) roomyRun :=
    ⟨by decide +kernel, by decide +kernel, by decide +kernel, by decide +kernel, trivial⟩
  exact ⟨halong, mapFixed_fresh _ _ _ roomyRun halong⟩

/-- Apply ten bytes, undo them, let the heap grow past the place where they were, and apply
ten more. -/
def heapGrowsRun : List (ProcessEvent sampleImage) :=
  [.apply sampleEnv (blobMessage 1 10 0x401000), .undo (tagHash 1),
    .change [heapRegion 0x800 (by decide)], .apply sampleEnv (blobMessage 2 10 0x401000)]

/-- The second blob replaces a page in the middle of the heap. -/
theorem mapFixed_in_heap :
    ¬Along Process.step Process.Fresh
      (Process.init (fun _ => 0) (fun _ => 0) [heapRegion 0x600 (by decide)]) heapGrowsRun := by
  rintro ⟨-, -, -, hlast, -⟩
  have hheap := (hlast 0x702 (by decide +kernel)).2
  exact absurd hheap (by decide +kernel)

end Patchbox
