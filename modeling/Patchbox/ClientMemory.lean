import Patchbox.Passes

/-!
# The client's memory

The loop over the second-level relocations writes to two arrays of the client. The blob is changed
at the offset of each relocation. The index into the dependencies is checked in front of it; the
offset is checked by the server, when the message gets there. The offset is also put behind the
relocations that were read, where `read_reloc_data3` has made room for it.

## Main definitions

* `KeepsToBlob` — a run of `_cmd_apply4` changes nothing around the blob.
* `keepsToBlob_iff` — when all runs keep to it.
* `numbered`, `RelocsFit` — what is put behind the relocations, and whether there is room.
* `relocsFit_iff` — when there is in all runs.
-/

namespace Patchbox
open Lib

variable {img : Image} {info : List Byte} {p : Patch} {s : Sandbox} {l : Link} {left : ℕ}

/-! ## The blob -/

/-- The second-level relocation `i` of the patch lies in the blob. -/
def Patch.InBlob (p : Patch) (i : ℕ) : Prop :=
  ∃ r, p.relocs3.1[i]? = some r ∧ r.offset.toNat + 4 ≤ p.blob.1.length

/-- It names a dependency. -/
def Patch.HasDep (p : Patch) (i : ℕ) : Prop :=
  ∃ r, p.relocs3.1[i]? = some r ∧ r.index.toNat < p.deps.1.length

/-- A run of `_cmd_apply4` returns -1 without a message, or all its relocations are valid; and
all are inside the blob. -/
structure KeepsToBlob (p : Patch)
    (run : List (ClientRequest ⊕ ℕ) × Option (Option Patch × Sandbox × Link)) : Prop where
  refused_or_valid : (run.2.map Prod.fst = some none ∧ none ∉ events run.1) ∨
    ∀ i, some i ∈ events run.1 → p.HasDep i ∧ p.InBlob i
  inside : ∀ i, some i ∈ events run.1 → p.InBlob i

/-- A relocation that is performed. -/
theorem getElem?_relocs3 {i : ℕ} (hi : i < p.performed.length) :
    p.relocs3.1[i]? = some p.performed[i] := by
  obtain ⟨rest, hrest⟩ := exists_performed_append p
  rw [← hrest, List.getElem?_append_left hi, List.getElem?_eq_getElem hi]

theorem some_mem_pass {i : ℕ} : some i ∈ p.pass ↔ i < p.performed.length := by
  rw [Patch.pass, List.mem_append, List.mem_map]
  constructor
  · rintro (⟨j, hj, hij⟩ | hnone)
    · obtain rfl := Option.some.inj hij
      exact List.mem_range.mp hj
    · split_ifs at hnone
      · cases List.mem_singleton.mp hnone
      · cases hnone
  · intro hi
    exact .inl ⟨i, List.mem_range.mpr hi, rfl⟩

/-- **One pass** stays within its events. -/
theorem events_cmdApply4 {bound : List (Option ℕ)} (hblob : p.blob.1.length < 2 ^ 31)
    (hclean : l.Clean)
    (hbound : Searched s p → p.deps.1.length + 1 ≤ l.left → p.pass <+: bound)
    (env : ℕ → SystemEnv img info) :
    events ((cmdApply4 p).run (sandboxService img info) env s l).1 <+: bound := by
  have hsafe : (cmdApply4 p).Safe (sandboxService img info) (fun _ => True)
      (fun _ tr => events tr <+: bound) (fun _ _ _ _ => True) s l [] :=
    safe_events_applyPatch hclean rfl (length_message_lt (blob_lt_sent hblob s)).1
      List.nil_prefix hbound (fun _ _ _ => True.intro) (fun _ _ _ _ => True.intro)
      fun _ _ _ _ _ _ _ _ _ _ _ => True.intro
  obtain ⟨⟨-, hevents⟩, -⟩ := hsafe.run (fun _ => True.intro) List.nil_prefix env
  exact hevents

/-- All the relocations in front of the first invalid one can be performed. -/
theorem exists_events_cmdApply4 (hl : l.Serving left) (hsearched : Searched s p)
    (hleft : p.deps.1.length + 1 ≤ left) :
    ∃ env : ℕ → SystemEnv img info, (List.range p.performed.length).map some <+:
      events ((cmdApply4 p).run (sandboxService img info) env s l).1 := by
  obtain ⟨spare, rfl⟩ := Nat.exists_eq_add_of_le' hleft
  have env : ApplyEnv img := ⟨⟨none, false⟩, false, false, false, false⟩
  obtain ⟨l', -, hsearch⟩ := @path_searchPatches img info p s l spare env (fun _ => 0) hl hsearched
  obtain ⟨rest, hrest⟩ := exists_performed_append p
  have hloop := @path_applyRelocs3 img info s l' (resolveDeps s p).1 p.performed rest
    (fun r hr => (index_lt_of_mem_performed hr).trans_eq (resolveDeps s p).2.symm) 0 p.blob
  rw [hrest] at hloop
  have hpath : Client.Path (sandboxService img info) (cmdApply4 p) s l _ _ s l' :=
    hsearch.andThen (hloop.bind _)
  obtain ⟨env', hrun⟩ := hpath.run fun _ => granting info env fun _ => 0
  refine ⟨env', ?_⟩
  rw [hrun, events_append, events_append, events_lists, events_marks]
  exact List.prefix_append _ _

/-- **The client changes nothing around the blob** when the search is not successful, or the
relocations in front of the first invalid one lie in the blob. -/
theorem keepsToBlob_iff (hash : List Byte → Bytes shaDigestLength) (filename f : List Byte)
    (p : Patch) (hload : loadPatchFile hash filename f = some p) (info : List Byte) (s : Sandbox)
    (l : Link) (left : ℕ) (hl : l.Serving left) :
    (∀ env : ℕ → SystemEnv img info,
      KeepsToBlob p ((cmdApply4 p).run (sandboxService img info) env s l)) ↔
        (Searched s p → p.deps.1.length + 1 ≤ left →
          ∀ r ∈ p.performed, r.offset.toNat + 4 ≤ p.blob.1.length) := by
  have hblob := blob_lt_of_loadPatchFile hash hload
  constructor
  · intro hall hsearched hleft r hr
    obtain ⟨env, hevents⟩ := @exists_events_cmdApply4 img info p s l left hl hsearched hleft
    obtain ⟨i, hi, rfl⟩ := List.mem_iff_getElem.mp hr
    have hmem : some i ∈ (List.range p.performed.length).map some :=
      List.mem_map_of_mem (List.mem_range.mpr hi)
    obtain ⟨r, hget, hin⟩ := (hall env).inside i (hevents.subset hmem)
    rw [getElem?_relocs3 hi] at hget
    exact Option.some.inj hget ▸ hin
  · intro hin env
    have hvalid : ∀ i, some i ∈ events ((cmdApply4 p).run (sandboxService img info) env s l).1 →
        p.HasDep i ∧ p.InBlob i := by
      intro i hi
      by_cases hgo : Searched s p ∧ p.deps.1.length + 1 ≤ left
      · have hpass := @events_cmdApply4 img info p s l p.pass hblob hl.clean
          (fun _ _ => List.prefix_rfl) env
        have hlt := some_mem_pass.mp (hpass.subset hi)
        have hmem := List.getElem_mem hlt
        exact ⟨⟨_, getElem?_relocs3 hlt, index_lt_of_mem_performed hmem⟩,
          _, getElem?_relocs3 hlt, hin hgo.1 hgo.2 _ hmem⟩
      · have hnone := @events_cmdApply4 img info p s l [] hblob hl.clean
          (fun hsearched hleft => absurd ⟨hsearched, hl.left_eq ▸ hleft⟩ hgo) env
        exact absurd (hnone.subset hi) List.not_mem_nil
    exact ⟨.inr hvalid, fun i hi => (hvalid i hi).2⟩

theorem keepsToBlob_iff_loadedCaller :
    (∀ env : ℕ → SystemEnv sampleImage sampleInfo, KeepsToBlob loadedCaller
      ((cmdApply4 loadedCaller).run (sandboxService sampleImage sampleInfo) env calleeSandbox
        Link.fresh)) ↔
      (Searched calleeSandbox loadedCaller →
        loadedCaller.deps.1.length + 1 ≤ sandboxMsgSessionLimit →
          ∀ r ∈ loadedCaller.performed, r.offset.toNat + 4 ≤ loadedCaller.blob.1.length) :=
  keepsToBlob_iff _ [] _ _ load_loadedCaller sampleInfo calleeSandbox Link.fresh _
    ⟨Link.clean_fresh, rfl, rfl⟩

/-- The patch with a relocation that runs over the end of its blob. -/
def overrunPatch : Patch := { callerPatch 0x400000 with relocs3 := .single ⟨0, 6⟩ }

/-- The word at offset 6 of a blob of eight bytes is changed. -/
theorem blob_overrun :
    let hash : List Byte → Bytes shaDigestLength := fun l _ => l.headD 0
    loadPatchFile hash [] (overrunPatch.encode hash) = some (overrunPatch.loaded hash) ∧
      ∃ env : ℕ → SystemEnv sampleImage sampleInfo, ¬KeepsToBlob (overrunPatch.loaded hash)
        ((cmdApply4 (overrunPatch.loaded hash)).run (sandboxService sampleImage sampleInfo) env
          calleeSandbox Link.fresh) := by
  intro hash
  have hsearched : Searched calleeSandbox (overrunPatch.loaded hash) :=
    searched_calleeSandbox rfl (List.forall_mem_singleton.mpr rfl)
  have hserving : Link.fresh.Serving sandboxMsgSessionLimit := ⟨Link.clean_fresh, rfl, rfl⟩
  have hdeps : (overrunPatch.loaded hash).deps.1.length = 1 := rfl
  have hperformed : (overrunPatch.loaded hash).performed.length = 1 := rfl
  obtain ⟨env, hevents⟩ := @exists_events_cmdApply4 sampleImage sampleInfo _ _ _ _ hserving
    hsearched (by rw [hdeps]; decide)
  refine ⟨loadPatchFile_of_encode hash (.inr (.inl rfl)) ⟨by decide, by decide⟩, env, fun h => ?_⟩
  rw [hperformed] at hevents
  obtain ⟨r, hr, hin⟩ := h.inside 0 (hevents.subset List.mem_cons_self)
  obtain rfl : r = ⟨0, 6⟩ := (Option.some.inj hr).symm
  exact absurd hin (by decide)

/-! ## The relocations -/

/-- Each event with what `numrelocs` is then: it grows in front of each message. -/
def numbered (numrelocs3 : BitVec 16) :
    BitVec 16 → List (Option ℕ) → List (BitVec 16 × Option ℕ)
  | _, [] => []
  | numrelocs, some i :: evs => (numrelocs, some i) :: numbered numrelocs3 numrelocs evs
  | numrelocs, none :: evs =>
    (numrelocs + numrelocs3, none) :: numbered numrelocs3 (numrelocs + numrelocs3) evs

/-- The events of a run on a patch. -/
def Patch.numbered (p : Patch) (evs : List (Option ℕ)) : List (BitVec 16 × Option ℕ) :=
  Patchbox.numbered p.relocs3.count p.relocs.count evs

/-- The array `relocs` has room for the relocations that are read and for those that the loops put
behind them, and `numrelocs` is their number when the loops are done. -/
structure RelocsFit (p : Patch) (evs : List (Option ℕ)) : Prop where
  read : ∀ i < p.relocs.1.length, i < p.relocsAlloc
  append : ∀ numrelocs i, (numrelocs, some i) ∈ p.numbered evs →
    numrelocs.toNat + i < p.relocsAlloc
  number : ∀ numrelocs, (numrelocs, none) ∈ p.numbered evs →
    numrelocs.toNat = p.relocs.1.length + p.relocs3.1.length

theorem numbered_front {numrelocs3 numrelocs : BitVec 16} {evs evs' : List (Option ℕ)}
    (h : evs <+: evs') :
    Patchbox.numbered numrelocs3 numrelocs evs <+: Patchbox.numbered numrelocs3 numrelocs evs' := by
  obtain ⟨behind, rfl⟩ := h
  induction evs generalizing numrelocs with
  | nil => exact List.nil_prefix
  | cons ev evs ih =>
      cases ev with
      | none => exact List.cons_prefix_cons.mpr ⟨rfl, ih⟩
      | some i => exact List.cons_prefix_cons.mpr ⟨rfl, ih⟩

/-- What fits in a run fits in the front of it. -/
theorem RelocsFit.of_front {evs evs' : List (Option ℕ)} (h : RelocsFit p evs')
    (hfront : evs <+: evs') : RelocsFit p evs :=
  have hsub := (numbered_front hfront).subset
  ⟨h.read, fun n i hmem => h.append n i (hsub hmem), fun n hmem => h.number n (hsub hmem)⟩

theorem numbered_some_append (numrelocs3 numrelocs : BitVec 16) (l : List ℕ)
    (evs : List (Option ℕ)) :
    Patchbox.numbered numrelocs3 numrelocs (l.map some ++ evs) =
      l.map (fun i => (numrelocs, some i)) ++ Patchbox.numbered numrelocs3 numrelocs evs := by
  induction l with
  | nil => rfl
  | cons i l ih => exact congrArg (List.cons _) ih

/-- The loader makes room for as many as the sum, as a `uint16_t`. -/
theorem relocsAlloc_eq {hash : List Byte → Bytes shaDigestLength} {filename f : List Byte}
    (hv : Trailed (getPatchVersion f)) (hload : loadPatchFile hash filename f = some p) :
    p.relocsAlloc = (p.relocs.1.length + p.relocs3.1.length) % 2 ^ 16 := by
  obtain ⟨sha1, hloaded, -⟩ := loaded_of_trailed hash hv hload
  rw [hloaded.relocsAlloc, relCount, BitVec.toNat_add, Counted.toNat_count, Counted.toNat_count]

/-- The number that the sent patch has. -/
theorem count_relocs_sent (p : Patch) (s : Sandbox) :
    (p.sent s).relocs.count = p.relocs.count + p.relocs3.count := by
  have hlen : (p.sent s).relocs.1.length =
      min (p.relocs.count + p.relocs3.count).toNat (p.relocs.1.length + p.relocs3.1.length) := by
    have hval : (p.sent s).relocs.1 = (p.relocs.1 ++ p.relocs3.1.map Reloc3.offset).take
        (p.relocs.count + p.relocs3.count).toNat := rfl
    rw [hval, List.length_take, List.length_append, List.length_map]
  rw [← BitVec.toNat_inj, Counted.toNat_count, hlen, BitVec.toNat_add, Counted.toNat_count,
    Counted.toNat_count]
  exact Nat.min_eq_left (Nat.mod_le _ _)

/-- What follows a pass is numbered as for the patch that was sent. -/
theorem numbered_pass_append (s : Sandbox)
    (h : ∀ r ∈ p.relocs3.1, r.index.toNat < p.deps.1.length) (evs : List (Option ℕ)) :
    p.numbered (p.pass ++ evs) = p.numbered p.pass ++ (p.sent s).numbered evs := by
  have hrelocs3 : (p.sent s).relocs3 = p.relocs3 := rfl
  simp only [Patch.numbered, pass_of_valid h, List.append_assoc, numbered_some_append, numbered,
    List.cons_append, List.nil_append, count_relocs_sent, hrelocs3]

/-- The events of one pass. -/
theorem mem_numbered_pass {numrelocs : BitVec 16} {ev : Option ℕ}
    (h : (numrelocs, ev) ∈ p.numbered p.pass) :
    (∃ i < p.relocs3.1.length, ev = some i ∧ numrelocs = p.relocs.count) ∨
      ev = none ∧ numrelocs = p.relocs.count + p.relocs3.count := by
  rw [Patch.numbered, Patch.pass, numbered_some_append, List.mem_append, List.mem_map] at h
  rcases h with ⟨i, hi, heq⟩ | h
  · obtain ⟨rfl, rfl⟩ := Prod.mk.inj heq
    exact .inl ⟨i, (List.mem_range.mp hi).trans_le (length_performed_le p), rfl, rfl⟩
  · split_ifs at h
    · obtain ⟨rfl, rfl⟩ := Prod.mk.inj (List.mem_singleton.mp h)
      exact .inr ⟨rfl, rfl⟩
    · cases h

/-- One pass fits when the sum does. -/
theorem relocsFit_pass
    (halloc : p.relocsAlloc = (p.relocs.1.length + p.relocs3.1.length) % 2 ^ 16)
    (hlt : p.relocs.1.length + p.relocs3.1.length < 2 ^ 16) : RelocsFit p p.pass := by
  have hmod := Nat.mod_eq_of_lt hlt
  refine ⟨fun i hi => by omega, fun n i hmem => ?_, fun n hmem => ?_⟩
  · rcases mem_numbered_pass hmem with ⟨j, hj, heq, rfl⟩ | ⟨hnone, -⟩
    · obtain rfl := Option.some.inj heq
      rw [halloc, hmod, Counted.toNat_count]
      exact Nat.add_lt_add_left hj _
    · cases hnone
  · rcases mem_numbered_pass hmem with ⟨j, -, heq, -⟩ | ⟨-, rfl⟩
    · cases heq
    · rw [BitVec.toNat_add, Counted.toNat_count, Counted.toNat_count, hmod]

/-- Without second-level relocations a second pass changes nothing. -/
theorem RelocsFit.again (s : Sandbox) (hnil : p.relocs3.1 = []) (h : RelocsFit p p.pass) :
    RelocsFit p (p.pass ++ p.pass) := by
  have hzero : p.relocs3.count = 0 := by
    rw [← BitVec.toNat_inj, Counted.toNat_count, hnil]
    rfl
  have hvalid : ∀ r ∈ p.relocs3.1, r.index.toNat < p.deps.1.length := by
    rw [hnil]
    exact fun r hr => absurd hr List.not_mem_nil
  have hsame : (p.sent s).numbered p.pass = p.numbered p.pass := by
    rw [Patch.numbered, count_relocs_sent, hzero, add_zero]
    rfl
  have hsub : ∀ x ∈ p.numbered (p.pass ++ p.pass), x ∈ p.numbered p.pass := by
    rw [numbered_pass_append s hvalid, hsame]
    exact fun x hx => (List.mem_append.mp hx).elim id id
  exact ⟨h.read, fun n i hmem => h.append n i (hsub _ hmem),
    fun n hmem => h.number n (hsub _ hmem)⟩

/-- With them it writes behind the array. -/
theorem not_relocsFit_twice (s : Sandbox)
    (halloc : p.relocsAlloc = (p.relocs.1.length + p.relocs3.1.length) % 2 ^ 16)
    (hvalid : ∀ r ∈ p.relocs3.1, r.index.toNat < p.deps.1.length) (hne : p.relocs3.1 ≠ []) :
    ¬RelocsFit p (p.pass ++ p.pass) := by
  intro h
  have hmem : ((p.sent s).relocs.count, some 0) ∈ (p.sent s).numbered p.pass := by
    rw [Patch.numbered, pass_of_valid hvalid, numbered_some_append]
    refine List.mem_append_left _ (List.mem_map.mpr ⟨0, ?_, rfl⟩)
    exact List.mem_range.mpr (List.length_pos_iff.mpr hne)
  have hlt := h.append _ 0 (numbered_pass_append s hvalid p.pass ▸ List.mem_append_right _ hmem)
  rw [halloc, count_relocs_sent, BitVec.toNat_add, Counted.toNat_count, Counted.toNat_count] at hlt
  omega

/-- **There is room for all relocations** when their number is a `uint16_t` and the loops do not
run twice. -/
theorem relocsFit_iff (hash : List Byte → Bytes shaDigestLength) (filename f : List Byte)
    (p : Patch) (hv : Trailed (getPatchVersion f))
    (hload : loadPatchFile hash filename f = some p) (info : List Byte) (s : Sandbox) (l : Link)
    (left : ℕ) (hl : l.Serving left) :
    (∀ env : ℕ → SystemEnv img info, RelocsFit p
      (events ((cmdApply hash filename (some f)).run (sandboxService img info) env s l).1)) ↔
        p.relocs.1.length + p.relocs3.1.length < 2 ^ 16 ∧
          (p.relocs3.1 = [] ∨ ¬(Repeats img info s p ∧ 2 * p.deps.1.length + 4 ≤ left)) := by
  have halloc := relocsAlloc_eq hv hload
  constructor
  · intro hall
    constructor
    · have hread := (hall fun _ => granting info ⟨⟨none, false⟩, false, false, false, false⟩
        fun _ => 0).read
      have hrelocs := p.relocs.2
      have hrelocs3 := p.relocs3.2
      by_contra hge
      -- the sum wraps around, and falls below one of the numbers
      have hlast := hread (p.relocs.1.length - 1) (by omega)
      omega
    · by_contra hnot
      obtain ⟨hne, htwice⟩ := not_or.mp hnot
      obtain ⟨hrepeats, hleft⟩ := not_not.mp htwice
      obtain ⟨env, hfront⟩ := hrepeats.exists_events hload hl hleft
      exact not_relocsFit_twice s halloc hrepeats.index hne ((hall env).of_front hfront)
  · rintro ⟨hlt, hor⟩ env
    have hfit := relocsFit_pass halloc hlt
    rcases hor with hnil | hnot
    · refine (hfit.again s hnil).of_front (events_cmdApply hload hl.clean ?_ ?_ env)
      · exact List.prefix_append _ _
      · exact fun _ _ => List.prefix_rfl
    · refine hfit.of_front (events_cmdApply hload hl.clean List.prefix_rfl ?_ env)
      exact fun hrepeats hleft => absurd ⟨hrepeats, hl.left_eq ▸ hleft⟩ hnot

theorem relocsFit_iff_loadedCaller :
    (∀ env : ℕ → SystemEnv sampleImage sampleInfo, RelocsFit loadedCaller
      (events ((cmdApply (fun l _ => l.headD 0) []
        (some ((callerPatch 0x400000).encode fun l _ => l.headD 0))).run
          (sandboxService sampleImage sampleInfo) env calleeSandbox Link.fresh).1)) ↔
      loadedCaller.relocs.1.length + loadedCaller.relocs3.1.length < 2 ^ 16 ∧
        (loadedCaller.relocs3.1 = [] ∨ ¬(Repeats sampleImage sampleInfo calleeSandbox loadedCaller ∧
          2 * loadedCaller.deps.1.length + 4 ≤ sandboxMsgSessionLimit)) :=
  relocsFit_iff _ [] _ _ (.inr (.inl (by decide +kernel))) load_loadedCaller sampleInfo
    calleeSandbox Link.fresh _ ⟨Link.clean_fresh, rfl, rfl⟩

/-- There is room for one relocation, and the second pass puts it at index 1. -/
theorem second_pass_overruns :
    loadPatchFile (fun l _ => l.headD 0) []
        ((callerPatch 0x400000).encode fun l _ => l.headD 0) = some loadedCaller ∧
      ∃ env : ℕ → SystemEnv sampleImage sampleInfo, ¬RelocsFit loadedCaller
        (events ((cmdApply (fun l _ => l.headD 0) []
          (some ((callerPatch 0x400000).encode fun l _ => l.headD 0))).run
            (sandboxService sampleImage sampleInfo) env calleeSandbox Link.fresh).1) := by
  obtain ⟨env, htwice⟩ := exists_events_loadedCaller
  refine ⟨load_loadedCaller, env, fun h => ?_⟩
  exact not_relocsFit_twice calleeSandbox rfl repeats_loadedCaller.index (List.cons_ne_nil _ _)
    (h.of_front htwice)

end Patchbox
