import Patchbox.Histories

/-!
# Jumps into blobs that are gone

Taking a patch out must not leave a jump into its blob. The list walk that should
protect newer patches looks at the declared dependencies of older ones, so nothing
stops an undo from under a newer patch of the same function: the newer patch has
saved the older one's jump, and puts it back when it is undone itself.

Along a run in which this does not happen, every address that was ever written shows
the jump of the newest live patch there, or the original text.

## Main definitions

* `History.Stale` — a written address holds a jump into a blob that is gone.
* `StepSound` — the condition on a request.
* `no_stale_jump` — a run of such requests never gets stale.
* `stale_crossedRun` — four accepted requests that do.
-/

namespace Patchbox
open Lib

variable {img : Image}

/-- An address of the program. -/
def InText (img : Image) (a : Addr) : Prop := img.start_ ≤ a ∧ a < img.end_

/-- The text has no jumps outside itself. -/
def JumpsInside (img : Image) (text : Mem 64) : Prop :=
  ∀ a target, InText img a → jumpTarget text a = some target → InText img target

/-- At an address written by some apply, a jump into the blob of a patch taken out. -/
def History.Stale (t : History) : Prop :=
  ∃ a ∈ t.written, ∃ target ∈ jumpTarget t.sandbox.text a, ∃ pm ∈ t.dead,
    target.toNat ∈ pm.blobRange

/-- None of the writes jumps into the blob. -/
def NoJumpInto (writes : List XenlpPatchWrite) (pm : PatchMap) : Prop :=
  ∀ pw ∈ writes, ∀ target ∈ pw.jump, target.toNat ∉ pm.blobRange

/-- A patch that is applied has disjoint ranges, each new or exactly one written before, and
does not jump into a blob that is gone; a patch that is undone meets no newer one, and none
that stays jumps into its blob. -/
def StepSound (t : History) : Request img → Prop
  | .apply env arg => Accepted env arg t.sandbox →
      WritesDisjoint (patchData img env arg t.sandbox).writes ∧
      (∀ pw ∈ (patchData img env arg t.sandbox).writes, ∀ a ∈ t.written,
        a = pw.hvabs ∨ Disjoint (Mem.block a 8) pw.block) ∧
      ∀ pm ∈ t.dead, NoJumpInto (patchData img env arg t.sandbox).writes pm
  | .undo arg => StepDisjoint t.sandbox (Request.undo arg : Request img) ∧
      ∀ u ∈ undoTarget arg t.sandbox, ∀ e ∈ t.live.eraseIdx u.1.length,
        NoJumpInto e.2 u.2.1.map

theorem StepSound.disjoint {t : History} {r : Request img} (h : StepSound t r) :
    StepDisjoint t.sandbox r := by
  cases r with
  | apply env arg => exact fun hacc => (h hacc).1
  | undo arg => exact h.1

instance (pm : PatchMap) (n : ℕ) : Decidable (n ∈ pm.blobRange) :=
  decidable_of_iff (pm.size ≠ 0 ∧ pm.addr.toNat ≤ n ∧ n < pm.stop) <| by
    rw [PatchMap.blobRange]
    split <;> simp_all [PatchMap.range, PatchMap.stop]

-- Addresses are a finite type: the instances below keep to the lists.
instance (t : History) : Decidable t.Stale :=
  have (a : Addr) : Decidable (∃ target ∈ jumpTarget t.sandbox.text a,
      ∃ pm ∈ t.dead, target.toNat ∈ pm.blobRange) := Option.decidableExistsMem _
  List.decidableBEx _ t.written

instance (writes : List XenlpPatchWrite) (pm : PatchMap) : Decidable (NoJumpInto writes pm) :=
  have (pw : XenlpPatchWrite) : Decidable (∀ target ∈ pw.jump, target.toNat ∉ pm.blobRange) :=
    Option.decidableForallMem _
  List.decidableBAll _ writes

instance (written : List Addr) (writes : List XenlpPatchWrite) :
    Decidable (∀ pw ∈ writes, ∀ a ∈ written, a = pw.hvabs ∨ Disjoint (Mem.block a 8) pw.block) :=
  have (pw : XenlpPatchWrite) :
      Decidable (∀ a ∈ written, a = pw.hvabs ∨ Disjoint (Mem.block a 8) pw.block) :=
    List.decidableBAll _ written
  List.decidableBAll _ writes

instance (t : History) (r : Request img) : Decidable (StepSound t r) :=
  match r with
  | .apply _ _ => inferInstanceAs (Decidable (_ → List.Pairwise _ _ ∧ _ ∧ _))
  | .undo _ => inferInstanceAs (Decidable (_ ∧ _))

/-! ## Where writes and blobs lie -/

/-- The writes of accepted data go to the text. -/
theorem inText_of_accepted {env : ApplyEnv img} {arg : ℕ → Byte} {s : Sandbox}
    (h : Accepted env arg s) {pw : XenlpPatchWrite} (hpw : pw ∈ (patchData img env arg s).writes) :
    InText img pw.hvabs := by
  obtain ⟨mem, relocs, writes, hmoved, heq⟩ := readPatchData_of_dataOk h.1.2
  obtain ⟨-, -, -, hwrites, -⟩ := ReadOut.eq_mk heq
  rw [patchData, hwrites] at hpw
  obtain ⟨pw', -, hmove⟩ := mem_relocateWrites hmoved hpw
  have hok := relocateWrite_isSome.mp (Option.isSome_of_eq_some hmove)
  rw [InText, hvabs_relocateWrite hmove]
  exact hok.1

/-- A mapping above the program holds no text. -/
theorem MapState.Placed.not_inText {m : MapState} {pm : PatchMap} (h : m.Placed img pm) {a : Addr}
    (ha : a.toNat ∈ pm.blobRange) : ¬InText img a := by
  rintro ⟨-, hlt⟩
  rw [PatchMap.blobRange] at ha
  split at ha
  · exact ha
  · have habove := h.above_text
    have hle := ha.1
    have := BitVec.lt_def.mp hlt
    omega

theorem size_ne_zero_of_mem {pm : PatchMap} {a : ℕ} (ha : a ∈ pm.blobRange) : pm.size ≠ 0 := by
  intro hz
  rw [PatchMap.blobRange, if_pos hz] at ha
  exact ha

/-! ## The invariant -/

/-- Beside the journal: the blobs taken out are not in the text, written addresses are in the
text and line up with the live writes, and no live write jumps into a blob taken out. -/
structure History.Sound (img : Image) (orig : Mem 64) (t : History) : Prop where
  inv : t.Inv orig
  maps : t.sandbox.Inv img
  dead_placed : ∀ pm ∈ t.dead, pm.size ≠ 0 → t.sandbox.maps.Placed img pm
  inText : ∀ a ∈ t.written, InText img a
  lined : ∀ e ∈ t.live, ∀ pw ∈ e.2, ∀ a ∈ t.written,
    a = pw.hvabs ∨ Disjoint (Mem.block a 8) pw.block
  live_written : ∀ e ∈ t.live, ∀ pw ∈ e.2, pw.hvabs ∈ t.written
  jumps : ∀ e ∈ t.live, ∀ pm ∈ t.dead, NoJumpInto e.2 pm

theorem History.sound_init (orig mem : Mem 64) : (History.init orig mem).Sound img orig where
  inv := History.inv_init orig mem
  maps := Sandbox.inv_init orig mem
  dead_placed := by simp [History.init]
  inText := by simp [History.init]
  lined := by simp [History.init]
  live_written := by simp [History.init]
  jumps := by simp [History.init]

/-- **One sound request keeps the history sound.** -/
theorem History.Sound.step {orig : Mem 64} {t : History} (h : t.Sound img orig)
    {r : Request img} (hr : StepSound t r) : (t.step r).Sound img orig := by
  have hinv := h.inv.step hr.disjoint
  have hmaps := h.maps.step r
  have hkeeps := ((served t.sandbox r).maps h.maps.above).2
  have hrec := recorded t r
  rw [← sandbox_step] at hmaps hkeeps
  generalize t.step r = t' at hinv hmaps hkeeps hrec
  have hdead : ∀ pm ∈ t.dead, pm.size ≠ 0 → t'.sandbox.maps.Placed img pm :=
    fun pm hpm hne => hkeeps pm (h.dead_placed pm hpm hne)
  cases hrec with
  | unchanged htext hlist =>
      exact ⟨hinv, hmaps, hdead, h.inText, h.lined, h.live_written, h.jumps⟩
  | @applied env arg patch writes maps hacc hwrites hpatch =>
      obtain ⟨hdisj, hlined, hjumps⟩ := hr hacc
      have hin : ∀ pw ∈ writes, InText img pw.hvabs :=
        fun pw hpw => inText_of_accepted hacc (hwrites ▸ hpw)
      rw [← hwrites] at hdisj hlined hjumps
      refine ⟨hinv, hmaps, hdead, fun a ha => ?_, List.forall_mem_cons.mpr ⟨?_, ?_⟩,
        List.forall_mem_cons.mpr ⟨?_, ?_⟩, List.forall_mem_cons.mpr ⟨hjumps, h.jumps⟩⟩
      · rcases List.mem_append.mp ha with ha | ha
        · obtain ⟨pw, hpw, rfl⟩ := List.mem_map.mp ha
          exact hin pw hpw
        · exact h.inText a ha
      · -- a new write against its own patch, and against the addresses before
        intro pw hpw a ha
        rcases List.mem_append.mp ha with ha | ha
        · obtain ⟨pw', hpw', rfl⟩ := List.mem_map.mp ha
          exact (hdisj.eq_or_disjoint hpw' hpw).imp_left (congrArg XenlpPatchWrite.hvabs)
        · exact hlined pw hpw a ha
      · -- an old write against the new addresses
        intro e he pw hpw a ha
        rcases List.mem_append.mp ha with ha | ha
        · obtain ⟨pw', hpw', rfl⟩ := List.mem_map.mp ha
          rcases hlined pw' hpw' _ (h.live_written e he pw hpw) with heq | hd
          · exact .inl heq.symm
          · exact .inr hd.symm
        · exact h.lined e he pw hpw a ha
      · exact fun pw hpw => List.mem_append_left _ (List.mem_map_of_mem hpw)
      · exact fun e he pw hpw => List.mem_append_right _ (h.live_written e he pw hpw)
  | @undone arg newer older ap maps hundo =>
      have hap : ap ∈ t.sandbox.lpPatchHead := (mem_list_of_undoTarget hundo).mpr (.inl rfl)
      have hsub : ∀ e ∈ t.live.eraseIdx newer.length, e ∈ t.live :=
        fun e he => List.mem_of_mem_eraseIdx he
      refine ⟨hinv, hmaps, List.forall_mem_cons.mpr ⟨?_, hdead⟩, h.inText,
        fun e he => h.lined e (hsub e he), fun e he => h.live_written e (hsub e he),
        fun e he => List.forall_mem_cons.mpr ⟨hr.2 _ hundo e he, h.jumps e (hsub e he)⟩⟩
      exact fun hne => hkeeps _ (h.maps.placed ap hap hne)

/-- At a written address the text is the newest live write there, or the original. -/
theorem History.Sound.text_at {orig : Mem 64} {t : History} (h : t.Sound img orig) {a : Addr}
    (ha : a ∈ t.written) :
    (∃ e ∈ t.live, ∃ pw ∈ e.2, pw.hvabs = a ∧ jumpTarget t.sandbox.text a = pw.jump) ∨
      jumpTarget t.sandbox.text a = jumpTarget orig a := by
  have hoff : ∀ e ∈ t.live, (∀ pw ∈ e.2, pw.hvabs ≠ a) →
      ∀ x ∈ Mem.block a 8, x ∉ support (writeLayer e.2) := by
    intro e he hne x hx hsupp
    obtain ⟨pw, hpw, hmem⟩ := mem_support_writeLayer.mp hsupp
    rcases h.lined e he pw hpw a ha with rfl | hdisj
    · exact hne pw hpw rfl
    · exact Set.disjoint_left.mp hdisj hx hmem
  by_cases hnone : ∀ e ∈ t.live, ∀ pw ∈ e.2, pw.hvabs ≠ a
  · right
    refine jumpTarget_congr fun x hx => ?_
    rw [h.inv.text]
    refine view_of_not_mem fun l hl => ?_
    obtain ⟨e, he, rfl⟩ := List.mem_map.mp hl
    exact hoff e he (hnone e he) x hx
  · left
    -- split the list at the newest entry that writes there
    push Not at hnone
    obtain ⟨above, e, below, hlive, ⟨pw, hpw, rfl⟩, hfirst⟩ :
        ∃ above e below, t.live = above ++ e :: below ∧ (∃ pw ∈ e.2, pw.hvabs = a) ∧
          ∀ e' ∈ above, ∀ pw ∈ e'.2, pw.hvabs ≠ a := by
      clear hoff
      generalize t.live = live at hnone
      induction live with
      | nil => obtain ⟨e, he, -⟩ := hnone; simp at he
      | cons e live ih =>
          by_cases he : ∃ pw ∈ e.2, pw.hvabs = a
          · exact ⟨[], e, live, rfl, he, by simp⟩
          · have htail : ∃ e' ∈ live, ∃ pw ∈ e'.2, pw.hvabs = a := by
              obtain ⟨e', he', hpw'⟩ := hnone
              rcases List.mem_cons.mp he' with rfl | he'
              · exact absurd hpw' he
              · exact ⟨e', he', hpw'⟩
            obtain ⟨above, e', below, rfl, hpw', hfirst⟩ := ih htail
            push Not at he
            exact ⟨e :: above, e', below, rfl, hpw', List.forall_mem_cons.mpr ⟨he, hfirst⟩⟩
    have he : e ∈ t.live := by rw [hlive]; simp
    refine ⟨e, he, pw, hpw, rfl, jumpTarget_congr fun x hx => ?_⟩
    rw [h.inv.text, History.layers, hlive, List.map_append, List.map_cons, view_append,
      view_of_not_mem, view]
    · rw [overlay_of_mem (writeLayer_of_mem (h.inv.disjoint e he) hpw hx)]
      exact (Mem.write_apply_mem _ pw.data hx).symm
    · intro l hl
      obtain ⟨e', he', rfl⟩ := List.mem_map.mp hl
      exact hoff e' (by rw [hlive]; simp [he']) (hfirst e' he') x hx

/-- A sound history is not stale. -/
theorem History.Sound.not_stale {orig : Mem 64} {t : History} (h : t.Sound img orig)
    (horig : JumpsInside img orig) : ¬t.Stale := by
  rintro ⟨a, ha, target, hjump, pm, hpm, hmem⟩
  rcases h.text_at ha with ⟨e, he, pw, hpw, -, htext⟩ | htext
  · exact h.jumps e he pm hpm pw hpw target (htext ▸ hjump) hmem
  · have hplaced := h.dead_placed pm hpm (size_ne_zero_of_mem hmem)
    exact hplaced.not_inText hmem (horig a target (h.inText a ha) (htext ▸ hjump))

/-- **No stale jump along a run** of sound requests from a text that jumps only within
itself. -/
theorem no_stale_jump (orig mem : Mem 64) (rs : List (Request img))
    (horig : JumpsInside img orig)
    (h : Along History.step StepSound (History.init orig mem) rs) :
    Always History.step (fun t => ¬t.Stale) (History.init orig mem) rs := by
  have hall : Always History.step (History.Sound img orig) (History.init orig mem) rs :=
    h.always (fun t r ht hr => ht.step hr) (History.sound_init orig mem)
  exact hall.mono fun t ht => ht.not_stale horig

/-- A text of zeros has no jumps. -/
theorem jumpsInside_zero : JumpsInside img fun _ => 0 := by
  intro a target _ hjump
  simp [jumpTarget] at hjump

/-- A function is patched twice, and the patches are taken out newest first. -/
def nestedRun : List (Request sampleImage) :=
  [.apply sampleEnv (blobMessage 1 10 0x401000), .apply sampleEnv (blobMessage 2 10 0x401000),
    .undo (tagHash 2), .undo (tagHash 1)]

/-- The condition holds along that run. -/
theorem no_stale_jump_nestedRun :
    let init := History.init (fun _ => 0) fun _ => 0
    JumpsInside sampleImage (fun _ => 0) ∧ Along History.step StepSound init nestedRun ∧
      Always History.step (fun t => ¬t.Stale) init nestedRun := by
  have halong : Along History.step StepSound
      (History.init (fun _ => 0) fun _ => 0) nestedRun :=
    ⟨by decide +kernel, by decide +kernel, by decide +kernel, by decide +kernel, trivial⟩
  exact ⟨jumpsInside_zero, halong, no_stale_jump _ _ nestedRun jumpsInside_zero halong⟩

/-- A function is patched twice, and the patches are taken out oldest first. -/
def crossedRun : List (Request sampleImage) :=
  [.apply sampleEnv (blobMessage 1 10 0x401000), .apply sampleEnv (blobMessage 2 10 0x401000),
    .undo (tagHash 1), .undo (tagHash 2)]

/-- All four requests are answered with code 0, and a jump into the first blob remains. -/
theorem stale_crossedRun :
    let init := History.init (fun _ => 0) fun _ => 0
    JumpsInside sampleImage (fun _ => 0) ∧
      Along Sandbox.step (fun s r => (r.serve s).ccode = 0) init.sandbox crossedRun ∧
      ¬Always History.step (fun t => ¬t.Stale) init crossedRun := by
  refine ⟨jumpsInside_zero, ?_, fun h => ?_⟩
  · exact ⟨by decide +kernel, by decide +kernel, by decide +kernel, by decide +kernel, trivial⟩
  · have hstale : (run History.step (History.init (fun _ => 0) fun _ => 0) crossedRun).Stale := by
      decide +kernel
    exact h.last hstale

end Patchbox
