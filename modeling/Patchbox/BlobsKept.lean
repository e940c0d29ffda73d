import Patchbox.Refusals

/-!
# Live blobs stay as they are

A patch runs from its blob, so the bytes of a live blob must not change while other patches
come and go. They do not: a new blob is mapped above all that was handed out before, and its
relocations, as long as there is room for them, stay inside it. An undo writes into the text
only.

## Main definitions

* `Request.RoomForRelocs` — the condition on an APPLY.
* `Sandbox.Inv.mem_step` — one request.
* `blobs_kept` — any number of them.
-/

namespace Patchbox
open Lib

variable {img : Image} {s : Sandbox} {r : Request img} {x : Addr}

/-- An APPLY with relocations has a blob with room for them. -/
def Request.RoomForRelocs : Request img → Prop
  | .apply _ arg => (XenlpApply4.load arg).RoomForRelocs
  | .undo _ => True

instance (r : Request img) : Decidable r.RoomForRelocs :=
  match r with
  | .apply _ arg => inferInstanceAs (Decidable (XenlpApply4.load arg).RoomForRelocs)
  | .undo _ => inferInstanceAs (Decidable True)

theorem maps_step_of_accepted {env : ApplyEnv img} {arg : ℕ → Byte} (h : Accepted env arg s)
    {maps : MapState} (hmaps : (patchData img env arg s).maps = maps) :
    (s.step (.apply env arg)).maps = maps := by
  have hs := (step_apply s env arg).trans (Outcome.eq_mk (xenlpApply4_of_accepted h)).2.1
  rw [hmaps] at hs
  rw [hs]

/-- The memory behind an accepted message. -/
theorem mem_step_of_accepted {env : ApplyEnv img} {arg : ℕ → Byte} (h : Accepted env arg s) :
    (s.step (.apply env arg)).maps.mem =
      relocatedMem img env arg sizeofXenlpApply4 (XenlpApply4.load arg) s.maps := by
  obtain ⟨writes, -, heq⟩ := readPatchData_eq_of_dataOk h.1.2
  obtain ⟨-, -, hread, -, -⟩ := ReadOut.eq_mk heq
  rw [maps_step_of_accepted h hread]

/-- The memory behind one that is not. -/
theorem mem_step_of_not_accepted {env : ApplyEnv img} {arg : ℕ → Byte}
    (h : ¬Accepted env arg s) :
    (s.step (.apply env arg)).maps.mem = s.maps.mem ∨
      BlobOk env.toMapEnv (XenlpApply4.load arg) s.maps ∧
      (s.step (.apply env arg)).maps.mem =
        relocatedMem img env arg sizeofXenlpApply4 (XenlpApply4.load arg) s.maps := by
  rw [step_apply]
  rcases maps_of_not_accepted h with hmaps | hmaps | ⟨-, hblob, hmaps⟩
  · rw [hmaps]
    exact .inl rfl
  · rw [hmaps]
    exact .inl rfl
  · rw [hmaps]
    exact .inr ⟨hblob, rfl⟩

/-- **A request does not write to what is held.** -/
theorem Sandbox.Inv.mem_step (h : s.Inv img) (hroom : r.RoomForRelocs) (hx : s.maps.Held img x) :
    (s.step r).maps.mem x = s.maps.mem x := by
  cases r with
  | apply env arg =>
      have hbelow (hblob : BlobOk env.toMapEnv (XenlpApply4.load arg) s.maps) :
          relocatedMem img env arg sizeofXenlpApply4 (XenlpApply4.load arg) s.maps x =
            s.maps.mem x :=
        relocatedMem_apply_of_lt hblob hroom (hx.lt_blobMap h.above hblob)
      by_cases hacc : Accepted env arg s
      · rw [mem_step_of_accepted hacc]
        exact hbelow hacc.1.2.1
      · rcases mem_step_of_not_accepted hacc with hmem | ⟨hblob, hmem⟩
        · rw [hmem]
        · rw [hmem]
          exact hbelow hblob
  | undo arg =>
      have hserved := served s (Request.undo arg : Request img)
      generalize s.step (Request.undo arg : Request img) = s' at hserved
      cases hserved with
      | refused => rfl
      | undone _ _ hmaps =>
          rw [hmaps]

/-- What is held stays held. -/
theorem Sandbox.Inv.held_step (h : s.Inv img) (r : Request img) (hx : s.maps.Held img x) :
    (s.step r).maps.Held img x := by
  rcases hx with hprogram | ⟨pm, hpm, hlt⟩
  · exact .inl hprogram
  · exact .inr ⟨pm, ((served s r).maps h.above).2 pm hpm, hlt⟩

theorem along_roomForRelocs (s : Sandbox) {rs : List (Request img)}
    (h : ∀ r ∈ rs, r.RoomForRelocs) :
    Along Sandbox.step (fun _ (r : Request img) => r.RoomForRelocs) s rs := by
  induction rs generalizing s with
  | nil => trivial
  | cons r rs ih =>
      rw [List.forall_mem_cons] at h
      exact ⟨h.1, ih _ h.2⟩

/-- A run does not write to what was held before it. -/
theorem Sandbox.Inv.always_held (h : s.Inv img) {rs : List (Request img)}
    (hroom : ∀ r ∈ rs, r.RoomForRelocs) :
    Always Sandbox.step (fun t => ∀ x, s.maps.Held img x → t.maps.mem x = s.maps.mem x) s rs := by
  have hall := (along_roomForRelocs s hroom).always (P := fun t : Sandbox => t.Inv img ∧
    ∀ x, s.maps.Held img x → t.maps.Held img x ∧ t.maps.mem x = s.maps.mem x)
    (fun t r ht hr => ⟨ht.1.step r, fun x hx => ⟨ht.1.held_step r (ht.2 x hx).1,
      (ht.1.mem_step hr (ht.2 x hx).1).trans (ht.2 x hx).2⟩⟩)
    ⟨h, fun x hx => ⟨hx, rfl⟩⟩
  exact hall.mono fun t ht x hx => (ht.2 x hx).2

/-- **Live blobs stay as they are.** Take the server after any requests. In every state that any
further requests lead to, the bytes of the program are as they were, and so are those of each blob
that was live, as long as its patch is, provided that each further APPLY has room for its
relocations. (When the patch is taken out its blob is unmapped. That its bytes are the same from
then on holds in the model only, whose memory has no pages to lose.) -/
theorem blobs_kept (text mem : Mem 64) (before behind : List (Request img)) (s : Sandbox)
    (hs : s = run Sandbox.step (Sandbox.init text mem) before)
    (hroom : ∀ r ∈ behind, r.RoomForRelocs) :
    Always Sandbox.step (fun t =>
      (∀ p ∈ s.lpPatchHead, ∀ i < p.map.size.toNat,
        t.maps.mem (p.map.addr + BitVec.ofNat 64 i) =
          s.maps.mem (p.map.addr + BitVec.ofNat 64 i)) ∧
      ∀ x : Addr, x.toNat < img.end_.toNat → t.maps.mem x = s.maps.mem x) s behind := by
  have hinv : s.Inv img :=
    hs ▸ run_invariant (fun _ r h => h.step r) (Sandbox.inv_init text mem) before
  exact (hinv.always_held hroom).mono fun t ht =>
    ⟨fun p hp i hi => ht _ (hinv.held hp hi), fun x hx => ht x (.inl hx)⟩

/-- One live patch, then a message that is accepted, one that fails at its second relocation
(for which its blob has room), and an undo of the first. -/
def comingAndGoing : List (Request sampleImage) :=
  [.apply sampleEnv (blobMessage 2 10 0x402000),
    .apply sampleEnv (fromList halfwayMessage fun _ => 0), .undo (tagHash 0)]

theorem blobs_kept_comingAndGoing : ∃ s,
    s = run Sandbox.step (Sandbox.init (fun _ => 0) fun _ => 0) oneLiveRun ∧
      s.lpPatchHead.length = 1 ∧ (∀ r ∈ comingAndGoing, r.RoomForRelocs) ∧
      Always Sandbox.step (fun t =>
        (∀ p ∈ s.lpPatchHead, ∀ i < p.map.size.toNat,
          t.maps.mem (p.map.addr + BitVec.ofNat 64 i) =
            s.maps.mem (p.map.addr + BitVec.ofNat 64 i)) ∧
        ∀ x : Addr, x.toNat < sampleImage.end_.toNat → t.maps.mem x = s.maps.mem x)
        s comingAndGoing := by
  obtain ⟨s, hs⟩ : ∃ s, s = run Sandbox.step (Sandbox.init (fun _ => 0) fun _ => 0) oneLiveRun :=
    ⟨_, rfl⟩
  have hone : s.lpPatchHead.length = 1 := by
    rw [hs]
    decide +kernel
  have hroom : ∀ r ∈ comingAndGoing, r.RoomForRelocs := by
    rw [comingAndGoing]
    simp only [List.forall_mem_cons]
    exact ⟨by decide +kernel, by decide +kernel, by decide +kernel, by simp⟩
  exact ⟨s, hs, hone, hroom, blobs_kept _ _ _ comingAndGoing s hs hroom⟩

end Patchbox
