import Patchbox.Requests

/-!
# Histories: the text along a run

The list of live patches keeps what each patch replaced, not what it wrote. A
history is a run of the server with that remembered beside it: for every live
patch the writes that were put into the text, and, of the past, the mappings of the
patches that were taken out and the addresses that were ever written.

When the ranges of each patch do not meet, and no patch is taken out from under a
newer one that touches it, list and remembered writes are a journal of overlays
over the original text, and the text is the view of the live ones. Undoing from
under a newer patch breaks this: it brings back a jump into a blob that is gone.

## Main definitions

* `History`, `History.step` — the server with its past.
* `StepDisjoint` — the condition on ranges.
* `text_eq_view` — the text is the original under the live patches.
-/

namespace Patchbox
open Lib

variable {img : Image}

/-- The server, the writes behind each entry of its list, the mappings of the patches taken
out, and the addresses ever written. -/
structure History where
  sandbox : Sandbox
  live : List (AppliedPatch × List XenlpPatchWrite)
  dead : List PatchMap
  written : List Addr

/-- The start. -/
def History.init (text mem : Mem 64) : History := ⟨Sandbox.init text mem, [], [], []⟩

/-- Serve one request and remember it. -/
def History.step (t : History) : Request img → History
  | .apply env arg =>
      if Accepted env arg t.sandbox then
        let writes := (patchData img env arg t.sandbox).writes
        { sandbox := t.sandbox.step (.apply env arg)
          live := (insertedPatch img env arg t.sandbox, writes) :: t.live
          dead := t.dead
          written := writes.map XenlpPatchWrite.hvabs ++ t.written }
      else { t with sandbox := t.sandbox.step (.apply env arg) }
  | .undo arg =>
      match undoTarget arg t.sandbox with
      | some (newer, ap, _) =>
          { sandbox := t.sandbox.step (Request.undo arg : Request img)
            live := t.live.eraseIdx newer.length
            dead := ap.map :: t.dead
            written := t.written }
      | none => { t with sandbox := t.sandbox.step (Request.undo arg : Request img) }

/-- The sandbox of a history is the run of the server. -/
theorem sandbox_step (t : History) (r : Request img) :
    (t.step r).sandbox = t.sandbox.step r := by
  cases r with
  | apply env arg =>
      rw [History.step]
      split <;> rfl
  | undo arg =>
      rw [History.step]
      split <;> rfl

theorem sandbox_run (t : History) (rs : List (Request img)) :
    (run History.step t rs).sandbox = run Sandbox.step t.sandbox rs := by
  induction rs generalizing t with
  | nil => rfl
  | cons r rs ih => rw [run_cons, run_cons, ih, sandbox_step]

/-- The steps of a history: nothing that matters to text and list, an entry in front, or an
entry out. -/
inductive Recorded (img : Image) (t : History) : Request img → History → Prop where
  | unchanged {r : Request img} {s' : Sandbox} :
      s'.text = t.sandbox.text → s'.lpPatchHead = t.sandbox.lpPatchHead →
      Recorded img t r { t with sandbox := s' }
  | applied (env : ApplyEnv img) (arg : ℕ → Byte) {patch : AppliedPatch}
      {writes : List XenlpPatchWrite} {maps : MapState} :
      Accepted env arg t.sandbox →
      writes = (patchData img env arg t.sandbox).writes →
      patch = insertedPatch img env arg t.sandbox →
      Recorded img t (.apply env arg)
        { sandbox :=
            ⟨(swapTrampolines writes t.sandbox.text).2, patch :: t.sandbox.lpPatchHead, maps⟩
          live := (patch, writes) :: t.live
          dead := t.dead
          written := writes.map XenlpPatchWrite.hvabs ++ t.written }
  | undone (arg : ℕ → Byte) {newer older : List AppliedPatch} {ap : AppliedPatch}
      {maps : MapState} :
      undoTarget arg t.sandbox = some (newer, ap, older) →
      Recorded img t (.undo arg)
        { sandbox := ⟨(swapTrampolines ap.writes t.sandbox.text).2, newer ++ older, maps⟩
          live := t.live.eraseIdx newer.length
          dead := ap.map :: t.dead
          written := t.written }

/-- Every step is one of these. -/
theorem recorded (t : History) (r : Request img) : Recorded img t r (t.step r) := by
  cases r with
  | apply env arg =>
      by_cases h : Accepted env arg t.sandbox
      · have hstep : t.sandbox.step (.apply env arg) = _ :=
          (step_apply _ _ _).trans (Outcome.eq_mk (xenlpApply4_of_accepted h)).2.1
        rw [History.step, if_pos h, hstep]
        exact .applied env arg h rfl rfl
      · obtain ⟨ccode, maps, log, heq⟩ := xenlpApply4_of_not_accepted h
        have hstep : t.sandbox.step (.apply env arg) = _ :=
          (step_apply _ _ _).trans (Outcome.eq_mk heq).2.1
        rw [History.step, if_neg h, hstep]
        exact .unchanged rfl rfl
  | undo arg =>
      cases h : undoTarget arg t.sandbox with
      | some target =>
          obtain ⟨newer, ap, older⟩ := target
          have hstep : t.sandbox.step (Request.undo arg : Request img) = _ :=
            (step_undo _ _).trans (Outcome.eq_mk (xenlpUndo4_of_some h)).2.1
          simp only [History.step, h, hstep]
          exact .undone arg h
      | none =>
          obtain ⟨ccode, -, heq⟩ := xenlpUndo4_of_none h
          have hstep : t.sandbox.step (Request.undo arg : Request img) = _ :=
            (step_undo _ _).trans (Outcome.eq_mk heq).2.1
          simp only [History.step, h, hstep]
          exact .unchanged rfl rfl

/-! ## The journal of the live patches -/

/-- The ranges of a patch that is applied do not meet, and a patch that is undone meets no
newer one. -/
def StepDisjoint (s : Sandbox) : Request img → Prop
  | .apply env arg => Accepted env arg s → WritesDisjoint (patchData img env arg s).writes
  | .undo arg => ∀ t ∈ undoTarget arg s,
      ∀ q ∈ t.1, ∀ pw ∈ t.2.1.writes, ∀ pw' ∈ q.writes, Disjoint pw.block pw'.block

/-- The layers of the live patches, newest first. -/
def History.layers (t : History) : List (Layer Addr Byte) := t.live.map fun e => writeLayer e.2

/-- Each layer with the bytes its patch saved. -/
def History.journal (t : History) : List (Layer Addr Byte × Layer Addr Byte) :=
  t.live.map fun e => (writeLayer e.2, writeLayer e.1.writes)

theorem journal_layers (t : History) : t.journal.map Prod.fst = t.layers := by
  simp [History.journal, History.layers]

/-- The list is the live patches, their writes are disjoint and where they were put, the saved
bytes are those they hide, and the text is the view of all layers. -/
structure History.Inv (orig : Mem 64) (t : History) : Prop where
  list : t.live.map Prod.fst = t.sandbox.lpPatchHead
  disjoint : ∀ e ∈ t.live, WritesDisjoint e.2
  hvabs : ∀ e ∈ t.live, e.1.writes.map XenlpPatchWrite.hvabs = e.2.map XenlpPatchWrite.hvabs
  journal : Journal orig t.journal
  text : t.sandbox.text = view orig t.layers

theorem History.inv_init (orig mem : Mem 64) : (History.init orig mem).Inv orig where
  list := rfl
  disjoint := by simp [History.init]
  hvabs := by simp [History.init]
  journal := trivial
  text := rfl

/-- The writes of the inserted entry are the exchanged ones. -/
theorem writes_insertedPatch {env : ApplyEnv img} {arg : ℕ → Byte} {s : Sandbox} :
    (insertedPatch img env arg s).writes
      = (swapTrampolines (patchData img env arg s).writes s.text).1 := by
  rw [insertedPatch, writes_newPatch]

/-- The entry at the place of `ap` in the list of live patches. -/
theorem History.Inv.split {orig : Mem 64} {t : History} (h : t.Inv orig)
    {newer older : List AppliedPatch} {ap : AppliedPatch}
    (hlist : t.sandbox.lpPatchHead = newer ++ ap :: older) :
    ∃ above writes below, t.live = above ++ (ap, writes) :: below ∧
      above.map Prod.fst = newer ∧ below.map Prod.fst = older ∧
      t.live.eraseIdx newer.length = above ++ below := by
  have hmap := h.list
  rw [hlist] at hmap
  obtain ⟨above, rest, hlive, habove, hrest⟩ := List.map_eq_append_iff.mp hmap
  obtain ⟨e, below, rfl, he, hbelow⟩ := List.map_eq_cons_iff.mp hrest
  obtain ⟨p, writes⟩ := e
  obtain rfl : p = ap := he
  refine ⟨above, writes, below, hlive, habove, hbelow, ?_⟩
  rw [hlive, ← habove, List.length_map, List.eraseIdx_append_of_length_le (le_refl _),
    Nat.sub_self, List.eraseIdx_cons_zero]

/-- A patch that meets no newer one can be taken out: its saved bytes put the view of the other
layers there, and what the others have saved stays right. -/
theorem History.Inv.remove {orig : Mem 64} {t : History} (h : t.Inv orig)
    {above below : List (AppliedPatch × List XenlpPatchWrite)} {ap : AppliedPatch}
    {writes : List XenlpPatchWrite} (hlive : t.live = above ++ (ap, writes) :: below)
    (hapart : ∀ q ∈ above.map Prod.fst, ∀ pw ∈ ap.writes, ∀ pw' ∈ q.writes,
      Disjoint pw.block pw'.block) :
    overlay t.sandbox.text (writeLayer ap.writes) =
        view orig ((above ++ below).map fun e => writeLayer e.2) ∧
      Journal orig ((above ++ below).map fun e => (writeLayer e.2, writeLayer e.1.writes)) := by
  have hsame := h.hvabs (ap, writes) (by rw [hlive]; simp)
  -- no newer layer touches the one that goes
  have hfree : ∀ e ∈ above.map fun e => (writeLayer e.2, writeLayer e.1.writes),
      Disjoint (support (writeLayer writes)) (support e.1) := by
    intro l hl
    obtain ⟨e, he, rfl⟩ := List.mem_map.mp hl
    have hnewer := h.hvabs e (by rw [hlive]; exact List.mem_append_left _ he)
    rw [← support_writeLayer_congr hsame, ← support_writeLayer_congr hnewer]
    exact disjoint_support_writeLayer (hapart e.1 (List.mem_map_of_mem he))
  have hjournal := h.journal
  rw [History.journal, hlive, List.map_append, List.map_cons] at hjournal
  have hview := hjournal.view_remove hfree
  have hrest := hjournal.remove hfree
  rw [← List.map_append] at hrest hview
  refine ⟨?_, hrest⟩
  rw [h.text, ← journal_layers, History.journal, hlive, List.map_append, List.map_cons, hview,
    List.map_map]
  rfl

/-- **One request keeps the journal.** -/
theorem History.Inv.step {orig : Mem 64} {t : History} (h : t.Inv orig) {r : Request img}
    (hr : StepDisjoint t.sandbox r) : (t.step r).Inv orig := by
  have hrec := recorded t r
  generalize t.step r = t' at hrec
  cases hrec with
  | unchanged htext hlist =>
      exact ⟨h.list.trans hlist.symm, h.disjoint, h.hvabs, h.journal, htext.trans h.text⟩
  | @applied env arg patch writes maps hacc hwrites hpatch =>
      have hdisj : WritesDisjoint writes := hwrites ▸ hr hacc
      have hsaved : patch.writes = (swapTrampolines writes t.sandbox.text).1 := by
        rw [hpatch, hwrites, writes_insertedPatch]
      refine ⟨congrArg (patch :: ·) h.list, ?_, ?_, ⟨?_, h.journal⟩, ?_⟩
      · exact List.forall_mem_cons.mpr ⟨hdisj, h.disjoint⟩
      · refine List.forall_mem_cons.mpr ⟨?_, h.hvabs⟩
        dsimp only
        rw [hsaved, hvabs_swapTrampolines]
      · dsimp only
        rw [hsaved, swapTrampolines_saved hdisj, h.text]
        exact congrArg (fun ls => covered (view orig ls) (writeLayer writes))
          (journal_layers t).symm
      · exact (swapTrampolines_text hdisj _).trans
          (congrArg (fun f => overlay f (writeLayer writes)) h.text)
  | @undone arg newer older ap maps hundo =>
      obtain ⟨above, writes, below, hlive, habove, hbelow, herase⟩ :=
        h.split (list_of_undoTarget hundo)
      have hmem : (ap, writes) ∈ t.live := by rw [hlive]; simp
      have hsub : ∀ e ∈ above ++ below, e ∈ t.live := by
        rw [← herase]
        exact fun e he => List.mem_of_mem_eraseIdx he
      have hap : WritesDisjoint ap.writes :=
        (writesDisjoint_congr (h.hvabs _ hmem)).mpr (h.disjoint _ hmem)
      obtain ⟨hview, hrest⟩ := h.remove hlive fun q hq => hr _ hundo q (habove ▸ hq)
      refine ⟨?_, ?_, ?_, ?_, ?_⟩
      · dsimp only
        rw [herase, List.map_append, habove, hbelow]
      · dsimp only
        rw [herase]
        exact fun e he => h.disjoint e (hsub e he)
      · dsimp only
        rw [herase]
        exact fun e he => h.hvabs e (hsub e he)
      · rw [History.journal]
        dsimp only
        rw [herase]
        exact hrest
      · dsimp only
        rw [swapTrampolines_text hap, hview, History.layers]
        dsimp only
        rw [herase]

/-- **The text along a run**: in every state reached, the original under the writes of exactly
the live patches, oldest first; the original itself when none is live. -/
theorem text_eq_view (orig mem : Mem 64) (rs : List (Request img))
    (h : Along History.step (fun t r => StepDisjoint t.sandbox r) (History.init orig mem) rs) :
    Always History.step
      (fun t => t.live.map Prod.fst = t.sandbox.lpPatchHead ∧
        t.sandbox.text = view orig (t.live.map fun e => writeLayer e.2) ∧
        (t.sandbox.lpPatchHead = [] → t.sandbox.text = orig))
      (History.init orig mem) rs := by
  have hall : Always History.step (History.Inv orig) (History.init orig mem) rs :=
    h.always (fun t r ht hr => ht.step hr) (History.inv_init orig mem)
  refine hall.mono fun t ht => ⟨ht.list, ht.text, fun hnil => ?_⟩
  have hlive : t.live = [] := List.map_eq_nil_iff.mp (ht.list.trans hnil)
  rw [ht.text, History.layers, hlive]
  rfl

instance (s : Sandbox) (r : Request img) : Decidable (StepDisjoint s r) :=
  match r with
  | .apply _ _ => inferInstanceAs (Decidable (_ → List.Pairwise _ _))
  | .undo _ => inferInstanceAs (Decidable (∀ t ∈ _, _))

/-- Two patches of different functions, undone in the order they were applied. -/
def twoFunctionsRun : List (Request sampleImage) :=
  [.apply sampleEnv (blobMessage 1 10 0x401000), .apply sampleEnv (blobMessage 2 10 0x402000),
    .undo (tagHash 1), .undo (tagHash 2)]

/-- The condition holds along that run. -/
theorem text_eq_view_twoFunctionsRun :
    let init := History.init (fun _ => 0) fun _ => 0
    Along History.step (fun t r => StepDisjoint t.sandbox r) init twoFunctionsRun ∧
      Always History.step
        (fun t => t.live.map Prod.fst = t.sandbox.lpPatchHead ∧
          t.sandbox.text = view (fun _ => 0) (t.live.map fun e => writeLayer e.2) ∧
          (t.sandbox.lpPatchHead = [] → t.sandbox.text = fun _ => 0)) init twoFunctionsRun := by
  have halong : Along History.step (fun t r => StepDisjoint t.sandbox r)
      (History.init (fun _ => 0) fun _ => 0) twoFunctionsRun :=
    ⟨by decide +kernel, by decide +kernel, by decide +kernel, by decide +kernel, trivial⟩
  exact ⟨halong, text_eq_view _ _ twoFunctionsRun halong⟩

end Patchbox
