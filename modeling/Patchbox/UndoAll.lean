import Patchbox.Histories

/-!
# Taking everything out again

A patch that declares dependencies is never inserted, and one without writes is refused. So
no live patch stands in the way of another, and whatever has been applied can be taken out
again: an undo request for each live patch, newest first, is answered with zero each time and
leaves an empty list. When the ranges of each patch did not meet, the text is then as it was
loaded.

## Main definitions

* `undoFor` — the request that takes a patch out.
* `Sandbox.Undoable` — no live patch lists a dependency, and each has writes.
* `undo_all` — the way back to the start.
-/

namespace Patchbox
open Lib

variable {img : Image} {s : Sandbox} {p : AppliedPatch} {older : List AppliedPatch}

/-- The undo request with the hash of a patch. -/
def undoFor (img : Image) (p : AppliedPatch) : Request img := .undo p.sha1.get

/-- One request for each live patch, newest first. -/
def Sandbox.undos (img : Image) (s : Sandbox) : List (Request img) :=
  s.lpPatchHead.map (undoFor img)

theorem loadHash_get (b : Bytes shaDigestLength) : loadHash b.get = b := by
  funext i
  rw [loadHash, Bytes.get, dif_pos i.isLt]

/-! ## Nothing stands in the way -/

/-- Every live patch has writes, and none lists a dependency. -/
def Sandbox.Undoable (s : Sandbox) : Prop :=
  ∀ p ∈ s.lpPatchHead, p.numwrites ≠ 0 ∧ p.deps = []

theorem Sandbox.undoable_init (text mem : Mem 64) : (Sandbox.init text mem).Undoable := by
  simp [Sandbox.Undoable, Sandbox.init]

theorem Sandbox.Undoable.step (h : s.Undoable) (r : Request img) : (s.step r).Undoable := by
  have hserved := served s r
  generalize s.step r = s' at hserved
  cases hserved with
  | refused => exact h
  | sampled => exact h
  | released => exact h
  | @applied env arg mem writes patch maps hacc hwrites hpatch hmaps =>
      refine List.forall_mem_cons.mpr ⟨?_, h⟩
      rw [hpatch, insertedPatch, numwrites_newPatch, deps_newPatch]
      exact ⟨hacc.1.1.1.2.1, rfl⟩
  | @undone arg newer older ap maps hundo hmaps =>
      exact fun p hp => h p ((mem_list_of_undoTarget hundo).mpr (.inr hp))

/-- The newest patch is found first, and goes. -/
theorem Sandbox.Undoable.undoTarget_head (h : s.Undoable) (hlist : s.lpPatchHead = p :: older) :
    undoTarget p.sha1.get s = some ([], p, older) := by
  rw [undoTarget_eq_some, hlist, loadHash_get, findHash, if_pos rfl]
  refine ⟨rfl, not_or.mpr ⟨?_, (h p (hlist ▸ List.mem_cons_self)).1⟩⟩
  rw [hasDependentPatches, List.any_eq_true, not_exists]
  intro q hq
  rw [(h q (hlist ▸ List.mem_cons_of_mem p hq.1)).2] at hq
  exact absurd hq.2 (by simp)

theorem Sandbox.Undoable.list_step (h : s.Undoable) (hlist : s.lpPatchHead = p :: older) :
    (s.step (undoFor img p)).lpPatchHead = older := by
  rw [undoFor, step_undo, (Outcome.eq_mk (xenlpUndo4_of_some (h.undoTarget_head hlist))).2.1]
  rfl

/-! ## The way back -/

/-- The list is empty at the end. -/
theorem Sandbox.Undoable.list_undos (h : s.Undoable) :
    (run Sandbox.step s (s.undos img)).lpPatchHead = [] := by
  rw [Sandbox.undos]
  generalize hlist : s.lpPatchHead = list
  induction list generalizing s with
  | nil => exact hlist
  | cons p older ih => exact ih (h.step _) (h.list_step hlist)

/-- A condition that each of the requests meets where it takes out the newest patch. -/
theorem Sandbox.Undoable.along_undos {Q : AppliedPatch → Prop}
    {ok : Sandbox → Request img → Prop} (h : s.Undoable) (hQ : ∀ p ∈ s.lpPatchHead, Q p)
    (hok : ∀ (t : Sandbox) p older, undoTarget p.sha1.get t = some ([], p, older) → Q p →
      ok t (undoFor img p)) :
    Along Sandbox.step ok s (s.undos img) := by
  rw [Sandbox.undos]
  generalize hlist : s.lpPatchHead = list at hQ ⊢
  induction list generalizing s with
  | nil => trivial
  | cons p older ih =>
      refine ⟨hok s p older (h.undoTarget_head hlist) (hQ p List.mem_cons_self), ?_⟩
      exact ih (h.step _) (h.list_step hlist) fun q hq => hQ q (List.mem_cons_of_mem p hq)

/-- A condition on the server, along a history. -/
theorem along_history {ok : Sandbox → Request img → Prop} {rs : List (Request img)} {t : History}
    (h : Along Sandbox.step ok t.sandbox rs) :
    Along History.step (fun t r => ok t.sandbox r) t rs := by
  induction rs generalizing t with
  | nil => trivial
  | cons r rs ih => exact ⟨h.1, ih (by rw [sandbox_step]; exact h.2)⟩

/-- The text that is left. -/
theorem text_undos (text mem : Mem 64) {rs : List (Request img)}
    (hs : s = run Sandbox.step (Sandbox.init text mem) rs) (hundoable : s.Undoable)
    (h : Along Sandbox.step StepDisjoint (Sandbox.init text mem) rs) :
    (run Sandbox.step s (s.undos img)).text = text := by
  have hinv : (run History.step (History.init text mem) rs).Inv text :=
    Along.invariant (fun t r ht hr => ht.step hr) (History.inv_init text mem) (along_history h)
  have hsandbox : (run History.step (History.init text mem) rs).sandbox = s := by
    rw [sandbox_run, hs]
    rfl
  generalize run History.step (History.init text mem) rs = t at hinv hsandbox
  subst hsandbox
  have hundos : Along Sandbox.step StepDisjoint t.sandbox (t.sandbox.undos img) := by
    refine hundoable.along_undos (Q := fun _ => True) (fun _ _ => trivial) ?_
    intro u p older htarget _ v hv
    rw [htarget] at hv
    cases hv
    exact fun q hq => absurd hq List.not_mem_nil
  have hend : (run History.step t (t.sandbox.undos img)).Inv text :=
    Along.invariant (fun t r ht hr => ht.step hr) hinv (along_history hundos)
  have hlist := @Sandbox.Undoable.list_undos img _ hundoable
  rw [← sandbox_run] at hlist ⊢
  have hlive := List.map_eq_nil_iff.mp (hend.list.trans hlist)
  rw [hend.text, History.layers, hlive]
  rfl

/-- The pages that are left. -/
theorem mapped_undos (hinv : s.Inv img) (hpages : PagesExact s) (hundoable : s.Undoable)
    (hpart : ∀ p ∈ s.lpPatchHead, p.map.size ≠ 0 → p.map.size.toNat % pageSize ≠ 0) :
    (run Sandbox.step s (s.undos img)).maps.mapped = ∅ := by
  have hundos : Along Sandbox.step (fun t r => ¬WholePages t r) s (s.undos img) := by
    refine hundoable.along_undos hpart ?_
    rintro t p older htarget hp ⟨u, hu, hne, hwhole⟩
    rw [htarget] at hu
    cases hu
    exact hp hne hwhole
  have hend := hundos.invariant (P := fun s => s.Inv img ∧ PagesExact s)
    (fun t r ht hr => ⟨ht.1.step r, ht.2.step ht.1 hr⟩) ⟨hinv, hpages⟩
  refine Finset.eq_empty_of_forall_notMem fun n hn => ?_
  obtain ⟨p, hp, -⟩ := (hend.2 n).mp hn
  rw [hundoable.list_undos] at hp
  exact List.not_mem_nil hp

/-- **Everything can be taken out.** After any requests, an undo request for each live patch,
newest first, is answered with zero and the list is empty. When the run kept to disjoint ranges,
the text is the original; when it released no blob of whole pages and none is live, no page
is mapped. -/
theorem undo_all (text mem : Mem 64) (rs : List (Request img)) (s : Sandbox)
    (hs : s = run Sandbox.step (Sandbox.init text mem) rs) :
    Along Sandbox.step (fun t r => (r.serve t).ccode = 0) s (s.undos img) ∧
      (run Sandbox.step s (s.undos img)).lpPatchHead = [] ∧
      (Along Sandbox.step StepDisjoint (Sandbox.init text mem) rs →
        (run Sandbox.step s (s.undos img)).text = text) ∧
      (Along Sandbox.step (fun t r => ¬WholePages t r) (Sandbox.init text mem) rs →
        (∀ p ∈ s.lpPatchHead, p.map.size ≠ 0 → p.map.size.toNat % pageSize ≠ 0) →
        (run Sandbox.step s (s.undos img)).maps.mapped = ∅) := by
  have hundoable : s.Undoable :=
    hs ▸ run_invariant (fun _ r h => h.step r) (Sandbox.undoable_init text mem) rs
  refine ⟨?_, hundoable.list_undos, text_undos text mem hs hundoable, fun hwhole hpart => ?_⟩
  · refine hundoable.along_undos (Q := fun _ => True) (fun _ _ => trivial) ?_
    intro t p older htarget _
    rw [undoFor, Request.serve, xenlpUndo4_of_some htarget]
  · have hinv := hwhole.invariant (P := fun s => s.Inv img ∧ PagesExact s)
      (fun t r ht hr => ⟨ht.1.step r, ht.2.step ht.1 hr⟩)
      ⟨Sandbox.inv_init text mem, pagesExact_init text mem⟩
    rw [← hs] at hinv
    exact mapped_undos hinv.1 hinv.2 hundoable hpart

/-- Two patches of one function, and one of another. -/
def threePatchesRun : List (Request sampleImage) :=
  [.apply sampleEnv (blobMessage 1 10 0x401000), .apply sampleEnv (blobMessage 2 10 0x401000),
    .apply sampleEnv (blobMessage 3 10 0x402000)]

/-- Three requests take them out. -/
theorem undo_all_threePatches : ∃ s,
    s = run Sandbox.step (Sandbox.init (fun _ => 0) fun _ => 0) threePatchesRun ∧
      s.lpPatchHead.length = 3 ∧
      Along Sandbox.step (fun t r => (r.serve t).ccode = 0) s (s.undos sampleImage) ∧
      (run Sandbox.step s (s.undos sampleImage)).text = fun _ => 0 := by
  obtain ⟨s, hs⟩ : ∃ s, s = run Sandbox.step (Sandbox.init (fun _ => 0) fun _ => 0)
      threePatchesRun := ⟨_, rfl⟩
  have hthree : s.lpPatchHead.length = 3 := by
    rw [hs]
    decide +kernel
  have halong : Along Sandbox.step StepDisjoint (Sandbox.init (fun _ => 0) fun _ => 0)
      threePatchesRun := ⟨by decide +kernel, by decide +kernel, by decide +kernel, trivial⟩
  obtain ⟨hcodes, -, htext, -⟩ := undo_all _ _ threePatchesRun s hs
  exact ⟨s, hs, hthree, hcodes, htext halong⟩

end Patchbox
