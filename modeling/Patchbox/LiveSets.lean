import Patchbox.Invocations
import Patchbox.Lib.Explained

/-!
# What the patches are for

For its users the server is a set of live patches. A request may add one that is not live, take
out one that is, or leave the set as it is. Whatever the clients' programs are asked for and in
whichever order they take their steps, the requests that the server has processed are such a
history.

## Main definitions

* `Sandbox.live`, `LiveStep` — the set, and what a request may do to it.
* `Tracked` — a server that has followed the history.
* `invocations_explained` — the system of server and clients follows its history.
-/

namespace Patchbox
open Lib

variable {img : Image} {info : List Byte}

/-! ## The set of live patches -/

/-- The hashes of the live patches. -/
def Sandbox.live (s : Sandbox) : Finset (Bytes shaDigestLength) :=
  (s.lpPatchHead.map AppliedPatch.sha1).toFinset

theorem mem_live {s : Sandbox} {sha1 : Bytes shaDigestLength} :
    sha1 ∈ s.live ↔ Applied s sha1 := by
  rw [Sandbox.live, List.mem_toFinset, List.mem_map]
  rfl

/-- What a request may do to the set: nothing, or what it asks for. -/
inductive LiveStep : Finset (Bytes shaDigestLength) → ClientRequest →
    Finset (Bytes shaDigestLength) → Prop
  | same (live : Finset (Bytes shaDigestLength)) (r : ClientRequest) : LiveStep live r live
  | apply {live : Finset (Bytes shaDigestLength)} {buf : List Byte} {sha1 : Bytes shaDigestLength}
      (hsha1 : Carries buf sha1) (hnew : sha1 ∉ live) :
      LiveStep live (.apply buf) (insert sha1 live)
  | undo {live : Finset (Bytes shaDigestLength)} {hash : Bytes shaDigestLength}
      (hlive : hash ∈ live) : LiveStep live (.undo (storeHash hash)) (live.erase hash)

variable {s s' : Sandbox}

theorem live_of_list (h : s'.lpPatchHead = s.lpPatchHead) : s'.live = s.live := by
  rw [Sandbox.live, h, Sandbox.live]

theorem live_of_cons {patch : AppliedPatch} (h : s'.lpPatchHead = patch :: s.lpPatchHead) :
    s'.live = insert patch.sha1 s.live := by
  rw [Sandbox.live, h, List.map_cons, List.toFinset_cons, Sandbox.live]

/-- Where the hashes are distinct, taking a patch out takes its hash out. -/
theorem live_of_takenOut {hash : Bytes shaDigestLength} (hdistinct : Distinct s)
    (h : TakenOut hash s s') : hash ∈ s.live ∧ s'.live = s.live.erase hash := by
  obtain ⟨newer, ap, older, hlist, rfl, -, rfl⟩ := h
  have hmap : s.lpPatchHead.map AppliedPatch.sha1 =
      newer.map AppliedPatch.sha1 ++ ap.sha1 :: older.map AppliedPatch.sha1 := by
    rw [hlist, List.map_append, List.map_cons]
  rw [Distinct, hmap] at hdistinct
  have hout := (List.nodup_middle.mp hdistinct).notMem
  rw [Sandbox.live, Sandbox.live, hmap, List.map_append]
  constructor
  · simp
  · ext sha1
    simp only [List.mem_toFinset, List.mem_append, Finset.mem_erase, List.mem_cons] at hout ⊢
    constructor
    · intro h
      exact ⟨fun heq => hout (heq ▸ h), by tauto⟩
    · tauto

/-! ## Histories -/

/-- The server's patches have distinct hashes, and the requests explain which are live. -/
def Tracked (start : Finset (Bytes shaDigestLength)) (rs : List ClientRequest) (s : Sandbox) :
    Prop :=
  Distinct s ∧ Explained LiveStep start rs s.live

/-- **Each request of the commands** keeps the server on its track. -/
theorem keptByRequests_tracked (start : Finset (Bytes shaDigestLength))
    (past : List ClientRequest) :
    KeptByRequests fun s tr => Tracked start (past ++ requests tr) s where
  mark n h := by
    rwa [requests_concat_inr]
  same r hlist h := by
    rw [requests_concat_inl, ← List.append_assoc]
    refine ⟨?_, ?_⟩
    · rw [Distinct, hlist]
      exact h.1
    · rw [live_of_list hlist]
      exact h.2.concat (.same _ r)
  apply hbuf hlist hnew h := by
    rw [requests_concat_inl, ← List.append_assoc]
    refine ⟨?_, ?_⟩
    · rw [Distinct, hlist, List.map_cons, List.nodup_cons]
      refine ⟨fun hmem => hnew ?_, h.1⟩
      obtain ⟨ap, hap, hsha1⟩ := List.mem_map.mp hmem
      exact ⟨ap, hap, hsha1⟩
    · rw [live_of_cons hlist]
      exact h.2.concat (.apply hbuf (mt mem_live.mp hnew))
  undo htaken h := by
    rw [requests_concat_inl, ← List.append_assoc]
    obtain ⟨hmem, hlive⟩ := live_of_takenOut h.1 htaken
    refine ⟨?_, ?_⟩
    · obtain ⟨newer, ap, older, hlist, -, -, rfl⟩ := htaken
      have hsub : (newer ++ older).Sublist (newer ++ ap :: older) :=
        List.Sublist.append_left (List.sublist_cons_self ap older) newer
      have hdistinct := h.1
      rw [Distinct, hlist] at hdistinct
      exact hdistinct.sublist (hsub.map AppliedPatch.sha1)
    · rw [hlive]
      exact h.2.concat (.undo hmem)

/-- **Any invocations, in every order of their steps.** As long as the clients' own allocations
succeed, no two live patches get the same hash, no APPLY of another client is processed between a
client's own LIST and its APPLY, and the history of the server explains which patches are live. -/
theorem invocations_explained {ι : Type} [DecidableEq ι] (info : List Byte)
    (options : ι → Options) (around : ι → Surroundings)
    (hash : List Byte → Bytes shaDigestLength) (q₀ q : Commands ι) (hinit : q₀.Initial)
    (hprogram : ∀ i, (q₀.seats i).program = (options i).main (around i) hash)
    (hdistinct : Distinct q₀.server)
    (hreach : Queue.Reachable (steadyService img info)
      (fun s => s.lpPatchHead.length ≤ maxListPatches3) q₀ q) :
    Distinct q.server ∧ Alone q.history ∧
      Explained LiveStep q₀.server.live q.served q.server.live := by
  have htracked : Tracked q₀.server.live q.served q.server := by
    refine hreach.history_invariant (fun s rs => Tracked q₀.server.live rs s) hinit
      ⟨hdistinct, .start⟩ fun i s past h => ?_
    rw [hprogram i]
    refine (keptByRequests_tracked _ past).safe_main _ _ hash ?_ (.inr Link.clean_fresh)
    rwa [requests_nil, List.append_nil]
  exact ⟨htracked.1, Alone.of_grouped (hreach.grouped hinit), htracked.2⟩

/-- A connection, and a file with the stored patch at every path. -/
def fileSurroundings (hash : List Byte → Bytes shaDigestLength) : Surroundings :=
  { plainSurroundings with file := fun _ => some (storedPatch.encode hash) }

/-- The options that ask for the file to be applied, and those that ask for its patch to be taken
out. -/
def applyOrRemove (hash : List Byte → Bytes shaDigestLength) (i : Bool) : Options :=
  if i then applyOptions [] else removeOptions (hexText (storedPatch.loaded hash).sha1.toList)

/-- Their clients. -/
def twoInvocations (hash : List Byte → Bytes shaDigestLength) : Commands Bool where
  server := Sandbox.init (fun _ => 0) fun _ => 0
  session := Link.fresh
  current := none
  accepted := ∅
  stopped := false
  seats := fun i => ⟨(applyOrRemove hash i).main (fileSurroundings hash) hash, false, false⟩
  history := []

theorem twoInvocations_seats (hash : List Byte → Bytes shaDigestLength) (i : Bool) :
    (twoInvocations hash).seats i =
      ⟨(applyOrRemove hash i).main (fileSurroundings hash) hash, false, false⟩ := by
  rw [twoInvocations]

/-- The first one does nothing but apply the file. -/
theorem main_applyOptions (hash : List Byte → Bytes shaDigestLength) (path f : List Byte) :
    (applyOptions path).main { plainSurroundings with file := fun _ => some f } hash =
      (cmdApply hash (basename path) (some f)).bind fun _ => .done sandboxOk := by
  rw [Options.main, if_neg (by simp [applyOptions, plainSurroundings])]
  rfl

/-- A system that refuses nothing, for clients whose own allocations succeed. -/
def steadyEnv : { e : SystemEnv sampleImage sampleInfo // e.1.client.calloc = true } :=
  ⟨sampleSystemEnv, rfl⟩

/-- Both are served to their end, the second one by the server that the first one leaves. -/
theorem served_twoInvocations {hash : List Byte → Bytes shaDigestLength}
    (hhash : hash = fun l _ => l.headD 0) {first second : Command Int}
    (hfirst : first = (applyOrRemove hash true).main (fileSurroundings hash) hash)
    (hsecond : second = (applyOrRemove hash false).main (fileSurroundings hash) hash) :
    first.attended (steadyService sampleImage sampleInfo)
        (fun s => s.lpPatchHead.length ≤ maxListPatches3) (fun _ => steadyEnv)
        (twoInvocations hash).server Link.fresh = true ∧
      askedIds (first.run (steadyService sampleImage sampleInfo) (fun _ => steadyEnv)
          (twoInvocations hash).server Link.fresh).1 =
        [sandboxMsgGetBld, sandboxMsgList, sandboxMsgApply, sandboxMsgList] ∧
      ∃ b s l, (first.run (steadyService sampleImage sampleInfo) (fun _ => steadyEnv)
            (twoInvocations hash).server Link.fresh).2 = some (b, s, l) ∧
        second.attended (steadyService sampleImage sampleInfo)
          (fun s => s.lpPatchHead.length ≤ maxListPatches3) (fun _ => steadyEnv) s Link.fresh =
            true ∧
        askedIds (second.run (steadyService sampleImage sampleInfo) (fun _ => steadyEnv)
          s Link.fresh).1 = [sandboxMsgList, sandboxMsgUndoReq] ∧
        s.lpPatchHead.map AppliedPatch.sha1 = [(storedPatch.loaded hash).sha1] ∧
        (second.run (steadyService sampleImage sampleInfo) (fun _ => steadyEnv)
          s Link.fresh).2.map (fun r => r.2.1.lpPatchHead.length) = some 0 := by
  have hload := @loadPatchFile_of_encode hash (basename []) storedPatch (.inr (.inl rfl))
    ⟨by decide, by decide⟩
  rw [applyOrRemove, if_pos rfl, fileSurroundings, main_applyOptions,
    cmdApply_of_load hload] at hfirst
  subst hhash
  have hnext : (first.run (steadyService sampleImage sampleInfo) (fun _ => steadyEnv)
      (twoInvocations fun l _ => l.headD 0).server Link.fresh).2.map (fun r =>
        (second.attended (steadyService sampleImage sampleInfo)
            (fun s => s.lpPatchHead.length ≤ maxListPatches3) (fun _ => steadyEnv) r.2.1 Link.fresh,
          askedIds (second.run (steadyService sampleImage sampleInfo) (fun _ => steadyEnv)
            r.2.1 Link.fresh).1,
          (second.run (steadyService sampleImage sampleInfo) (fun _ => steadyEnv)
            r.2.1 Link.fresh).2.map fun r => r.2.1.lpPatchHead.length)) =
      some (true, [sandboxMsgList, sandboxMsgUndoReq], some 0) := by
    subst hfirst hsecond
    decide +kernel
  have hlive : (first.run (steadyService sampleImage sampleInfo) (fun _ => steadyEnv)
      (twoInvocations fun l _ => l.headD 0).server Link.fresh).2.map (fun r =>
        r.2.1.lpPatchHead.map AppliedPatch.sha1) =
      some [(storedPatch.loaded fun l _ => l.headD 0).sha1] := by
    subst hfirst
    decide +kernel
  obtain ⟨⟨b, s, l⟩, hrun, hall⟩ := Option.map_eq_some_iff.mp hnext
  obtain ⟨hattended, hrest⟩ := Prod.mk.inj hall
  obtain ⟨hids, hnone⟩ := Prod.mk.inj hrest
  rw [hrun] at hlive
  refine ⟨?_, ?_, b, s, l, hrun, hattended, hids, Option.some.inj hlive, hnone⟩
  · subst hfirst
    decide +kernel
  · subst hfirst
    decide +kernel

/-- The patch is applied and taken out again. -/
theorem invocations_explained_two :
    let hash : List Byte → Bytes shaDigestLength := fun l _ => l.headD 0
    ∃ q₁ q, Queue.Reachable (steadyService sampleImage sampleInfo)
        (fun s => s.lpPatchHead.length ≤ maxListPatches3) (twoInvocations hash) q₁ ∧
      q₁.server.live = {(storedPatch.loaded hash).sha1} ∧
      Queue.Reachable (steadyService sampleImage sampleInfo)
        (fun s => s.lpPatchHead.length ≤ maxListPatches3) (twoInvocations hash) q ∧
      askedBy q = [(true, sandboxMsgGetBld), (true, sandboxMsgList), (true, sandboxMsgApply),
        (true, sandboxMsgList), (false, sandboxMsgList), (false, sandboxMsgUndoReq)] ∧
      q.server.live = ∅ ∧
      Explained LiveStep (twoInvocations hash).server.live q₁.served q₁.server.live ∧
      Distinct q.server ∧ Alone q.history ∧
      Explained LiveStep (twoInvocations hash).server.live q.served q.server.live := by
  intro hash
  have hprogram : ∀ i, ((twoInvocations hash).seats i).program =
      (applyOrRemove hash i).main (fileSurroundings hash) hash := fun i => by
    rw [twoInvocations_seats]
  have hinit : (twoInvocations hash).Initial := ⟨rfl, rfl, rfl⟩
  obtain ⟨hfirst, hids₁, b, s, l, hrun₁, hsecond, hids₂, hlive, hnone⟩ :=
    @served_twoInvocations hash rfl _ _ rfl rfl
  obtain ⟨q₁, q, hreach₁, rfl, hreach, hasked, b', l', hrun⟩ := exists_twoVisits hinit rfl
    (Nat.zero_le _) (twoInvocations_seats hash) hfirst hrun₁ hsecond
  have hfresh : (steadyService sampleImage sampleInfo).fresh = Link.fresh := rfl
  rw [hfresh] at hasked hrun
  rw [hids₁, hids₂] at hasked
  rw [hrun] at hnone
  have hone : q₁.server.live = {(storedPatch.loaded hash).sha1} := by
    rw [Sandbox.live, hlive]
    rfl
  have hgone : q.server.live = ∅ := by
    rw [Sandbox.live, List.length_eq_zero_iff.mp (Option.some.inj hnone)]
    rfl
  have hexplained := @invocations_explained sampleImage Bool _ sampleInfo (applyOrRemove hash)
    (fun _ => fileSurroundings hash) hash (twoInvocations hash)
  exact ⟨q₁, q, hreach₁, hone, hreach, hasked, hgone,
    (hexplained q₁ hinit hprogram List.nodup_nil hreach₁).2.2,
    hexplained q hinit hprogram List.nodup_nil hreach⟩

end Patchbox
