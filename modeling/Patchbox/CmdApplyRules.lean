import Patchbox.CmdApply

/-!
# Rules for the parts of `cmd_apply`

What each part of the command asks for and leaves, whatever the system does. A search finds in the
list what the server has in its own; a pass stops with an error, finds that the patch is live, or
sends it with its dependencies resolved.

## Main definitions

* `Applied`, `patchInfo` — whether a patch is live, and what a list tells of it.
* `lists`, `marks`, `builds` — the traces of the parts.
* `Searched`, `Patch.sent` — a search that is successful, and the patch that is sent then.
* `safe_applyPatch` — one pass.
-/

namespace Patchbox
open Lib

variable {img : Image}

/-! ## What a list tells -/

/-- The record of a live patch in a list. -/
def AppliedPatch.info (ap : AppliedPatch) : XenlpPatchInfo3 := ⟨ap.map.addr, ap.sha1⟩

/-- A patch with the hash is live. -/
def Applied (s : Sandbox) (sha1 : Bytes shaDigestLength) : Prop :=
  ∃ ap ∈ s.lpPatchHead, ap.sha1 = sha1

/-- What a search for the hash finds. -/
def patchInfo (s : Sandbox) (sha1 : Bytes shaDigestLength) : Option XenlpPatchInfo3 :=
  (s.lpPatchHead.map AppliedPatch.info).find? fun pi => pi.sha1 = sha1

theorem isSome_patchInfo {s : Sandbox} {sha1 : Bytes shaDigestLength} :
    (patchInfo s sha1).isSome ↔ Applied s sha1 := by
  rw [patchInfo, List.find?_isSome]
  simp [Applied, AppliedPatch.info]

theorem load_of_standsAt_listResponse {f : ℕ → Byte} {off : ℕ} {ap : AppliedPatch}
    (h : StandsAt f off (storeListResponse ap)) : XenlpPatchInfo3.load f off = ap.info := by
  simp only [storeListResponse, standsAt_append, length_leBytes] at h
  obtain ⟨⟨haddr, hsha1⟩, -⟩ := h
  rw [XenlpPatchInfo3.load, StandsAt.word64 haddr, StandsAt.bytes hsha1, AppliedPatch.info]

/-- The client finds the patches of the list in it, unless there are too many. -/
theorem findPatch_storeList {list : List AppliedPatch} (hfit : ListFits list.length) :
    findPatch (storeList list) =
      if maxListPatches3 < list.length then none else some (list.map AppliedPatch.info) := by
  have hle := listFits_iff.mp hfit
  have hstands := standsAt_fromList (storeList list) fun _ => 0
  rw [storeList, standsAt_append, length_leBytes] at hstands
  obtain ⟨hcount, hpatches⟩ := hstands
  rw [← storeList] at hcount hpatches
  have hlen : (BitVec.ofNat 32 list.length).toNat = list.length := by
    rw [BitVec.toNat_ofNat]
    exact Nat.mod_eq_of_lt (by omega)
  rw [← hlen] at hcount
  rw [findPatch, bytesOf, StandsAt.word32 hcount, hlen]
  by_cases hmany : maxListPatches3 < list.length
  · rw [if_pos hmany, if_pos (lt_min hmany (by decide))]
  · have hsize : min list.length maxListPatches = list.length := by
      simp only [maxListPatches3] at hmany
      simp only [maxListPatches]
      omega
    rw [if_neg hmany, if_neg (by rw [hsize]; exact hmany)]
    refine congrArg some (List.ext_getElem ?_ fun i hi hi' => ?_)
    · rw [List.length_ofFn, List.length_map, hsize]
    · rw [List.length_map] at hi'
      rw [List.getElem_ofFn, List.getElem_map]
      exact load_of_standsAt_listResponse (hpatches.flatMap length_storeListResponse hi')

/-- What it makes of the list of a server. -/
theorem searchList_storeList {sha1 : Bytes shaDigestLength} {s : Sandbox}
    (hfit : ListFits s.lpPatchHead.length) :
    searchList sha1 ((sandboxListPatches ⟨sandboxOk, some (storeList s.lpPatchHead)⟩).map
        findPatch) =
      if maxListPatches3 < s.lpPatchHead.length then .forever
      else .done (some (patchInfo s sha1)) := by
  have hbuf : sandboxListPatches ⟨sandboxOk, some (storeList s.lpPatchHead)⟩ =
      some (storeList s.lpPatchHead) := if_neg fun h => h rfl
  rw [hbuf, Option.map_some, findPatch_storeList hfit]
  split_ifs <;> rfl

/-! ## Rules for the parts -/

section Rules

variable {info : List Byte} {ok : Sandbox → Prop}
  {inv : Sandbox → List (ClientRequest ⊕ ℕ) → Prop} {s : Sandbox} {l : Link}
  {tr : List (ClientRequest ⊕ ℕ)}

/-- A list request leaves the server as it was, and its answer is an error or the list. -/
theorem safe_findPatch3 {sha1 : Bytes shaDigestLength}
    {post : Option (Option XenlpPatchInfo3) → Sandbox → Link → List (ClientRequest ⊕ ℕ) → Prop}
    (hclean : l.Clean) (hinv : inv s (tr ++ [.inl .list])) (herr : ∀ s l tr, post none s l tr)
    (hfound : ∀ l', l'.Clean → l'.left + 1 = l.left → s.lpPatchHead.length ≤ maxListPatches3 →
      post (some (patchInfo s sha1)) s l' (tr ++ [.inl .list])) :
    (findPatch3 sha1).Safe (sandboxService img info) ok inv post s l tr := by
  refine Client.safe_ask_of_serve fun e => ?_
  obtain ⟨l', a, heq, hans⟩ := @exchange_list img e.1 s l hclean
  refine ⟨s, l', a, heq, hinv, fun ans ha => ?_⟩
  rcases hans ans ha with hcode | ⟨rfl, hclean', hleft, hfit⟩
  · rw [sandboxListPatches, if_pos hcode]
    exact herr _ _ _
  · rw [searchList_storeList hfit]
    split_ifs with hmany
    · exact True.intro
    · exact hfound l' hclean' hleft (Nat.le_of_not_lt hmany)

/-- The dependency as it is resolved where it is live. -/
def resolveIn (s : Sandbox) (d : Dependency) : Dependency :=
  (patchInfo s d.sha1).elim d d.resolve

/-- So many list requests. -/
def lists (n : ℕ) : List (ClientRequest ⊕ ℕ) := List.replicate n (.inl .list)

theorem lists_succ (n : ℕ) : [.inl .list] ++ lists n = lists (n + 1) := rfl

/-- The dependencies are looked up with one list request each. -/
theorem safe_findDeps (ds : List Dependency)
    {post : Option (ListOf Dependency ds.length) → Sandbox → Link → List (ClientRequest ⊕ ℕ) → Prop}
    (hclean : l.Clean) (hinv : ∀ n, inv s (tr ++ lists n)) (herr : ∀ s l tr, post none s l tr)
    (hfound : ∀ deps l', deps.1 = ds.map (resolveIn s) → (∀ d ∈ ds, Applied s d.sha1) →
      l'.Clean → l'.left + ds.length = l.left → post (some deps) s l' (tr ++ lists ds.length)) :
    (findDeps ds).Safe (sandboxService img info) ok inv post s l tr := by
  induction ds generalizing l tr with
  | nil =>
      have hnil := hfound ⟨[], rfl⟩ l rfl (by simp) hclean rfl
      have htr : tr ++ lists ([] : List Dependency).length = tr := List.append_nil tr
      rw [htr] at hnil
      exact hnil
  | cons d ds ih =>
      have hfirst : (findPatch3 d.sha1).Safe (sandboxService img info) ok inv (fun r s' l' tr' =>
          r ≠ none → s' = s ∧ tr' = tr ++ [.inl .list] ∧ l'.Clean ∧ l'.left + 1 = l.left ∧
            r = some (patchInfo s d.sha1)) s l tr :=
        safe_findPatch3 hclean (hinv 1) (fun _ _ _ h => absurd rfl h)
          fun l' hclean' hleft _ _ => ⟨rfl, rfl, hclean', hleft, rfl⟩
      refine hfirst.bind fun r s' l' tr' hr => ?_
      rcases r with _ | _ | pi
      · exact herr _ _ _
      · exact herr _ _ _
      · obtain ⟨rfl, rfl, hclean', hleft, hpi⟩ := hr (Option.some_ne_none _)
        have hpi := (Option.some.inj hpi).symm
        have hrest : (findDeps ds).Safe (sandboxService img info) ok inv (fun deps s l tr =>
            post (deps.map (ListOf.cons (d.resolve pi))) s l tr) s' l' (tr ++ [.inl .list]) := by
          refine ih hclean' (fun n => ?_) (fun _ _ _ => herr _ _ _)
            fun deps l'' hdeps happlied hclean'' hleft'' => ?_
          · rw [List.append_assoc, lists_succ]
            exact hinv (n + 1)
          · rw [List.append_assoc, lists_succ]
            refine hfound (ListOf.cons (d.resolve pi) deps) l'' ?_ ?_ hclean'' ?_
            · have hval : (ListOf.cons (d.resolve pi) deps).1 = d.resolve pi :: deps.1 := rfl
              rw [hval, hdeps, List.map_cons, resolveIn, hpi, Option.elim_some]
            · refine List.forall_mem_cons.mpr ⟨isSome_patchInfo.mp ?_, happlied⟩
              rw [hpi]
              rfl
            · rw [List.length_cons]
              omega
        exact hrest.bind fun _ _ _ _ h => h

/-- The loop marks the relocations one by one. -/
def marks (i n : ℕ) : List (ClientRequest ⊕ ℕ) := (List.range' i n).map .inr

theorem marks_succ (i n : ℕ) : [.inr i] ++ marks (i + 1) n = marks i (n + 1) := rfl

/-- The blob with the second-level relocations applied. -/
def adjustBlob (deps : List Dependency) (relocs3 : List Reloc3) (blob : Blob) : Blob :=
  relocs3.foldl (fun blob rel3 => addWord blob rel3.offset.toNat
    ((deps[rel3.index.toNat]?.map Dependency.reladdr).getD 0)) blob

theorem safe_applyRelocs3 {deps : List Dependency} (relocs3 : List Reloc3) {i : ℕ} {blob : Blob}
    {post : Option Blob → Sandbox → Link → List (ClientRequest ⊕ ℕ) → Prop}
    (hinv : ∀ n ≤ relocs3.length, (∀ r ∈ relocs3.take n, r.index.toNat < deps.length) →
      inv s (tr ++ marks i n))
    (herr : ∀ s l tr, post none s l tr)
    (hdone : (∀ r ∈ relocs3, r.index.toNat < deps.length) →
      post (some (adjustBlob deps relocs3 blob)) s l (tr ++ marks i relocs3.length)) :
    (applyRelocs3 deps i relocs3 blob).Safe (sandboxService img info) ok inv post s l tr := by
  induction relocs3 generalizing i blob tr with
  | nil =>
      have hnil := hdone (by simp)
      rw [List.length_nil, marks, List.range'_zero, List.map_nil, List.append_nil] at hnil
      exact hnil
  | cons rel3 relocs3 ih =>
      rw [applyRelocs3]
      by_cases hindex : rel3.index.toNat < deps.length
      · rw [dif_pos hindex]
        refine ⟨hinv 1 (by simp) (by simpa using hindex), ih (fun n hn hvalid => ?_) fun hall => ?_⟩
        · rw [List.append_assoc, marks_succ]
          exact hinv (n + 1) (Nat.succ_le_succ hn) (List.forall_mem_cons.mpr ⟨hindex, hvalid⟩)
        · have hcons := hdone (List.forall_mem_cons.mpr ⟨hindex, hall⟩)
          rw [List.length_cons, ← marks_succ, ← List.append_assoc, adjustBlob, List.foldl_cons,
            List.getElem?_eq_getElem hindex] at hcons
          exact hcons
      · rw [dif_neg hindex]
        exact herr _ _ _

@[simp] theorem length_addWord (blob : Blob) (off : ℕ) (v : BitVec 32) :
    (addWord blob off v).1.length = blob.1.length := by
  rw [addWord]
  split_ifs with h
  · simp only [List.length_append, List.length_take, length_leBytes, List.length_drop]
    omega
  · rfl

@[simp] theorem length_adjustBlob (deps : List Dependency) (relocs3 : List Reloc3) (blob : Blob) :
    (adjustBlob deps relocs3 blob).1.length = blob.1.length := by
  induction relocs3 generalizing blob with
  | nil => rfl
  | cons rel3 relocs3 ih =>
      rw [adjustBlob, List.foldl_cons]
      exact (ih _).trans (length_addWord _ _ _)

/-- All dependencies, resolved. -/
def resolveDeps (s : Sandbox) (p : Patch) : ListOf Dependency p.deps.1.length :=
  ⟨p.deps.1.map (resolveIn s), List.length_map _⟩

/-- The first half finds that the patch is live, or all its dependencies. -/
theorem safe_searchPatches {p : Patch}
    {post : Option (Option (ListOf Dependency p.deps.1.length)) → Sandbox → Link →
      List (ClientRequest ⊕ ℕ) → Prop}
    (hclean : l.Clean) (hinv : ∀ n, inv s (tr ++ lists n)) (herr : ∀ s l tr, post none s l tr)
    (hlive : ∀ l', l'.Clean → l'.left + 1 = l.left → Applied s p.sha1 →
      post (some none) s l' (tr ++ lists 1))
    (hfound : ∀ l', l'.Clean → l'.left + (p.deps.1.length + 1) = l.left → ¬Applied s p.sha1 →
      (∀ d ∈ p.deps.1, Applied s d.sha1) → s.lpPatchHead.length ≤ maxListPatches3 →
        post (some (some (resolveDeps s p))) s l' (tr ++ lists (p.deps.1.length + 1))) :
    (searchPatches p).Safe (sandboxService img info) ok inv post s l tr := by
  have hfirst : (findPatch3 p.sha1).Safe (sandboxService img info) ok inv (fun r s' l' tr' =>
      r ≠ none → s' = s ∧ tr' = tr ++ lists 1 ∧ l'.Clean ∧ l'.left + 1 = l.left ∧
        s.lpPatchHead.length ≤ maxListPatches3 ∧ r = some (patchInfo s p.sha1)) s l tr :=
    safe_findPatch3 hclean (hinv 1) (fun _ _ _ h => absurd rfl h)
      fun l' hclean' hleft hroom _ => ⟨rfl, rfl, hclean', hleft, hroom, rfl⟩
  refine hfirst.bind fun r s' l' tr' hr => ?_
  rcases r with _ | _ | pi
  · exact herr _ _ _
  · obtain ⟨rfl, rfl, hclean', hleft, hroom, hpi⟩ := hr (Option.some_ne_none _)
    have hnone : ¬Applied s' p.sha1 := by
      rw [← isSome_patchInfo, ← Option.some.inj hpi]
      simp
    have hrest : (findDeps p.deps.1).Safe (sandboxService img info) ok inv (fun r s'' l'' tr'' =>
        r ≠ none → s'' = s' ∧ tr'' = tr ++ lists (p.deps.1.length + 1) ∧ l''.Clean ∧
          l''.left + (p.deps.1.length + 1) = l.left ∧ (∀ d ∈ p.deps.1, Applied s' d.sha1) ∧
            r = some (resolveDeps s' p)) s' l' (tr ++ lists 1) := by
      refine safe_findDeps p.deps.1 hclean' (fun n => ?_) (fun _ _ _ h => absurd rfl h)
        fun deps l'' hdeps happlied hclean'' hleft' _ => ?_
      · rw [List.append_assoc]
        exact hinv (n + 1)
      · exact ⟨rfl, List.append_assoc _ _ _, hclean'', by omega, happlied,
          congrArg some (Subtype.ext hdeps)⟩
    refine hrest.bind fun r s'' l'' tr'' hr => ?_
    cases r with
    | none => exact herr _ _ _
    | some deps =>
        obtain ⟨rfl, rfl, hclean'', hleft', happlied, hdeps⟩ := hr (Option.some_ne_none _)
        rw [Option.some.inj hdeps]
        exact hfound l'' hclean'' hleft' hnone happlied hroom
  · obtain ⟨rfl, rfl, hclean', hleft, -, hpi⟩ := hr (Option.some_ne_none _)
    refine hlive l' hclean' hleft (isSome_patchInfo.mp ?_)
    rw [← Option.some.inj hpi]
    rfl

/-- The patch that is sent, for the dependencies that were found. -/
def Patch.adjusted (p : Patch) (deps : ListOf Dependency p.deps.1.length) : Patch :=
  p.relocated deps (adjustBlob deps.1 p.relocs3.1 p.blob)

/-- Its message. -/
def Patch.message (fill : Patch → List XenlpPatchWrite → List Byte) (p : Patch) : List Byte :=
  fill p (patchWrites p)

/-- The second half marks the relocations, and the library gets the message. -/
theorem safe_sendPatch {fill : Patch → List XenlpPatchWrite → List Byte} {p : Patch}
    {deps : ListOf Dependency p.deps.1.length} {buf : List Byte}
    {post : Option Patch → Sandbox → Link → List (ClientRequest ⊕ ℕ) → Prop}
    (hclean : l.Clean) (hbuf : (p.adjusted deps).message fill = buf)
    (hlen : sandboxMsgHdrlen + buf.length < 2 ^ 32)
    (hmarks : ∀ n ≤ p.relocs3.1.length,
      (∀ r ∈ p.relocs3.1.take n, r.index.toNat < p.deps.1.length) → inv s (tr ++ marks 0 n))
    (happly : (∀ r ∈ p.relocs3.1, r.index.toNat < p.deps.1.length) → ∀ s',
      (s' = s ∨ ∃ env beyond, s' = (xenlpApply4 img env (fromList buf beyond) s).sandbox) →
        inv s' (tr ++ marks 0 p.relocs3.1.length ++ [.inl (.apply buf)]))
    (herr : ∀ s l tr, post none s l tr)
    (hsent : ∀ env beyond s' l', (xenlpApply4 img env (fromList buf beyond) s).ccode = sandboxOk →
      s' = (xenlpApply4 img env (fromList buf beyond) s).sandbox →
      (∀ r ∈ p.relocs3.1, r.index.toNat < p.deps.1.length) →
      sandboxMsgHdrlen + buf.length ≤ sandboxAllocSize → l'.Clean → l'.left + 1 = l.left →
        post (some (p.adjusted deps)) s' l'
          (tr ++ marks 0 p.relocs3.1.length ++ [.inl (.apply buf)])) :
    (sendPatch fill p deps).Safe (sandboxService img info) ok inv post s l tr := by
  have hfirst : (applyRelocs3 deps.1 0 p.relocs3.1 p.blob).Safe (sandboxService img info) ok inv
      (fun r s' l' tr' => r ≠ none → s' = s ∧ l' = l ∧ tr' = tr ++ marks 0 p.relocs3.1.length ∧
        (∀ r ∈ p.relocs3.1, r.index.toNat < p.deps.1.length) ∧
          r = some (adjustBlob deps.1 p.relocs3.1 p.blob)) s l tr := by
    refine safe_applyRelocs3 _ (fun n hn hvalid => hmarks n hn (deps.2 ▸ hvalid))
      (fun _ _ _ h => absurd rfl h) fun hall _ => ?_
    rw [deps.2] at hall
    exact ⟨rfl, rfl, rfl, hall, rfl⟩
  refine hfirst.bind fun r s' l' tr' hr => ?_
  cases r with
  | none => exact herr _ _ _
  | some blob =>
      obtain ⟨rfl, rfl, rfl, hall, hblob⟩ := hr (Option.some_ne_none _)
      obtain rfl := Option.some.inj hblob
      rw [Patch.message, Patch.adjusted] at hbuf
      dsimp only
      rw [hbuf]
      refine Client.safe_ask_of_serve fun e => ?_
      obtain ⟨s'', l'', a, heq, hstate, hans⟩ := @exchange_apply img e.1 s' l' hclean buf hlen
      refine ⟨s'', l'', a, heq, happly hall s'' hstate, fun ans ha => ?_⟩
      rcases hans ans ha with hcode | ⟨rfl, hclean', hleft, hfit, env, beyond, hcode, hs''⟩
      · rw [if_pos hcode]
        exact herr _ _ _
      · rw [if_neg (by simp)]
        exact hsent env beyond s'' l'' hcode hs'' hall hfit hclean' hleft

/-- What a search shows of a patch that is not live yet. -/
structure Searched (s : Sandbox) (p : Patch) : Prop where
  new : ¬Applied s p.sha1
  deps : ∀ d ∈ p.deps.1, Applied s d.sha1
  room : s.lpPatchHead.length ≤ maxListPatches3

/-- The patch that is sent to a server in this state. -/
def Patch.sent (p : Patch) (s : Sandbox) : Patch := p.adjusted (resolveDeps s p)

/-- **One pass.** The patch is live, or it is sent with its dependencies resolved. -/
theorem safe_applyPatch {fill : Patch → List XenlpPatchWrite → List Byte} {p : Patch}
    {buf : List Byte} {post : Option Patch → Sandbox → Link → List (ClientRequest ⊕ ℕ) → Prop}
    (hclean : l.Clean) (hbuf : (p.sent s).message fill = buf)
    (hlen : sandboxMsgHdrlen + buf.length < 2 ^ 32) (hlists : ∀ n, inv s (tr ++ lists n))
    (hmarks : Searched s p → p.deps.1.length + 1 ≤ l.left → ∀ n ≤ p.relocs3.1.length,
      (∀ r ∈ p.relocs3.1.take n, r.index.toNat < p.deps.1.length) →
        inv s (tr ++ lists (p.deps.1.length + 1) ++ marks 0 n))
    (happly : Searched s p → p.deps.1.length + 1 ≤ l.left →
      (∀ r ∈ p.relocs3.1, r.index.toNat < p.deps.1.length) → ∀ s',
        (s' = s ∨ ∃ env beyond, s' = (xenlpApply4 img env (fromList buf beyond) s).sandbox) →
          inv s' (tr ++ lists (p.deps.1.length + 1) ++ marks 0 p.relocs3.1.length ++
            [.inl (.apply buf)]))
    (herr : ∀ s l tr, post none s l tr)
    (hlive : ∀ l', l'.Clean → l'.left + 1 = l.left → Applied s p.sha1 →
      post (some p) s l' (tr ++ lists 1))
    (hsent : ∀ env beyond s' l', Searched s p →
      (xenlpApply4 img env (fromList buf beyond) s).ccode = sandboxOk →
      s' = (xenlpApply4 img env (fromList buf beyond) s).sandbox →
      (∀ r ∈ p.relocs3.1, r.index.toNat < p.deps.1.length) →
      sandboxMsgHdrlen + buf.length ≤ sandboxAllocSize → l'.Clean →
      l'.left + (p.deps.1.length + 2) = l.left → post (some (p.sent s)) s' l'
        (tr ++ lists (p.deps.1.length + 1) ++ marks 0 p.relocs3.1.length ++
          [.inl (.apply buf)])) :
    (applyPatch fill p).Safe (sandboxService img info) ok inv post s l tr := by
  have hfirst : (searchPatches p).Safe (sandboxService img info) ok inv (fun r s' l' tr' =>
      r ≠ none → s' = s ∧ l'.Clean ∧
        (r = some none ∧ tr' = tr ++ lists 1 ∧ l'.left + 1 = l.left ∧ Applied s p.sha1 ∨
          r = some (some (resolveDeps s p)) ∧ tr' = tr ++ lists (p.deps.1.length + 1) ∧
            l'.left + (p.deps.1.length + 1) = l.left ∧ Searched s p)) s l tr :=
    safe_searchPatches hclean hlists (fun _ _ _ h => absurd rfl h)
      (fun l' hclean' hleft happlied _ => ⟨rfl, hclean', .inl ⟨rfl, rfl, hleft, happlied⟩⟩)
      fun l' hclean' hleft hnew hdeps hroom _ =>
        ⟨rfl, hclean', .inr ⟨rfl, rfl, hleft, hnew, hdeps, hroom⟩⟩
  refine hfirst.bind fun r s' l' tr' hr => ?_
  rcases r with _ | _ | deps
  · exact herr _ _ _
  · obtain ⟨rfl, hclean', ⟨-, rfl, hleft, happlied⟩ | ⟨heq, -⟩⟩ := hr (Option.some_ne_none _)
    · exact hlive l' hclean' hleft happlied
    · cases heq
  · obtain ⟨rfl, hclean', ⟨heq, -⟩ | ⟨heq, rfl, hleft, hsearched⟩⟩ := hr (Option.some_ne_none _)
    · cases heq
    · obtain rfl := Option.some.inj (Option.some.inj heq)
      exact safe_sendPatch hclean' hbuf hlen (hmarks hsearched (by omega))
        (happly hsearched (by omega)) herr
        fun env beyond s'' l'' hcode hs'' hindex hfit hclean'' hleft' =>
          hsent env beyond s'' l'' hsearched hcode hs'' hindex hfit hclean'' (by omega)

/-- The first of the strings that were found is not empty. -/
theorem infoString_infoStrings {buf : List Byte} (h : infoStrings buf ≠ []) :
    ¬(infoString (infoStrings buf) 0).length < 1 := by
  cases hstrings : infoStrings buf with
  | nil => exact absurd hstrings h
  | cons first rest =>
      have hmem : first ∈ infoStrings buf := hstrings ▸ List.mem_cons_self
      rw [infoStrings] at hmem
      obtain ⟨token, htoken, rfl⟩ := List.mem_map.mp hmem
      have htoken := (List.mem_filter.mp (List.mem_of_mem_take htoken)).2
      have hpos := List.length_pos_iff.mpr (of_decide_eq_true htoken)
      simp only [infoString, List.getD_cons_zero, List.length_take, infoStringLen]
      omega

/-- The strings are asked for when there are none. -/
theorem safe_infoCheck {post : List (List Byte) → Sandbox → Link → List (ClientRequest ⊕ ℕ) → Prop}
    (hclean : l.Clean) (hinv : inv s (tr ++ [.inl .getBld]))
    (hnone : ∀ l', l'.left ≤ l.left → l'.Clean ∨ l'.Clogged → post [] s l' (tr ++ [.inl .getBld]))
    (hsome : ∀ l', l'.left + 1 = l.left → l'.Clean →
      post (infoStrings (buildInfoBuffer info)) s l' (tr ++ [.inl .getBld])) :
    (infoCheck []).Safe (sandboxService img info) ok inv post s l tr := by
  rw [infoCheck, if_pos (by decide), getInfoStrings]
  refine Client.safe_ask_of_serve fun e => ?_
  obtain ⟨l', a, heq, hans⟩ := @exchange_getBld img e.1 s l hclean
  refine ⟨s, l', a, heq, hinv, fun ans ha => ?_⟩
  rcases hans ans ha with ⟨hbuf, hleft, hlink⟩ | ⟨hbuf, hclean', hleft⟩
  · rw [hbuf]
    exact hnone l' hleft hlink
  · rw [hbuf, e.2]
    dsimp only
    rw [List.drop_nil, List.append_nil]
    exact hsome l' hleft hclean'

/-- Behind a text that was left in the stream there are none to be had. -/
theorem safe_infoCheck_clogged
    {post : List (List Byte) → Sandbox → Link → List (ClientRequest ⊕ ℕ) → Prop}
    (hclogged : l.Clogged) (hinv : inv s (tr ++ [.inl .getBld]))
    (hnone : ∀ l', post [] s l' (tr ++ [.inl .getBld])) :
    (infoCheck []).Safe (sandboxService img info) ok inv post s l tr := by
  rw [infoCheck, if_pos (by decide), getInfoStrings]
  refine Client.safe_ask_of_serve fun e => ?_
  obtain ⟨l', a, heq, hans⟩ := @exchange_getBld_clogged img e.1 s l hclogged
  refine ⟨s, l', a, heq, hinv, fun ans ha => ?_⟩
  rw [hans ans ha]
  exact hnone l'

/-- So many requests for the build information. -/
def builds (n : ℕ) : List (ClientRequest ⊕ ℕ) := List.replicate n (.inl .getBld)

theorem builds_succ (n : ℕ) : [.inl .getBld] ++ builds n = builds (n + 1) := rfl

/-- **The strings of the server**, or none, after one or two requests. -/
theorem safe_infoChecks {β : Type} {k : List (List Byte) → Command β}
    {post : β → Sandbox → Link → List (ClientRequest ⊕ ℕ) → Prop} (hclean : l.Clean)
    (hinv : ∀ n, inv s (tr ++ builds n))
    (hnone : ∀ l' tr', (k []).Safe (sandboxService img info) ok inv post s l' tr')
    (hsome : ∀ l' n, l'.Clean → l'.left + 1 ≤ l.left →
      (k (infoStrings (buildInfoBuffer info))).Safe (sandboxService img info) ok inv post s l'
        (tr ++ builds n)) :
    ((infoCheck []).bind fun strings => (infoCheck strings).bind k).Safe
      (sandboxService img info) ok inv post s l tr := by
  -- what a second check does on the connection that the first one leaves
  have hsecond : ∀ l', l'.left ≤ l.left → l'.Clean ∨ l'.Clogged →
      ((infoCheck []).bind k).Safe (sandboxService img info) ok inv post s l' (tr ++ builds 1) := by
    intro l' hleft hlink
    have hinv' : inv s (tr ++ builds 1 ++ [.inl .getBld]) := by
      rw [List.append_assoc]
      exact hinv 2
    have hcheck : (infoCheck []).Safe (sandboxService img info) ok inv
        (fun strings s' l'' tr' => s' = s ∧ (strings = [] ∨
          strings = infoStrings (buildInfoBuffer info) ∧ l''.Clean ∧ l''.left + 1 ≤ l.left ∧
            tr' = tr ++ builds 2)) s l' (tr ++ builds 1) := by
      rcases hlink with hclean' | hclogged
      · exact safe_infoCheck hclean' hinv' (fun _ _ _ => ⟨rfl, .inl rfl⟩)
          fun l'' hleft' hclean'' => ⟨rfl, .inr ⟨rfl, hclean'', by omega, List.append_assoc _ _ _⟩⟩
      · exact safe_infoCheck_clogged hclogged hinv' fun _ => ⟨rfl, .inl rfl⟩
    refine hcheck.bind fun strings s' l'' tr' hstrings => ?_
    obtain ⟨rfl, rfl | ⟨rfl, hclean'', hleft', rfl⟩⟩ := hstrings
    · exact hnone _ _
    · exact hsome l'' 2 hclean'' hleft'
  have hfirst : (infoCheck []).Safe (sandboxService img info) ok inv
      (fun strings s' l' tr' => s' = s ∧ tr' = tr ++ builds 1 ∧ l'.left ≤ l.left ∧
        (strings = [] ∧ (l'.Clean ∨ l'.Clogged) ∨
          strings = infoStrings (buildInfoBuffer info) ∧ l'.Clean ∧ l'.left + 1 ≤ l.left)) s l tr :=
    safe_infoCheck hclean (hinv 1) (fun l' hleft hlink => ⟨rfl, rfl, hleft, .inl ⟨rfl, hlink⟩⟩)
      fun l' hleft hclean' => ⟨rfl, rfl, by omega, .inr ⟨rfl, hclean', hleft.le⟩⟩
  refine hfirst.bind fun strings s' l' tr' hstrings => ?_
  obtain ⟨rfl, rfl, hleft, ⟨rfl, hlink⟩ | ⟨rfl, hclean', hleft'⟩⟩ := hstrings
  · exact hsecond l' hleft hlink
  · by_cases hnil : infoStrings (buildInfoBuffer info) = []
    · rw [hnil]
      exact hsecond l' hleft (.inl hclean')
    · rw [infoCheck, if_neg (infoString_infoStrings hnil)]
      exact hsome l' 1 hclean' hleft'

end Rules

end Patchbox
