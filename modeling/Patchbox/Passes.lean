import Patchbox.SecondLevel

/-!
# The two passes of `cmd_apply`

Both capabilities are always set, so `cmd_apply` calls `_cmd_apply4` and then `_cmd_apply3` on one
patch in memory. The second one stops at its search when the first one has applied the patch. A
patch with dependencies is not applied, though the server answers `SANDBOX_OK`; then the second
pass performs its relocations once more and sends it again.

## Main definitions

* `events` — the relocations that a run performs, and the messages that it sends.
* `Patch.pass` — those of one pass.
* `Repeats` — the patches that are sent twice.
* `events_cmdApply`, `Repeats.exists_events` — what can happen, and what does for those.
* `events_nodup_iff` — when nothing happens twice.
-/

namespace Patchbox
open Lib

variable {img : Image} {info : List Byte} {p : Patch} {s : Sandbox} {l : Link} {left : ℕ}
  {tr : List (ClientRequest ⊕ ℕ)}

/-! ## Events -/

/-- The second-level relocations that are performed, by their index, and `none` for each APPLY
message that is sent, or would be if the system took it. -/
def events (tr : List (ClientRequest ⊕ ℕ)) : List (Option ℕ) :=
  tr.filterMap fun
    | .inl (.apply _) => some none
    | .inl _ => none
    | .inr i => some (some i)

@[simp] theorem events_append (tr tr' : List (ClientRequest ⊕ ℕ)) :
    events (tr ++ tr') = events tr ++ events tr' := List.filterMap_append

@[simp] theorem events_nil : events [] = [] := rfl

@[simp] theorem events_apply_cons (buf : List Byte) (tr : List (ClientRequest ⊕ ℕ)) :
    events (.inl (.apply buf) :: tr) = none :: events tr := rfl

@[simp] theorem events_lists (n : ℕ) : events (lists n) = [] := by
  induction n with
  | zero => rfl
  | succ n ih =>
      rw [← lists_succ, events_append, ih]
      rfl

@[simp] theorem events_builds (n : ℕ) : events (builds n) = [] := by
  induction n with
  | zero => rfl
  | succ n ih =>
      rw [← builds_succ, events_append, ih]
      rfl

@[simp] theorem events_marks (n : ℕ) : events (marks 0 n) = (List.range n).map some := by
  rw [events, marks, List.filterMap_map, List.range_eq_range']
  exact congrFun List.filterMap_eq_map _

/-- The second-level relocations in front of the first one with an invalid index. -/
def Patch.performed (p : Patch) : List Reloc3 :=
  p.relocs3.1.takeWhile fun r => r.index.toNat < p.deps.1.length

/-- What one pass does when the dependencies are found: it performs these relocations and sends the
message, unless there is an invalid one. -/
def Patch.pass (p : Patch) : List (Option ℕ) :=
  (List.range p.performed.length).map some ++
    if p.performed.length = p.relocs3.1.length then [none] else []

/-- They have a valid index. -/
theorem index_lt_of_mem_performed {r : Reloc3} (h : r ∈ p.performed) :
    r.index.toNat < p.deps.1.length := by
  rw [Patch.performed] at h
  exact of_decide_eq_true
    (List.mem_takeWhile_imp (p := fun r : Reloc3 => decide (r.index.toNat < p.deps.1.length)) h)

/-- They stand in front of the others. -/
theorem exists_performed_append (p : Patch) : ∃ rest, p.performed ++ rest = p.relocs3.1 :=
  List.takeWhile_prefix _

theorem le_length_performed {n : ℕ} (hn : n ≤ p.relocs3.1.length)
    (hvalid : ∀ r ∈ p.relocs3.1.take n, r.index.toNat < p.deps.1.length) :
    n ≤ p.performed.length := by
  have hall : ∀ r ∈ p.relocs3.1.take n, decide (r.index.toNat < p.deps.1.length) = true :=
    fun r hr => decide_eq_true (hvalid r hr)
  have hsplit := @List.takeWhile_append_of_pos _ _ _ (p.relocs3.1.drop n) hall
  rw [List.take_append_drop] at hsplit
  rw [Patch.performed, hsplit, List.length_append, List.length_take]
  omega

theorem length_performed_le (p : Patch) : p.performed.length ≤ p.relocs3.1.length :=
  (List.takeWhile_prefix _).length_le

/-- Without an invalid one all are performed. -/
theorem length_performed (h : ∀ r ∈ p.relocs3.1, r.index.toNat < p.deps.1.length) :
    p.performed.length = p.relocs3.1.length :=
  le_antisymm (length_performed_le p)
    (le_length_performed le_rfl (by rw [List.take_length]; exact h))

theorem pass_of_valid (h : ∀ r ∈ p.relocs3.1, r.index.toNat < p.deps.1.length) :
    p.pass = (List.range p.relocs3.1.length).map some ++ [none] := by
  rw [Patch.pass, length_performed h, if_pos rfl]

/-- A pass starts with the first of its relocations. -/
theorem range_prefix_pass {n : ℕ} (hn : n ≤ p.performed.length) :
    (List.range n).map some <+: p.pass := by
  obtain ⟨k, hk⟩ := Nat.exists_eq_add_of_le hn
  rw [Patch.pass, hk, List.range_add, List.map_append, List.append_assoc]
  exact List.prefix_append _ _

/-- A pass does nothing twice. -/
theorem nodup_pass (p : Patch) : p.pass.Nodup := by
  rw [Patch.pass]
  refine List.Nodup.append (List.nodup_range.map (Option.some_injective _)) ?_ ?_
  · split_ifs <;> simp
  · split_ifs <;> simp

/-! ## What can happen -/

section Safe

variable {ok : Sandbox → Prop} {bound : List (Option ℕ)}

/-- **One pass** stays within the events of a pass, and does nothing unless its search is
successful. -/
theorem safe_events_applyPatch {fill : Patch → List XenlpPatchWrite → List Byte} {buf : List Byte}
    {post : Option Patch → Sandbox → Link → List (ClientRequest ⊕ ℕ) → Prop}
    (hclean : l.Clean) (hbuf : (p.sent s).message fill = buf)
    (hlen : sandboxMsgHdrlen + buf.length < 2 ^ 32) (hbase : events tr <+: bound)
    (hbound : Searched s p → p.deps.1.length + 1 ≤ l.left → events tr ++ p.pass <+: bound)
    (herr : ∀ s l tr, post none s l tr)
    (hlive : ∀ l', l'.Clean → l'.left + 1 = l.left → Applied s p.sha1 →
      post (some p) s l' (tr ++ lists 1))
    (hsent : ∀ env beyond s' l', Searched s p →
      (xenlpApply4 img env (fromList buf beyond) s).ccode = sandboxOk →
      s' = (xenlpApply4 img env (fromList buf beyond) s).sandbox →
      (∀ r ∈ p.relocs3.1, r.index.toNat < p.deps.1.length) →
      sandboxMsgHdrlen + buf.length ≤ sandboxAllocSize → l'.Clean →
      l'.left + (p.deps.1.length + 2) = l.left → post (some (p.sent s)) s' l'
        (tr ++ lists (p.deps.1.length + 1) ++ marks 0 p.relocs3.1.length ++
          [.inl (.apply buf)])) :
    (applyPatch fill p).Safe (sandboxService img info) ok (fun _ tr => events tr <+: bound) post
      s l tr := by
  refine safe_applyPatch hclean hbuf hlen (fun n => ?_) (fun hsearched hleft n hn hvalid => ?_)
    (fun hsearched hleft hall s' _ => ?_) herr hlive hsent
  · rw [events_append, events_lists, List.append_nil]
    exact hbase
  · rw [events_append, events_append, events_lists, List.append_nil, events_marks]
    exact (List.prefix_append_right_inj _).mpr (range_prefix_pass (le_length_performed hn hvalid))
      |>.trans (hbound hsearched hleft)
  · have hpass := hbound hsearched hleft
    rw [pass_of_valid hall, ← List.append_assoc] at hpass
    simpa using hpass

/-- What the first pass leaves: its events are within the bound, also with a second pass behind
them, if there is one. -/
structure Leaves (bound : List (Option ℕ)) (p : Patch) (s : Sandbox) (l : Link)
    (tr : List (ClientRequest ⊕ ℕ)) : Prop where
  clean : l.Clean
  blob_lt : p.blob.1.length < 2 ^ 31
  first : events tr <+: bound
  again : Searched s p → p.deps.1.length + 1 ≤ l.left → events tr ++ p.pass <+: bound

theorem length_deps_sent : (p.sent s).deps.1.length = p.deps.1.length := (resolveDeps s p).2

theorem pass_sent : (p.sent s).pass = p.pass := by
  rw [Patch.pass, Patch.pass, Patch.performed, Patch.performed, length_deps_sent]
  rfl

/-- A patch that is sent twice: it suits the server, its dependencies are live and there are some,
its relocations name them, and its message fits and is answered `SANDBOX_OK`. -/
structure Repeats (img : Image) (info : List Byte) (s : Sandbox) (p : Patch) : Prop where
  suits : p.Suits (infoStrings (buildInfoBuffer info))
  searched : Searched s p
  deps : p.deps.1 ≠ []
  index : ∀ r ∈ p.relocs3.1, r.index.toNat < p.deps.1.length
  fits : sandboxMsgHdrlen + ((p.sent s).message fillPatchBuf4).length ≤ sandboxAllocSize
  readable : ∃ (env : ApplyEnv img) (beyond : ℕ → Byte),
    Readable env (fromList ((p.sent s).message fillPatchBuf4) beyond) s

theorem safe_events_cmdApply4 (hsuits : p.Suits (infoStrings (buildInfoBuffer info)))
    (hclean : l.Clean) (hblob : p.blob.1.length < 2 ^ 31) (htr : events tr = [])
    (hfirst : p.pass <+: bound)
    (hsecond : Repeats img info s p → 2 * p.deps.1.length + 3 ≤ l.left →
      p.pass ++ p.pass <+: bound) :
    (cmdApply4 p).Safe (sandboxService img info) ok (fun _ tr => events tr <+: bound)
      (fun r s l tr => ∀ p', r = some p' → Leaves bound p' s l tr) s l tr := by
  refine safe_events_applyPatch hclean rfl (length_message_lt (blob_lt_sent hblob s)).1
    (htr ▸ List.nil_prefix) (fun _ _ => by rw [htr]; exact hfirst) (fun _ _ _ _ h => by cases h)
    (fun l' hclean' _ happlied p' h => ?_)
    fun env beyond s' l' hsearched hcode hs' hindex hfit hclean' hleft p' h => ?_
  · obtain rfl := Option.some.inj h
    refine ⟨hclean', hblob, ?_, fun hsearched => absurd happlied hsearched.new⟩
    rw [events_append, events_lists, htr]
    exact List.nil_prefix
  · obtain rfl := Option.some.inj h
    have hevents : events (tr ++ lists (p.deps.1.length + 1) ++ marks 0 p.relocs3.1.length ++
        [.inl (.apply ((p.sent s).message fillPatchBuf4))]) = p.pass := by
      rw [pass_of_valid hindex]
      simp [htr]
    refine ⟨hclean', blob_lt_sent hblob s, hevents ▸ hfirst, fun hagain hleft' => ?_⟩
    -- without dependencies the patch would be live now
    have hdeps : p.deps.1 ≠ [] := fun hdeps =>
      hagain.new ((list_of_message4 hcode hs').1 (deps_adjusted_eq_nil.mpr hdeps))
    rw [hevents, pass_sent]
    rw [length_deps_sent] at hleft'
    exact hsecond ⟨hsuits, hsearched, hdeps, hindex, hfit, env, beyond,
      xenlpApply4_ccode_iff.mp hcode⟩ (by omega)

theorem safe_events_cmdApply3 (h : Leaves bound p s l tr) :
    (cmdApply3 p).Safe (sandboxService img info) ok (fun _ tr => events tr <+: bound)
      (fun _ _ _ _ => True) s l tr := by
  rw [cmdApply3]
  split_ifs
  · exact True.intro
  · exact safe_events_applyPatch h.clean rfl (length_message_lt (blob_lt_sent h.blob_lt s)).2
      h.first h.again (fun _ _ _ => True.intro) (fun _ _ _ _ => True.intro)
      fun _ _ _ _ _ _ _ _ _ _ _ => True.intro

/-- **The command** stays within the events of one pass, or of two for a patch that is sent
twice. -/
theorem events_cmdApply {hash : List Byte → Bytes shaDigestLength} {filename f : List Byte}
    (hload : loadPatchFile hash filename f = some p) (hclean : l.Clean)
    (hfirst : p.pass <+: bound)
    (hsecond : Repeats img info s p → 2 * p.deps.1.length + 4 ≤ l.left →
      p.pass ++ p.pass <+: bound) (env : ℕ → SystemEnv img info) :
    events ((cmdApply hash filename (some f)).run (sandboxService img info) env s l).1 <+:
      bound := by
  have hblob := blob_lt_of_loadPatchFile hash hload
  have hsafe : (cmdApply hash filename (some f)).Safe (sandboxService img info) (fun _ => True)
      (fun _ tr => events tr <+: bound) (fun _ _ _ _ => True) s l [] := by
    refine safe_cmdApply hload hclean (fun n => ?_) (fun _ _ _ _ _ => True.intro)
      fun l' n hclean' hleft hsuits => ?_
    · rw [List.nil_append, events_builds]
      exact List.nil_prefix
    · refine safe_applyWithCaps (fun _ _ _ _ _ => True.intro)
        (safe_events_cmdApply4 hsuits hclean' hblob (by simp) hfirst
          fun hrepeats hleft' => hsecond hrepeats (by omega))
        fun p' s' l'' tr' hleaves => (safe_events_cmdApply3 hleaves).mono fun _ _ _ _ _ _ => ?_
      exact True.intro
  obtain ⟨⟨-, hbound⟩, -⟩ := hsafe.run (fun _ => True.intro) List.nil_prefix env
  exact hbound

end Safe

/-! ## What does happen -/

/-- A system that refuses nothing, with a server that was built with `info`. -/
def granting (info : List Byte) (env : ApplyEnv img) (beyond : ℕ → Byte) : SystemEnv img info :=
  ⟨⟨true, ⟨env, true, true, beyond, info⟩, ⟨env, true, true, beyond, info⟩⟩, rfl⟩

/-- One request on a path. -/
theorem path_ask {β : Type} {s s' : Sandbox} {l l' : Link} (e : SystemEnv img info)
    {r : ClientRequest} {k : Answer → Command β} {ans : Answer}
    (h : exchange e.1 s l r = (s', l', some ans)) :
    Client.Path (sandboxService img info) (.ask r k) s l [.inl r] (k ans) s' l' :=
  .ask e h (.refl _ _ _)

theorem lists_add (m n : ℕ) : lists m ++ lists n = lists (m + n) := List.replicate_append_replicate

section Paths

variable (env : ApplyEnv img) (beyond : ℕ → Byte)
include env beyond

theorem path_findPatch3 {sha1 : Bytes shaDigestLength} (hl : l.Serving (left + 1))
    (hroom : s.lpPatchHead.length ≤ maxListPatches3) :
    ∃ l', l'.Serving left ∧ Client.Path (sandboxService img info) (findPatch3 sha1) s l (lists 1)
      (.done (some (patchInfo s sha1))) s l' := by
  have hfit : ListFits s.lpPatchHead.length := listFits_iff.mpr (hroom.trans (by decide))
  have hanswered := @answered_list img (granting info env beyond).1 s l hl.clean rfl rfl rfl hfit
  obtain ⟨l', hserve, hl'⟩ := hanswered.exchange hl rfl
  have hask := path_ask (k := fun ans => searchList sha1 ((sandboxListPatches ans).map findPatch))
    (granting info env beyond) hserve
  rw [searchList_storeList hfit, if_neg (Nat.not_lt.mpr hroom)] at hask
  exact ⟨l', hl', hask⟩

theorem path_findDeps (ds : List Dependency) (hl : l.Serving (left + ds.length))
    (hroom : s.lpPatchHead.length ≤ maxListPatches3) (happlied : ∀ d ∈ ds, Applied s d.sha1) :
    ∃ l', l'.Serving left ∧ Client.Path (sandboxService img info) (findDeps ds) s l
      (lists ds.length) (.done (some ⟨ds.map (resolveIn s), List.length_map _⟩)) s l' := by
  induction ds generalizing l with
  | nil => exact ⟨l, hl, .refl _ _ _⟩
  | cons d ds ih =>
      obtain ⟨hlive, hrest⟩ := List.forall_mem_cons.mp happlied
      obtain ⟨pi, hpi⟩ := Option.isSome_iff_exists.mp (isSome_patchInfo.mpr hlive)
      obtain ⟨l', hl', hfirst⟩ := @path_findPatch3 img info s l (left + ds.length) env beyond
        d.sha1 hl hroom
      obtain ⟨l'', hl'', hpath⟩ := ih hl' hrest
      refine ⟨l'', hl'', ?_⟩
      rw [hpi] at hfirst
      have hresolve : resolveIn s d = d.resolve pi := by rw [resolveIn, hpi, Option.elim_some]
      simp only [List.map_cons, hresolve]
      exact hfirst.andThen (hpath.bind _)

theorem path_searchPatches (hl : l.Serving (left + (p.deps.1.length + 1))) (h : Searched s p) :
    ∃ l', l'.Serving left ∧ Client.Path (sandboxService img info) (searchPatches p) s l
      (lists (p.deps.1.length + 1)) (.done (some (some (resolveDeps s p)))) s l' := by
  obtain ⟨l', hl', hfirst⟩ := @path_findPatch3 img info s l (left + p.deps.1.length) env beyond
    p.sha1 hl h.room
  obtain ⟨l'', hl'', hdeps⟩ := @path_findDeps img info s l' left env beyond p.deps.1 hl' h.room
    h.deps
  have hnone : patchInfo s p.sha1 = none := by
    rw [← Option.not_isSome_iff_eq_none, isSome_patchInfo]
    exact h.new
  rw [hnone] at hfirst
  rw [Nat.add_comm, ← lists_add]
  exact ⟨l'', hl'', hfirst.andThen (hdeps.bind _)⟩

end Paths

/-- The loop gets past relocations with a valid index. -/
theorem path_applyRelocs3 {deps : List Dependency} (before behind : List Reloc3)
    (h : ∀ r ∈ before, r.index.toNat < deps.length) (i : ℕ) (blob : Blob) :
    Client.Path (sandboxService img info) (applyRelocs3 deps i (before ++ behind) blob) s l
      (marks i before.length)
      (applyRelocs3 deps (i + before.length) behind (adjustBlob deps before blob)) s l := by
  induction before generalizing i blob with
  | nil => exact .refl _ _ _
  | cons rel3 before ih =>
      obtain ⟨hindex, hrest⟩ := List.forall_mem_cons.mp h
      have hpath := ih hrest (i + 1) (addWord blob rel3.offset.toNat
        (deps.get ⟨rel3.index.toNat, hindex⟩).reladdr)
      rw [List.cons_append, applyRelocs3, dif_pos hindex, List.length_cons, ← marks_succ,
        adjustBlob, List.foldl_cons, List.getElem?_eq_getElem hindex, ← Nat.add_assoc,
        Nat.add_right_comm]
      exact .mark hpath

/-- The message is sent when all of them are valid. -/
theorem path_sendPatch {fill : Patch → List XenlpPatchWrite → List Byte}
    (deps : ListOf Dependency p.deps.1.length)
    (h : ∀ r ∈ p.relocs3.1, r.index.toNat < p.deps.1.length) :
    ∃ k : Answer → Command (Option Patch), Client.Path (sandboxService img info)
        (sendPatch fill p deps) s l (marks 0 p.relocs3.1.length)
        (.ask (.apply ((p.adjusted deps).message fill)) k) s l ∧
      ∀ ans, 0 ≤ ans.ccode → k ans = .done (some (p.adjusted deps)) := by
  have hpath := @path_applyRelocs3 img info s l deps.1 p.relocs3.1 [] (by rwa [deps.2]) 0 p.blob
  rw [List.append_nil] at hpath
  exact ⟨fun ans => if ans.ccode < 0 then .done none else .done (some (p.adjusted deps)),
    hpath.bind _, fun ans hans => if_neg (Int.not_lt.mpr hans)⟩

/-- **One pass** gets to its message. -/
theorem path_applyPatch (fill : Patch → List XenlpPatchWrite → List Byte) (env : ApplyEnv img)
    (beyond : ℕ → Byte) (hl : l.Serving (left + (p.deps.1.length + 1))) (h : Searched s p)
    (hindex : ∀ r ∈ p.relocs3.1, r.index.toNat < p.deps.1.length) :
    ∃ l' k, l'.Serving left ∧ Client.Path (sandboxService img info) (applyPatch fill p) s l
        (lists (p.deps.1.length + 1) ++ marks 0 p.relocs3.1.length)
        (.ask (.apply ((p.sent s).message fill)) k) s l' ∧
      ∀ ans, 0 ≤ ans.ccode → k ans = .done (some (p.sent s)) := by
  obtain ⟨l', hl', hsearch⟩ := @path_searchPatches img info p s l left env beyond hl h
  obtain ⟨k, hsend, hk⟩ := @path_sendPatch img info p s l' fill (resolveDeps s p) hindex
  exact ⟨l', k, hl', hsearch.andThen hsend, hk⟩

@[simp] theorem sha1_resolveIn (s : Sandbox) (d : Dependency) : (resolveIn s d).sha1 = d.sha1 := by
  rw [resolveIn]
  cases patchInfo s d.sha1 <;> rfl

/-- A search finds the same when the list is the same. -/
theorem Searched.sent (h : Searched s p) {s' : Sandbox} (hlist : s'.lpPatchHead = s.lpPatchHead) :
    Searched s' (p.sent s) where
  new := by
    rw [Applied, hlist]
    exact h.new
  deps := by
    intro d hd
    obtain ⟨d', hd', rfl⟩ := List.mem_map.mp hd
    rw [sha1_resolveIn, Applied, hlist]
    exact h.deps d' hd'
  room := hlist ▸ h.room

/-- The first message leaves the list as it was, and the client goes on. -/
theorem Repeats.first (h : Repeats img info s p)
    (hl : l.Serving (left + (p.deps.1.length + 2))) :
    ∃ s' l', l'.Serving left ∧ s'.lpPatchHead = s.lpPatchHead ∧
      Client.Path (sandboxService img info) (cmdApply4 p) s l
        (lists (p.deps.1.length + 1) ++ marks 0 p.relocs3.1.length ++
          [.inl (.apply ((p.sent s).message fillPatchBuf4))]) (.done (some (p.sent s))) s' l' := by
  obtain ⟨env, beyond, hread⟩ := h.readable
  have hcode := xenlpApply4_ccode_iff.mpr hread
  have hlist := (list_of_message4 hcode rfl).2 fun hdeps => h.deps (deps_adjusted_eq_nil.mp hdeps)
  obtain ⟨l', k, hl', hpath, hk⟩ := @path_applyPatch img info p s l (left + 1) fillPatchBuf4 env
    beyond (by rwa [Nat.add_assoc, Nat.add_comm 1]) h.searched h.index
  cases hout : xenlpApply4 img env (fromList ((p.sent s).message fillPatchBuf4) beyond) s with
  | mk ccode s' log =>
    rw [hout] at hcode hlist
    obtain rfl : ccode = sandboxOk := hcode
    have hstatus : loadCcode (storeCcode sandboxOk) = sandboxOk :=
      loadCcode_storeCcode (by decide) (by decide)
    have hanswered := @answered_apply img (granting info env beyond).1 s l' hl'.clean rfl rfl _
      h.fits _ _ _ le_rfl hout
    obtain ⟨l'', hserve, hl''⟩ := hanswered.exchange hl' rfl
    have hask := path_ask (k := k) (granting info env beyond) hserve
    rw [hk _ hstatus.ge] at hask
    exact ⟨s', l'', hl'', hlist, hpath.trans hask⟩

/-- The older layout has no place for exception tables; the server takes none either. -/
theorem Repeats.cmdApply3_sent (h : Repeats img info s p) :
    cmdApply3 (p.sent s) = applyPatch fillPatchBuf3 (p.sent s) := by
  obtain ⟨env, beyond, hread⟩ := h.readable
  obtain ⟨-, -, hexct, hpre⟩ := hread.1.1
  rw [load_message4] at hexct hpre
  have hzero : ∀ l : Counted ExctblEntry, l.count.setWidth 32 = (0 : BitVec 32) → l.count = 0 := by
    intro l hl
    have hlen := toNat_setWidth_count l
    rw [hl, ← Counted.toNat_count] at hlen
    exact BitVec.toNat_inj.mp hlen.symm
  rw [cmdApply3, if_neg]
  intro hcount
  exact hcount.elim (fun hne => hne (hzero _ hexct)) fun hne => hne (hzero _ hpre)

/-- **Both passes** of a patch that is sent twice. -/
theorem Repeats.path (h : Repeats img info s p)
    (hl : l.Serving (left + (2 * p.deps.1.length + 3))) :
    ∃ s' l' buf, ∃ k : Answer → Command Int, Client.Path (sandboxService img info)
      (applyWithCaps (doLpCaps 0) p) s l
        (lists (p.deps.1.length + 1) ++ marks 0 p.relocs3.1.length ++
          [.inl (.apply ((p.sent s).message fillPatchBuf4))] ++
            (lists (p.deps.1.length + 1) ++ marks 0 p.relocs3.1.length))
        (.ask (.apply buf) k) s' l' := by
  have hsplit : left + (2 * p.deps.1.length + 3) =
      left + (p.deps.1.length + 1) + (p.deps.1.length + 2) := by omega
  rw [hsplit] at hl
  obtain ⟨s', l', hl', hlist, hfirst⟩ := h.first hl
  obtain ⟨env, beyond, -⟩ := h.readable
  have hindex : ∀ r ∈ (p.sent s).relocs3.1, r.index.toNat < (p.sent s).deps.1.length := by
    rw [length_deps_sent]
    exact h.index
  rw [← @length_deps_sent p s] at hl'
  obtain ⟨l'', k, -, hpath, -⟩ := @path_applyPatch img info (p.sent s) s' l' left fillPatchBuf3 env
    beyond hl' (h.searched.sent hlist) hindex
  rw [← h.cmdApply3_sent, length_deps_sent] at hpath
  refine ⟨s', l'', ((p.sent s).sent s').message fillPatchBuf3, fun ans => (k ans).bind fun r =>
    r.elim (.done (-1)) fun _ => .done 0, ?_⟩
  rw [applyWithCaps_eq]
  exact hfirst.andThen (hpath.bind _)

/-- The strings of the server are asked for once. -/
theorem path_infoChecks (env : ApplyEnv img) (beyond : ℕ → Byte) (hl : l.Serving (left + 1))
    (hsuits : p.Suits (infoStrings (buildInfoBuffer info))) :
    ∃ l', l'.Serving left ∧ Client.Path (sandboxService img info)
      ((infoCheck []).bind fun strings => (infoCheck strings).bind fun strings =>
        checkAndApply p strings) s l (builds 1) (applyWithCaps (doLpCaps 0) p) s l' := by
  have hanswered := @answered_getBld img (granting info env beyond).1 s l hl.clean rfl rfl
  obtain ⟨l', hserve, hl'⟩ := hanswered.exchange hl rfl
  have hne : infoStrings (buildInfoBuffer info) ≠ [] := by
    intro hnil
    exact hsuits.version_ne (by rw [hnil]; rfl)
  have hstrings : infoCheck (infoStrings (buildInfoBuffer info)) =
      .done (infoStrings (buildInfoBuffer info)) := by
    rw [infoCheck, if_neg (infoString_infoStrings hne)]
  have happly : checkAndApply p (infoStrings (buildInfoBuffer info)) =
      applyWithCaps (doLpCaps 0) p := by
    rw [checkAndApply, if_neg (not_or.mpr ⟨hsuits.version_ne, hsuits.date_ne⟩),
      if_neg (not_or.mpr ⟨not_not.mpr hsuits.version, not_not.mpr hsuits.date⟩),
      if_neg (not_not.mpr hsuits.crowbarabs), if_neg (not_not.mpr hsuits.checks),
      if_neg (not_not.mpr hsuits.tables)]
  have hfirst : Client.Path (sandboxService img info) (infoCheck []) s l (builds 1)
      (.done (infoStrings (buildInfoBuffer info) ++
        [].drop (infoStrings (buildInfoBuffer info)).length)) s l' := by
    rw [infoCheck, if_pos (by decide), getInfoStrings]
    exact path_ask (granting info env beyond) hserve
  rw [List.drop_nil, List.append_nil] at hfirst
  have hall := hfirst.bind fun strings => (infoCheck strings).bind fun strings =>
    checkAndApply p strings
  refine ⟨l', hl', ?_⟩
  rw [Client.bind, hstrings, Client.bind, happly] at hall
  exact hall

/-- **A patch that is sent twice** has all its relocations applied twice, when the session is long
enough. -/
theorem Repeats.exists_events (h : Repeats img info s p)
    {hash : List Byte → Bytes shaDigestLength} {filename f : List Byte}
    (hload : loadPatchFile hash filename f = some p) (hl : l.Serving left)
    (hleft : 2 * p.deps.1.length + 4 ≤ left) :
    ∃ env : ℕ → SystemEnv img info, p.pass ++ p.pass <+:
      events ((cmdApply hash filename (some f)).run (sandboxService img info) env s l).1 := by
  obtain ⟨spare, rfl⟩ := Nat.exists_eq_add_of_le' hleft
  obtain ⟨env, beyond, -⟩ := h.readable
  obtain ⟨l', hl', hinfo⟩ := @path_infoChecks img info p s l (spare + (2 * p.deps.1.length + 3))
    env beyond hl h.suits
  obtain ⟨s'', l'', buf, k, hpasses⟩ := h.path hl'
  have hall := hinfo.trans hpasses
  rw [← cmdApply_of_load hload] at hall
  obtain ⟨behind, hask⟩ := @Client.run_ask _ _ _ _ _ _ _ (sandboxService img info) s'' l''
    (.apply buf) k fun _ => granting info env beyond
  obtain ⟨env', hrun⟩ := hall.run fun _ => granting info env beyond
  refine ⟨env', ?_⟩
  rw [hrun, hask, pass_of_valid h.index]
  simp only [events_append, events_builds, events_lists, events_marks,
    events_apply_cons, events_nil, List.nil_append]
  exact ⟨events behind, by simp⟩

theorem Repeats.pass_ne_nil (h : Repeats img info s p) : p.pass ≠ [] := by
  rw [pass_of_valid h.index]
  exact List.concat_ne_nil _ _

theorem not_nodup_of_twice {p : Patch} {evs : List (Option ℕ)} (hne : p.pass ≠ [])
    (h : p.pass ++ p.pass <+: evs) : ¬evs.Nodup := by
  intro hnodup
  have hpasses := hnodup.sublist h.sublist
  obtain ⟨x, hx⟩ := List.exists_mem_of_ne_nil _ hne
  exact List.disjoint_of_nodup_append hpasses hx hx

/-- **One run sends at most one message and applies each relocation at most once**, unless the
patch is sent twice. -/
theorem events_nodup_iff (hash : List Byte → Bytes shaDigestLength) (filename f : List Byte)
    (p : Patch) (hload : loadPatchFile hash filename f = some p) (info : List Byte) (s : Sandbox)
    (l : Link) (left : ℕ) (hl : l.Serving left) :
    (∀ env : ℕ → SystemEnv img info,
      (events ((cmdApply hash filename (some f)).run (sandboxService img info) env s l).1).Nodup) ↔
        ¬(Repeats img info s p ∧ 2 * p.deps.1.length + 4 ≤ left) := by
  constructor
  · rintro hall ⟨hrepeats, hleft⟩
    obtain ⟨env, htwice⟩ := hrepeats.exists_events hload hl hleft
    exact not_nodup_of_twice hrepeats.pass_ne_nil htwice (hall env)
  · intro hnot env
    have hbound := @events_cmdApply img info p s l p.pass hash filename f hload hl.clean
      List.prefix_rfl (fun hrepeats hleft => absurd ⟨hrepeats, hl.left_eq ▸ hleft⟩ hnot) env
    exact (nodup_pass p).sublist hbound.sublist

/-- A patch with a dependency, as its file is loaded. -/
def loadedCaller : Patch := (callerPatch 0x400000).loaded fun l _ => l.headD 0

theorem load_loadedCaller :
    loadPatchFile (fun l _ => l.headD 0) [] ((callerPatch 0x400000).encode fun l _ => l.headD 0) =
      some loadedCaller :=
  loadPatchFile_of_encode _ (.inr (.inl rfl)) ⟨by decide, by decide⟩

/-- The search for a patch with a new hash is successful where all its dependencies are the one that
is live. -/
theorem searched_calleeSandbox (hsha1 : p.sha1 = fun _ => 0x58)
    (hdeps : ∀ d ∈ p.deps.1, d.sha1 = fun _ => 0) : Searched calleeSandbox p := by
  have hnew : (patchInfo calleeSandbox fun _ => 0x58).isSome = false := by decide +kernel
  have hlive : (patchInfo calleeSandbox fun _ => 0).isSome = true := by decide +kernel
  refine ⟨fun happlied => ?_, fun d hd => ?_, by decide +kernel⟩
  · rw [← hsha1, isSome_patchInfo.mpr happlied] at hnew
    cases hnew
  · rw [hdeps d hd]
    exact isSome_patchInfo.mp hlive

/-- The patch is sent twice to this server. -/
theorem repeats_loadedCaller : Repeats sampleImage sampleInfo calleeSandbox loadedCaller where
  suits := ⟨by decide +kernel, by decide +kernel, by decide +kernel, by decide +kernel, rfl, rfl,
    rfl⟩
  searched := searched_calleeSandbox rfl (List.forall_mem_singleton.mpr rfl)
  deps := List.cons_ne_nil _ _
  index := List.forall_mem_singleton.mpr Nat.zero_lt_one
  fits := by decide +kernel
  readable := ⟨sampleEnv, fun _ => 0, by decide +kernel⟩

theorem events_nodup_iff_loadedCaller :
    (∀ env : ℕ → SystemEnv sampleImage sampleInfo,
      (events ((cmdApply (fun l _ => l.headD 0) []
        (some ((callerPatch 0x400000).encode fun l _ => l.headD 0))).run
          (sandboxService sampleImage sampleInfo) env calleeSandbox Link.fresh).1).Nodup) ↔
      ¬(Repeats sampleImage sampleInfo calleeSandbox loadedCaller ∧
        2 * loadedCaller.deps.1.length + 4 ≤ sandboxMsgSessionLimit) :=
  events_nodup_iff _ [] _ _ load_loadedCaller sampleInfo calleeSandbox Link.fresh _
    ⟨Link.clean_fresh, rfl, rfl⟩

/-- The run with two passes. -/
theorem exists_events_loadedCaller : ∃ env : ℕ → SystemEnv sampleImage sampleInfo,
    loadedCaller.pass ++ loadedCaller.pass <+: events ((cmdApply (fun l _ => l.headD 0) []
      (some ((callerPatch 0x400000).encode fun l _ => l.headD 0))).run
        (sandboxService sampleImage sampleInfo) env calleeSandbox Link.fresh).1 := by
  have hserving : Link.fresh.Serving sandboxMsgSessionLimit := ⟨Link.clean_fresh, rfl, rfl⟩
  have hlen : loadedCaller.deps.1.length = 1 := rfl
  exact repeats_loadedCaller.exists_events load_loadedCaller hserving (by rw [hlen]; decide)

/-- The relocation is applied twice, and there are two messages. -/
theorem loadedCaller_twice :
    loadPatchFile (fun l _ => l.headD 0) []
        ((callerPatch 0x400000).encode fun l _ => l.headD 0) = some loadedCaller ∧
      ∃ env : ℕ → SystemEnv sampleImage sampleInfo,
        ¬(events ((cmdApply (fun l _ => l.headD 0) []
          (some ((callerPatch 0x400000).encode fun l _ => l.headD 0))).run
            (sandboxService sampleImage sampleInfo) env calleeSandbox Link.fresh).1).Nodup := by
  obtain ⟨env, htwice⟩ := exists_events_loadedCaller
  exact ⟨load_loadedCaller, env, not_nodup_of_twice repeats_loadedCaller.pass_ne_nil htwice⟩

end Patchbox
