import Patchbox.CmdApplyResult
import Patchbox.Filling
import Patchbox.HexText
import Patchbox.Lib.Programs
import Patchbox.UndoAll

/-!
# `cmd_undo`

The command reads the hash from the text on the command line, looks for the patch among the
live ones, and sends an undo request. What the server answers is the result of `xenlp_undo4`,
so the command says truly whether the patch has been taken out.

## Main definitions

* `cmdUndo3`, `cmdUndo` — `_cmd_undo3` and `cmd_undo` of `raxlpxs.c`.
* `exchange_undo` — what a client can get for an undo request.
* `cmdUndo_removes` — what the command has done.
* `cmdUndo_succeeds` — when it succeeds.
-/

namespace Patchbox
open Lib

variable {img : Image}

/-! ## The functions -/

/-- `_cmd_undo3`. The request carries a whole `struct xenlp_hash`. -/
def cmdUndo3 (hash : Bytes shaDigestLength) : Command Int :=
  (findPatch3 hash).bind fun
    | none => .done (-1)
    | some none => .done (-1)
    | some (some _) =>
      .ask (.undo (storeHash hash)) fun ans => if ans.ccode < 0 then .done (-1) else .done 0

/-- `cmd_undo`, on the text at `sha1`, which it overwrites with the hash. It reads a copy of the
text; `behind` is what is behind the copy on the heap. -/
def cmdUndo (behind sha1 : List Byte) : Command Int :=
  let read := string2sha1Into (cstring sha1 ++ 0 :: behind) (bytesOf sha1)
  if read.1 < 0 then .done (-1)
  else if doLpCaps 0 &&& xenlpCapsV3 ≠ 0 then
    (cmdUndo3 fun i => read.2 i).bind fun r => if r < 0 then .done (-1) else .done 0
  else .done (-1)

/-! ## An undo request and its answer -/

variable {e : ExchangeEnv img} {s : Sandbox} {l : Link} {hash : Bytes shaDigestLength}

/-- The library looks at the hash only. -/
theorem xenlpUndo4_congr {arg : ℕ → Byte} (h : loadHash arg = hash) (s : Sandbox) :
    xenlpUndo4 arg s = xenlpUndo4 hash.get s := by
  rw [xenlpUndo4, xenlpUndo4, h, loadHash_get]

theorem loadHash_storeHash (hash : Bytes shaDigestLength) (beyond : ℕ → Byte) :
    loadHash (fromList ((storeHash hash).take shaDigestLength) beyond) = hash := by
  have hlen := Bytes.length_toList hash
  funext i
  rw [loadHash, storeHash, List.take_left' hlen, fromList_lt (by rw [hlen]; exact i.isLt),
    Bytes.getElem_toList]

/-- The dispatcher takes the hash and leaves the padding. -/
theorem dispatchUndoReq_storeHash (env : ServeEnv img) {len : BitVec 32}
    (hlen : len.toNat = sandboxMsgHdrlen + sizeofXenlpHash) (hash : Bytes shaDigestLength)
    (s : Sandbox) :
    dispatchUndoReq env len (storeHash hash) s =
      ⟨(env.reply sandboxMsgUndoRep (storeCcode (xenlpUndo4 hash.get s).ccode)).1,
        (xenlpUndo4 hash.get s).sandbox, List.replicate 4 0,
        (env.reply sandboxMsgUndoRep (storeCcode (xenlpUndo4 hash.get s).ccode)).2, none⟩ := by
  have hsize : ¬len.toNat ≠ sandboxMsgHdrlen + 4 + shaDigestLength := not_not.mpr hlen
  have hlong : shaDigestLength ≤ (storeHash hash).length := by
    rw [length_storeHash]
    decide
  have hdrop : (storeHash hash).drop shaDigestLength = List.replicate 4 0 :=
    List.drop_left' (Bytes.length_toList hash)
  rw [dispatchUndoReq, if_neg hsize, readn_of_le hlong, hdrop]
  dsimp only
  rw [xenlpUndo4_congr (loadHash_storeHash hash env.beyond)]

/-- The results of `xenlp_undo4`. -/
theorem ccode_xenlpUndo4 (arg : ℕ → Byte) (s : Sandbox) :
    (xenlpUndo4 arg s).ccode = 0 ∨
      (xenlpUndo4 arg s).ccode < 0 ∧ -2 ^ 31 ≤ (xenlpUndo4 arg s).ccode ∧
        (xenlpUndo4 arg s).sandbox = s := by
  rw [xenlpUndo4]
  split
  · exact .inr ⟨neg_lt_zero.mpr (by decide), neg_le_neg (by decide), rfl⟩
  · split_ifs
    · exact .inr ⟨neg_lt_zero.mpr (by decide), neg_le_neg (by decide), rfl⟩
    · exact .inl rfl

/-- **What the client can get for an undo request**: nothing, an error that has changed nothing,
or zero when the patch was taken out. -/
theorem exchange_undo (hclean : l.Clean) : ∃ s' l' a,
    exchange e s l (.undo (storeHash hash)) = (s', l', a) ∧
      (s' = s ∨ s' = (xenlpUndo4 hash.get s).sandbox) ∧
      ∀ ans, a = some ans → ans.ccode < 0 ∧ s' = s ∨
        ans.ccode = 0 ∧ (xenlpUndo4 hash.get s).ccode = 0 ∧
          s' = (xenlpUndo4 hash.get s).sandbox := by
  rcases exchange_cases e s l (.undo (storeHash hash)) with heq | ⟨l', heq⟩ | ⟨msg, hmsg, -, heq⟩
  · refine ⟨s, l, _, heq, .inl rfl, fun ans h => .inl ⟨?_, rfl⟩⟩
    obtain rfl := Option.some.inj h
    decide
  · exact ⟨s, l', none, heq, .inl rfl, fun ans h => by cases h⟩
  · have hflat : (ClientRequest.undo (storeHash hash)).bufs.flatten = storeHash hash :=
      List.flatten_singleton
    obtain ⟨len, htotal, hserved⟩ := @serveMessage_eq img e s l _ hclean.toServer _ hmsg
      (by rw [hflat, length_storeHash]; decide)
    rw [hflat, length_storeHash] at htotal
    rw [hflat, ClientRequest.id, dispatch_undoReq, dispatchUndoReq_storeHash _ htotal] at hserved
    rcases deliver_of_status hclean.toClient (.inr rfl) hserved with ⟨l', hdeliver⟩ | hdeliver
    · exact ⟨_, l', none, heq.trans hdeliver, .inr rfl, fun ans h => by cases h⟩
    · refine ⟨_, _, _, heq.trans hdeliver, .inr rfl, fun ans h => ?_⟩
      obtain rfl := Option.some.inj h
      rcases ccode_xenlpUndo4 hash.get s with hzero | ⟨hneg, hge, hsame⟩
      · refine .inr ⟨?_, hzero, rfl⟩
        dsimp only
        rw [hzero, loadCcode_storeCcode (by decide) (by decide)]
      · refine .inl ⟨?_, hsame⟩
        dsimp only
        rw [loadCcode_storeCcode hge (by omega)]
        exact hneg

/-! ## What the command has done -/

/-- A state of the server, and the one after the newest patch with the hash was taken out. -/
def TakenOut (hash : Bytes shaDigestLength) (s s' : Sandbox) : Prop :=
  ∃ newer ap older, s.lpPatchHead = newer ++ ap :: older ∧ ap.sha1 = hash ∧
    (∀ p ∈ newer, p.sha1 ≠ hash) ∧
    s' = ⟨(swapTrampolines ap.writes s.text).2, newer ++ older,
      { s.maps with mapped := s.maps.mapped \ ap.map.released }⟩

theorem takenOut_of_ccode (h : (xenlpUndo4 hash.get s).ccode = 0) :
    TakenOut hash s (xenlpUndo4 hash.get s).sandbox := by
  cases htarget : undoTarget hash.get s with
  | none =>
      obtain ⟨ccode, hcode, heq⟩ := xenlpUndo4_of_none htarget
      rw [heq] at h
      exact absurd h hcode
  | some t =>
      obtain ⟨newer, ap, older⟩ := t
      obtain ⟨hlist, hsha1, hnewer⟩ := findHash_eq_some (undoTarget_eq_some.mp htarget).1
      rw [loadHash_get] at hsha1 hnewer
      rw [xenlpUndo4_of_some htarget]
      exact ⟨newer, ap, older, hlist, hsha1, hnewer, rfl⟩

section Safe

variable {info : List Byte} {ok : Sandbox → Prop}
  {inv : Sandbox → List (ClientRequest ⊕ ℕ) → Prop} {tr : List (ClientRequest ⊕ ℕ)}

/-- The command lists the patches and sends its request. -/
theorem safe_cmdUndo3 (hclean : l.Clean) (hlist : inv s (tr ++ [.inl .list]))
    (hundo : ∀ s', (s' = s ∨ s' = (xenlpUndo4 hash.get s).sandbox) →
      inv s' (tr ++ [.inl .list] ++ [.inl (.undo (storeHash hash))])) :
    (cmdUndo3 hash).Safe (sandboxService img info) ok inv
      (fun r s' _ _ => r = 0 ∧ TakenOut hash s s' ∨ r = -1 ∧ s' = s) s l tr := by
  have hfind : (findPatch3 hash).Safe (sandboxService img info) ok inv
      (fun r s' l' tr' => s' = s ∧ (r = none ∨ l'.Clean ∧ tr' = tr ++ [.inl .list])) s l tr := by
    refine Client.safe_ask_of_serve fun e => ?_
    obtain ⟨l', a, heq, hans⟩ := @exchange_list img e.1 s l hclean
    refine ⟨s, l', a, heq, hlist, fun ans ha => ?_⟩
    rcases hans ans ha with hcode | ⟨rfl, hclean', -, hfit⟩
    · rw [sandboxListPatches, if_pos hcode]
      exact ⟨rfl, .inl rfl⟩
    · rw [searchList_storeList hfit]
      split_ifs
      · exact True.intro
      · exact ⟨rfl, .inr ⟨hclean', rfl⟩⟩
  rw [cmdUndo3]
  refine hfind.bind fun r s' l' tr' hr => ?_
  obtain ⟨rfl, hr⟩ := hr
  rcases r with - | - | info3
  · exact .inr ⟨rfl, rfl⟩
  · exact .inr ⟨rfl, rfl⟩
  · obtain ⟨hclean', rfl⟩ := hr.resolve_left (Option.some_ne_none _)
    refine Client.safe_ask_of_serve fun e => ?_
    obtain ⟨s'', l'', a, heq, hs'', hans⟩ := @exchange_undo img e.1 s' l' hash hclean'
    refine ⟨s'', l'', a, heq, hundo s'' hs'', fun ans ha => ?_⟩
    rcases hans ans ha with ⟨hneg, hsame⟩ | ⟨hzero, hcode, htaken⟩
    · rw [if_pos hneg]
      exact .inr ⟨rfl, hsame⟩
    · rw [if_neg (by rw [hzero]; decide)]
      exact .inl ⟨rfl, htaken ▸ takenOut_of_ccode hcode⟩

/-- The command on the text of a hash. -/
theorem cmdUndo_hexText (behind rest : List Byte) (hash : Bytes shaDigestLength) :
    cmdUndo behind (hexText hash.toList ++ 0 :: rest) =
      (cmdUndo3 hash).bind fun r => if r < 0 then .done (-1) else .done 0 := by
  have hread := string2sha1Into_hexText hash (0 :: behind)
    (bytesOf (hexText hash.toList ++ 0 :: rest))
  rw [cmdUndo, cstring_hexText]
  generalize string2sha1Into _ _ = read at hread ⊢
  obtain ⟨hret, hbytes⟩ := hread
  rw [if_neg (by rw [hret]; decide), if_pos (by decide), funext hbytes]

/-- On other texts it does so as well, or nothing. -/
theorem safe_cmdUndo {behind sha1 : List Byte} (hclean : l.Clean)
    (hlist : inv s (tr ++ [.inl .list]))
    (hundo : ∀ (hash : Bytes shaDigestLength) s',
      (s' = s ∨ s' = (xenlpUndo4 hash.get s).sandbox) →
        inv s' (tr ++ [.inl .list] ++ [.inl (.undo (storeHash hash))])) :
    (cmdUndo behind sha1).Safe (sandboxService img info) ok inv (fun _ _ _ _ => True) s l tr := by
  rw [cmdUndo]
  split_ifs
  · exact True.intro
  · refine (safe_cmdUndo3 hclean hlist (hundo _)).bind fun r s' l' tr' _ => ?_
    split_ifs
    · exact True.intro
    · exact True.intro
  · exact True.intro

end Safe

/-- On the text of a hash the command returns 0 when it took the patch out, and -1 when it did
nothing. -/
theorem takenOut_of_cmdUndo {info : List Byte} (env : ℕ → SystemEnv img info)
    (behind rest : List Byte) {s' : Sandbox} {l' : Link} {ret : Int} (hclean : l.Clean)
    (hret : ((cmdUndo behind (hexText hash.toList ++ 0 :: rest)).run (sandboxService img info)
      env s l).2 = some (ret, s', l')) :
    ret = 0 ∧ TakenOut hash s s' ∨ ret = -1 ∧ s' = s := by
  have hsafe : ((cmdUndo3 hash).bind fun r =>
      if r < 0 then (.done (-1) : Command Int) else .done 0).Safe (sandboxService img info)
        (fun _ => True) (fun _ _ => True)
        (fun ret s' _ _ => ret = 0 ∧ TakenOut hash s s' ∨ ret = -1 ∧ s' = s) s l [] := by
    refine (safe_cmdUndo3 hclean trivial fun _ _ => trivial).bind fun r s' l' tr hr => ?_
    obtain ⟨rfl, htaken⟩ | ⟨rfl, hsame⟩ := hr
    · exact .inl ⟨rfl, htaken⟩
    · exact .inr ⟨rfl, hsame⟩
  rw [cmdUndo_hexText] at hret
  exact (hsafe.run (fun _ => trivial) trivial env).2 ret s' l' hret

/-- **What the command has done when it returns.** On the text of a hash, as `bin2hex` writes it,
it returns 0 when the newest live patch with the hash has been taken out and nothing else has
changed; it returns -1 when the server is as it was. A read of the reply that fails in the client
is not among what the system may do here. -/
theorem cmdUndo_removes (info : List Byte) (env : ℕ → SystemEnv img info)
    (behind rest : List Byte) (hash : Bytes shaDigestLength) (s s' : Sandbox) (l l' : Link)
    (ret : Int) (hclean : l.Clean)
    (hret : ((cmdUndo behind (hexText hash.toList ++ 0 :: rest)).run (sandboxService img info)
      env s l).2 = some (ret, s', l')) :
    ret = 0 ∧ TakenOut hash s s' ∨ ret = -1 ∧ s' = s :=
  takenOut_of_cmdUndo env behind rest hclean hret

/-- A server with one live patch. -/
def oneBlobRun : List (Request sampleImage) := [.apply sampleEnv (blobMessage 1 10 0x401000)]

/-- Its hash. -/
def oneBlobHash : Bytes shaDigestLength := loadHash (tagHash 1)

/-- The patch is taken out. -/
theorem cmdUndo_removes_oneBlob : ∃ s s' l',
    s = run Sandbox.step (Sandbox.init (fun _ => 0) fun _ => 0) oneBlobRun ∧
      ((cmdUndo [] (hexText oneBlobHash.toList ++ 0 :: [])).run
        (sandboxService sampleImage sampleInfo) (fun _ => sampleSystemEnv) s Link.fresh).2 =
          some (0, s', l') ∧ TakenOut oneBlobHash s s' := by
  obtain ⟨s, hs⟩ : ∃ s, s = run Sandbox.step (Sandbox.init (fun _ => 0) fun _ => 0) oneBlobRun :=
    ⟨_, rfl⟩
  have hcode : ((cmdUndo [] (hexText oneBlobHash.toList ++ 0 :: [])).run
      (sandboxService sampleImage sampleInfo) (fun _ => sampleSystemEnv) s Link.fresh).2.map
        Prod.fst = some 0 := by
    rw [hs]
    decide +kernel
  obtain ⟨⟨ret, s', l'⟩, hrun, hret⟩ := Option.map_eq_some_iff.mp hcode
  obtain rfl : ret = 0 := hret
  have hremoves := cmdUndo_removes sampleInfo _ [] [] oneBlobHash s s' Link.fresh l' 0
    Link.clean_fresh hrun
  rcases hremoves with ⟨-, htaken⟩ | ⟨hne, -⟩
  · exact ⟨s, s', l', hs, hrun, htaken⟩
  · exact absurd hne (by decide)

/-! ## When the command succeeds -/

/-- The system refuses nothing while the request is served. -/
def ExchangeEnv.Grants (e : ExchangeEnv img) : Prop :=
  e.sends = true ∧ e.server.calloc = true ∧ e.server.writes = true ∧ e.client.calloc = true

/-- The request is answered with the result of the library. -/
theorem exchange_undo_of_grants {left : ℕ} (he : e.Grants) (hl : l.Serving (left + 1)) : ∃ l',
    exchange e s l (.undo (storeHash hash)) =
      ((xenlpUndo4 hash.get s).sandbox, l', some ⟨(xenlpUndo4 hash.get s).ccode, none⟩) := by
  obtain ⟨hsends, -, hwrites, -⟩ := he
  have hflat : (ClientRequest.undo (storeHash hash)).bufs.flatten = storeHash hash :=
    List.flatten_singleton
  have hlen : sandboxMsgHdrlen + (storeHash hash).length < 2 ^ 32 := by
    rw [length_storeHash]
    decide
  obtain ⟨msg, hmsg⟩ := Option.isSome_iff_exists.mp
    ((sendRrBuf_isSome (ClientRequest.bufs_length (.undo (storeHash hash)))
      (by rw [hflat]; exact hlen)).mpr (by rw [hflat, length_storeHash]; decide))
  have hleft : 0 < l.left := by
    rw [hl.left_eq]
    exact Nat.succ_pos left
  obtain ⟨len, htotal, hserved⟩ := @serveMessage_eq img e s l _ hl.clean.toServer _ hmsg
    (by rw [hflat]; exact hlen)
  rw [hflat, length_storeHash] at htotal
  rw [hflat, ClientRequest.id, dispatch_undoReq, dispatchUndoReq_storeHash _ htotal] at hserved
  obtain ⟨reply, hreply, hsent⟩ := reply_storeCcode hwrites sandboxMsgUndoRep
    (xenlpUndo4 hash.get s).ccode
  rw [hsent] at hserved
  have hread := @readAnswer_storeCcode img e s l hl.clean.toClient _ _ _ (.inr rfl) hreply
  have hcode : loadCcode (storeCcode (xenlpUndo4 hash.get s).ccode) =
      (xenlpUndo4 hash.get s).ccode := by
    rcases ccode_xenlpUndo4 hash.get s with hzero | ⟨hneg, hge, -⟩
    · rw [hzero, loadCcode_storeCcode (by decide) (by decide)]
    · exact loadCcode_storeCcode hge (by omega)
  rw [hcode] at hread
  exact ⟨_, (exchange_of_serving hsends hmsg hl.returned hleft).trans
    (deliver_of_reply hserved hread)⟩

/-- The list is answered. -/
theorem exchange_list_of_grants {left : ℕ} (he : e.Grants) (hl : l.Serving (left + 1))
    (hroom : s.lpPatchHead.length ≤ maxListPatches3) : ∃ l', l'.Serving left ∧
      exchange e s l .list = (s, l', some ⟨sandboxOk, some (storeList s.lpPatchHead)⟩) := by
  obtain ⟨hsends, hscalloc, hwrites, hccalloc⟩ := he
  have hfit : ListFits s.lpPatchHead.length := listFits_iff.mpr (hroom.trans (by decide))
  obtain ⟨l', heq, hl'⟩ :=
    (answered_list hl.clean hscalloc hwrites hccalloc hfit).exchange hl hsends
  exact ⟨l', hl', heq⟩

/-- A live patch that can be undone is taken out. -/
theorem Sandbox.Undoable.ccode_xenlpUndo4 (h : s.Undoable) (happlied : Applied s hash) :
    (xenlpUndo4 hash.get s).ccode = 0 := by
  cases hfind : findHash (loadHash hash.get) s.lpPatchHead with
  | none =>
      obtain ⟨ap, hap, hsha1⟩ := happlied
      rw [loadHash_get] at hfind
      exact absurd hsha1 (findHash_eq_none.mp hfind ap hap)
  | some found =>
      obtain ⟨newer, ap, older⟩ := found
      have hlist := (findHash_eq_some hfind).1
      have hgo : ¬(hasDependentPatches ap older = true ∨ ap.numwrites = 0) := by
        refine not_or.mpr ⟨?_, (h ap (by rw [hlist]; simp)).1⟩
        rw [hasDependentPatches, List.any_eq_true, not_exists]
        intro q hq
        rw [(h q (by rw [hlist]; simp [hq.1])).2] at hq
        exact absurd hq.2 (by simp)
      rw [xenlpUndo4_of_some (undoTarget_eq_some.mpr ⟨hfind, hgo⟩)]

/-- **When the command succeeds.** Take the server after any requests, with sixteen live patches at
most, and a session with two messages left, in which the system refuses nothing. On the text of
a hash the command returns, and it returns 0 exactly when a patch with the hash is live. -/
theorem cmdUndo_succeeds (text mem : Mem 64) (rs : List (Request img)) (info : List Byte)
    (env : ℕ → SystemEnv img info) (behind rest : List Byte) (hash : Bytes shaDigestLength)
    (s : Sandbox) (l : Link) (left : ℕ) (hs : s = run Sandbox.step (Sandbox.init text mem) rs)
    (hroom : s.lpPatchHead.length ≤ maxListPatches3) (hl : l.Serving (left + 2))
    (henv : ∀ n, (env n).1.Grants) : ∃ ret s' l',
      ((cmdUndo behind (hexText hash.toList ++ 0 :: rest)).run (sandboxService img info)
        env s l).2 = some (ret, s', l') ∧ (ret = 0 ↔ Applied s hash) := by
  have hundoable : s.Undoable :=
    hs ▸ run_invariant (fun _ r h => h.step r) (Sandbox.undoable_init text mem) rs
  obtain ⟨l', hl', hlist⟩ := exchange_list_of_grants (henv 0) hl hroom
  have hfit : ListFits s.lpPatchHead.length := listFits_iff.mpr (hroom.trans (by decide))
  rw [cmdUndo_hexText, cmdUndo3, findPatch3]
  -- the list, and what is found in it
  simp only [Client.bind]
  rw [Client.run_ask_of_serve (S := sandboxService img info) hlist, searchList_storeList hfit,
    if_neg (Nat.not_lt.mpr hroom)]
  simp only [Client.bind]
  cases hinfo : patchInfo s hash with
  | none =>
      refine ⟨-1, s, l', rfl, iff_of_false (by decide) fun happlied => ?_⟩
      rw [← isSome_patchInfo, hinfo] at happlied
      cases happlied
  | some pi =>
      have happlied : Applied s hash := isSome_patchInfo.mp (Option.isSome_of_eq_some hinfo)
      obtain ⟨l'', hundo⟩ := @exchange_undo_of_grants img (env 1).1 s l' hash left (henv 1) hl'
      have hserve : (sandboxService img info).serve ((fun n => env (n + 1)) 0) s l'
          (.undo (storeHash hash)) = _ := hundo
      simp only [Client.bind]
      rw [Client.run_ask_of_serve hserve, hundoable.ccode_xenlpUndo4 happlied]
      exact ⟨0, _, l'', rfl, iff_of_true rfl happlied⟩

theorem cmdUndo_succeeds_oneBlob : ∃ s ret s' l',
    s = run Sandbox.step (Sandbox.init (fun _ => 0) fun _ => 0) oneBlobRun ∧
      Applied s oneBlobHash ∧
      ((cmdUndo [] (hexText oneBlobHash.toList ++ 0 :: [])).run
        (sandboxService sampleImage sampleInfo) (fun _ => sampleSystemEnv) s Link.fresh).2 =
          some (ret, s', l') ∧ ret = 0 := by
  obtain ⟨s, hs⟩ : ∃ s, s = run Sandbox.step (Sandbox.init (fun _ => 0) fun _ => 0) oneBlobRun :=
    ⟨_, rfl⟩
  have hone : s.lpPatchHead.map AppliedPatch.sha1 = [oneBlobHash] := by
    rw [hs]
    decide +kernel
  have happlied : Applied s oneBlobHash := by
    have hmem : oneBlobHash ∈ s.lpPatchHead.map AppliedPatch.sha1 := by rw [hone]; simp
    exact List.mem_map.mp hmem
  have hroom : s.lpPatchHead.length ≤ maxListPatches3 := by
    have hlen := congrArg List.length hone
    rw [List.length_map] at hlen
    rw [hlen]
    decide
  obtain ⟨ret, s', l', hrun, hiff⟩ := cmdUndo_succeeds _ _ oneBlobRun sampleInfo
    (fun _ => sampleSystemEnv) [] [] oneBlobHash s Link.fresh 98 hs hroom
    ⟨Link.clean_fresh, rfl, rfl⟩ fun _ => ⟨rfl, rfl, rfl, rfl⟩
  exact ⟨s, ret, s', l', hs, happlied, hrun, hiff.mpr happlied⟩

end Patchbox
