import Patchbox.CmdApplyRules

/-!
# The list of the live patches

The server answers a list request with a count and a record for each live patch. The
client copies records from the answer into a structure of its own caller, which has room
for sixteen.

## Main definitions

* `ListResponse` — `struct xenlp_patch_info3`, with all its fields.
* `findPatchIn` — `__find_patch`, with the entries it stores.
* `load_storeListResponse` — what is left of a patch in the answer.
* `shown_iff` — when the list shows the patches as they are.
* `stored_iff` — when the copy stays in the caller's structure.
-/

namespace Patchbox
open Lib

variable {img : Image}

/-! ## The records -/

/-- `MAX_LIST_DEPS`. -/
abbrev maxListDeps : ℕ := 8

/-- `struct xenlp_patch_info3`, also known as `list_response`. -/
structure ListResponse where
  hvaddr : Addr
  sha1 : Bytes shaDigestLength
  tags : Bytes maxTagsLen
  deps : Fin maxListDeps → Bytes shaDigestLength

/-- The record at offset `off`. -/
def ListResponse.load (f : ℕ → Byte) (off : ℕ) : ListResponse where
  hvaddr := word64 f off
  sha1 := fun i => f (off + 8 + i)
  tags := fun i => f (off + 32 + i)
  deps := fun j i => f (off + 160 + sizeofXenlpHash * j + i)

/-- The dependencies as `print_patch_info3` goes over them: up to a hash of zeros. -/
def ListResponse.depHashes (r : ListResponse) : List (Bytes shaDigestLength) :=
  (List.ofFn r.deps).takeWhile (· ≠ fun _ => 0)

/-- `struct xenlp_list3`. Its array has `MAX_LIST_PATCHES3` entries; the others lie behind it. -/
structure XenlpList3 where
  skippatches : BitVec 16
  numpatches : BitVec 16
  patches : ℕ → ListResponse

/-- `SANDBOX_SUCCESS`. -/
abbrev sandboxSuccess : Int := 1

/-- What `__find_patch` returns, the caller's structure, and the indices it has stored to. -/
structure Found where
  ccode : Int
  list : XenlpList3
  stored : List ℕ

/-- The `i`-th record of an answer. -/
def response (rbuf : List Byte) (i : ℕ) : ListResponse :=
  ListResponse.load (bytesOf rbuf) (4 + sizeofListResponse * i)

/-- The number of patches in an answer. -/
def replyCount (rbuf : List Byte) : ℕ := (word32 (bytesOf rbuf) 0).toNat

/-- The records that `__find_patch` goes over. -/
def responses (rbuf : List Byte) : List ListResponse :=
  (List.range (min (replyCount rbuf) maxListPatches)).map (response rbuf)

/-- The list without entries. -/
def storeNone (list : XenlpList3) : Found :=
  ⟨sandboxOk, { list with numpatches := 0 }, []⟩

/-- The one entry that a search has found. -/
def storeMatch (list : XenlpList3) (r : ListResponse) : Found :=
  ⟨sandboxSuccess, { list with
    numpatches := 1
    patches := Function.update list.patches 0 r }, [0]⟩

/-- The entries `0 … n - 1`, copied in one `memcpy`. -/
def storeEach (list : XenlpList3) (n : ℕ) (patches : ℕ → ListResponse) : Found :=
  ⟨sandboxSuccess, { list with
    numpatches := BitVec.ofNat 16 n
    patches := fun i => if i < n then patches i else list.patches i }, List.range n⟩

/-- `__find_patch` for a hash, or for a list, given what `sandbox_list_patches` returns. -/
def findPatchIn (sha1 : Option (Bytes shaDigestLength)) (rbuf : Option (List Byte))
    (list : XenlpList3) : Found :=
  match rbuf with
  | none => ⟨sandboxErr, list, []⟩
  | some rbuf =>
    if replyCount rbuf = 0 then storeNone list
    else
      match sha1 with
      | none => storeEach list (min (replyCount rbuf) maxListPatches) (response rbuf)
      | some sha1 =>
        ((responses rbuf).find? fun r => r.sha1 = sha1).elim (storeNone list) (storeMatch list)

/-- `__find_patch` on a connection; `none` waits for ever. -/
def findPatchOn (e : ExchangeEnv img) (s : Sandbox) (l : Link)
    (sha1 : Option (Bytes shaDigestLength)) (list : XenlpList3) : Option Found :=
  (exchange e s l .list).2.2.map fun ans => findPatchIn sha1 (sandboxListPatches ans) list

/-! ## What an answer keeps -/

/-- The record of a live patch in an answer: the tags and the dependencies are not filled in. -/
def AppliedPatch.response (ap : AppliedPatch) : ListResponse :=
  ⟨ap.map.addr, ap.sha1, fun _ => 0, fun _ _ => 0⟩

theorem load_storeListResponse {f : ℕ → Byte} {off : ℕ} {ap : AppliedPatch}
    (h : StandsAt f off (storeListResponse ap)) : ListResponse.load f off = ap.response := by
  simp only [storeListResponse, standsAt_append, length_leBytes] at h
  obtain ⟨⟨haddr, hsha1⟩, hzero⟩ := h
  rw [List.length_append, length_leBytes, Bytes.length_toList] at hzero
  -- behind the address and the hash all bytes are zero
  have hrest : ∀ i, 28 ≤ i → i < sizeofListResponse → f (off + i) = 0 := by
    intro i hge hlt
    have hi := hzero (i - 28) (by
      rw [List.length_replicate]
      simp only [shaDigestLength, sizeofListResponse] at *
      omega)
    rw [List.getElem_replicate] at hi
    rw [← hi]
    congr 1
    simp only [shaDigestLength]
    omega
  rw [ListResponse.load, StandsAt.word64 haddr, StandsAt.bytes hsha1, AppliedPatch.response]
  congr 1
  · funext i
    have hlt := i.isLt
    rw [Nat.add_assoc]
    refine hrest _ (by omega) ?_
    simp only [maxTagsLen, sizeofListResponse] at *
    omega
  · funext j i
    have hj := j.isLt
    have hi := i.isLt
    rw [Nat.add_assoc, Nat.add_assoc]
    refine hrest _ (by omega) ?_
    simp only [maxListDeps, shaDigestLength, sizeofXenlpHash, sizeofListResponse] at *
    omega

/-- The count of an answer, in 32 bits. -/
theorem replyCount_storeList (list : List AppliedPatch) :
    replyCount (storeList list) = list.length % 2 ^ 32 := by
  have hstands := standsAt_fromList (storeList list) fun _ => 0
  rw [storeList, standsAt_append] at hstands
  have hcount := hstands.1
  rw [← storeList] at hcount
  rw [replyCount, bytesOf, word32, hcount.leNat, BitVec.toNat_ofNat]
  norm_num

theorem replyCount_storeList_of_le {list : List AppliedPatch}
    (hle : list.length ≤ maxListPatches) : replyCount (storeList list) = list.length := by
  rw [replyCount_storeList, Nat.mod_eq_of_lt]
  simp only [maxListPatches] at hle
  omega

/-- Its records are those of the patches, in order. -/
theorem response_storeList {list : List AppliedPatch} {i : ℕ} (h : i < list.length) :
    response (storeList list) i = list[i].response := by
  have hstands := standsAt_fromList (storeList list) fun _ => 0
  rw [storeList, standsAt_append, length_leBytes] at hstands
  have hpatches := hstands.2
  rw [← storeList, Nat.zero_add] at hpatches
  rw [response, bytesOf]
  exact load_storeListResponse (hpatches.flatMap length_storeListResponse h)

/-- The records that are gone over: those of the newest patches. -/
theorem responses_storeList {list : List AppliedPatch} (hlt : list.length < 2 ^ 32) :
    responses (storeList list) = (list.take maxListPatches).map AppliedPatch.response := by
  rw [responses, replyCount_storeList, Nat.mod_eq_of_lt hlt, Nat.min_comm]
  apply List.ext_getElem
  · simp
  · intro i h h'
    rw [List.getElem_map, List.getElem_map, List.getElem_range, List.getElem_take]
    exact response_storeList _

/-- An answer to a search. -/
theorem findPatchIn_search_storeList {list : List AppliedPatch} (hlt : list.length < 2 ^ 32)
    (sha1 : Bytes shaDigestLength) (old : XenlpList3) :
    findPatchIn (some sha1) (some (storeList list)) old =
      ((list.take maxListPatches).find? fun ap => ap.sha1 = sha1).elim (storeNone old)
        fun ap => storeMatch old ap.response := by
  rw [findPatchIn, responses_storeList hlt, List.find?_map]
  split_ifs with hzero
  · rw [replyCount_storeList, Nat.mod_eq_of_lt hlt, List.length_eq_zero_iff] at hzero
    rw [hzero]
    rfl
  · rw [Option.elim_map]
    rfl

/-! ## Room for the entries -/

/-- The entries stored are below the capacity, and so is the number that the caller is told. -/
def StoredWithin (r : Found) : Prop :=
  (∀ i ∈ r.stored, i < maxListPatches3) ∧ r.list.numpatches.toNat ≤ maxListPatches3

/-- A list is copied whole, up to `MAX_LIST_PATCHES` entries. -/
theorem findPatchIn_list (rbuf : List Byte) (list : XenlpList3) :
    (findPatchIn none (some rbuf) list).stored =
        List.range (min (replyCount rbuf) maxListPatches) ∧
      (findPatchIn none (some rbuf) list).list.numpatches.toNat =
        min (replyCount rbuf) maxListPatches := by
  by_cases hzero : replyCount rbuf = 0
  · rw [findPatchIn, if_pos hzero, hzero]
    exact ⟨rfl, rfl⟩
  · rw [findPatchIn, if_neg hzero]
    refine ⟨rfl, ?_⟩
    rw [storeEach, BitVec.toNat_ofNat, Nat.mod_eq_of_lt]
    simp only [maxListPatches]
    omega

theorem storedWithin_storeNone (list : XenlpList3) : StoredWithin (storeNone list) := by
  simp [StoredWithin, storeNone]

theorem storedWithin_storeMatch (list : XenlpList3) (r : ListResponse) :
    StoredWithin (storeMatch list r) := by
  simp [StoredWithin, storeMatch]

/-- A search stores one entry at most. -/
theorem findPatchIn_search (sha1 : Bytes shaDigestLength) (rbuf : List Byte) (list : XenlpList3) :
    StoredWithin (findPatchIn (some sha1) (some rbuf) list) := by
  rw [findPatchIn]
  split_ifs with hzero
  · exact storedWithin_storeNone list
  · generalize (responses rbuf).find? _ = found
    cases found with
    | none => exact storedWithin_storeNone list
    | some r => exact storedWithin_storeMatch list r

/-- What the commands look at in a record. -/
def ListResponse.info (r : ListResponse) : XenlpPatchInfo3 := ⟨r.hvaddr, r.sha1⟩

/-- The commands see the records of a list that there is room for. -/
theorem findPatch_eq (rbuf : List Byte) : findPatch rbuf =
    if replyCount rbuf ≤ maxListPatches3 then some ((responses rbuf).map ListResponse.info)
    else none := by
  have hsize : maxListPatches3 < min (replyCount rbuf) maxListPatches ↔
      ¬replyCount rbuf ≤ maxListPatches3 := by
    simp only [maxListPatches, maxListPatches3]
    omega
  rw [findPatch, ← replyCount]
  simp only [hsize, ite_not]
  refine if_congr Iff.rfl (congrArg some ?_) rfl
  rw [responses, List.map_map]
  apply List.ext_getElem
  · simp
  · intro i h h'
    rw [List.getElem_ofFn, List.getElem_map, List.getElem_range]
    rfl

/-- A list stays within the array when its count does. -/
theorem storedWithin_list_iff (rbuf : List Byte) (list : XenlpList3) :
    StoredWithin (findPatchIn none (some rbuf) list) ↔ replyCount rbuf ≤ maxListPatches3 := by
  obtain ⟨hstored, hnum⟩ := findPatchIn_list rbuf list
  rw [StoredWithin, hstored, hnum]
  simp only [List.mem_range, maxListPatches, maxListPatches3]
  constructor
  · intro h
    omega
  · intro h
    exact ⟨fun i hi => by omega, by omega⟩

/-- **Entries that are stored.** For every answer: they stay within the array, and so does the
number of patches, exactly when the call is a search or the count is not above the capacity. -/
theorem stored_iff (sha1 : Option (Bytes shaDigestLength)) (rbuf : List Byte)
    (list : XenlpList3) : StoredWithin (findPatchIn sha1 (some rbuf) list) ↔
      sha1.isSome ∨ replyCount rbuf ≤ maxListPatches3 := by
  cases sha1 with
  | none => rw [storedWithin_list_iff, or_iff_right (by simp)]
  | some sha1 => exact iff_of_true (findPatchIn_search sha1 rbuf list) (.inl rfl)

/-- A patch without anything. -/
def blankPatch : AppliedPatch := ⟨⟨0, 0⟩, fun _ => 0, 0, [], 0, [], fun _ => 0⟩

/-- A list that is empty. -/
def XenlpList3.blank : XenlpList3 := ⟨0, 0, fun _ => blankPatch.response⟩

/-- Seventeen live patches. -/
theorem list_overruns :
    ¬StoredWithin (findPatchIn none (some (storeList (List.replicate 17 blankPatch))) .blank) := by
  rw [storedWithin_list_iff, replyCount_storeList, List.length_replicate]
  decide

/-! ## What the client is shown -/

/-- The record says of the patch what there is to say. -/
structure AppliedPatch.ShownBy (ap : AppliedPatch) (r : ListResponse) : Prop where
  hvaddr : r.hvaddr = ap.map.addr
  sha1 : r.sha1 = ap.sha1
  tags : r.tags = ap.tags
  deps : r.depHashes = ap.deps.take maxListDeps

/-- The list has a record for each patch, in the same order. -/
def ShowsList (l : XenlpList3) (list : List AppliedPatch) : Prop :=
  l.numpatches.toNat = list.length ∧ ∀ i (h : i < list.length), list[i].ShownBy (l.patches i)

theorem depHashes_response (ap : AppliedPatch) : ap.response.depHashes = [] := by
  rw [ListResponse.depHashes, AppliedPatch.response]
  simp

/-- What the answer keeps is all of a patch without tags and dependencies. -/
theorem shownBy_response_iff (ap : AppliedPatch) :
    ap.ShownBy ap.response ↔ ap.tags = (fun _ => 0) ∧ ap.deps = [] := by
  have hdeps : [] = ap.deps.take maxListDeps ↔ ap.deps = [] := by
    rw [eq_comm, List.take_eq_nil_iff]
    simp
  constructor
  · intro h
    exact ⟨h.tags.symm, hdeps.mp (depHashes_response ap ▸ h.deps)⟩
  · rintro ⟨htags, hdeps'⟩
    exact ⟨rfl, rfl, htags.symm, (depHashes_response ap).trans (hdeps.mpr hdeps')⟩

/-- The entries that are copied from an answer. -/
theorem patches_findPatchIn {rbuf : List Byte} {i : ℕ} (h : i < min (replyCount rbuf) maxListPatches)
    (old : XenlpList3) : (findPatchIn none (some rbuf) old).list.patches i = response rbuf i := by
  have hne : replyCount rbuf ≠ 0 := by omega
  rw [findPatchIn, if_neg hne]
  exact if_pos h

/-- The list that is made of a whole answer. -/
theorem list_storeList {list : List AppliedPatch} (hle : list.length ≤ maxListPatches)
    (old : XenlpList3) :
    (findPatchIn none (some (storeList list)) old).list.numpatches.toNat = list.length ∧
      ∀ i (h : i < list.length),
        (findPatchIn none (some (storeList list)) old).list.patches i = list[i].response := by
  have hcount := replyCount_storeList_of_le hle
  refine ⟨?_, fun i h => ?_⟩
  · rw [(findPatchIn_list _ old).2, hcount, Nat.min_eq_left hle]
  · rw [patches_findPatchIn (by rw [hcount, Nat.min_eq_left hle]; exact h) old]
    exact response_storeList h

/-- A list shows its patches when there is nothing to show of them but hash and address. -/
theorem showsList_storeList_iff {list : List AppliedPatch} (hle : list.length ≤ maxListPatches)
    (old : XenlpList3) : ShowsList (findPatchIn none (some (storeList list)) old).list list ↔
      ∀ ap ∈ list, ap.tags = (fun _ => 0) ∧ ap.deps = [] := by
  obtain ⟨hnum, hpatches⟩ := list_storeList hle old
  rw [ShowsList, hnum, eq_self, true_and, List.forall_mem_iff_forall_getElem]
  refine forall₂_congr fun i h => ?_
  rw [hpatches i h, shownBy_response_iff]

/-- A server that serves hands its whole list over. -/
theorem findPatchOn_of_serving {e : ExchangeEnv img} {s : Sandbox} {l : Link} {left : ℕ}
    (sha1 : Option (Bytes shaDigestLength)) (old : XenlpList3) (hserving : l.Serving (left + 1))
    (hsends : e.sends = true) (hscalloc : e.server.calloc = true)
    (hwrites : e.server.writes = true) (hcalloc : e.client.calloc = true)
    (hfit : ListFits s.lpPatchHead.length) :
    findPatchOn e s l sha1 old = some (findPatchIn sha1 (some (storeList s.lpPatchHead)) old) := by
  obtain ⟨l', hexchange, -⟩ :=
    (answered_list hserving.clean hscalloc hwrites hcalloc hfit).exchange hserving hsends
  have hbuf : sandboxListPatches ⟨sandboxOk, some (storeList s.lpPatchHead)⟩ =
      some (storeList s.lpPatchHead) := if_neg fun h => h rfl
  rw [findPatchOn, hexchange, Option.map_some, hbuf]

/-- **When the list shows the patches.** The client asks for the list of a server with at most
sixteen live patches, and nothing is refused. It gets a record for each patch, newest first, with
its hash, address, tags and dependencies exactly when no patch has tags or dependencies. -/
theorem shown_iff (e : ExchangeEnv img) (s : Sandbox) (l : Link) (left : ℕ) (old : XenlpList3)
    (hserving : l.Serving (left + 1)) (hsends : e.sends = true)
    (hscalloc : e.server.calloc = true) (hwrites : e.server.writes = true)
    (hcalloc : e.client.calloc = true) (hmax : s.lpPatchHead.length ≤ maxListPatches3) :
    (∃ r, findPatchOn e s l none old = some r ∧ ShowsList r.list s.lpPatchHead) ↔
      ∀ ap ∈ s.lpPatchHead, ap.tags = (fun _ => 0) ∧ ap.deps = [] := by
  have hfit : ListFits s.lpPatchHead.length := listFits_iff.mpr (hmax.trans (by decide))
  rw [findPatchOn_of_serving none old hserving hsends hscalloc hwrites hcalloc hfit]
  simp only [Option.some.injEq, exists_eq_left']
  exact showsList_storeList_iff (hmax.trans (by decide)) old

/-- A program with one live patch, and the connection of its client. -/
def listSandbox (ap : AppliedPatch) : Sandbox := ⟨fun _ => 0, [ap], .init fun _ => 0⟩

def listEnv : ExchangeEnv sampleImage := ⟨true, sampleServeEnv, sampleServeEnv⟩

theorem serving_fresh : Link.fresh.Serving (99 + 1) := ⟨Link.clean_fresh, rfl, rfl⟩

/-- Two live patches, apart in hash and address. -/
def twoPatches : List AppliedPatch :=
  [{ blankPatch with map := ⟨0x702000, 10⟩, sha1 := fun _ => 2 },
    { blankPatch with map := ⟨0x701000, 20⟩, sha1 := fun _ => 1 }]

/-- A program with the two. -/
def twoPatchSandbox : Sandbox := ⟨fun _ => 0, twoPatches, .init fun _ => 0⟩

theorem shown_iff_twoPatches :
    ∃ r, findPatchOn listEnv twoPatchSandbox Link.fresh none .blank = some r ∧
      ShowsList r.list twoPatches :=
  (shown_iff listEnv twoPatchSandbox Link.fresh 99 .blank serving_fresh rfl rfl rfl rfl
    (by decide)).mpr fun ap hap => by
      simp only [twoPatchSandbox, twoPatches, List.mem_cons, List.not_mem_nil, or_false] at hap
      rcases hap with rfl | rfl
      · exact ⟨rfl, rfl⟩
      · exact ⟨rfl, rfl⟩

/-- A patch with a tag. -/
def taggedPatch : AppliedPatch := { blankPatch with tags := fun i => if i.val = 0 then 0x78 else 0 }

/-- Its tag is lost. -/
theorem tag_not_shown :
    ∃ r, findPatchOn listEnv (listSandbox taggedPatch) Link.fresh none .blank = some r ∧
      ¬ShowsList r.list [taggedPatch] := by
  refine ⟨_, findPatchOn_of_serving none .blank serving_fresh rfl rfl rfl rfl
    (listFits_iff.mpr (by decide)), fun h => ?_⟩
  have htags := ((showsList_storeList_iff (by decide) .blank).mp h taggedPatch
    (List.mem_singleton_self _)).1
  have hfirst := congrFun htags 0
  revert hfirst
  decide

end Patchbox
