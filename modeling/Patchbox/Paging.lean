import Patchbox.Lib.Loops
import Patchbox.ListReply

/-!
# The client's pages

`_cmd_list3` and `find_patch3` ask for one page of patches after another and tell the server in
`skippatches` how many they have seen. The request does not carry it, so every page is the list
from its first patch on. `find_patch` searches one answer only.

## Main definitions

* `cmdList3` — `_cmd_list3`, with what it prints.
* `findPatch3By` — `find_patch3`, with the patches it compares.
* `findPatchAlloc` — `find_patch`.
* `pagesOnce_iff` — when the pages end.
* `findsApplied_iff` — when the search finds what is there.
-/

namespace Patchbox
open Lib

variable {img : Image}

/-! ## `_cmd_list3`

`fetch k list` is what the `k`-th call of `do_lp_list3` makes of the client's structure.
-/

/-- A patch that is printed, and the flag `last`. -/
abbrev Printed := ListResponse × Bool

/-- One pass of `_cmd_list3` over the entries, and the flag behind it. -/
def printFrom (list : XenlpList3) : Bool → List ℕ → List Printed × Bool
  | last, [] => ([], last)
  | last, i :: is =>
    let last := last || decide (list.numpatches.toNat < maxListPatches ∧
      i + 1 = list.numpatches.toNat)
    let rest := printFrom list last is
    ((list.patches i, last) :: rest.1, rest.2)

/-- The variables of `_cmd_list3`, with the requests made and the patches printed so far. -/
structure ListState where
  list : XenlpList3
  totalpatches : ℕ
  last : Bool
  asked : ℕ
  printed : List Printed

/-- A round of the loop of `_cmd_list3`. -/
def cmdList3Round (fetch : ℕ → XenlpList3 → Found) (s : ListState) :
    ListState ⊕ (Int × List Printed) :=
  let pass := printFrom s.list s.last (List.range s.list.numpatches.toNat)
  let printed := s.printed ++ pass.1
  let totalpatches := s.totalpatches + s.list.numpatches.toNat
  if s.list.numpatches.toNat < maxListPatches3 then .inr (0, printed)
  else
    let found := fetch s.asked { s.list with skippatches := BitVec.ofNat 16 totalpatches }
    if found.ccode < 0 then .inr (-1, printed)
    else .inl ⟨found.list, totalpatches, pass.2, s.asked + 1, printed⟩

/-- `_cmd_list3`, a number of rounds at most: what it returns, and what it has printed. -/
def cmdList3 (fetch : ℕ → XenlpList3 → Found) (fuel : ℕ) : Option (Int × List Printed) :=
  let first := fetch 0 .blank
  if first.ccode < 0 then some (-1, [])
  else rounds (cmdList3Round fetch) fuel ⟨first.list, 0, false, 1, []⟩

theorem map_fst_printFrom (list : XenlpList3) (last : Bool) (is : List ℕ) :
    (printFrom list last is).1.map Prod.fst = is.map list.patches := by
  induction is generalizing last with
  | nil => rfl
  | cons i is ih => rw [printFrom, List.map_cons, List.map_cons, ih]

/-! ## `find_patch3` -/

/-- One pass of `find_patch3`: the entries it compares, and the one it finds. -/
def compareFrom (list : XenlpList3) (sha1 : Bytes shaDigestLength) :
    List ℕ → List ListResponse × Option ListResponse
  | [] => ([], none)
  | i :: is =>
    let pi := list.patches i
    if pi.sha1 = sha1 then ([pi], some pi)
    else
      let rest := compareFrom list sha1 is
      (pi :: rest.1, rest.2)

/-- The variables of `find_patch3`, with the requests made and the patches compared so far. -/
structure SearchState where
  list : XenlpList3
  totalpatches : ℕ
  asked : ℕ
  compared : List ListResponse

/-- What `find_patch3` returns, the entry it has set, and the patches it has compared. -/
structure SearchEnd where
  ret : Int
  patch : Option ListResponse
  compared : List ListResponse

/-- A round of the loop of `find_patch3`. -/
def findPatch3Round (sha1 : Bytes shaDigestLength) (fetch : ℕ → XenlpList3 → Found)
    (s : SearchState) : SearchState ⊕ SearchEnd :=
  let pass := compareFrom s.list sha1 (List.range s.list.numpatches.toNat)
  let compared := s.compared ++ pass.1
  let totalpatches := s.totalpatches + s.list.numpatches.toNat
  if pass.2.isSome then .inr ⟨0, pass.2, compared⟩
  else if s.list.numpatches.toNat < maxListPatches then .inr ⟨0, none, compared⟩
  else
    let found := fetch s.asked { s.list with skippatches := BitVec.ofNat 16 totalpatches }
    if found.ccode < 0 then .inr ⟨-1, none, compared⟩
    else .inl ⟨found.list, totalpatches, s.asked + 1, compared⟩

/-- `find_patch3`, a number of rounds at most. -/
def findPatch3By (sha1 : Bytes shaDigestLength) (fetch : ℕ → XenlpList3 → Found) (fuel : ℕ) :
    Option SearchEnd :=
  let first := fetch 0 .blank
  if first.ccode < 0 then some ⟨-1, none, []⟩
  else rounds (findPatch3Round sha1 fetch) fuel ⟨first.list, 0, 1, []⟩

/-- The entries that are compared are the first ones. -/
theorem compareFrom_fst (list : XenlpList3) (sha1 : Bytes shaDigestLength) (is : List ℕ) :
    (compareFrom list sha1 is).1 <+: is.map list.patches := by
  induction is with
  | nil => exact List.nil_prefix
  | cons i is ih =>
    rw [compareFrom, List.map_cons]
    split_ifs
    · exact List.cons_prefix_cons.mpr ⟨rfl, List.nil_prefix⟩
    · exact List.cons_prefix_cons.mpr ⟨rfl, ih⟩

/-- It is the first one with the hash that is found. -/
theorem compareFrom_snd (list : XenlpList3) (sha1 : Bytes shaDigestLength) (is : List ℕ) :
    (compareFrom list sha1 is).2 = (is.map list.patches).find? fun pi => pi.sha1 = sha1 := by
  induction is with
  | nil => rfl
  | cons i is ih =>
    rw [compareFrom, List.map_cons]
    split_ifs with hsha1
    · exact (List.find?_cons_of_pos (by simpa using hsha1)).symm
    · rw [List.find?_cons_of_neg (by simpa using hsha1), ← ih]

/-! ## One page or no end -/

/-- A call that is answered leaves a status that is not negative, and `n` entries. -/
structure Fetches (fetch : ℕ → XenlpList3 → Found) (n : ℕ) : Prop where
  ccode : ∀ k list, 0 ≤ (fetch k list).ccode
  numpatches : ∀ k list, (fetch k list).list.numpatches.toNat = n

variable {fetch : ℕ → XenlpList3 → Found} {n : ℕ} {sha1 : Bytes shaDigestLength}

theorem Fetches.cmdList3_eq (h : Fetches fetch n) (fuel : ℕ) : cmdList3 fetch fuel =
    rounds (cmdList3Round fetch) fuel ⟨(fetch 0 .blank).list, 0, false, 1, []⟩ :=
  if_neg (Int.not_lt.mpr (h.ccode 0 .blank))

theorem Fetches.findPatch3By_eq (h : Fetches fetch n) (fuel : ℕ) : findPatch3By sha1 fetch fuel =
    rounds (findPatch3Round sha1 fetch) fuel ⟨(fetch 0 .blank).list, 0, 1, []⟩ :=
  if_neg (Int.not_lt.mpr (h.ccode 0 .blank))

/-- A full page is followed by another full page. -/
theorem Fetches.cmdList3Round_of_full (h : Fetches fetch n) (hfull : maxListPatches3 ≤ n)
    {s : ListState} (hs : s.list.numpatches.toNat = n) :
    ∃ s', cmdList3Round fetch s = .inl s' ∧ s'.list.numpatches.toNat = n := by
  have hpage : ¬s.list.numpatches.toNat < maxListPatches3 := by omega
  rw [cmdList3Round, if_neg hpage, if_neg (Int.not_lt.mpr (h.ccode _ _))]
  exact ⟨_, rfl, h.numpatches _ _⟩

/-- `_cmd_list3` never ends when the pages are full. -/
theorem Fetches.cmdList3_eq_none (h : Fetches fetch n) (hfull : maxListPatches3 ≤ n) (fuel : ℕ) :
    cmdList3 fetch fuel = none := by
  rw [h.cmdList3_eq, Option.eq_none_iff_forall_ne_some]
  intro r hr
  exact not_endsWith_of_stays (fun s hs => h.cmdList3Round_of_full hfull hs)
    (h.numpatches 0 .blank) ⟨fuel, hr⟩

/-- It ends in one round when they are not. -/
theorem Fetches.cmdList3_of_lt (h : Fetches fetch n) (hlt : n < maxListPatches3) (fuel : ℕ) :
    ∃ printed, cmdList3 fetch (fuel + 1) = some (0, printed) ∧
      printed.map Prod.fst = (List.range n).map (fetch 0 .blank).list.patches := by
  have hnum := h.numpatches 0 .blank
  have hround : cmdList3Round fetch ⟨(fetch 0 .blank).list, 0, false, 1, []⟩ =
      .inr (0, (printFrom (fetch 0 .blank).list false (List.range n)).1) := by
    rw [cmdList3Round, if_pos (hnum.trans_lt hlt), hnum, List.nil_append]
  rw [h.cmdList3_eq]
  exact ⟨_, rounds_of_inr hround fuel, map_fst_printFrom _ _ _⟩

/-- `find_patch3` ends in one round when the page has less than `MAX_LIST_PATCHES` entries. -/
theorem Fetches.findPatch3By_of_lt (h : Fetches fetch n) (hlt : n < maxListPatches) (fuel : ℕ) :
    findPatch3By sha1 fetch (fuel + 1) =
      some ⟨0, (compareFrom (fetch 0 .blank).list sha1 (List.range n)).2,
        (compareFrom (fetch 0 .blank).list sha1 (List.range n)).1⟩ := by
  have hnum := h.numpatches 0 .blank
  rw [h.findPatch3By_eq]
  refine rounds_of_inr ?_ fuel
  simp only [findPatch3Round, hnum, List.nil_append]
  generalize compareFrom _ _ _ = pass
  obtain ⟨compared, found⟩ := pass
  cases found with
  | none => exact if_pos hlt
  | some pi => rfl

/-! ## Pages that are the whole list -/

/-- `do_lp_list3` when every request has the same answer. -/
def sameAnswer (rbuf : List Byte) : ℕ → XenlpList3 → Found :=
  fun _ old => findPatchIn none (some rbuf) old

theorem fetches_sameAnswer (rbuf : List Byte) :
    Fetches (sameAnswer rbuf) (min (replyCount rbuf) maxListPatches) where
  ccode _ old := by
    rw [sameAnswer, findPatchIn]
    split_ifs
    · exact le_rfl
    · exact Int.one_nonneg
  numpatches _ old := by
    rw [sameAnswer, (findPatchIn_list _ old).2]

/-- The entries of a page are the records gone over in the answer. -/
theorem map_patches_sameAnswer (rbuf : List Byte) (k : ℕ) (old : XenlpList3) :
    (List.range (min (replyCount rbuf) maxListPatches)).map (sameAnswer rbuf k old).list.patches =
      responses rbuf := by
  rw [responses]
  refine List.map_congr_left fun i hi => ?_
  rw [sameAnswer]
  exact patches_findPatchIn (List.mem_range.mp hi) old

/-- What `find_patch3` finds is what the commands take it to find. -/
theorem searchList_findPatch3By {rbuf : List Byte} (hle : replyCount rbuf ≤ maxListPatches3) :
    ∃ r, findPatch3By sha1 (sameAnswer rbuf) 1 = some r ∧
      searchList sha1 (some (findPatch rbuf)) = .done (some (r.patch.map ListResponse.info)) := by
  have hlt : min (replyCount rbuf) maxListPatches < maxListPatches := by
    simp only [maxListPatches, maxListPatches3] at *
    omega
  refine ⟨_, (fetches_sameAnswer rbuf).findPatch3By_of_lt hlt 0, ?_⟩
  rw [compareFrom_snd, map_patches_sameAnswer, findPatch_eq, if_pos hle, searchList, List.find?_map]
  rfl

/-- `do_lp_list3` when each answer is the list of the same patches. -/
def wholeList (list : List AppliedPatch) : ℕ → XenlpList3 → Found := sameAnswer (storeList list)

theorem fetches_wholeList (list : List AppliedPatch) :
    Fetches (wholeList list) (min (list.length % 2 ^ 32) maxListPatches) := by
  rw [wholeList, ← replyCount_storeList]
  exact fetches_sameAnswer (storeList list)

variable {list : List AppliedPatch}

/-- The entries of a page with room for all patches. -/
theorem map_patches_wholeList (hle : list.length ≤ maxListPatches) (k : ℕ) (old : XenlpList3) :
    (List.range list.length).map (wholeList list k old).list.patches =
      list.map AppliedPatch.response := by
  have hcount := replyCount_storeList_of_le hle
  have hpage := map_patches_sameAnswer (storeList list) k old
  rw [hcount, Nat.min_eq_left hle, responses_storeList (hle.trans_lt (by decide)),
    List.take_of_length_le hle] at hpage
  exact hpage

theorem fetches_wholeList_of_le (hle : list.length ≤ maxListPatches) :
    Fetches (wholeList list) list.length := by
  have hcount : min (list.length % 2 ^ 32) maxListPatches = list.length := by
    simp only [maxListPatches] at *
    omega
  exact hcount ▸ fetches_wholeList list

/-- `_cmd_list3` ends and has printed every patch once. -/
def PrintsOnce (list : List AppliedPatch) : Prop :=
  ∃ fuel printed, cmdList3 (wholeList list) fuel = some (0, printed) ∧
    printed.map Prod.fst = list.map AppliedPatch.response

/-- `find_patch3` ends and has compared no patch twice: those compared are a front of the list. -/
def ComparesOnce (sha1 : Bytes shaDigestLength) (list : List AppliedPatch) : Prop :=
  ∃ fuel r, findPatch3By sha1 (wholeList list) fuel = some r ∧
    r.compared <+: list.map AppliedPatch.response

theorem printsOnce_of_lt (hlt : list.length < maxListPatches3) : PrintsOnce list := by
  have hle : list.length ≤ maxListPatches := hlt.le.trans (by decide)
  obtain ⟨printed, hends, hprinted⟩ := (fetches_wholeList_of_le hle).cmdList3_of_lt hlt 0
  exact ⟨1, printed, hends, hprinted.trans (map_patches_wholeList hle 0 .blank)⟩

/-- With a short list only the patches are all printed. -/
theorem PrintsOnce.length_lt (h : PrintsOnce list) : list.length < maxListPatches3 := by
  obtain ⟨fuel, printed, hends, hprinted⟩ := h
  have hfetches := fetches_wholeList list
  by_cases hfull : maxListPatches3 ≤ min (list.length % 2 ^ 32) maxListPatches
  · rw [hfetches.cmdList3_eq_none hfull] at hends
    cases hends
  · -- what is printed are the entries of one page
    cases fuel with
    | zero =>
      rw [hfetches.cmdList3_eq] at hends
      cases hends
    | succ fuel =>
      obtain ⟨printed', hends', hprinted'⟩ :=
        hfetches.cmdList3_of_lt (Nat.lt_of_not_le hfull) fuel
      rw [hends] at hends'
      cases hends'
      have hlen := congrArg List.length (hprinted.symm.trans hprinted')
      rw [List.length_map, List.length_map, List.length_range] at hlen
      omega

theorem comparesOnce_of_lt (sha1 : Bytes shaDigestLength) (hlt : list.length < maxListPatches) :
    ComparesOnce sha1 list := by
  have hprefix := compareFrom_fst (wholeList list 0 .blank).list sha1 (List.range list.length)
  rw [map_patches_wholeList hlt.le] at hprefix
  exact ⟨1, _, (fetches_wholeList_of_le hlt.le).findPatch3By_of_lt hlt 0, hprefix⟩

/-- `_cmd_list3` and `find_patch3` end, and go over the patches once. -/
def PagesOnce (list : List AppliedPatch) : Prop :=
  PrintsOnce list ∧ ∀ sha1, ComparesOnce sha1 list

/-- **When the pages end.** The server answers every request with the whole list. `_cmd_list3` ends
after every patch was printed once, and `find_patch3` ends without comparing one twice, exactly when
there are fewer patches than a page has room for. -/
theorem pagesOnce_iff (list : List AppliedPatch) :
    PagesOnce list ↔ list.length < maxListPatches3 := by
  constructor
  · intro h
    exact h.1.length_lt
  · intro hlt
    exact ⟨printsOnce_of_lt hlt, fun sha1 => comparesOnce_of_lt sha1 (hlt.trans (by decide))⟩

/-- Sixteen patches are printed over and over again. -/
theorem sixteen_never_end :
    (∀ fuel, cmdList3 (wholeList (List.replicate 16 blankPatch)) fuel = none) ∧
      ¬PagesOnce (List.replicate 16 blankPatch) := by
  have hlen : (List.replicate 16 blankPatch).length = 16 := List.length_replicate
  have hfetches := fetches_wholeList_of_le (hlen.trans_le (by decide))
  exact ⟨fun fuel => hfetches.cmdList3_eq_none hlen.ge fuel,
    fun h => absurd h.1.length_lt (Nat.not_lt.mpr hlen.ge)⟩

/-! ## `find_patch` -/

/-- What `find_patch` returns, and the records that `*patch` points to. -/
structure FoundPatch where
  ccode : Int
  patch : Option (List ListResponse)

/-- `find_patch`, given what `__find_patch` has found and whether `realloc` finds room. -/
def findPatchAlloc (realloc : Bool) (found : Found) (patch : Option (List ListResponse)) :
    FoundPatch :=
  if found.ccode < 0 then ⟨sandboxErr, patch⟩
  else if found.ccode = 0 then ⟨found.ccode, none⟩
  else if realloc then
    ⟨found.ccode, some ((List.range found.list.numpatches.toNat).map found.list.patches)⟩
  else ⟨sandboxErr, none⟩

/-- `find_patch` on a connection. Its structure on the stack is not cleared. -/
def findPatchAllocOn (e : ExchangeEnv img) (s : Sandbox) (l : Link) (realloc : Bool)
    (sha1 : Bytes shaDigestLength) (stack : XenlpList3) (patch : Option (List ListResponse)) :
    Option FoundPatch :=
  (findPatchOn e s l (some sha1) stack).map fun found => findPatchAlloc realloc found patch

/-- The search says of the list what there is to say: the patch with the hash is found, and
nothing is found exactly when no patch has it. -/
def Tells (list : List AppliedPatch) (sha1 : Bytes shaDigestLength) (r : FoundPatch) : Prop :=
  (∀ ap, list.find? (fun ap => ap.sha1 = sha1) = some ap →
      r = ⟨sandboxSuccess, some [ap.response]⟩) ∧
    (r = ⟨sandboxOk, none⟩ ↔ ∀ ap ∈ list, ap.sha1 ≠ sha1)

theorem findPatchAlloc_storeNone (realloc : Bool) (list : XenlpList3)
    (patch : Option (List ListResponse)) :
    findPatchAlloc realloc (storeNone list) patch = ⟨sandboxOk, none⟩ := rfl

theorem findPatchAlloc_storeMatch (list : XenlpList3) (r : ListResponse)
    (patch : Option (List ListResponse)) :
    findPatchAlloc true (storeMatch list r) patch = ⟨sandboxSuccess, some [r]⟩ := rfl

/-- What a search that is answered comes to: one over the newest `MAX_LIST_PATCHES` patches. -/
theorem findPatchAlloc_storeList (hlt : list.length < 2 ^ 32) (stack : XenlpList3)
    (patch : Option (List ListResponse)) :
    findPatchAlloc true (findPatchIn (some sha1) (some (storeList list)) stack) patch =
      ((list.take maxListPatches).find? fun ap => ap.sha1 = sha1).elim ⟨sandboxOk, none⟩
        fun ap => ⟨sandboxSuccess, some [ap.response]⟩ := by
  rw [findPatchIn_search_storeList hlt]
  generalize (list.take maxListPatches).find? _ = found
  cases found with
  | none => exact findPatchAlloc_storeNone true stack patch
  | some ap => exact findPatchAlloc_storeMatch stack ap.response patch

theorem tells_iff (hlt : list.length < 2 ^ 32) (stack : XenlpList3)
    (patch : Option (List ListResponse)) :
    Tells list sha1 (findPatchAlloc true (findPatchIn (some sha1) (some (storeList list)) stack)
        patch) ↔
      (∀ ap ∈ list, ap.sha1 ≠ sha1) ∨ ∃ ap ∈ list.take maxListPatches, ap.sha1 = sha1 := by
  rw [findPatchAlloc_storeList hlt, Tells]
  cases hfound : (list.take maxListPatches).find? fun ap => ap.sha1 = sha1 with
  | none =>
    have hnone : ∀ ap ∈ list.take maxListPatches, ap.sha1 ≠ sha1 := by
      simpa using List.find?_eq_none.mp hfound
    constructor
    · intro h
      exact .inl (h.2.mp rfl)
    · rintro (hno | ⟨ap, hap, hsha1⟩)
      · refine ⟨fun ap hap => ?_, iff_of_true rfl hno⟩
        exact absurd (by simpa using List.find?_some hap) (hno ap (List.mem_of_find?_eq_some hap))
      · exact absurd hsha1 (hnone ap hap)
  | some ap =>
    have hap := List.mem_of_find?_eq_some hfound
    have hsha1 : ap.sha1 = sha1 := by simpa using List.find?_some hfound
    have hall : list.find? (fun ap => ap.sha1 = sha1) = some ap := by
      rw [← List.take_append_drop maxListPatches list, List.find?_append, hfound]
      rfl
    refine iff_of_true ⟨fun ap' hap' => ?_, iff_of_false (fun h => ?_) fun hno => ?_⟩
      (.inr ⟨ap, hap, hsha1⟩)
    · cases hall.symm.trans hap'
      rfl
    · cases congrArg FoundPatch.patch h
    · exact hno ap (List.mem_of_mem_take hap) hsha1

/-- **When the search finds what is there.** A client looks for a hash on a server whose list fits
in one reply, and nothing is refused. It is told of the patch, or that there is none, exactly when
no patch has the hash or one of the newest `MAX_LIST_PATCHES` has it. -/
theorem findsApplied_iff (e : ExchangeEnv img) (s : Sandbox) (l : Link) (left : ℕ)
    (sha1 : Bytes shaDigestLength) (stack : XenlpList3) (patch : Option (List ListResponse))
    (hserving : l.Serving (left + 1)) (hsends : e.sends = true)
    (hscalloc : e.server.calloc = true) (hwrites : e.server.writes = true)
    (hcalloc : e.client.calloc = true) (hfit : ListFits s.lpPatchHead.length) :
    (∃ r, findPatchAllocOn e s l true sha1 stack patch = some r ∧
        Tells s.lpPatchHead sha1 r) ↔
      (∀ ap ∈ s.lpPatchHead, ap.sha1 ≠ sha1) ∨
        ∃ ap ∈ s.lpPatchHead.take maxListPatches, ap.sha1 = sha1 := by
  have hlt : s.lpPatchHead.length < 2 ^ 32 := (listFits_iff.mp hfit).trans_lt (by decide)
  rw [findPatchAllocOn,
    findPatchOn_of_serving (some sha1) stack hserving hsends hscalloc hwrites hcalloc hfit]
  simp only [Option.map_some, Option.some.injEq, exists_eq_left']
  exact tells_iff hlt stack patch

/-- The older one of two patches is found. -/
theorem findsApplied_iff_twoPatches :
    ∃ r, findPatchAllocOn listEnv twoPatchSandbox Link.fresh true (fun _ => 1) .blank none =
        some r ∧ Tells twoPatches (fun _ => 1) r :=
  (findsApplied_iff listEnv twoPatchSandbox Link.fresh 99 (fun _ => 1) .blank none
    serving_fresh rfl rfl rfl rfl (listFits_iff.mpr (by decide))).mpr
    (.inr ⟨_, List.mem_cons_of_mem _ List.mem_cons_self, rfl⟩)

/-- The oldest of 256 live patches. -/
def oldestPatch : AppliedPatch := { blankPatch with sha1 := fun _ => 1 }

def longSandbox : Sandbox :=
  ⟨fun _ => 0, List.replicate 255 blankPatch ++ [oldestPatch], .init fun _ => 0⟩

/-- It is not found. -/
theorem oldest_not_found :
    ListFits longSandbox.lpPatchHead.length ∧ oldestPatch ∈ longSandbox.lpPatchHead ∧
      findPatchAllocOn listEnv longSandbox Link.fresh true oldestPatch.sha1 .blank none =
        some ⟨sandboxOk, none⟩ := by
  have hlen : longSandbox.lpPatchHead.length = 256 := by
    rw [longSandbox, List.length_append, List.length_replicate, List.length_singleton]
  have hfit : ListFits longSandbox.lpPatchHead.length := listFits_iff.mpr (by omega)
  have hnewest : longSandbox.lpPatchHead.take maxListPatches = List.replicate 255 blankPatch :=
    List.take_left' List.length_replicate
  have hother : blankPatch.sha1 ≠ oldestPatch.sha1 := by
    intro h
    have hfirst := congrFun h 0
    revert hfirst
    decide
  refine ⟨hfit, List.mem_append_right _ (List.mem_singleton_self _), ?_⟩
  rw [findPatchAllocOn, findPatchOn_of_serving _ _ serving_fresh rfl rfl rfl rfl hfit,
    Option.map_some, findPatchAlloc_storeList (by omega), hnewest, List.find?_replicate,
    if_neg (by decide), if_neg (by simpa using hother)]
  rfl

end Patchbox
