import Patchbox.Clients
import Patchbox.CmdUndo
import Patchbox.Options
import Patchbox.Paging

/-!
# Invocations of the client

The client program runs the commands that its options ask for, one behind the other on one
connection: the build information, the list, a search, an apply and an undo. Each of them leaves
the connection in step, or the server's thread has returned, but for the undo request, which
leaves its padding. It comes last.

## Main definitions

* `cmdList3Pages`, `Options.main` — `_cmd_list3` and `main` of `raxlpxs.c`, as the server sees them.
* `Link.Tidy`, `Ordinary` — what the commands leave, and the requests that leave it.
* `KeptByRequests`, `KeptByRequests.safe_main` — what the requests keep, an invocation keeps.
-/

namespace Patchbox
open Lib

variable {img : Image}

/-! ## The program -/

/-- The requests of `_cmd_list3`, so many at most. A page that is full is followed by another; one
that is longer runs over the caller's stack. -/
def cmdList3Pages : ℕ → Command Int
  | 0 => .forever
  | fuel + 1 => .ask .list fun ans =>
    match (sandboxListPatches ans).map findPatch with
    | none => .done (-1)
    | some none => .forever
    | some (some patches) =>
      if patches.length < maxListPatches3 then .done 0 else cmdList3Pages fuel

/-- `cmd_apply` with what the program has of the build information. -/
def cmdApplyWith (strings : List (List Byte)) (hash : List Byte → Bytes shaDigestLength)
    (filename : List Byte) (f : Option (List Byte)) : Command Int :=
  match f.bind (loadPatchFile hash filename) with
  | none => .done (-1)
  | some p =>
    (infoCheck strings).bind fun strings => (infoCheck strings).bind fun strings =>
      checkAndApply p strings

theorem cmdApplyWith_nil : cmdApplyWith [] = cmdApply := rfl

/-- What an invocation finds around it: whether it gets a connection, what is in the file at a path,
what is on its stack and on its heap, and whether `realloc` finds room. -/
structure Surroundings where
  connects : Bool
  file : List Byte → Option (List Byte)
  stack : XenlpList3
  behind : List Byte
  realloc : Bool

namespace Options

variable (o : Options) (a : Surroundings) (hash : List Byte → Bytes shaDigestLength)

/-- `--info`. -/
def info : Command (List (List Byte)) := if o.infoFlag then getInfoStrings [] else .done []

/-- `--list`. A session has less messages than there are pages here. -/
def list : Command Int :=
  if o.listFlag then cmdList3Pages (sandboxMsgSessionLimit + 1) else .done 0

/-- `--find`, with what `find_patch` returns. -/
def find : Command (Option FoundPatch) :=
  if o.findFlag then
    let padding := List.replicate (2 * shaDigestLength + 1 - o.patchHash.length) 0
    let read := string2sha1Into (o.patchHash ++ padding) fun _ => 0
    .ask .list fun ans => .done (some (findPatchAlloc a.realloc
      (findPatchIn (some fun i => read.2 i) (sandboxListPatches ans) a.stack) none))
  else .done none

/-- `--apply`. -/
def apply (strings : List (List Byte)) : Command Int :=
  if o.applyFlag then cmdApplyWith strings hash (basename o.filepath) (a.file o.filepath)
  else .done 0

/-- `--remove`. -/
def remove : Command Int := if o.removeFlag then cmdUndo a.behind o.patchHash else .done 0

/-- `main`, once the options are read. -/
def main : Command Int :=
  if o.sockFlag = false ∨ a.connects = false then .done sandboxErrRw
  else
    o.info.bind fun strings => o.list.bind fun _ => (o.find a).bind fun _ =>
      (o.apply a hash strings).bind fun _ => (o.remove a).bind fun _ => .done sandboxOk

end Options

/-- Options that ask for a file to be applied. -/
def applyOptions (path : List Byte) : Options :=
  { Options.start with applyFlag := true, sockFlag := true, filepath := path }

/-- Options that ask for an undo. -/
def removeOptions (sha1 : List Byte) : Options :=
  { Options.start with removeFlag := true, sockFlag := true, patchHash := sha1 }

/-- A connection, and nothing else. -/
def plainSurroundings : Surroundings := ⟨true, fun _ => none, .blank, [], true⟩

/-! ## Connections that stay in step -/

/-- Nothing is unread, or the server does not read any more. -/
def Link.Tidy (l : Link) : Prop := l.returned = true ∨ l.Clean

/-- A request that leaves the connection as tidy as it was: no undo request, and none that is too
long for its header. -/
def Ordinary : ClientRequest → Prop
  | .getBld => True
  | .list => True
  | .apply buf => sandboxMsgHdrlen + buf.length < 2 ^ 32
  | .undo _ => False

variable {e : ExchangeEnv img} {s : Sandbox} {l : Link} {r : ClientRequest} {ans : Answer}

/-- A thread that has returned serves nothing. -/
theorem exchange_of_returned (h : l.returned = true) :
    (exchange e s l r).1 = s ∧ (exchange e s l r).2.1.returned = true := by
  rw [exchange]
  cases (if e.sends then r.message else none) with
  | none => exact ⟨rfl, h⟩
  | some msg =>
      dsimp only
      rw [if_pos (.inl h)]
      exact ⟨rfl, h⟩

/-- What holds of a connection, and when the request is delivered, holds when it is answered. -/
theorem exchange_kept {T : Link → Prop} (hl : T l)
    (hdeliver : ∀ msg, r.message = some msg → (deliver e s l msg).2.2 = some ans →
      T (deliver e s l msg).2.1)
    (hans : (exchange e s l r).2.2 = some ans) : T (exchange e s l r).2.1 := by
  rcases exchange_cases e s l r with heq | ⟨l', heq⟩ | ⟨msg, hmsg, -, heq⟩
  · rw [heq]
    exact hl
  · rw [heq] at hans
    cases hans
  · rw [heq] at hans ⊢
    exact hdeliver msg hmsg hans

theorem clean_exchange_getBld (hclean : l.Clean) (hcalloc : e.client.calloc = true)
    (hans : (exchange e s l .getBld).2.2 = some ans) : (exchange e s l .getBld).2.1.Clean := by
  refine exchange_kept hclean (fun msg hmsg hans => ?_) hans
  obtain ⟨len, -, hserved⟩ := @serveMessage_eq img e s l _ hclean.toServer _ hmsg (by decide)
  simp only [ClientRequest.id, ClientRequest.bufs, List.flatten_nil, dispatch_getBld] at hserved
  rcases dispatchGetbld_cases e.server [] s with ⟨hwritten, -⟩ | ⟨reply, hreply, hinfo⟩
  · obtain ⟨l', hsilent⟩ := @deliver_of_silent img e s l msg (by rw [hserved]; exact hwritten)
    rw [hsilent] at hans
    cases hans
  · have hread := @readAnswer_getBld img e s l hclean.toClient _ _ hreply
      ((length_buildInfoBuffer _).trans_lt (by decide))
    rw [if_neg (by simp [hcalloc])] at hread
    rw [deliver_of_reply (hserved.trans hinfo) hread]
    exact ⟨rfl, rfl⟩

theorem clean_exchange_list (hclean : l.Clean) (hcalloc : e.client.calloc = true)
    (hans : (exchange e s l .list).2.2 = some ans) : (exchange e s l .list).2.1.Clean := by
  refine exchange_kept hclean (fun msg hmsg hans => ?_) hans
  obtain ⟨len, -, hserved⟩ := @serveMessage_eq img e s l _ hclean.toServer _ hmsg (by decide)
  simp only [ClientRequest.id, ClientRequest.bufs, List.flatten_nil, dispatch_list] at hserved
  rcases dispatchList_cases e.server [] s with ⟨hwritten, -⟩ | ⟨hfit, reply, hreply, hlist⟩
  · obtain ⟨l', hsilent⟩ := @deliver_of_silent img e s l msg (by rw [hserved]; exact hwritten)
    rw [hsilent] at hans
    cases hans
  · have hread := @readAnswer_list img e s l hclean.toClient _ _ hreply (by
      rw [length_storeList]
      exact hfit.trans_lt (by decide))
    rw [if_neg (by simp [hcalloc])] at hread
    rw [deliver_of_reply (hserved.trans hlist) hread]
    exact ⟨rfl, rfl⟩

/-- A refused APPLY may leave its payload, but then the thread returns. -/
theorem tidy_exchange_apply {buf : List Byte} (hclean : l.Clean)
    (hlen : sandboxMsgHdrlen + buf.length < 2 ^ 32)
    (hans : (exchange e s l (.apply buf)).2.2 = some ans) :
    (exchange e s l (.apply buf)).2.1.Tidy := by
  refine exchange_kept (.inr hclean) (fun msg hmsg hans => ?_) hans
  have hflat : (ClientRequest.apply buf).bufs.flatten = buf := List.flatten_singleton
  have hfit : sandboxMsgHdrlen + buf.length ≤ sandboxAllocSize := by
    have hsome := (sendRrBuf_isSome (ClientRequest.bufs_length (.apply buf))
      (by rw [hflat]; exact hlen)).mp (Option.isSome_of_eq_some hmsg)
    rw [hflat] at hsome
    exact hsome
  obtain ⟨len, htotal, hserved⟩ := @serveMessage_eq img e s l _ hclean.toServer _ hmsg
    (by rw [hflat]; exact hlen)
  rw [hflat] at htotal hserved
  rw [ClientRequest.id, dispatch_apply] at hserved
  rcases dispatchApply_cases e.server htotal hfit s with ⟨-, rest, hnomem⟩ | hlibrary
  · rcases deliver_of_status hclean.toClient (.inl rfl) (hserved.trans hnomem) with
      ⟨l', hdeliver⟩ | hdeliver
    · rw [hdeliver] at hans
      cases hans
    · rw [hdeliver]
      have hfailed : sandboxErrNomem < 0 ∧ sandboxErrNomem ≠ sandboxErrClosed := by decide
      exact .inl (decide_eq_true hfailed)
  · rcases deliver_of_status hclean.toClient (.inl rfl) (hserved.trans (hlibrary _ rfl)) with
      ⟨l', hdeliver⟩ | hdeliver
    · rw [hdeliver] at hans
      cases hans
    · rw [hdeliver]
      exact .inr ⟨rfl, rfl⟩

/-- **An ordinary request** leaves a tidy connection tidy, when it is answered. -/
theorem tidy_exchange (hcalloc : e.client.calloc = true) (hr : Ordinary r) (hl : l.Tidy)
    (hans : (exchange e s l r).2.2 = some ans) : (exchange e s l r).2.1.Tidy := by
  rcases hl with hreturned | hclean
  · exact .inl (exchange_of_returned hreturned).2
  · cases r with
    | getBld => exact .inr (clean_exchange_getBld hclean hcalloc hans)
    | list => exact .inr (clean_exchange_list hclean hcalloc hans)
    | apply buf => exact tidy_exchange_apply hclean hr hans
    | undo buf => exact hr.elim

/-- A request that looks at the server only. -/
def Looks (r : ClientRequest) : Prop := r = .getBld ∨ r = .list

theorem Looks.ordinary (h : Looks r) : Ordinary r := by
  rcases h with rfl | rfl <;> trivial

/-- It leaves the server as it is. -/
theorem Looks.exchange (h : Looks r) (hl : l.Tidy) : (exchange e s l r).1 = s := by
  rcases hl with hreturned | hclean
  · exact (exchange_of_returned hreturned).1
  · rcases h with rfl | rfl
    · obtain ⟨l', a, heq, -⟩ := @exchange_getBld img e s l hclean
      rw [heq]
    · obtain ⟨l', a, heq, -⟩ := @exchange_list img e s l hclean
      rw [heq]

/-! ## What the commands ask -/

theorem asks_findPatch3 (sha1 : Bytes shaDigestLength) :
    (findPatch3 sha1).Asks Looks fun _ => True := by
  refine ⟨.inr rfl, fun ans => ?_⟩
  dsimp only
  generalize (sandboxListPatches ans).map findPatch = found
  rcases found with _ | _ | patches
  · trivial
  · trivial
  · trivial

theorem asks_cmdList3Pages (fuel : ℕ) : (cmdList3Pages fuel).Asks Looks fun _ => True := by
  induction fuel with
  | zero => trivial
  | succ fuel ih =>
      refine ⟨.inr rfl, fun ans => ?_⟩
      dsimp only
      generalize (sandboxListPatches ans).map findPatch = found
      rcases found with _ | _ | patches
      · trivial
      · trivial
      · dsimp only
        split_ifs
        · trivial
        · exact ih

theorem asks_getInfoStrings (strings : List (List Byte)) :
    (getInfoStrings strings).Asks Looks fun _ => True := by
  refine ⟨.inl rfl, fun ans => ?_⟩
  dsimp only
  cases ans.buf with
  | none => trivial
  | some buf => trivial

theorem asks_infoCheck (strings : List (List Byte)) :
    (infoCheck strings).Asks Looks fun _ => True := by
  rw [infoCheck]
  split_ifs
  · exact asks_getInfoStrings strings
  · trivial

theorem asks_findDeps (ds : List Dependency) : (findDeps ds).Asks Looks fun _ => True := by
  induction ds with
  | nil => trivial
  | cons d ds ih =>
      refine (asks_findPatch3 d.sha1).bind fun r _ => ?_
      rcases r with _ | _ | pi
      · trivial
      · trivial
      · exact ih.bind fun _ _ => trivial

theorem asks_searchPatches (p : Patch) : (searchPatches p).Asks Looks fun _ => True := by
  refine (asks_findPatch3 p.sha1).bind fun r _ => ?_
  rcases r with _ | _ | pi
  · trivial
  · refine (asks_findDeps p.deps.1).bind fun r _ => ?_
    cases r <;> trivial
  · trivial

/-- A blob keeps its length. -/
theorem asks_applyRelocs3 (deps : List Dependency) (i : ℕ) (relocs3 : List Reloc3) (blob : Blob) :
    (applyRelocs3 deps i relocs3 blob).Asks Looks
      fun r => ∀ blob', r = some blob' → blob'.1.length = blob.1.length := by
  induction relocs3 generalizing i blob with
  | nil =>
      intro blob' h
      rw [Option.some.inj h]
  | cons rel3 relocs3 ih =>
      rw [applyRelocs3]
      split_ifs with hindex
      · refine (ih _ _).mono (fun _ h => h) fun r hr blob' h => ?_
        rw [hr blob' h, length_addWord]
      · exact fun blob' h => by cases h

variable {p : Patch} {fill : Patch → List XenlpPatchWrite → List Byte}

/-- What a pass asks is ordinary, and the blob that it leaves is not too long for another one. -/
theorem asks_applyPatch (hblob : p.blob.1.length < 2 ^ 31)
    (hfill : ∀ p : Patch, p.blob.1.length < 2 ^ 31 →
      sandboxMsgHdrlen + (p.message fill).length < 2 ^ 32) :
    (applyPatch fill p).Asks Ordinary
      fun r => ∀ p', r = some p' → p'.blob.1.length < 2 ^ 31 := by
  refine ((asks_searchPatches p).mono (fun _ => Looks.ordinary) fun _ h => h).bind fun r _ => ?_
  rcases r with _ | _ | deps
  · exact fun p' h => by cases h
  · intro p' h
    rwa [← Option.some.inj h]
  · refine ((asks_applyRelocs3 deps.1 0 p.relocs3.1 p.blob).mono (fun _ => Looks.ordinary)
      fun _ h => h).bind fun r hr => ?_
    cases r with
    | none => exact fun p' h => by cases h
    | some blob =>
        have hlt : (p.relocated deps blob).blob.1.length < 2 ^ 31 :=
          (hr blob rfl).trans_lt hblob
        refine ⟨hfill _ hlt, fun ans => ?_⟩
        dsimp only
        split_ifs
        · exact fun p' h => by cases h
        · intro p' h
          rwa [← Option.some.inj h]

theorem asks_applyWithCaps (hblob : p.blob.1.length < 2 ^ 31) :
    (applyWithCaps (doLpCaps 0) p).Asks Ordinary fun _ => True := by
  rw [applyWithCaps_eq]
  refine (asks_applyPatch hblob fun p hp => (length_message_lt hp).1).bind fun r hr => ?_
  cases r with
  | none => trivial
  | some p' =>
      rw [Option.elim_some, cmdApply3]
      split_ifs
      · trivial
      · refine (asks_applyPatch (hr p' rfl) fun p hp => (length_message_lt hp).2).bind
          fun r _ => ?_
        cases r <;> trivial

theorem asks_checkAndApply (hblob : p.blob.1.length < 2 ^ 31) (strings : List (List Byte)) :
    (checkAndApply p strings).Asks Ordinary fun _ => True := by
  rw [checkAndApply]
  split_ifs
  all_goals first | trivial | exact asks_applyWithCaps hblob

theorem asks_cmdApplyWith (strings : List (List Byte)) (hash : List Byte → Bytes shaDigestLength)
    (filename : List Byte) (f : Option (List Byte)) :
    (cmdApplyWith strings hash filename f).Asks Ordinary fun _ => True := by
  rw [cmdApplyWith]
  cases hload : f.bind (loadPatchFile hash filename) with
  | none => trivial
  | some p =>
      obtain ⟨f, -, hload⟩ := Option.bind_eq_some_iff.mp hload
      have hcheck : ∀ strings, (infoCheck strings).Asks Ordinary fun _ => True := fun strings =>
        (asks_infoCheck strings).mono (fun _ => Looks.ordinary) fun _ h => h
      exact (hcheck _).bind fun strings _ => (hcheck _).bind fun strings _ =>
        asks_checkAndApply (blob_lt_of_loadPatchFile hash hload) strings

namespace Options

variable (o : Options) (a : Surroundings) (hash : List Byte → Bytes shaDigestLength)

theorem asks_info : o.info.Asks Looks fun _ => True := by
  rw [info]
  split_ifs
  · exact asks_getInfoStrings []
  · trivial

theorem asks_list : o.list.Asks Looks fun _ => True := by
  rw [list]
  split_ifs
  · exact asks_cmdList3Pages _
  · trivial

theorem asks_find : (o.find a).Asks Looks fun _ => True := by
  rw [find]
  split_ifs
  · exact ⟨.inr rfl, fun _ => trivial⟩
  · trivial

theorem asks_apply (strings : List (List Byte)) :
    (o.apply a hash strings).Asks Ordinary fun _ => True := by
  rw [apply]
  split_ifs
  · exact asks_cmdApplyWith _ _ _ _
  · trivial

end Options

/-! ## Safety -/

/-- The server, for clients whose own allocations succeed. -/
def steadyService (img : Image) (info : List Byte) : Service Sandbox Link ClientRequest Answer
    { e : SystemEnv img info // e.1.client.calloc = true } :=
  (sandboxService img info).restrict Subtype.val

instance (info : List Byte) : DecidablePred (steadyService img info).ready := fun l =>
  inferInstanceAs (Decidable (l.returned = false ∧ 0 < l.left))

/-- The message is one of a patch with the hash. -/
def Carries (buf : List Byte) (sha1 : Bytes shaDigestLength) : Prop :=
  ∀ beyond, (XenlpApply4.load (fromList buf beyond)).sha1 = sha1

theorem carries_message4 (p : Patch) : Carries (p.message fillPatchBuf4) p.sha1 :=
  fun _ => sha1_load_message.1

theorem carries_message3 (p : Patch) : Carries (p.message fillPatchBuf3) p.sha1 :=
  fun _ => sha1_load_message.2

/-- A relation of the server and of what a client has asked that each request keeps: one that
changes nothing, an APPLY of a patch that is not live, and an undo request of one that is. -/
structure KeptByRequests (inv : Sandbox → List (ClientRequest ⊕ ℕ) → Prop) : Prop where
  mark : ∀ {s tr} n, inv s tr → inv s (tr ++ [.inr n])
  same : ∀ {s s' tr} r, s'.lpPatchHead = s.lpPatchHead → inv s tr → inv s' (tr ++ [.inl r])
  apply : ∀ {s s' tr buf patch}, Carries buf patch.sha1 →
    s'.lpPatchHead = patch :: s.lpPatchHead → ¬Applied s patch.sha1 → inv s tr →
      inv s' (tr ++ [.inl (.apply buf)])
  undo : ∀ {s s' tr hash}, TakenOut hash s s' → inv s tr →
    inv s' (tr ++ [.inl (.undo (storeHash hash))])

section Safety

variable {info : List Byte} {ok : Sandbox → Prop}
  {inv : Sandbox → List (ClientRequest ⊕ ℕ) → Prop} {tr : List (ClientRequest ⊕ ℕ)} {β : Type}

namespace KeptByRequests

variable (hinv : KeptByRequests inv)

include hinv

theorem lists (n : ℕ) (h : inv s tr) : inv s (tr ++ Patchbox.lists n) := by
  induction n generalizing tr with
  | zero => exact (List.append_nil tr).symm ▸ h
  | succ n ih =>
      rw [← lists_succ, ← List.append_assoc]
      exact ih (hinv.same .list rfl h)

theorem marks (i n : ℕ) (h : inv s tr) : inv s (tr ++ Patchbox.marks i n) := by
  induction n generalizing i tr with
  | zero => exact (List.append_nil tr).symm ▸ h
  | succ n ih =>
      rw [← marks_succ, ← List.append_assoc]
      exact ih (i + 1) (hinv.mark i h)

/-- An APPLY of a patch that is not live, whatever becomes of it. -/
theorem of_apply {buf : List Byte} {sha1 : Bytes shaDigestLength} {s' : Sandbox}
    (hbuf : Carries buf sha1) (hnew : ¬Applied s sha1) (h : inv s tr)
    (hs' : s' = s ∨ ∃ env beyond, s' = (xenlpApply4 img env (fromList buf beyond) s).sandbox) :
    inv s' (tr ++ [.inl (.apply buf)]) := by
  rcases hs' with rfl | ⟨env, beyond, hs'⟩
  · exact hinv.same _ rfl h
  · rcases list_of_apply hs' with hlist | ⟨patch, hpatch, hlist⟩
    · exact hinv.same _ hlist h
    · have hsha1 : patch.sha1 = sha1 := hpatch.trans (hbuf beyond)
      exact hinv.apply (hsha1.symm ▸ hbuf) hlist (hsha1.symm ▸ hnew) h

/-- An undo request, whatever becomes of it. -/
theorem of_undo {hash : Bytes shaDigestLength} {s' : Sandbox} (h : inv s tr)
    (hs' : s' = s ∨ s' = (xenlpUndo4 hash.get s).sandbox) :
    inv s' (tr ++ [.inl (.undo (storeHash hash))]) := by
  rcases hs' with rfl | rfl
  · exact hinv.same _ rfl h
  · rcases ccode_xenlpUndo4 hash.get s with hzero | ⟨-, -, hsame⟩
    · exact hinv.undo (takenOut_of_ccode hzero) h
    · exact hinv.same _ (congrArg Sandbox.lpPatchHead hsame) h

/-- A server that does not read any more stays as it is. -/
theorem safe_of_returned (c : Command β) (h : inv s tr) (hl : l.returned = true) :
    c.Safe (steadyService img info) ok inv (fun _ s l tr => inv s tr ∧ l.Tidy) s l tr := by
  refine (c.asks_all.safe (I := fun s (l : Link) tr => inv s tr ∧ l.returned = true)
    (fun _ _ _ h => h.1) ?_ ?_ ?_ ⟨h, hl⟩).mono fun _ _ _ _ h => ⟨h.2.1, .inl h.2.2⟩
  · exact fun s l tr n h => ⟨hinv.mark n h.1, h.2⟩
  · intro e s l tr r _ h
    exact hinv.same r (congrArg _ (@exchange_of_returned img e.1.1 s l r h.2).1) h.1
  · intro e s l tr r ans _ h _
    have hserve := @exchange_of_returned img e.1.1 s l r h.2
    exact ⟨hinv.same r (congrArg _ hserve.1) h.1, hserve.2⟩

/-- So does one that is only looked at. -/
theorem safe_of_looks {c : Command β} (hc : c.Asks Looks fun _ => True) (h : inv s tr)
    (hl : l.Tidy) :
    c.Safe (steadyService img info) ok inv (fun _ s l tr => inv s tr ∧ l.Tidy) s l tr := by
  refine (hc.safe (I := fun s (l : Link) tr => inv s tr ∧ l.Tidy) (fun _ _ _ h => h.1)
    ?_ ?_ ?_ ⟨h, hl⟩).mono fun _ _ _ _ h => h.2
  · exact fun s l tr n h => ⟨hinv.mark n h.1, h.2⟩
  · intro e s l tr r hr h
    exact hinv.same r (congrArg _ (@Looks.exchange img e.1.1 s l r hr h.2)) h.1
  · intro e s l tr r ans hr h hans
    exact ⟨hinv.same r (congrArg _ (@Looks.exchange img e.1.1 s l r hr h.2)) h.1,
      tidy_exchange e.2 hr.ordinary h.2 hans⟩

/-- **One pass** sends nothing but an APPLY of a patch that is not live. -/
theorem safe_applyPatch {p : Patch} (hblob : p.blob.1.length < 2 ^ 31)
    (hfill : ∀ p : Patch, p.blob.1.length < 2 ^ 31 →
      sandboxMsgHdrlen + (p.message fill).length < 2 ^ 32)
    (hcarries : ∀ p : Patch, Carries (p.message fill) p.sha1) (h : inv s tr) (hclean : l.Clean) :
    (applyPatch fill p).Safe (sandboxService img info) ok inv (fun r s l tr =>
      ∀ p', r = some p' → inv s tr ∧ l.Clean ∧ p'.blob.1.length < 2 ^ 31) s l tr := by
  have hlists := fun n => hinv.lists n h
  have hsent : ∀ {s' : Sandbox}, Searched s p →
      (s' = s ∨ ∃ env beyond,
        s' = (xenlpApply4 img env (fromList ((p.sent s).message fill) beyond) s).sandbox) →
      inv s' (tr ++ Patchbox.lists (p.deps.1.length + 1) ++
        Patchbox.marks 0 p.relocs3.1.length ++ [.inl (.apply ((p.sent s).message fill))]) :=
    fun hsearched hs' =>
      hinv.of_apply (hcarries (p.sent s)) hsearched.new (hinv.marks 0 _ (hlists _)) hs'
  refine Patchbox.safe_applyPatch hclean rfl (hfill _ (blob_lt_sent hblob s)) hlists
    (fun _ _ n _ _ => hinv.marks 0 n (hlists _)) (fun hsearched _ _ s' hs' => hsent hsearched hs')
    (fun _ _ _ _ hr => by cases hr) (fun l' hclean' _ _ p' hp' => ?_)
    fun env beyond s' l' hsearched _ hs' _ _ hclean' _ p' hp' => ?_
  · obtain rfl := Option.some.inj hp'
    exact ⟨hlists 1, hclean', hblob⟩
  · obtain rfl := Option.some.inj hp'
    exact ⟨hsent hsearched (.inr ⟨env, beyond, hs'⟩), hclean', blob_lt_sent hblob s⟩

/-- **The checks and the two passes.** -/
theorem safe_checkAndApply {p : Patch} (hblob : p.blob.1.length < 2 ^ 31)
    (strings : List (List Byte)) (h : inv s tr) (hl : l.Tidy) :
    (checkAndApply p strings).Safe (steadyService img info) ok inv
      (fun _ s l tr => inv s tr ∧ l.Tidy) s l tr := by
  rcases hl with hreturned | hclean
  · exact hinv.safe_of_returned _ h hreturned
  · have hkept : (checkAndApply p strings).Safe (sandboxService img info) ok inv
        (fun _ _ _ _ => True) s l tr := by
      refine Patchbox.safe_checkAndApply (fun _ _ _ _ _ => trivial) fun _ => ?_
      refine @safe_applyWithCaps img info _ _ _ _ _ _
        (fun p' s l tr => inv s tr ∧ l.Clean ∧ p'.blob.1.length < 2 ^ 31) _
        (fun _ _ _ _ _ => trivial) (hinv.safe_applyPatch hblob
          (fun p hp => (length_message_lt hp).1) carries_message4 h hclean)
        fun p' s l tr hmid => ?_
      rw [cmdApply3]
      split_ifs
      · exact fun _ => trivial
      · refine (hinv.safe_applyPatch hmid.2.2 (fun p hp => (length_message_lt hp).2)
          carries_message3 hmid.1 hmid.2.1).mono ?_
        exact fun _ _ _ _ _ _ => trivial
    have htidy : (checkAndApply p strings).Safe (steadyService img info) ok (fun _ _ => True)
        (fun _ _ l _ => True ∧ l.Tidy) s l tr := by
      refine (asks_checkAndApply hblob strings).safe
        (I := fun (_ : Sandbox) (l : Link) (_ : List (ClientRequest ⊕ ℕ)) => l.Tidy)
        (fun _ _ _ _ => trivial) (fun _ _ _ _ h => h) (fun _ _ _ _ _ _ _ => trivial) ?_
        (.inr hclean)
      intro e s l tr r ans hr h hans
      exact tidy_exchange e.2 hr h hans
    have hboth := ((hkept.restrict Subtype.val).and htidy).and_inv ⟨h, trivial⟩
    exact (hboth.mono_inv fun _ _ h => h.1).mono fun _ _ _ _ h => ⟨h.2.1, h.1.2.2⟩

theorem safe_cmdApplyWith (strings : List (List Byte)) (hash : List Byte → Bytes shaDigestLength)
    (filename : List Byte) (f : Option (List Byte)) (h : inv s tr) (hl : l.Tidy) :
    (cmdApplyWith strings hash filename f).Safe (steadyService img info) ok inv
      (fun _ s l tr => inv s tr ∧ l.Tidy) s l tr := by
  rw [cmdApplyWith]
  cases hload : f.bind (loadPatchFile hash filename) with
  | none => exact ⟨h, hl⟩
  | some p =>
      obtain ⟨f, -, hload⟩ := Option.bind_eq_some_iff.mp hload
      refine (hinv.safe_of_looks (asks_infoCheck strings) h hl).bind fun strings s l tr h => ?_
      refine (hinv.safe_of_looks (asks_infoCheck strings) h.1 h.2).bind fun strings s l tr h => ?_
      exact hinv.safe_checkAndApply (blob_lt_of_loadPatchFile hash hload) strings h.1 h.2

/-- The undo request comes last, so that what it leaves in the stream is not asked for. -/
theorem safe_cmdUndo {behind sha1 : List Byte} (h : inv s tr) (hl : l.Tidy) :
    (cmdUndo behind sha1).Safe (steadyService img info) ok inv (fun _ _ _ _ => True) s l tr := by
  rcases hl with hreturned | hclean
  · exact (hinv.safe_of_returned _ h hreturned).mono fun _ _ _ _ _ => trivial
  · have hlist := hinv.same .list rfl h
    exact (Patchbox.safe_cmdUndo hclean hlist fun _ _ => hinv.of_undo hlist).restrict Subtype.val

/-- **An invocation** keeps what its requests keep. -/
theorem safe_main (o : Options) (a : Surroundings) (hash : List Byte → Bytes shaDigestLength)
    (h : inv s tr) (hl : l.Tidy) :
    (o.main a hash).Safe (steadyService img info) ok inv (fun _ _ _ _ => True) s l tr := by
  rw [Options.main]
  split_ifs
  · trivial
  · refine (hinv.safe_of_looks o.asks_info h hl).bind fun strings s l tr h => ?_
    refine (hinv.safe_of_looks o.asks_list h.1 h.2).bind fun _ s l tr h => ?_
    refine (hinv.safe_of_looks (o.asks_find a) h.1 h.2).bind fun _ s l tr h => ?_
    have happly : (o.apply a hash strings).Safe (steadyService img info) ok inv
        (fun _ s l tr => inv s tr ∧ l.Tidy) s l tr := by
      rw [Options.apply]
      split_ifs
      · exact hinv.safe_cmdApplyWith strings hash _ _ h.1 h.2
      · exact h
    refine happly.bind fun _ s l tr h => ?_
    have hremove : (o.remove a).Safe (steadyService img info) ok inv (fun _ _ _ _ => True)
        s l tr := by
      rw [Options.remove]
      split_ifs
      · exact hinv.safe_cmdUndo h.1 h.2
      · trivial
    exact hremove.bind fun _ _ _ _ _ => trivial

end KeptByRequests

end Safety

end Patchbox
