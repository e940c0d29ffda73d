import Patchbox.Listener
import Patchbox.Refusals
import Patchbox.StaleJumps

/-!
# From bytes to requests

The listener reads bytes, the library serves requests. Which request a message is handed over
as follows from its bytes alone: an APPLY whose payload is complete, an undo request of the
right length whose twenty bytes are there. Everything else leaves the library alone. So what
clients send, however garbled, is for the library a run of requests, and what holds along
every run holds whatever is sent.

## Main definitions

* `requestOf` — the request a message is handed over as.
* `listenRequests` — the requests of all connections, in order.
* `ProgramKept` — writes go to the text only.
* `listenThread_eq_run` — the thread is a run of the library.
* `listenThread_keeps` — what no client can break.
-/

namespace Patchbox
open Lib

variable {img : Image}

/-! ## One message -/

/-- The request that `dispatch_apply` hands to the library. -/
def applyRequest (env : ServeEnv img) (len : BitVec 32) (input : List Byte) :
    Option (Request img) :=
  let remaining := (len - BitVec.ofNat 32 sandboxMsgHdrlen).toNat
  if remaining < sandboxAllocSize ∧ env.calloc = true ∧ remaining ≤ input.length then
    some (.apply env.apply (fromList (input.take remaining) env.beyond))
  else none

/-- The request that `dispatch_undo_req` hands to the library. -/
def undoRequest (env : ServeEnv img) (len : BitVec 32) (input : List Byte) :
    Option (Request img) :=
  if len.toNat = sandboxMsgHdrlen + 4 + shaDigestLength ∧ shaDigestLength ≤ input.length then
    some (.undo (fromList (input.take shaDigestLength) env.beyond))
  else none

/-- The request a message is handed over as. -/
def requestOf (env : ServeEnv img) (input : List Byte) : Option (Request img) :=
  let hbuf := input.take sandboxMsgHdrlen
  let rest := input.drop sandboxMsgHdrlen
  if input.length < sandboxMsgHdrlen then none
  else if headerError hbuf ≠ sandboxOk then none
  else if msgGetId hbuf = sandboxMsgApply then applyRequest env (msgGetLen hbuf) rest
  else if msgGetId hbuf = sandboxMsgUndoReq then undoRequest env (msgGetLen hbuf) rest
  else none

/-- The library after the request of a message, if there is one. -/
def Sandbox.stepOf (s : Sandbox) (r : Option (Request img)) : Sandbox :=
  run Sandbox.step s r.toList

@[simp] theorem stepOf_none (s : Sandbox) : s.stepOf (none : Option (Request img)) = s := rfl

@[simp] theorem stepOf_some (s : Sandbox) (r : Request img) : s.stepOf (some r) = s.step r := rfl

theorem sandbox_dispatchApply (env : ServeEnv img) (len : BitVec 32) (input : List Byte)
    (s : Sandbox) :
    (dispatchApply env len input s).sandbox = s.stepOf (applyRequest env len input) := by
  rw [applyRequest]
  generalize hn : (len - BitVec.ofNat 32 sandboxMsgHdrlen).toNat = n
  split_ifs with hread
  · obtain ⟨hlt, hcalloc, hle⟩ := hread
    subst hn
    rw [stepOf_some, step_apply]
    exact Reading.sandbox_of_eq (dispatchApply_of_le hcalloc hlt hle rfl)
  · rw [stepOf_none, dispatchApply, hn]
    split_ifs with hlarge hcalloc
    · rfl
    · rfl
    · have hlt : input.length < n := by
        refine Nat.lt_of_not_le fun hle => hread ⟨Nat.lt_of_not_le hlarge, ?_, hle⟩
        simpa using hcalloc
      rw [readn_of_lt hlt]

theorem sandbox_dispatchUndoReq (env : ServeEnv img) (len : BitVec 32) (input : List Byte)
    (s : Sandbox) :
    (dispatchUndoReq env len input s).sandbox = s.stepOf (undoRequest env len input) := by
  rw [undoRequest, dispatchUndoReq]
  split_ifs with hlen hread hread
  · exact absurd hread.1 hlen
  · rfl
  · rw [readn_of_le hread.2, stepOf_some, step_undo]
  · have hlt : input.length < shaDigestLength := by
      refine Nat.lt_of_not_le fun hle => hread ⟨?_, hle⟩
      exact not_not.mp hlen
    rw [readn_of_lt hlt, stepOf_none]

/-- The other dispatchers leave the library alone. -/
theorem sandbox_dispatch_of_ne {env : ServeEnv img} {id : BitVec 16} {len : BitVec 32}
    {input : List Byte} {s : Sandbox} (happly : id ≠ sandboxMsgApply)
    (hundo : id ≠ sandboxMsgUndoReq) : (dispatch env id len input s).sandbox = s := by
  rw [dispatch, if_neg happly]
  split_ifs
  · rw [dispatchApplyResponse]
    split <;> rfl
  · rw [dispatchList]
    split_ifs
    · rfl
    · split <;> rfl
  · simp only [dispatchListResponse]
    split_ifs <;> rfl
  · rfl
  · simp only [dispatchGetbldRes]
    split_ifs <;> rfl
  · rw [dispatchUndoRep]
    split <;> rfl
  · rfl

/-- **One message is at most one request.** -/
theorem sandbox_readSandboxMessageHeader (env : ServeEnv img) (eof : Bool) (input : List Byte)
    (s : Sandbox) :
    (readSandboxMessageHeader env eof input s).sandbox = s.stepOf (requestOf env input) := by
  rw [requestOf]
  split_ifs with hshort hbad happly hundo
  · rw [readSandboxMessageHeader, readn_of_lt hshort]
    rfl
  all_goals rw [readSandboxMessageHeader_of_le (Nat.le_of_not_lt hshort)]
  · rw [if_pos hbad, stepOf_none]
  all_goals rw [if_neg hbad]
  · rw [happly, dispatch_apply, sandbox_dispatchApply]
  · rw [hundo, dispatch_undoReq, sandbox_dispatchUndoReq]
  · rw [sandbox_dispatch_of_ne happly hundo, stepOf_none]

/-! ## Sessions and connections -/

/-- The requests of a session. -/
def sessionRequests (env : ℕ → ServeEnv img) (eof : Bool) :
    ℕ → List Byte → Sandbox → List (Request img)
  | 0, _, _ => []
  | left + 1, input, s =>
      let r := readSandboxMessageHeader (env 0) eof input s
      (requestOf (env 0) input).toList ++
        if r.ccode < 0 then []
        else sessionRequests (fun i => env (i + 1)) eof left r.rest r.sandbox

/-- The requests of a connection. -/
def Connection.requests (c : Connection img) (s : Sandbox) : List (Request img) :=
  if 0 < c.clientFd then sessionRequests c.env c.eof sandboxMsgSessionLimit c.stream s else []

/-- The requests of all connections the thread gets to. -/
def listenRequests : List (Connection img) → Sandbox → List (Request img)
  | [], _ => []
  | c :: conns, s =>
      c.requests s ++
        if (c.serve s).1 = .returned then [] else listenRequests conns (c.serve s).2

/-- **A session is the run of its requests.** -/
theorem session_eq_run (env : ℕ → ServeEnv img) (eof : Bool) (left : ℕ) (input : List Byte)
    (s : Sandbox) :
    (session env eof left input s).2 = run Sandbox.step s (sessionRequests env eof left input s) := by
  induction left generalizing env input s with
  | zero => rfl
  | succ left ih =>
      have hstep := sandbox_readSandboxMessageHeader (env 0) eof input s
      rw [session, sessionRequests]
      generalize readSandboxMessageHeader (env 0) eof input s = r at hstep
      rw [run_append, ← Sandbox.stepOf, ← hstep]
      split_ifs with hclosed hneg hneg
      · rfl
      · rw [hclosed] at hneg
        exact absurd (by decide) hneg
      · rfl
      · exact ih _ _ _

theorem serve_eq_run (c : Connection img) (s : Sandbox) :
    (c.serve s).2 = run Sandbox.step s (c.requests s) := by
  rw [Connection.serve, Connection.requests]
  split_ifs
  · exact session_eq_run _ _ _ _ _
  · rfl

/-! ## The thread -/

theorem listenRequests_append {before : List (Connection img)} {s t : Sandbox}
    (h : listenThread before s = some t) (behind : List (Connection img)) :
    listenRequests (before ++ behind) s = listenRequests before s ++ listenRequests behind t := by
  induction before generalizing s with
  | nil =>
      cases h
      rfl
  | cons c before ih =>
      rw [listenThread] at h
      split_ifs at h with hret
      rw [List.cons_append, listenRequests, listenRequests, if_neg hret, if_neg hret, ih h,
        List.append_assoc]

theorem listenThread_run {conns : List (Connection img)} {s t : Sandbox}
    (h : listenThread conns s = some t) : t = run Sandbox.step s (listenRequests conns s) := by
  induction conns generalizing s with
  | nil =>
      cases h
      rfl
  | cons c conns ih =>
      rw [listenThread] at h
      split_ifs at h with hret
      rw [listenRequests, if_neg hret, run_append, ← serve_eq_run]
      exact ih h

theorem ServedIn.take_succ {conns : List (Connection img)} {s t : Sandbox} {i : ℕ}
    {c : Connection img} (h : ServedIn conns s i c t) :
    conns.take (i + 1) = conns.take i ++ [c] := by
  rw [List.take_add_one, h.1, Option.toList_some]

/-- **The thread is a run of the library.** Whatever the clients send, the thread comes to each
connection, and leaves it, in the state in which the library is when it has served the requests
of the messages read so far, in this order, and nothing else. -/
theorem listenThread_eq_run (conns : List (Connection img)) (s : Sandbox) (i : ℕ)
    (c : Connection img) (t : Sandbox) (h : ServedIn conns s i c t) :
    t = run Sandbox.step s (listenRequests (conns.take i) s) ∧
      (c.serve t).2 = run Sandbox.step s (listenRequests (conns.take (i + 1)) s) := by
  have hrun := listenThread_run h.2
  refine ⟨hrun, ?_⟩
  have hlast : listenRequests [c] t = c.requests t := by
    rw [listenRequests, listenRequests, ite_self, List.append_nil]
  rw [h.take_succ, listenRequests_append h.2, run_append, ← hrun, hlast, serve_eq_run]

/-- A client that has a patch applied. -/
def applyingClient : Connection sampleImage where
  clientFd := 5
  stream := (sendRrBuf sandboxMsgApply
    [messageOf 0x400000 [0xc3, 0xc3, 0xc3, 0xc3] [] sampleWrite]).getD []
  eof := true
  env := fun _ => sampleServeEnv

/-- The next client finds one live patch. -/
theorem servedIn_garbledClient : ∃ t,
    ServedIn [applyingClient, garbledClient] (Sandbox.init (fun _ => 0) fun _ => 0) 1
      garbledClient t ∧ t.lpPatchHead.length = 1 := by
  generalize hs : Sandbox.init (fun _ => 0) (fun _ => 0) = s
  have hclosed : (applyingClient.serve s).1 = .closed := by
    subst hs
    decide +kernel
  have hone : (applyingClient.serve s).2.lpPatchHead.length = 1 := by
    subst hs
    decide +kernel
  refine ⟨_, ⟨rfl, ?_⟩, hone⟩
  rw [List.take_succ_cons, List.take_zero, listenThread, hclosed]
  rfl

theorem listenThread_eq_run_garbledClient : ∃ t,
    t.lpPatchHead.length = 1 ∧ t = run Sandbox.step (Sandbox.init (fun _ => 0) fun _ => 0)
      (listenRequests [applyingClient] (Sandbox.init (fun _ => 0) fun _ => 0)) := by
  obtain ⟨t, hserved, hone⟩ := servedIn_garbledClient
  exact ⟨t, hone, (listenThread_eq_run _ _ 1 garbledClient t hserved).1⟩

/-! ## What no client can break -/

theorem exists_run_streamAt (env : ℕ → ServeEnv img) (eof : Bool) (k : ℕ) (input : List Byte)
    (s : Sandbox) : ∃ rs : List (Request img),
      (streamAt env eof k input s).2 = run Sandbox.step s rs := by
  induction k generalizing env input s with
  | zero => exact ⟨[], rfl⟩
  | succ k ih =>
      have hstep := sandbox_readSandboxMessageHeader (env 0) eof input s
      obtain ⟨rs, hrs⟩ := ih (fun i => env (i + 1))
        (readSandboxMessageHeader (env 0) eof input s).rest
        (readSandboxMessageHeader (env 0) eof input s).sandbox
      rw [streamAt]
      refine ⟨(requestOf (env 0) input).toList ++ rs, ?_⟩
      rw [run_append, ← Sandbox.stepOf, ← hstep]
      exact hrs

/-- What the requests keep holds whenever a message is read. -/
theorem ServedIn.invariant {P : Sandbox → Prop} (hstep : ∀ s (r : Request img), P s → P (s.step r))
    {conns : List (Connection img)} {s t : Sandbox} {i : ℕ} {c : Connection img} (hs : P s)
    (h : ServedIn conns s i c t) (k : ℕ) : P (streamAt c.env c.eof k c.stream t).2 := by
  obtain ⟨rs, hrs⟩ := exists_run_streamAt c.env c.eof k c.stream t
  rw [hrs, listenThread_run h.2, ← run_append]
  exact run_invariant hstep hs _

/-- The writes of the live patches go to the text, and outside of them the program is as it was
loaded. The last of them may reach seven bytes past the text. -/
structure ProgramKept (img : Image) (text : Mem 64) (s : Sandbox) : Prop where
  inText : ∀ p ∈ s.lpPatchHead, ∀ pw ∈ p.writes, InText img pw.hvabs
  outside : ∀ x : Addr, (∀ a, InText img a → x ∉ Mem.block a 8) → s.text x = text x

theorem programKept_init (text mem : Mem 64) : ProgramKept img text (Sandbox.init text mem) where
  inText := by simp [Sandbox.init]
  outside := fun _ _ => rfl

/-- Exchanging writes that go to the text leaves the rest alone. -/
theorem ProgramKept.swap {text : Mem 64} {s : Sandbox} (h : ProgramKept img text s)
    {writes : List XenlpPatchWrite} (hin : ∀ pw ∈ writes, InText img pw.hvabs) {x : Addr}
    (hx : ∀ a, InText img a → x ∉ Mem.block a 8) :
    (swapTrampolines writes s.text).2 x = text x := by
  rw [swapTrampolines_text_of_not_mem fun pw hpw => hx pw.hvabs (hin pw hpw)]
  exact h.outside x hx

theorem ProgramKept.step {text : Mem 64} {s : Sandbox} (h : ProgramKept img text s)
    (r : Request img) : ProgramKept img text (s.step r) := by
  have hserved := served s r
  generalize s.step r = s' at hserved
  cases hserved with
  | refused => exact h
  | sampled => exact ⟨h.inText, h.outside⟩
  | released => exact ⟨h.inText, h.outside⟩
  | @applied env arg mem writes patch maps hacc hwrites hpatch hmaps =>
      have hin : ∀ pw ∈ writes, InText img pw.hvabs :=
        fun pw hpw => inText_of_accepted hacc (hwrites ▸ hpw)
      refine ⟨List.forall_mem_cons.mpr ⟨fun pw hpw => ?_, h.inText⟩, fun x hx => h.swap hin hx⟩
      -- the entry keeps the addresses of its writes
      have hsame : patch.writes.map XenlpPatchWrite.hvabs = writes.map XenlpPatchWrite.hvabs := by
        rw [hpatch, writes_insertedPatch, hvabs_swapTrampolines, hwrites]
      have hmem := List.mem_map_of_mem (f := XenlpPatchWrite.hvabs) hpw
      rw [hsame] at hmem
      obtain ⟨pw', hpw', heq⟩ := List.mem_map.mp hmem
      exact heq ▸ hin pw' hpw'
  | @undone arg newer older ap maps hundo hmaps =>
      have hap : ap ∈ s.lpPatchHead := (mem_list_of_undoTarget hundo).mpr (.inl rfl)
      refine ⟨fun p hp => h.inText p ((mem_list_of_undoTarget hundo).mpr (.inr hp)), ?_⟩
      exact fun x hx => h.swap (h.inText ap hap) hx

/-- **What no client can break.** From the start, whatever bytes the clients send: whenever the
thread reads a message, every live patch writes into the text only, the program is unchanged
outside of the text but for the bytes behind its end that such a write may reach, and the blobs
lie above the program and apart from each other. -/
theorem listenThread_keeps (text mem : Mem 64) (conns : List (Connection img)) (i : ℕ)
    (c : Connection img) (t : Sandbox) (h : ServedIn conns (Sandbox.init text mem) i c t) (k : ℕ) :
    ProgramKept img text (streamAt c.env c.eof k c.stream t).2 ∧
      (streamAt c.env c.eof k c.stream t).2.Inv img :=
  h.invariant (P := fun s => ProgramKept img text s ∧ s.Inv img)
    (fun _ r hs => ⟨hs.1.step r, hs.2.step r⟩)
    ⟨programKept_init text mem, Sandbox.inv_init text mem⟩ k

theorem listenThread_keeps_garbledClient : ∃ t : Sandbox,
    t.lpPatchHead.length = 1 ∧ ProgramKept sampleImage (fun _ => 0)
      (streamAt garbledClient.env garbledClient.eof 1 garbledClient.stream t).2 := by
  obtain ⟨t, hserved, hone⟩ := servedIn_garbledClient
  exact ⟨t, hone, (listenThread_keeps _ _ _ 1 garbledClient t hserved 1).1⟩

end Patchbox
