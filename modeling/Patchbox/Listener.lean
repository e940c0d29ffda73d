import Patchbox.Statuses

/-!
# The listener thread

`listen_thread` accepts a connection and serves up to a hundred messages on it, one at
a time, before it accepts the next. It leaves a connection in one of three ways. When
the client has closed it, the server closes it too. When a message gives a negative
status, the thread returns. After a hundred messages it goes back to `accept`, and the
connection stays open.

A connection that never lets go of the thread is not followed by another `accept`, so
the streams here are those of sessions that end.

## Main definitions

* `session` — the inner loop, and `reading`, its calls of `read_sandbox_message_header`.
* `listenThread` — the outer loop, up to an `accept`.
* `closed_iff` — the connections that are closed when the thread accepts again.
* `listenThread_accepts` — the messages that keep the thread running, and those that end it.
-/

namespace Patchbox
open Lib

variable {img : Image}

/-- How the inner loop leaves a connection: it closes it, it leaves it open, or the thread
returns. -/
inductive Ended where
  | closed
  | leftOpen
  | returned
  deriving DecidableEq

/-- A connection as `accept` hands it over: the descriptor, what its client sends before the
stream ends, whether it ends because the client closes it or with an error, and the system's
answers for each message. -/
structure Connection (img : Image) where
  clientFd : ℕ
  stream : List Byte
  eof : Bool
  env : ℕ → ServeEnv img

/-- The inner loop, with so many messages left of `SANDBOX_MSG_SESSION_LIMIT`. -/
def session (env : ℕ → ServeEnv img) (eof : Bool) : ℕ → List Byte → Sandbox → Ended × Sandbox
  | 0, _, s => (.leftOpen, s)
  | left + 1, input, s =>
      let r := readSandboxMessageHeader (env 0) eof input s
      if r.ccode = sandboxErrClosed then (.closed, r.sandbox)
      else if r.ccode < 0 then (.returned, r.sandbox)
      else session (fun i => env (i + 1)) eof left r.rest r.sandbox

/-- One round of the outer loop. The inner loop wants a positive descriptor. -/
def Connection.serve (c : Connection img) (s : Sandbox) : Ended × Sandbox :=
  if 0 < c.clientFd then session c.env c.eof sandboxMsgSessionLimit c.stream s
  else (.leftOpen, s)

/-- `listen_thread`: the state in which it calls `accept` after these connections, unless it has
returned. -/
def listenThread : List (Connection img) → Sandbox → Option Sandbox
  | [], s => some s
  | c :: conns, s =>
      if (c.serve s).1 = .returned then none else listenThread conns (c.serve s).2

/-! ## One session -/

/-- The stream and the state when the loop calls `read_sandbox_message_header` for the `k`-th
time, whatever the calls before have returned. -/
def streamAt (env : ℕ → ServeEnv img) (eof : Bool) : ℕ → List Byte → Sandbox → List Byte × Sandbox
  | 0, input, s => (input, s)
  | k + 1, input, s =>
      let r := readSandboxMessageHeader (env 0) eof input s
      streamAt (fun i => env (i + 1)) eof k r.rest r.sandbox

/-- The `k`-th call. -/
def reading (env : ℕ → ServeEnv img) (eof : Bool) (k : ℕ) (input : List Byte) (s : Sandbox) :
    Reading :=
  readSandboxMessageHeader (env k) eof (streamAt env eof k input s).1
    (streamAt env eof k input s).2

theorem reading_zero (env : ℕ → ServeEnv img) (eof : Bool) (input : List Byte) (s : Sandbox) :
    reading env eof 0 input s = readSandboxMessageHeader (env 0) eof input s := rfl

theorem reading_succ (env : ℕ → ServeEnv img) (eof : Bool) (k : ℕ) (input : List Byte)
    (s : Sandbox) : reading env eof (k + 1) input s =
      reading (fun i => env (i + 1)) eof k (reading env eof 0 input s).rest
        (reading env eof 0 input s).sandbox := rfl

/-- The connection is left open when no call within the limit gives a negative status. -/
theorem session_leftOpen_iff (env : ℕ → ServeEnv img) (eof : Bool) (left : ℕ) (input : List Byte)
    (s : Sandbox) : (session env eof left input s).1 = .leftOpen ↔
      ∀ k < left, 0 ≤ (reading env eof k input s).ccode := by
  induction left generalizing env input s with
  | zero => exact iff_of_true rfl fun k hk => absurd hk (Nat.not_lt_zero k)
  | succ left ih =>
      rw [Nat.forall_lt_succ_left, reading_zero, session]
      simp only [reading_succ, reading_zero]
      generalize readSandboxMessageHeader (env 0) eof input s = r
      split_ifs with hclosed hneg
      · exact iff_of_false (by simp) fun h => absurd (hclosed ▸ h.1) (by decide)
      · exact iff_of_false (by simp) fun h => absurd h.1 (Int.not_le.mpr hneg)
      · rw [ih]
        exact (and_iff_right (Int.not_lt.mp hneg)).symm

/-- The thread returns at the first negative status that does not say the stream is closed. -/
theorem session_returned_iff (env : ℕ → ServeEnv img) (eof : Bool) (left : ℕ) (input : List Byte)
    (s : Sandbox) : (session env eof left input s).1 = .returned ↔
      ∃ k < left, (∀ i < k, 0 ≤ (reading env eof i input s).ccode) ∧
        (reading env eof k input s).ccode < 0 ∧
        (reading env eof k input s).ccode ≠ sandboxErrClosed := by
  induction left generalizing env input s with
  | zero => exact iff_of_false (by simp [session]) fun ⟨k, hk, _⟩ => Nat.not_lt_zero k hk
  | succ left ih =>
      rw [session]
      have hzero := reading_zero env eof input s
      have hsucc := fun k => reading_succ env eof k input s
      rw [hzero] at hsucc
      generalize readSandboxMessageHeader (env 0) eof input s = r at hzero hsucc
      split_ifs with hclosed hneg
      · refine iff_of_false (by simp) ?_
        intro ⟨k, _, hbefore, hk, hne⟩
        cases k with
        | zero => exact hne (hzero ▸ hclosed)
        | succ k =>
            have h0 := hbefore 0 (Nat.succ_pos k)
            rw [hzero, hclosed] at h0
            exact absurd h0 (by decide)
      · refine iff_of_true rfl ⟨0, Nat.succ_pos left, ?_, by rw [hzero]; exact hneg, ?_⟩
        · exact fun i hi => absurd hi (Nat.not_lt_zero i)
        · rw [hzero]
          exact hclosed
      · rw [ih]
        constructor
        · intro ⟨k, hk, hbefore, hcode⟩
          refine ⟨k + 1, Nat.succ_lt_succ hk, ?_, by rw [hsucc]; exact hcode⟩
          rw [Nat.forall_lt_succ_left, hzero]
          exact ⟨Int.not_lt.mp hneg, fun i hi => by rw [hsucc]; exact hbefore i hi⟩
        · intro ⟨k, hk, hbefore, hcode⟩
          cases k with
          | zero => exact absurd (hzero ▸ hcode.1) hneg
          | succ k =>
              rw [Nat.forall_lt_succ_left] at hbefore
              rw [hsucc] at hcode
              exact ⟨k, Nat.lt_of_succ_lt_succ hk, fun i hi => hsucc i ▸ hbefore.2 i hi, hcode⟩

/-! ## The connections when the thread accepts again -/

theorem listenThread_append (before after : List (Connection img)) (s : Sandbox) :
    listenThread (before ++ after) s = (listenThread before s).bind (listenThread after) := by
  induction before generalizing s with
  | nil => rfl
  | cons c before ih =>
      rw [List.cons_append, listenThread, listenThread]
      split_ifs
      · rfl
      · exact ih _

/-- The `i`-th connection of a run, and the state in which it is served. -/
def ServedIn (conns : List (Connection img)) (s : Sandbox) (i : ℕ) (c : Connection img)
    (t : Sandbox) : Prop :=
  conns[i]? = some c ∧ listenThread (conns.take i) s = some t

/-- When the thread accepts again, it has not returned from a connection before. -/
theorem ServedIn.ne_returned {conns : List (Connection img)} {s t u : Sandbox} {i j : ℕ}
    {c : Connection img} (h : ServedIn conns s i c t) (hij : i < j)
    (hj : listenThread (conns.take j) s = some u) : (c.serve t).1 ≠ .returned := by
  intro hret
  have hsplit : conns.take j = conns.take i ++ c :: (conns.take j).drop (i + 1) := by
    have hget : (conns.take j)[i]? = some c := by rw [List.getElem?_take_of_lt hij, h.1]
    obtain ⟨hlt, rfl⟩ := List.getElem?_eq_some_iff.mp hget
    have htake : conns.take i = (conns.take j).take i := by rw [List.take_take, min_eq_left hij.le]
    rw [htake, ← List.drop_eq_getElem_cons, List.take_append_drop]
  rw [hsplit, listenThread_append, h.2, Option.bind_some, listenThread, if_pos hret] at hj
  cases hj

/-- The descriptor is not served, or every message up to the limit keeps the session going in the
state in which the messages before have left the server. -/
def Connection.Outlasts (c : Connection img) (s : Sandbox) : Prop :=
  c.clientFd = 0 ∨
    ∀ k < sandboxMsgSessionLimit,
      ServedMessage (c.env k) (streamAt c.env c.eof k c.stream s).1
        (streamAt c.env c.eof k c.stream s).2

theorem serve_leftOpen_iff (c : Connection img) (s : Sandbox) :
    (c.serve s).1 = .leftOpen ↔ c.Outlasts s := by
  rw [Connection.serve, Connection.Outlasts]
  split_ifs with hfd
  · rw [session_leftOpen_iff, or_iff_right hfd.ne']
    exact forall₂_congr fun k _ => readSandboxMessageHeader_ccode_nonneg_iff
  · exact iff_of_true rfl (.inl (Nat.eq_zero_of_not_pos hfd))

/-- **Connections left open.** Whenever the thread calls `accept`, the `j`-th time, each
connection before has been closed by the server or by its client (`gone`), if and only if each of
those that outlast their session has been closed by its client. -/
theorem closed_iff (conns : List (Connection img)) (s : Sandbox) (gone : ℕ → ℕ → Prop) :
    (∀ j ≤ conns.length, listenThread (conns.take j) s ≠ none → ∀ i < j, ∀ c t,
        ServedIn conns s i c t → (c.serve t).1 = .closed ∨ gone i j) ↔
      ∀ j ≤ conns.length, listenThread (conns.take j) s ≠ none → ∀ i < j, ∀ c t,
        ServedIn conns s i c t → c.Outlasts t → gone i j := by
  refine forall₂_congr fun j _ => forall_congr' fun hj => forall₂_congr fun i hij =>
    forall₃_congr fun c t hserved => ?_
  obtain ⟨u, hu⟩ := Option.ne_none_iff_exists'.mp hj
  have hne := hserved.ne_returned hij hu
  rw [← serve_leftOpen_iff]
  cases hended : (c.serve t).1 with
  | closed => exact iff_of_true (.inl rfl) fun h => absurd h (by simp)
  | leftOpen => simp
  | returned => exact absurd hended hne

/-! ## Messages that keep the session going -/

/-- The message is served with `SANDBOX_OK`, taken whole, and changes nothing. -/
def Harmless (env : ServeEnv img) (eof : Bool) (s : Sandbox) (msg : List Byte) : Prop :=
  ∀ rest, let r := readSandboxMessageHeader env eof (msg ++ rest) s
    r.ccode = sandboxOk ∧ r.rest = rest ∧ r.sandbox = s

/-- A session goes on through such messages. -/
theorem reading_of_harmless {env : ServeEnv img} {eof : Bool} {s : Sandbox}
    {msgs : List (List Byte)} (h : ∀ msg ∈ msgs, Harmless env eof s msg) (rest : List Byte) :
    ∀ k < msgs.length, 0 ≤ (reading (fun _ => env) eof k (msgs.flatten ++ rest) s).ccode := by
  induction msgs with
  | nil => exact fun k hk => absurd hk (Nat.not_lt_zero k)
  | cons msg msgs ih =>
      obtain ⟨hcode, hrest, hs⟩ := h msg List.mem_cons_self (msgs.flatten ++ rest)
      rw [List.length_cons, Nat.forall_lt_succ_left, List.flatten_cons, List.append_assoc]
      refine ⟨by rw [reading_zero, hcode], fun k hk => ?_⟩
      rw [reading_succ, reading_zero, hrest, hs]
      exact ih (fun m hm => h m (List.mem_cons_of_mem _ hm)) k hk

theorem harmless_of_bare {env : ServeEnv img} {eof : Bool} {s : Sandbox} {id : BitVec 16}
    (hfirst : sandboxMsgFirst ≤ id) (hlast : id ≤ sandboxMsgLast)
    (h : ∀ len rest, let r := dispatch env id len rest s
      r.ccode = sandboxOk ∧ r.rest = rest ∧ r.sandbox = s) :
    Harmless env eof s (bareMessage id) := by
  intro rest
  obtain ⟨len, -, hread⟩ := @readSandboxMessageHeader_of_sent img env eof s _ _ _
    (sendRrBuf_nil id) (Nat.zero_le 1) (by decide) hfirst hlast rest
  rw [hread]
  exact h len rest

theorem harmless_list {env : ServeEnv img} {s : Sandbox} (eof : Bool) (hcalloc : env.calloc = true)
    (hwrites : env.writes = true) (hfit : ListFits s.lpPatchHead.length) :
    Harmless env eof s (bareMessage sandboxMsgList) := by
  refine harmless_of_bare (by decide) (by decide) fun len rest => ?_
  obtain ⟨msg, -, hread⟩ := dispatchList_of_fits (by simp [hcalloc]) hwrites hfit rest
  rw [dispatch_list, hread]
  exact ⟨rfl, rfl, rfl⟩

theorem harmless_getBld {env : ServeEnv img} {s : Sandbox} (eof : Bool)
    (hwrites : env.writes = true) : Harmless env eof s (bareMessage sandboxMsgGetBld) := by
  refine harmless_of_bare (by decide) (by decide) fun len rest => ?_
  obtain ⟨msg, -, hread⟩ := dispatchGetbld_eq hwrites rest s
  rw [dispatch_getBld, hread]
  exact ⟨rfl, rfl, rfl⟩

/-! ## A client with 97 dependencies -/

/-- The messages of `cmd_apply` for a patch with 97 dependencies, up to its APPLY. -/
def manyDependencies : List (List Byte) :=
  List.replicate 2 (bareMessage sandboxMsgGetBld) ++
    List.replicate 98 (bareMessage sandboxMsgList)

/-- Its connection. -/
def dependentClient : Connection sampleImage where
  clientFd := 5
  stream := manyDependencies.flatten ++ ((sendRrBuf sandboxMsgApply [samplePayload]).getD [])
  eof := true
  env := fun _ => sampleServeEnv

/-- A server with one live patch. -/
def oneLivePatch : Sandbox where
  text := fun _ => 0
  lpPatchHead := [⟨⟨0, 0⟩, fun _ => 0, 0, [], 0, [], fun _ => 0⟩]
  maps := MapState.init fun _ => 0

theorem dependentClient_outlasts : dependentClient.Outlasts oneLivePatch := by
  have hfit : ListFits oneLivePatch.lpPatchHead.length := listFits_iff.mpr (by decide)
  have hlist : Harmless sampleServeEnv true oneLivePatch (bareMessage sandboxMsgList) :=
    harmless_list true rfl rfl hfit
  have hgetBld : Harmless sampleServeEnv true oneLivePatch (bareMessage sandboxMsgGetBld) :=
    harmless_getBld true rfl
  have hall : ∀ msg ∈ manyDependencies, Harmless sampleServeEnv true oneLivePatch msg := by
    intro msg hmsg
    rcases List.mem_append.mp hmsg with hmsg | hmsg
    · exact List.eq_of_mem_replicate hmsg ▸ hgetBld
    · exact List.eq_of_mem_replicate hmsg ▸ hlist
  refine .inr fun k hk => readSandboxMessageHeader_ccode_nonneg_iff.mp
    (reading_of_harmless hall _ k ?_)
  rw [manyDependencies, List.length_append, List.length_replicate, List.length_replicate]
  exact hk

/-- The client waits for the answer to its APPLY on a connection that nobody reads. -/
theorem dependentClient_left_open : ¬∀ j ≤ [dependentClient].length,
    listenThread ([dependentClient].take j) oneLivePatch ≠ none → ∀ i < j, ∀ c t,
      ServedIn [dependentClient] oneLivePatch i c t → (c.serve t).1 = .closed ∨ False := by
  intro h
  have hopen := (serve_leftOpen_iff dependentClient oneLivePatch).mpr dependentClient_outlasts
  have haccepts : listenThread ([dependentClient].take 1) oneLivePatch ≠ none := by
    rw [List.take_one, List.head?_cons, Option.toList_some, listenThread, hopen, listenThread]
    simp
  have hclosed := h 1 le_rfl haccepts 0 Nat.zero_lt_one dependentClient oneLivePatch ⟨rfl, rfl⟩
  rw [hopen] at hclosed
  rcases hclosed with hclosed | hclosed
  · cases hclosed
  · exact hclosed

/-! ## The messages that keep the thread running -/

/-- What stands behind a header that passed: a request that is done, or a response that is whole
and does not carry an error. -/
def Welcome (env : ServeEnv img) (id : BitVec 16) (len : BitVec 32) (payload : List Byte)
    (s : Sandbox) : Prop :=
  let remaining := (len - BitVec.ofNat 32 sandboxMsgHdrlen).toNat
  (id = sandboxMsgApply ∧ remaining < sandboxAllocSize ∧ remaining ≤ payload.length ∧
      0 ≤ (xenlpApply4 img env.apply (fromList (payload.take remaining) env.beyond) s).ccode) ∨
    (id = sandboxMsgList ∧ ListFits s.lpPatchHead.length) ∨
    id = sandboxMsgGetBld ∨ id = sandboxMsgUndoReq ∨
    ((id = sandboxMsgApplyrsp ∨ id = sandboxMsgUndoRep) ∧ 4 ≤ payload.length ∧
      0 ≤ loadCcode (payload.take 4)) ∨
    ((id = sandboxMsgListrsp ∨ id = sandboxMsgGetBldrsp) ∧ sandboxMsgHdrlen ≤ len.toNat ∧
      len.toNat - sandboxMsgHdrlen ≤ payload.length)

theorem Welcome.keepsGoing {env : ServeEnv img} {id : BitVec 16} {len : BitVec 32}
    {payload : List Byte} {s : Sandbox} (hcalloc : env.calloc = true)
    (hwrites : env.writes = true) (h : Welcome env id len payload s) :
    KeepsGoing env id len payload s := by
  rcases h with ⟨hid, hlt, hle, hcode⟩ | ⟨hid, hfit⟩ | hid | hid | hresponse | ⟨hid, hhdr, hle⟩
  · exact .inl ⟨hid, hlt, hcalloc, hle, xenlpApply4_ccode_nonneg_iff.mp hcode⟩
  · exact .inr (.inl ⟨hid, .inr hcalloc, hfit, hwrites⟩)
  · exact .inr (.inr (.inl ⟨.inl hid, hwrites⟩))
  · exact .inr (.inr (.inl ⟨.inr hid, hwrites⟩))
  · exact .inr (.inr (.inr (.inl hresponse)))
  · exact .inr (.inr (.inr (.inr ⟨hid, hcalloc, (wholeReply_of_le hhdr).mpr hle⟩)))

/-- What the server meets when it calls `read_sandbox_message_header`: the end of the stream, or
a message that passes the checks and is welcome. -/
def CivilMessage (env : ServeEnv img) (input : List Byte) (s : Sandbox) : Prop :=
  input.length < sandboxMsgHdrlen ∨
    headerError (input.take sandboxMsgHdrlen) = sandboxOk ∧
      Welcome env (msgGetId (input.take sandboxMsgHdrlen))
        (msgGetLen (input.take sandboxMsgHdrlen)) (input.drop sandboxMsgHdrlen) s

/-- A complete header that fails a check, or whose id has no dispatcher. -/
def MalformedMessage (input : List Byte) : Prop :=
  sandboxMsgHdrlen ≤ input.length ∧
    (headerError (input.take sandboxMsgHdrlen) ≠ sandboxOk ∨
      msgGetId (input.take sandboxMsgHdrlen) = 7 ∨ msgGetId (input.take sandboxMsgHdrlen) = 8)

theorem readSandboxMessageHeader_of_civil {env : ServeEnv img} {input : List Byte} {s : Sandbox}
    (hcalloc : env.calloc = true) (hwrites : env.writes = true) (h : CivilMessage env input s) :
    (readSandboxMessageHeader env true input s).ccode = sandboxErrClosed ∨
      0 ≤ (readSandboxMessageHeader env true input s).ccode := by
  by_cases hshort : input.length < sandboxMsgHdrlen
  · exact .inl (readSandboxMessageHeader_of_short hshort)
  · obtain ⟨hok, hwelcome⟩ := h.resolve_left hshort
    exact .inr (readSandboxMessageHeader_ccode_nonneg_iff.mpr
      ⟨Nat.le_of_not_lt hshort, hok, hwelcome.keepsGoing hcalloc hwrites⟩)

theorem readSandboxMessageHeader_of_malformed {env : ServeEnv img} {eof : Bool}
    {input : List Byte} {s : Sandbox} (h : MalformedMessage input) :
    (readSandboxMessageHeader env eof input s).ccode < 0 ∧
      (readSandboxMessageHeader env eof input s).ccode ≠ sandboxErrClosed := by
  rw [readSandboxMessageHeader_of_le h.1]
  split_ifs with hok
  · exact headerError_neg hok
  · rw [not_not] at hok
    rcases h.2.resolve_left (not_not.mpr hok) with hid | hid <;> rw [hid]
    · simp [dispatch]
    · simp [dispatch]

/-- The client closes its connection in the end, the system refuses nothing, and the session
meets nothing but civil messages. -/
def Connection.Civil (c : Connection img) (s : Sandbox) : Prop :=
  c.eof = true ∧ (∀ k, (c.env k).calloc = true ∧ (c.env k).writes = true) ∧
    ∀ k < sandboxMsgSessionLimit, (∀ i < k, 0 ≤ (reading c.env c.eof i c.stream s).ccode) →
      CivilMessage (c.env k) (streamAt c.env c.eof k c.stream s).1
        (streamAt c.env c.eof k c.stream s).2

/-- The session comes to a malformed header. -/
def Connection.Malformed (c : Connection img) (s : Sandbox) : Prop :=
  0 < c.clientFd ∧ ∃ k < sandboxMsgSessionLimit,
    (∀ i < k, 0 ≤ (reading c.env c.eof i c.stream s).ccode) ∧
      MalformedMessage (streamAt c.env c.eof k c.stream s).1

theorem Connection.Civil.ne_returned {c : Connection img} {s : Sandbox} (h : c.Civil s) :
    (c.serve s).1 ≠ .returned := by
  obtain ⟨heof, henv, hmessages⟩ := h
  rw [Connection.serve]
  split_ifs with hfd
  · rw [Ne, session_returned_iff]
    intro ⟨k, hk, hbefore, hneg, hne⟩
    have hcivil := hmessages k hk hbefore
    rw [reading, heof] at hneg hne
    rw [heof] at hcivil
    rcases readSandboxMessageHeader_of_civil (henv k).1 (henv k).2 hcivil with hcode | hcode
    · exact hne hcode
    · exact absurd hneg (Int.not_lt.mpr hcode)
  · simp

theorem Connection.Malformed.returned {c : Connection img} {s : Sandbox} (h : c.Malformed s) :
    (c.serve s).1 = .returned := by
  obtain ⟨hfd, k, hk, hbefore, hmalformed⟩ := h
  rw [Connection.serve, if_pos hfd, session_returned_iff]
  exact ⟨k, hk, hbefore, readSandboxMessageHeader_of_malformed hmalformed⟩

/-- The thread accepts again after connections from none of which it returns. -/
theorem listenThread_ne_none_iff (conns : List (Connection img)) (s : Sandbox) :
    listenThread conns s ≠ none ↔ ∀ i c t, ServedIn conns s i c t → (c.serve t).1 ≠ .returned := by
  constructor
  · intro h i c t hserved
    obtain ⟨u, hu⟩ := Option.ne_none_iff_exists'.mp h
    have hlt : i < conns.length := (List.getElem?_eq_some_iff.mp hserved.1).1
    rw [← @List.take_length _ conns] at hu
    exact hserved.ne_returned hlt hu
  · intro h
    induction conns generalizing s with
    | nil => simp [listenThread]
    | cons c conns ih =>
        have hhead := h 0 c s ⟨rfl, rfl⟩
        rw [listenThread, if_neg hhead]
        refine ih (c.serve s).2 fun i d t hserved => h (i + 1) d t ⟨hserved.1, ?_⟩
        rw [List.take_succ_cons, listenThread, if_neg hhead]
        exact hserved.2

/-- **What keeps the thread running.** While the clients send messages that are welcome, the
thread goes back to `accept` after each of them; it returns once it meets a malformed header. -/
theorem listenThread_accepts (conns : List (Connection img)) (s : Sandbox) :
    ((∀ i c t, ServedIn conns s i c t → c.Civil t) → listenThread conns s ≠ none) ∧
      ((∃ i c t, ServedIn conns s i c t ∧ c.Malformed t) → listenThread conns s = none) := by
  constructor
  · intro h
    exact (listenThread_ne_none_iff conns s).mpr fun i c t hserved => (h i c t hserved).ne_returned
  · intro ⟨i, c, t, hserved, hmalformed⟩
    by_contra hne
    exact (listenThread_ne_none_iff conns s).mp hne i c t hserved hmalformed.returned

/-- The stream stays empty when it has come to its end. -/
theorem streamAt_nil (env : ℕ → ServeEnv img) (eof : Bool) (k : ℕ) (s : Sandbox) :
    (streamAt env eof k [] s).1 = [] := by
  induction k generalizing env with
  | zero => rfl
  | succ k ih => exact ih fun i => env (i + 1)

theorem streamAt_add (env : ℕ → ServeEnv img) (eof : Bool) (n k : ℕ) (input : List Byte)
    (s : Sandbox) : streamAt env eof (n + k) input s =
      streamAt (fun i => env (i + n)) eof k (streamAt env eof n input s).1
        (streamAt env eof n input s).2 := by
  induction n generalizing env input s with
  | zero => rw [Nat.zero_add]; rfl
  | succ n ih =>
      rw [Nat.succ_add_eq_add_succ, ← Nat.succ_eq_add_one, streamAt]
      exact ih _ _ _

/-- A client that asks for the build information and for the list, and has a patch applied. -/
def civilClient : Connection sampleImage where
  clientFd := 5
  stream := bareMessage sandboxMsgGetBld ++ bareMessage sandboxMsgList ++
    (sendRrBuf sandboxMsgApply [sampleHeader 0 0 ++ sampleSections]).getD []
  eof := true
  env := fun _ => sampleServeEnv

theorem civil_civilClient : civilClient.Civil (Sandbox.init (fun _ => 0) fun _ => 0) := by
  generalize hs : Sandbox.init (fun _ => 0) (fun _ => 0) = s
  have hend : (streamAt civilClient.env civilClient.eof 3 civilClient.stream s).1 = [] := by
    subst hs
    decide +kernel
  refine ⟨rfl, fun _ => ⟨rfl, rfl⟩, fun k _ _ => ?_⟩
  subst hs
  match k with
  | 0 => exact .inr ⟨by decide +kernel, .inr (.inr (.inl (by decide +kernel)))⟩
  | 1 =>
      refine .inr ⟨by decide +kernel, .inr (.inl ⟨by decide +kernel, ?_⟩)⟩
      exact listFits_iff.mpr (by decide +kernel)
  | 2 =>
      exact .inr ⟨by decide +kernel, .inl ⟨by decide +kernel, by decide +kernel,
        by decide +kernel, by decide +kernel⟩⟩
  | k + 3 =>
      refine .inl ?_
      rw [Nat.add_comm k 3, streamAt_add, hend, streamAt_nil]
      decide

/-- All three are served. -/
theorem listenThread_accepts_civilClient :
    listenThread [civilClient] (Sandbox.init (fun _ => 0) fun _ => 0) ≠ none ∧
      (civilClient.serve (Sandbox.init (fun _ => 0) fun _ => 0)).2.lpPatchHead.length = 1 := by
  refine ⟨(listenThread_accepts [civilClient] _).1 fun i c t hserved => ?_, by decide +kernel⟩
  obtain ⟨hget, hrun⟩ := hserved
  cases i with
  | zero =>
      obtain rfl := Option.some.inj hget
      obtain rfl := Option.some.inj hrun
      exact civil_civilClient
  | succ i => exact absurd hget (by simp)

/-- Sixteen zero bytes from one client. -/
def garbledClient : Connection sampleImage where
  clientFd := 5
  stream := List.replicate 16 0
  eof := true
  env := fun _ => sampleServeEnv

/-- The thread returns, and serves nobody any more. -/
theorem garbled_header_ends_thread :
    listenThread [garbledClient] (Sandbox.init (fun _ => 0) fun _ => 0) = none := by
  have hmalformed : garbledClient.Malformed (Sandbox.init (fun _ => 0) fun _ => 0) :=
    ⟨by decide, 0, by decide, fun i hi => absurd hi (Nat.not_lt_zero i), by decide,
      .inl (by decide)⟩
  rw [listenThread, if_pos hmalformed.returned]

end Patchbox
