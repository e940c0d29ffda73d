import Patchbox.Listener

/-!
# One request and its answer

The client functions write a message and read one. On a connection that is in step
each request is served as its dispatcher says, and the answer is the reply to it. The
undo request is the exception: its buffer is a `struct xenlp_hash` of 24 bytes, the
dispatcher wants a message of that length, and takes twenty of them.

## Main definitions

* `ClientRequest` — what `get_sandbox_build_info`, `sandbox_list_patches`,
  `__do_lp_apply4` and `__do_lp_undo3` send.
* `Link`, `exchange` — a connection, and one request on it.
* `exchange_list`, `exchange_getBld`, `exchange_apply` — what a client can get.
* `Answered` — requests that are answered.
-/

namespace Patchbox
open Lib

variable {img : Image}

/-- The requests of the client, with the buffers they take. -/
inductive ClientRequest where
  | getBld
  | list
  | apply (buf : List Byte)
  | undo (buf : List Byte)
  deriving DecidableEq

/-- The id of the message. -/
def ClientRequest.id : ClientRequest → BitVec 16
  | getBld => sandboxMsgGetBld
  | list => sandboxMsgList
  | apply _ => sandboxMsgApply
  | undo _ => sandboxMsgUndoReq

/-- Its fields. -/
def ClientRequest.bufs : ClientRequest → List (List Byte)
  | getBld => []
  | list => []
  | apply buf => [buf]
  | undo buf => [buf]

/-- The message. -/
def ClientRequest.message (r : ClientRequest) : Option (List Byte) := sendRrBuf r.id r.bufs

/-- The system's answers for one request: whether the client can write to the socket, and what
the server and the client get while they read. -/
structure ExchangeEnv (img : Image) where
  sends : Bool
  server : ServeEnv img
  client : ServeEnv img

/-- A connection: what the server and the client have not read yet, the messages left in the
session, and whether the server's thread has returned. -/
structure Link where
  toServer : List Byte
  toClient : List Byte
  left : ℕ
  returned : Bool
  deriving DecidableEq

/-- A connection that was just accepted. -/
def Link.fresh : Link := ⟨[], [], sandboxMsgSessionLimit, false⟩

/-- What the client function gets: the status of `read_sandbox_message_header` and the buffer it
has set. A message that cannot be written leaves `SANDBOX_ERR` and no buffer. -/
structure Answer where
  ccode : Int
  buf : Option (List Byte)
  deriving DecidableEq

/-- The server's call of `read_sandbox_message_header` for a message. -/
def serveMessage (e : ExchangeEnv img) (s : Sandbox) (l : Link) (msg : List Byte) : Reading :=
  readSandboxMessageHeader e.server false (l.toServer ++ msg) s

/-- The client's call of it, for what the server has written. The list of the client's own process
plays no part. -/
def readAnswer (e : ExchangeEnv img) (s : Sandbox) (l : Link) (written : List (List Byte)) :
    Reading :=
  readSandboxMessageHeader e.client false (l.toClient ++ written.flatten) s

/-- A message that the server reads. Where it writes nothing the client waits for ever. -/
def deliver (e : ExchangeEnv img) (s : Sandbox) (l : Link) (msg : List Byte) :
    Sandbox × Link × Option Answer :=
  let served := serveMessage e s l msg
  let returned := decide (served.ccode < 0 ∧ served.ccode ≠ sandboxErrClosed)
  if served.written = [] then
    (served.sandbox, ⟨served.rest, l.toClient, l.left - 1, returned⟩, none)
  else
    let read := readAnswer e s l served.written
    (served.sandbox, ⟨served.rest, read.rest, l.left - 1, returned⟩, some ⟨read.ccode, read.buf⟩)

/-- One request. The server does not read it when its thread has returned, or when the session
has had all its messages. -/
def exchange (e : ExchangeEnv img) (s : Sandbox) (l : Link) (r : ClientRequest) :
    Sandbox × Link × Option Answer :=
  match if e.sends then r.message else none with
  | none => (s, l, some ⟨sandboxErr, none⟩)
  | some msg =>
    if l.returned = true ∨ l.left = 0 then (s, { l with toServer := l.toServer ++ msg }, none)
    else deliver e s l msg

/-! ## Messages on a connection in step -/

/-- Nothing is left unread. -/
structure Link.Clean (l : Link) : Prop where
  toServer : l.toServer = []
  toClient : l.toClient = []

theorem Link.clean_fresh : Link.fresh.Clean := ⟨rfl, rfl⟩

variable {e : ExchangeEnv img} {s : Sandbox} {l : Link} {r : ClientRequest}

theorem ClientRequest.bufs_length (r : ClientRequest) : r.bufs.length ≤ 1 := by
  cases r <;> simp [bufs]

theorem ClientRequest.id_range (r : ClientRequest) :
    sandboxMsgFirst ≤ r.id ∧ r.id ≤ sandboxMsgLast := by
  cases r <;> simp [id]

/-- The server has the request in front of it. -/
theorem serveMessage_eq (hclean : l.toServer = []) {msg : List Byte} (hmsg : r.message = some msg)
    (hlen : sandboxMsgHdrlen + r.bufs.flatten.length < 2 ^ 32) :
    ∃ len : BitVec 32, len.toNat = sandboxMsgHdrlen + r.bufs.flatten.length ∧
      serveMessage e s l msg = dispatch e.server r.id len r.bufs.flatten s := by
  obtain ⟨len, htotal, hread⟩ := @readSandboxMessageHeader_of_sent img e.server false s _ _ _
    hmsg r.bufs_length hlen r.id_range.1 r.id_range.2 []
  rw [List.append_nil, List.append_nil] at hread
  exact ⟨len, htotal, by rw [serveMessage, hclean, List.nil_append, hread]⟩

/-- The client has the reply in front of it. -/
theorem readAnswer_eq (hclean : l.toClient = []) {id : BitVec 16} {b reply : List Byte}
    (hreply : sendRrBuf id [b] = some reply) (hlen : sandboxMsgHdrlen + b.length < 2 ^ 32)
    (hfirst : sandboxMsgFirst ≤ id) (hlast : id ≤ sandboxMsgLast) :
    ∃ len : BitVec 32, len.toNat = sandboxMsgHdrlen + b.length ∧
      readAnswer e s l [reply] = dispatch e.client id len b s := by
  have hflat : [b].flatten = b := List.flatten_singleton
  obtain ⟨len, htotal, hread⟩ := @readSandboxMessageHeader_of_sent img e.client false s _ _ _
    hreply le_rfl (by rw [hflat]; exact hlen) hfirst hlast []
  rw [List.append_nil, List.append_nil, hflat] at hread
  rw [hflat] at htotal
  exact ⟨len, htotal, by rw [readAnswer, hclean, List.nil_append, List.flatten_singleton, hread]⟩

/-- What can become of a request: it is not sent, not read, or delivered. -/
theorem exchange_cases (e : ExchangeEnv img) (s : Sandbox) (l : Link) (r : ClientRequest) :
    exchange e s l r = (s, l, some ⟨sandboxErr, none⟩) ∨
      (∃ l', exchange e s l r = (s, l', none)) ∨
      ∃ msg, r.message = some msg ∧ 0 < l.left ∧ exchange e s l r = deliver e s l msg := by
  rw [exchange]
  by_cases hsends : e.sends = true
  · rw [if_pos hsends]
    cases hmsg : r.message with
    | none => exact .inl rfl
    | some msg =>
        dsimp only
        by_cases hidle : l.returned = true ∨ l.left = 0
        · exact .inr (.inl ⟨_, if_pos hidle⟩)
        · exact .inr (.inr ⟨msg, rfl, by omega, if_neg hidle⟩)
  · rw [if_neg hsends]
    exact .inl rfl

/-- A request that is delivered. -/
theorem exchange_of_serving {msg : List Byte} (hsends : e.sends = true)
    (hmsg : r.message = some msg) (hreturned : l.returned = false) (hleft : 0 < l.left) :
    exchange e s l r = deliver e s l msg := by
  rw [exchange, if_pos hsends, hmsg]
  refine if_neg fun hidle => ?_
  rcases hidle with h | h
  · rw [hreturned] at h
    cases h
  · omega

/-- Nothing is written. -/
theorem deliver_of_silent {msg : List Byte} (h : (serveMessage e s l msg).written = []) :
    ∃ l', deliver e s l msg = ((serveMessage e s l msg).sandbox, l', none) :=
  ⟨_, if_pos h⟩

/-- One reply is written, and the client reads it. -/
theorem deliver_of_reply {msg reply rest rest' : List Byte} {ccode ccode' : Int} {s' s'' : Sandbox}
    {buf : Option (List Byte)} {written' : List (List Byte)} {buf' : Option (List Byte)}
    (hserved : serveMessage e s l msg = ⟨ccode, s', rest, [reply], buf⟩)
    (hread : readAnswer e s l [reply] = ⟨ccode', s'', rest', written', buf'⟩) :
    deliver e s l msg = (s', ⟨rest, rest', l.left - 1,
      decide (ccode < 0 ∧ ccode ≠ sandboxErrClosed)⟩, some ⟨ccode', buf'⟩) := by
  rw [deliver, hserved]
  simp only [hread, List.cons_ne_nil, if_false]

/-! ## The requests one by one -/

/-- The client reads a status. -/
theorem readAnswer_storeCcode (hclean : l.toClient = []) {id : BitVec 16} {ccode : Int}
    {reply : List Byte} (hid : id = sandboxMsgApplyrsp ∨ id = sandboxMsgUndoRep)
    (hreply : sendRrBuf id [storeCcode ccode] = some reply) :
    readAnswer e s l [reply] = ⟨loadCcode (storeCcode ccode), s, [], [], none⟩ := by
  have hlen : sandboxMsgHdrlen + (storeCcode ccode).length < 2 ^ 32 := by
    rw [length_storeCcode]
    decide
  have hread := readn_length (storeCcode ccode)
  rw [length_storeCcode] at hread
  rcases hid with rfl | rfl
  · obtain ⟨len, -, heq⟩ :=
      @readAnswer_eq img e s l hclean _ _ _ hreply hlen (by decide) (by decide)
    rw [heq, dispatch_applyrsp, dispatchApplyResponse, hread]
  · obtain ⟨len, -, heq⟩ :=
      @readAnswer_eq img e s l hclean _ _ _ hreply hlen (by decide) (by decide)
    rw [heq, dispatch_undoRep, dispatchUndoRep, hread]

/-- The client reads the list. -/
theorem readAnswer_list (hclean : l.toClient = []) {b reply : List Byte}
    (hreply : sendRrBuf sandboxMsgListrsp [b] = some reply)
    (hlen : sandboxMsgHdrlen + b.length < 2 ^ 32) :
    readAnswer e s l [reply] =
      if e.client.calloc = false then ⟨sandboxErrNomem, s, b, [], none⟩
      else ⟨sandboxOk, s, [], [], some b⟩ := by
  obtain ⟨len, htotal, heq⟩ :=
    @readAnswer_eq img e s l hclean _ _ _ hreply hlen (by decide) (by decide)
  have hsub : len.toNat - sandboxMsgHdrlen = b.length := by omega
  rw [heq, dispatch_listrsp]
  split_ifs with hcalloc
  · rw [dispatchListResponse, if_pos hcalloc]
  · have hgranted : e.client.calloc = true := by simpa using hcalloc
    rw [dispatchListResponse_of_le hgranted (by omega), hsub, if_pos le_rfl, List.take_length,
      List.drop_length]

/-- The client reads the build information. -/
theorem readAnswer_getBld (hclean : l.toClient = []) {b reply : List Byte}
    (hreply : sendRrBuf sandboxMsgGetBldrsp [b] = some reply)
    (hlen : sandboxMsgHdrlen + b.length < 2 ^ 32) :
    readAnswer e s l [reply] =
      if e.client.calloc = false then ⟨sandboxErrNomem, s, b, [], none⟩
      else ⟨sandboxOk, s, [], [], some b⟩ := by
  obtain ⟨len, htotal, heq⟩ :=
    @readAnswer_eq img e s l hclean _ _ _ hreply hlen (by decide) (by decide)
  have hsub : len.toNat - sandboxMsgHdrlen = b.length := by omega
  rw [heq, dispatch_getBldrsp]
  split_ifs with hcalloc
  · rw [dispatchGetbldRes, if_pos (.inl hcalloc)]
  · have hgranted : e.client.calloc = true := by simpa using hcalloc
    rw [dispatchGetbldRes_of_le hgranted (by omega), hsub, if_pos le_rfl, List.take_length,
      List.drop_length]

/-- The status of a reply is read as it was written. -/
theorem loadCcode_storeCcode {ccode : Int} (hge : -2 ^ 31 ≤ ccode) (hlt : ccode < 2 ^ 31) :
    loadCcode (storeCcode ccode) = ccode := by
  have hstands := standsAt_fromList (storeCcode ccode) fun _ => 0
  rw [loadCcode, bytesOf, StandsAt.word32 hstands, BitVec.toInt_ofInt]
  exact Int.bmod_eq_of_le (by simpa using hge) (by simpa using hlt)

/-- What the client can get for a list request: nothing, an error, or the list. -/
theorem exchange_list (hclean : l.Clean) : ∃ l' a, exchange e s l .list = (s, l', a) ∧
    ∀ ans, a = some ans → ans.ccode ≠ sandboxOk ∨
      (ans = ⟨sandboxOk, some (storeList s.lpPatchHead)⟩ ∧ l'.Clean ∧ l'.left + 1 = l.left ∧
        ListFits s.lpPatchHead.length) := by
  rcases exchange_cases e s l .list with heq | ⟨l', heq⟩ | ⟨msg, hmsg, hleft, heq⟩
  · refine ⟨l, _, heq, fun ans h => .inl ?_⟩
    obtain rfl := Option.some.inj h
    simp
  · exact ⟨l', none, heq, fun ans h => by cases h⟩
  · obtain ⟨len, -, hserved⟩ := @serveMessage_eq img e s l _ hclean.toServer _ hmsg (by decide)
    simp only [ClientRequest.id, ClientRequest.bufs, List.flatten_nil, dispatch_list] at hserved
    rcases dispatchList_cases e.server [] s with ⟨hwritten, hs⟩ | ⟨hfit, reply, hreply, hlist⟩
    · obtain ⟨l', hsilent⟩ := @deliver_of_silent img e s l msg (by rw [hserved]; exact hwritten)
      rw [hsilent, hserved, hs] at heq
      exact ⟨l', none, heq, fun ans h => by cases h⟩
    · have hlen : sandboxMsgHdrlen + (storeList s.lpPatchHead).length < 2 ^ 32 := by
        rw [length_storeList]
        exact hfit.trans_lt (by decide)
      have hread := @readAnswer_list img e s l hclean.toClient _ _ hreply hlen
      rw [hlist] at hserved
      by_cases hcalloc : e.client.calloc = false
      · rw [if_pos hcalloc] at hread
        refine ⟨_, _, heq.trans (deliver_of_reply hserved hread), fun ans h => .inl ?_⟩
        obtain rfl := Option.some.inj h
        simp
      · rw [if_neg hcalloc] at hread
        refine ⟨_, _, heq.trans (deliver_of_reply hserved hread), fun ans h => .inr ?_⟩
        obtain rfl := Option.some.inj h
        exact ⟨rfl, ⟨rfl, rfl⟩, Nat.sub_add_cancel hleft, hfit⟩

/-- The client has left a text in the stream. -/
structure Link.Clogged (l : Link) : Prop where
  toServer : l.toServer = []
  toClient : l.toClient ≠ []
  text : ∀ b ∈ l.toClient, b ≠ 0

/-- What the client can get for the build information: no buffer, or the text. -/
theorem exchange_getBld (hclean : l.Clean) : ∃ l' a, exchange e s l .getBld = (s, l', a) ∧
    ∀ ans, a = some ans → (ans.buf = none ∧ l'.left ≤ l.left ∧ (l'.Clean ∨ l'.Clogged)) ∨
      (ans.buf = some (buildInfoBuffer e.server.buildInfo) ∧ l'.Clean ∧ l'.left + 1 = l.left) := by
  rcases exchange_cases e s l .getBld with heq | ⟨l', heq⟩ | ⟨msg, hmsg, hleft, heq⟩
  · refine ⟨l, _, heq, fun ans h => .inl ?_⟩
    obtain rfl := Option.some.inj h
    exact ⟨rfl, le_rfl, .inl hclean⟩
  · exact ⟨l', none, heq, fun ans h => by cases h⟩
  · obtain ⟨len, -, hserved⟩ := @serveMessage_eq img e s l _ hclean.toServer _ hmsg (by decide)
    simp only [ClientRequest.id, ClientRequest.bufs, List.flatten_nil, dispatch_getBld] at hserved
    rcases dispatchGetbld_cases e.server [] s with ⟨hwritten, hs⟩ | ⟨reply, hreply, hinfo⟩
    · obtain ⟨l', hsilent⟩ := @deliver_of_silent img e s l msg (by rw [hserved]; exact hwritten)
      rw [hsilent, hserved, hs] at heq
      exact ⟨l', none, heq, fun ans h => by cases h⟩
    · have hread := @readAnswer_getBld img e s l hclean.toClient _ _ hreply
        ((length_buildInfoBuffer _).trans_lt (by decide))
      rw [hinfo] at hserved
      by_cases hcalloc : e.client.calloc = false
      · rw [if_pos hcalloc] at hread
        refine ⟨_, _, heq.trans (deliver_of_reply hserved hread), fun ans h => .inl ?_⟩
        obtain rfl := Option.some.inj h
        refine ⟨rfl, Nat.sub_le _ _, ?_⟩
        by_cases hnil : buildInfoBuffer e.server.buildInfo = []
        · exact .inl ⟨rfl, hnil⟩
        · exact .inr ⟨rfl, hnil, fun b hb => ne_zero_of_mem_buildInfoBuffer hb⟩
      · rw [if_neg hcalloc] at hread
        refine ⟨_, _, heq.trans (deliver_of_reply hserved hread), fun ans h => .inr ?_⟩
        obtain rfl := Option.some.inj h
        exact ⟨rfl, ⟨rfl, rfl⟩, Nat.sub_add_cancel hleft⟩

/-- Every message starts with five bytes that are not zero. -/
theorem sendRrBuf_front {id : BitVec 16} {bufs : List (List Byte)} {msg : List Byte}
    (h : sendRrBuf id bufs = some msg) : ∃ rest, msg = [0x53, 0x41, 0x4e, 0x44, 1] ++ rest := by
  rw [sendRrBuf] at h
  split_ifs at h
  obtain rfl := Option.some.inj h
  have hversion : leBytes 2 sandboxMsgVersion.toNat = [1, 0] := by decide
  refine ⟨0 :: (leBytes 2 id.toNat ++ leBytes 4 (msgLen bufs).toNat ++ storeFields bufs), ?_⟩
  rw [storeMsgHeader, hversion, sandboxMsgMagic]
  simp only [List.cons_append, List.nil_append, List.append_assoc]

/-- A buffer whose sixth byte is not zero has another version than the header. -/
theorem headerError_of_sixth {hbuf : List Byte} (h : bytesOf hbuf 5 ≠ 0) :
    headerError hbuf ≠ sandboxOk := by
  have hver : sandboxMsgVersion ≠ msgGetVer hbuf := by
    intro heq
    have hword := congrArg BitVec.toNat heq
    have hlow := (bytesOf hbuf (4 + 0)).isLt
    have hhigh := (bytesOf hbuf (4 + 1)).isLt
    have hpos : (bytesOf hbuf (4 + 1)).toNat ≠ 0 := fun hz => h (BitVec.eq_of_toNat_eq hz)
    simp only [sandboxMsgVersion, msgGetVer, word16, leNat, BitVec.ofNat_eq_ofNat,
      BitVec.toNat_ofNat] at hword
    omega
  rw [headerError]
  split_ifs
  · decide
  · decide

/-- A text in front of a message is no header. -/
theorem headerError_of_text {text msg : List Byte} {id : BitVec 16} {bufs : List (List Byte)}
    (hne : text ≠ []) (htext : ∀ b ∈ text, b ≠ 0) (hmsg : sendRrBuf id bufs = some msg) :
    headerError ((text ++ msg).take sandboxMsgHdrlen) ≠ sandboxOk := by
  obtain ⟨rest, rfl⟩ := sendRrBuf_front hmsg
  have hfront : ∀ b ∈ text ++ [0x53, 0x41, 0x4e, 0x44, 1], b ≠ 0 := by
    intro b hb
    rcases List.mem_append.mp hb with hb | hb
    · exact htext b hb
    · intro hz
      simp [hz] at hb
  have hlen : 5 < (text ++ [0x53, 0x41, 0x4e, 0x44, (1 : Byte)]).length := by
    have hpos := List.length_pos_iff.mpr hne
    simp only [List.length_append, List.length_cons, List.length_nil]
    omega
  refine headerError_of_sixth ?_
  rw [← List.append_assoc]
  generalize text ++ [0x53, 0x41, 0x4e, 0x44, 1] = front at hfront hlen ⊢
  have hlt : 5 < ((front ++ rest).take sandboxMsgHdrlen).length := by
    rw [List.length_take, List.length_append]
    exact lt_min (by decide) (by omega)
  rw [bytesOf, fromList_lt hlt, List.getElem_take, List.getElem_append_left hlen]
  exact hfront _ (List.getElem_mem hlen)

/-- After that the client gets no build information. -/
theorem exchange_getBld_clogged (hclogged : l.Clogged) :
    ∃ l' a, exchange e s l .getBld = (s, l', a) ∧ ∀ ans, a = some ans → ans.buf = none := by
  rcases exchange_cases e s l .getBld with heq | ⟨l', heq⟩ | ⟨msg, hmsg, hleft, heq⟩
  · refine ⟨l, _, heq, fun ans h => ?_⟩
    obtain rfl := Option.some.inj h
    rfl
  · exact ⟨l', none, heq, fun ans h => by cases h⟩
  · obtain ⟨len, -, hserved⟩ := @serveMessage_eq img e s l _ hclogged.toServer _ hmsg (by decide)
    simp only [ClientRequest.id, ClientRequest.bufs, List.flatten_nil, dispatch_getBld] at hserved
    rcases dispatchGetbld_cases e.server [] s with ⟨hwritten, hs⟩ | ⟨reply, hreply, hinfo⟩
    · obtain ⟨l', hsilent⟩ := @deliver_of_silent img e s l msg (by rw [hserved]; exact hwritten)
      rw [hsilent, hserved, hs] at heq
      exact ⟨l', none, heq, fun ans h => by cases h⟩
    · have hle : sandboxMsgHdrlen ≤ (l.toClient ++ reply).length := by
        have hlen := (sendRrBuf_eq_some hreply le_rfl (by
          rw [List.flatten_singleton]
          exact (length_buildInfoBuffer _).trans_lt (by decide))).2.1
        rw [List.length_append, hlen]
        omega
      have hread := @readSandboxMessageHeader_of_le img e.client false s _ hle
      rw [if_pos (headerError_of_text hclogged.toClient hclogged.text hreply)] at hread
      have hanswer : readAnswer e s l [reply] =
          readSandboxMessageHeader e.client false (l.toClient ++ reply) s := by
        rw [readAnswer, List.flatten_singleton]
      rw [hinfo] at hserved
      refine ⟨_, _, heq.trans (deliver_of_reply hserved (hanswer.trans hread)), fun ans h => ?_⟩
      obtain rfl := Option.some.inj h
      rfl

/-- What the server does with an APPLY that is complete: it has no memory for the payload, or
the library is called. -/
theorem dispatchApply_cases (env : ServeEnv img) {len : BitVec 32} {buf : List Byte}
    (hlen : len.toNat = sandboxMsgHdrlen + buf.length)
    (hfit : sandboxMsgHdrlen + buf.length ≤ sandboxAllocSize) (s : Sandbox) :
    (env.calloc = false ∧ ∃ rest, dispatchApply env len buf s = ⟨sandboxErrNomem, s, rest,
        (env.reply sandboxMsgApplyrsp (storeCcode sandboxErrNomem)).2, none⟩) ∨
      ∀ out, xenlpApply4 img env.apply (fromList buf env.beyond) s = out →
        dispatchApply env len buf s = ⟨out.ccode, out.sandbox, [],
          (env.reply sandboxMsgApplyrsp (storeCcode out.ccode)).2, none⟩ := by
  have hremaining : (len - BitVec.ofNat 32 sandboxMsgHdrlen).toNat = buf.length := by
    simp only [sandboxMsgHdrlen] at hlen ⊢
    have hlt := len.isLt
    rw [BitVec.toNat_sub_of_le]
    · simp only [BitVec.toNat_ofNat]
      omega
    · rw [BitVec.le_def, BitVec.toNat_ofNat]
      omega
  have hlt : (len - BitVec.ofNat 32 sandboxMsgHdrlen).toNat < sandboxAllocSize := by
    rw [hremaining]
    simp only [sandboxMsgHdrlen, sandboxAllocSize] at *
    omega
  by_cases hcalloc : env.calloc = true
  · right
    intro out hout
    have htake : buf.take (len - BitVec.ofNat 32 sandboxMsgHdrlen).toNat = buf := by
      rw [hremaining, List.take_length]
    have hdrop : buf.drop (len - BitVec.ofNat 32 sandboxMsgHdrlen).toNat = [] := by
      rw [hremaining, List.drop_length]
    have heq := @dispatchApply_of_le img env s len buf out hcalloc hlt hremaining.le
      (by rw [htake]; exact hout)
    rw [heq, hdrop]
  · left
    refine ⟨by simpa using hcalloc, buf, ?_⟩
    rw [dispatchApply, if_neg (Nat.not_le.mpr hlt), if_pos (by simpa using hcalloc)]

/-- A reply with a status: nothing is written, or the client reads the status. -/
theorem deliver_of_status (hclean : l.toClient = []) {id : BitVec 16} {msg rest : List Byte}
    {sent ccode : Int} {s' : Sandbox} (hid : id = sandboxMsgApplyrsp ∨ id = sandboxMsgUndoRep)
    (hserved : serveMessage e s l msg =
      ⟨sent, s', rest, (e.server.reply id (storeCcode ccode)).2, none⟩) :
    (∃ l', deliver e s l msg = (s', l', none)) ∨
      deliver e s l msg = (s', ⟨rest, [], l.left - 1,
        decide (sent < 0 ∧ sent ≠ sandboxErrClosed)⟩,
          some ⟨loadCcode (storeCcode ccode), none⟩) := by
  by_cases hwrites : e.server.writes = true
  · obtain ⟨reply, hreply, hsent⟩ := reply_storeCcode hwrites id ccode
    rw [hsent] at hserved
    exact .inr (deliver_of_reply hserved (readAnswer_storeCcode hclean hid hreply))
  · rw [reply_of_not_writes hwrites] at hserved
    obtain ⟨l', hsilent⟩ := @deliver_of_silent img e s l msg (by rw [hserved])
    rw [hserved] at hsilent
    exact .inl ⟨l', hsilent⟩

/-- The statuses of an answer to APPLY survive the passage. -/
theorem loadCcode_of_isStatus {ccode : Int} (h : IsStatus ccode) :
    loadCcode (storeCcode ccode) = ccode := by
  rcases h with rfl | rfl | rfl <;> exact loadCcode_storeCcode (by decide) (by decide)

/-- What the client can get for an APPLY: nothing, an error, or `SANDBOX_OK` from the library. The
server's state is as it was, or as the library left it. -/
theorem exchange_apply (hclean : l.Clean) {buf : List Byte}
    (hlen : sandboxMsgHdrlen + buf.length < 2 ^ 32) :
    ∃ s' l' a, exchange e s l (.apply buf) = (s', l', a) ∧
      (s' = s ∨ ∃ env beyond, s' = (xenlpApply4 img env (fromList buf beyond) s).sandbox) ∧
      ∀ ans, a = some ans → ans.ccode < 0 ∨ (ans = ⟨sandboxOk, none⟩ ∧ l'.Clean ∧
        l'.left + 1 = l.left ∧ sandboxMsgHdrlen + buf.length ≤ sandboxAllocSize ∧
        ∃ env beyond, (xenlpApply4 img env (fromList buf beyond) s).ccode = sandboxOk ∧
          s' = (xenlpApply4 img env (fromList buf beyond) s).sandbox) := by
  rcases exchange_cases e s l (.apply buf) with heq | ⟨l', heq⟩ | ⟨msg, hmsg, hleft, heq⟩
  · refine ⟨s, l, _, heq, .inl rfl, fun ans h => .inl ?_⟩
    obtain rfl := Option.some.inj h
    simp
  · exact ⟨s, l', none, heq, .inl rfl, fun ans h => by cases h⟩
  · have hflat : (ClientRequest.apply buf).bufs.flatten = buf := List.flatten_singleton
    have hfit : sandboxMsgHdrlen + buf.length ≤ sandboxAllocSize := by
      have hsome := (sendRrBuf_isSome (ClientRequest.bufs_length (.apply buf))
        (by rw [hflat]; exact hlen)).mp (Option.isSome_of_eq_some hmsg)
      rw [hflat] at hsome
      exact hsome
    obtain ⟨len, htotal, hserved⟩ := @serveMessage_eq img e s l _ hclean.toServer _ hmsg
      (by rw [hflat]; exact hlen)
    rw [hflat] at htotal hserved
    rw [ClientRequest.id, dispatch_apply] at hserved
    rcases dispatchApply_cases e.server htotal hfit s with ⟨-, rest, hnomem⟩ | hlibrary
    · rcases deliver_of_status hclean.toClient (.inl rfl) (hserved.trans hnomem) with
        ⟨l', hdeliver⟩ | hdeliver
      · exact ⟨s, l', none, heq.trans hdeliver, .inl rfl, fun ans h => by cases h⟩
      · refine ⟨s, _, _, heq.trans hdeliver, .inl rfl, fun ans h => .inl ?_⟩
        obtain rfl := Option.some.inj h
        rw [loadCcode_of_isStatus (.inr (.inl rfl))]
        decide
    · have hstatus : IsStatus (xenlpApply4 img e.server.apply
        (fromList buf e.server.beyond) s).ccode := isStatus_xenlpApply4
      cases hout : xenlpApply4 img e.server.apply (fromList buf e.server.beyond) s with
      | mk ccode s' log =>
        rw [hout] at hstatus
        have hserved := hserved.trans (hlibrary _ hout)
        have hs' : s' = (xenlpApply4 img e.server.apply (fromList buf e.server.beyond) s).sandbox :=
          by rw [hout]
        rcases deliver_of_status hclean.toClient (.inl rfl) hserved with ⟨l', hdeliver⟩ | hdeliver
        · exact ⟨s', l', none, heq.trans hdeliver, .inr ⟨_, _, hs'⟩, fun ans h => by cases h⟩
        · refine ⟨s', _, _, heq.trans hdeliver, .inr ⟨_, _, hs'⟩, fun ans h => ?_⟩
          obtain rfl := Option.some.inj h
          rw [loadCcode_of_isStatus hstatus]
          rcases hstatus with rfl | rfl | rfl
          · exact .inr ⟨rfl, ⟨rfl, rfl⟩, Nat.sub_add_cancel hleft, hfit, _, _, by rw [hout], hs'⟩
          · exact .inl (by simp)
          · exact .inl (by simp)

/-! ## Requests that are answered -/

/-- A connection on which nothing is unread, with so many messages left. -/
structure Link.Serving (l : Link) (left : ℕ) : Prop where
  clean : l.Clean
  returned : l.returned = false
  left_eq : l.left = left

/-- The server takes the request and writes one reply, of the field `b`. The client takes it. -/
def Answered (e : ExchangeEnv img) (s : Sandbox) (l : Link) (r : ClientRequest) (b : List Byte)
    (s' : Sandbox) (ans : Answer) : Prop :=
  ∃ msg reply ccode s'', r.message = some msg ∧
    sandboxMsgHdrlen + r.bufs.flatten.length < 2 ^ 32 ∧
    sendRrBuf (r.id + 1) [b] = some reply ∧ sandboxMsgHdrlen + b.length < 2 ^ 32 ∧ 0 ≤ ccode ∧
    serveMessage e s l msg = ⟨ccode, s', [], [reply], none⟩ ∧
    readAnswer e s l [reply] = ⟨ans.ccode, s'', [], [], ans.buf⟩

theorem answered_getBld (hclean : l.Clean) (hwrites : e.server.writes = true)
    (hcalloc : e.client.calloc = true) :
    Answered e s l .getBld (buildInfoBuffer e.server.buildInfo) s
      ⟨sandboxOk, some (buildInfoBuffer e.server.buildInfo)⟩ := by
  have hmsg : ClientRequest.getBld.message = some (bareMessage sandboxMsgGetBld) := rfl
  obtain ⟨len, -, hserved⟩ := @serveMessage_eq img e s l _ hclean.toServer _ hmsg (by decide)
  simp only [ClientRequest.id, ClientRequest.bufs, List.flatten_nil, dispatch_getBld] at hserved
  obtain ⟨reply, hreply, hinfo⟩ := @dispatchGetbld_eq img e.server hwrites [] s
  have hblen : sandboxMsgHdrlen + (buildInfoBuffer e.server.buildInfo).length < 2 ^ 32 :=
    (length_buildInfoBuffer _).trans_lt (by decide)
  have hread := @readAnswer_getBld img e s l hclean.toClient _ _ hreply hblen
  rw [if_neg (by simp [hcalloc])] at hread
  exact ⟨_, reply, _, _, hmsg, by decide, hreply, hblen, le_rfl, hserved.trans hinfo, hread⟩

theorem answered_list (hclean : l.Clean) (hscalloc : e.server.calloc = true)
    (hwrites : e.server.writes = true) (hcalloc : e.client.calloc = true)
    (hfit : ListFits s.lpPatchHead.length) :
    Answered e s l .list (storeList s.lpPatchHead) s
      ⟨sandboxOk, some (storeList s.lpPatchHead)⟩ := by
  have hmsg : ClientRequest.list.message = some (bareMessage sandboxMsgList) := rfl
  obtain ⟨len, -, hserved⟩ := @serveMessage_eq img e s l _ hclean.toServer _ hmsg (by decide)
  simp only [ClientRequest.id, ClientRequest.bufs, List.flatten_nil, dispatch_list] at hserved
  obtain ⟨reply, hreply, hlist⟩ := @dispatchList_of_fits img e.server s (by simp [hscalloc])
    hwrites hfit []
  have hblen : sandboxMsgHdrlen + (storeList s.lpPatchHead).length < 2 ^ 32 := by
    rw [length_storeList]
    exact hfit.trans_lt (by decide)
  have hread := @readAnswer_list img e s l hclean.toClient _ _ hreply hblen
  rw [if_neg (by simp [hcalloc])] at hread
  exact ⟨_, reply, _, _, hmsg, by decide, hreply, hblen, le_rfl, hserved.trans hlist, hread⟩

theorem answered_apply (hclean : l.Clean) (hscalloc : e.server.calloc = true)
    (hwrites : e.server.writes = true) {buf : List Byte}
    (hfit : sandboxMsgHdrlen + buf.length ≤ sandboxAllocSize) {ccode : Int} {s' : Sandbox}
    {log : List Access} (hcode : 0 ≤ ccode)
    (hout : xenlpApply4 img e.server.apply (fromList buf e.server.beyond) s = ⟨ccode, s', log⟩) :
    Answered e s l (.apply buf) (storeCcode ccode) s' ⟨loadCcode (storeCcode ccode), none⟩ := by
  have hflat : (ClientRequest.apply buf).bufs.flatten = buf := List.flatten_singleton
  have hlen : sandboxMsgHdrlen + buf.length < 2 ^ 32 := hfit.trans_lt (by decide)
  obtain ⟨msg, hmsg⟩ := Option.isSome_iff_exists.mp
    ((sendRrBuf_isSome (ClientRequest.bufs_length (.apply buf))
      (by rw [hflat]; exact hlen)).mpr (by rw [hflat]; exact hfit))
  obtain ⟨len, htotal, hserved⟩ := @serveMessage_eq img e s l (.apply buf) hclean.toServer _ hmsg
    (by rw [hflat]; exact hlen)
  rw [hflat] at htotal hserved
  rw [ClientRequest.id, dispatch_apply] at hserved
  rcases dispatchApply_cases e.server htotal hfit s with ⟨hnomem, -⟩ | hlibrary
  · rw [hscalloc] at hnomem
    cases hnomem
  · obtain ⟨reply, hreply, hsent⟩ := reply_storeCcode hwrites sandboxMsgApplyrsp ccode
    have hserved := hserved.trans (hlibrary _ hout)
    rw [hsent] at hserved
    exact ⟨msg, reply, ccode, s, hmsg, by rw [hflat]; exact hlen, hreply,
      by rw [length_storeCcode]; decide, hcode, hserved,
      readAnswer_storeCcode hclean.toClient (.inl rfl) hreply⟩

/-- A request that is answered, on a connection that is served. -/
theorem Answered.exchange {b : List Byte} {s' : Sandbox} {ans : Answer}
    (h : Answered e s l r b s' ans) {left : ℕ} (hl : l.Serving (left + 1)) (hsends : e.sends = true) :
    ∃ l', Patchbox.exchange e s l r = (s', l', some ans) ∧ l'.Serving left := by
  obtain ⟨msg, reply, ccode, s'', hmsg, -, -, -, hcode, hserved, hread⟩ := h
  have hleft : 0 < l.left := by
    rw [hl.left_eq]
    exact Nat.succ_pos left
  refine ⟨_, (exchange_of_serving hsends hmsg hl.returned hleft).trans
    (deliver_of_reply hserved hread), ⟨⟨rfl, rfl⟩, ?_, by rw [hl.left_eq]; rfl⟩⟩
  exact decide_eq_false fun hneg => absurd hneg.1 (Int.not_lt.mpr hcode)

end Patchbox
