import Patchbox.Messages
import Patchbox.Undo

/-!
# Serving one message

`readSandboxMessageHeader` takes a header from the stream, checks it and hands over to
the dispatcher of its id. Client and server share it: the dispatchers of the even ids
read a reply, those of the odd ids serve a request and write one. Each dispatcher
decides for itself how much of the stream it takes.

A stream is the list of the bytes that are still to come, then the end. A read that
meets the end is short.

## Main definitions

* `ServeEnv` — what the system answers while one message is served.
* `dispatchApply`, `dispatchList`, … — the dispatchers of `sandbox-listen.c`.
* `readSandboxMessageHeader` — one message.
* `replies_iff` — the requests that get their reply.
-/

namespace Patchbox
open Lib

variable {img : Image}

/-- The system's answers while a message is served: those `xenlp_apply4` gets, whether there is
memory for a buffer, whether the peer still takes a reply, the memory behind a payload, and the
text that `dispatch_getbld` formats. -/
structure ServeEnv (img : Image) where
  apply : ApplyEnv img
  calloc : Bool
  writes : Bool
  beyond : ℕ → Byte
  buildInfo : List Byte

/-- What serving a message returns and leaves: the state, the rest of the stream, the messages
written, and what the caller's buffer pointer was set to. -/
structure Reading where
  ccode : Int
  sandbox : Sandbox
  rest : List Byte
  written : List (List Byte)
  buf : Option (List Byte)

/-- `readn`: the bytes, when there are enough of them, and the rest of the stream. -/
def readn (input : List Byte) (n : ℕ) : Option (List Byte) × List Byte :=
  if n ≤ input.length then (some (input.take n), input.drop n) else (none, [])

/-- `readn` with an `int` for the count: what it returns, the bytes it stores, and the rest of the
stream. A negative count wraps in its `size_t`; `read` refuses it, and the stream stays. -/
def readnInt (input : List Byte) (n : Int) : Int × List Byte × List Byte :=
  if n < 0 then (-1, [], input)
  else ((min n.toNat input.length : ℕ), input.take n.toNat, input.drop n.toNat)

/-- The bytes of a 32-bit status. -/
def storeCcode (ccode : Int) : List Byte := leBytes 4 (BitVec.ofInt 32 ccode).toNat

/-- The status in four bytes, as an `int`. -/
def loadCcode (b : List Byte) : Int := (word32 (bytesOf b) 0).toInt

/-- Send a reply with one field: the status of `send_rr_buf`, and the messages written. -/
def ServeEnv.reply (env : ServeEnv img) (id : BitVec 16) (b : List Byte) : Int × List (List Byte) :=
  match sendRrBuf id [b] with
  | none => (sandboxErrRw, [])
  | some msg => if env.writes then (sandboxOk, [msg]) else (sandboxErrRw, [])

/-! ## The dispatchers -/

/-- `dispatch_apply`. The reply's own status is not looked at. -/
def dispatchApply (env : ServeEnv img) (len : BitVec 32) (input : List Byte) (s : Sandbox) :
    Reading :=
  let remaining := (len - BitVec.ofNat 32 sandboxMsgHdrlen).toNat
  let answer (ccode : Int) (s : Sandbox) (rest : List Byte) : Reading :=
    ⟨ccode, s, rest, (env.reply sandboxMsgApplyrsp (storeCcode ccode)).2, none⟩
  if sandboxAllocSize ≤ remaining then answer sandboxErrParse s input
  else if env.calloc = false then answer sandboxErrNomem s input
  else
    match readn input remaining with
    | (none, rest) => answer sandboxErrRw s rest
    | (some patchBuf, rest) =>
      let out := xenlpApply4 img env.apply (fromList patchBuf env.beyond) s
      answer out.ccode out.sandbox rest

/-- `dispatch_apply_response`. -/
def dispatchApplyResponse (input : List Byte) (s : Sandbox) : Reading :=
  match readn input 4 with
  | (none, rest) => ⟨sandboxErrParse, s, rest, [], none⟩
  | (some code, rest) => ⟨loadCcode code, s, rest, [], none⟩

/-- `sizeof (list_response)`. -/
abbrev sizeofListResponse : ℕ := 352

/-- `list_response`, cleared by `calloc` but for the address and the hash. -/
def storeListResponse (ap : AppliedPatch) : List Byte :=
  leBytes 8 ap.map.addr.toNat ++ ap.sha1.toList
    ++ List.replicate (sizeofListResponse - 8 - shaDigestLength) 0

/-- The bytes of a list reply. -/
def storeList (list : List AppliedPatch) : List Byte :=
  leBytes 4 list.length ++ list.flatMap storeListResponse

/-- The buffer of a list reply. Its length is computed in 32 bits; a longer list runs past it. -/
def listBuf (list : List AppliedPatch) : Option (List Byte) :=
  if (storeList list).length % 2 ^ 32 < (storeList list).length then none
  else some (storeList list)

/-- `dispatch_list`. The payload stays in the stream; without memory there is no reply, and none
from a process whose heap is overrun. -/
def dispatchList (env : ServeEnv img) (input : List Byte) (s : Sandbox) : Reading :=
  if s.lpPatchHead ≠ [] ∧ env.calloc = false then ⟨sandboxErrNomem, s, input, [], none⟩
  else
    match listBuf s.lpPatchHead with
    | none => ⟨sandboxErr, s, [], [], none⟩
    | some rbuf =>
      let (ccode, written) := env.reply sandboxMsgListrsp rbuf
      ⟨ccode, s, input, written, none⟩

/-- `dispatch_list_response`. The limit on the length keeps the difference within an `int`. With
one byte less than a header the -1 of `readn` is what was asked for. -/
def dispatchListResponse (env : ServeEnv img) (len : BitVec 32) (input : List Byte) (s : Sandbox) :
    Reading :=
  let remaining : Int := len.toNat - sandboxMsgHdrlen
  if env.calloc = false then ⟨sandboxErrNomem, s, input, [], none⟩
  else
    let (nread, buf, rest) := readnInt input remaining
    if nread ≠ remaining then ⟨sandboxErrParse, s, rest, [], none⟩
    else ⟨sandboxOk, s, rest, [], some buf⟩

/-- The text of `dispatch_getbld`, as `snprintf` cuts it off. -/
def buildInfoBuffer (info : List Byte) : List Byte :=
  (info.takeWhile (· ≠ 0)).take (sandboxMsgBldBufsize - 1)

/-- `dispatch_getbld`. The payload stays in the stream. -/
def dispatchGetbld (env : ServeEnv img) (input : List Byte) (s : Sandbox) : Reading :=
  let (ccode, written) := env.reply sandboxMsgGetBldrsp (buildInfoBuffer env.buildInfo)
  ⟨ccode, s, input, written, none⟩

/-- `dispatch_getbld_res`. After a short read the caller has the buffer all the same. A negative
size for the buffer is refused, and -1 is read as it is in `dispatch_list_response`. -/
def dispatchGetbldRes (env : ServeEnv img) (len : BitVec 32) (input : List Byte) (s : Sandbox) :
    Reading :=
  let remaining : Int := len.toNat - sandboxMsgHdrlen
  if env.calloc = false ∨ remaining + 1 < 0 then ⟨sandboxErrNomem, s, input, [], none⟩
  else
    let (nread, buf, rest) := readnInt input remaining
    if nread ≠ remaining then ⟨sandboxErrRw, s, rest, [], some buf⟩
    else ⟨sandboxOk, s, rest, [], some buf⟩

/-- `dispatch_undo_req`. It wants a message of twenty bytes and four more, reads the twenty, and
returns the status of the reply. -/
def dispatchUndoReq (env : ServeEnv img) (len : BitVec 32) (input : List Byte) (s : Sandbox) :
    Reading :=
  let answer (ccode : Int) (s : Sandbox) (rest : List Byte) : Reading :=
    let (sent, written) := env.reply sandboxMsgUndoRep (storeCcode ccode)
    ⟨sent, s, rest, written, none⟩
  if len.toNat ≠ sandboxMsgHdrlen + 4 + shaDigestLength then answer sandboxErrParse s input
  else
    match readn input shaDigestLength with
    | (none, rest) => answer sandboxErrRw s rest
    | (some sha1, rest) =>
      let out := xenlpUndo4 (fromList sha1 env.beyond) s
      answer out.ccode out.sandbox rest

/-- `dispatch_undo_rep`. -/
def dispatchUndoRep (input : List Byte) (s : Sandbox) : Reading :=
  match readn input 4 with
  | (none, rest) => ⟨sandboxErrRw, s, rest, [], none⟩
  | (some code, rest) => ⟨loadCcode code, s, rest, [], none⟩

/-- The `switch` over the ids; of those in range, 7 and 8 have no dispatcher. -/
def dispatch (env : ServeEnv img) (id : BitVec 16) (len : BitVec 32) (input : List Byte)
    (s : Sandbox) : Reading :=
  if id = sandboxMsgApply then dispatchApply env len input s
  else if id = sandboxMsgApplyrsp then dispatchApplyResponse input s
  else if id = sandboxMsgList then dispatchList env input s
  else if id = sandboxMsgListrsp then dispatchListResponse env len input s
  else if id = sandboxMsgGetBld then dispatchGetbld env input s
  else if id = sandboxMsgGetBldrsp then dispatchGetbldRes env len input s
  else if id = sandboxMsgUndoReq then dispatchUndoReq env len input s
  else if id = sandboxMsgUndoRep then dispatchUndoRep input s
  else ⟨sandboxErrBadMsgid, s, input, [], none⟩

section Ids

variable (env : ServeEnv img) (len : BitVec 32) (input : List Byte) (s : Sandbox)

@[simp] theorem dispatch_apply :
    dispatch env sandboxMsgApply len input s = dispatchApply env len input s := by
  rw [dispatch, if_pos rfl]

@[simp] theorem dispatch_list :
    dispatch env sandboxMsgList len input s = dispatchList env input s := by
  rw [dispatch, if_neg (by decide), if_neg (by decide), if_pos rfl]

@[simp] theorem dispatch_getBld :
    dispatch env sandboxMsgGetBld len input s = dispatchGetbld env input s := by
  rw [dispatch, if_neg (by decide), if_neg (by decide), if_neg (by decide), if_neg (by decide),
    if_pos rfl]

@[simp] theorem dispatch_undoReq :
    dispatch env sandboxMsgUndoReq len input s = dispatchUndoReq env len input s := by
  rw [dispatch, if_neg (by decide), if_neg (by decide), if_neg (by decide), if_neg (by decide),
    if_neg (by decide), if_neg (by decide), if_pos rfl]

@[simp] theorem dispatch_applyrsp :
    dispatch env sandboxMsgApplyrsp len input s = dispatchApplyResponse input s := by
  rw [dispatch, if_neg (by decide), if_pos rfl]

@[simp] theorem dispatch_listrsp :
    dispatch env sandboxMsgListrsp len input s = dispatchListResponse env len input s := by
  rw [dispatch, if_neg (by decide), if_neg (by decide), if_neg (by decide), if_pos rfl]

@[simp] theorem dispatch_getBldrsp :
    dispatch env sandboxMsgGetBldrsp len input s = dispatchGetbldRes env len input s := by
  rw [dispatch, if_neg (by decide), if_neg (by decide), if_neg (by decide), if_neg (by decide),
    if_neg (by decide), if_pos rfl]

@[simp] theorem dispatch_undoRep :
    dispatch env sandboxMsgUndoRep len input s = dispatchUndoRep input s := by
  rw [dispatch, if_neg (by decide), if_neg (by decide), if_neg (by decide), if_neg (by decide),
    if_neg (by decide), if_neg (by decide), if_neg (by decide), if_pos rfl]

end Ids

/-- `read_sandbox_message_header`, on a stream that ends because the peer closed it (`eof`) or
with an error. The header is read byte by byte; only a closed stream gives
`SANDBOX_ERR_CLOSED`. -/
def readSandboxMessageHeader (env : ServeEnv img) (eof : Bool) (input : List Byte) (s : Sandbox) :
    Reading :=
  match readn input sandboxMsgHdrlen with
  | (none, rest) => ⟨if eof then sandboxErrClosed else sandboxErr, s, rest, [], none⟩
  | (some hbuf, rest) =>
    if headerError hbuf ≠ sandboxOk then ⟨headerError hbuf, s, rest, [], none⟩
    else dispatch env (msgGetId hbuf) (msgGetLen hbuf) rest s

/-! ## Reading a message that was sent -/

theorem readn_of_le {input : List Byte} {n : ℕ} (h : n ≤ input.length) :
    readn input n = (some (input.take n), input.drop n) := if_pos h

theorem readn_of_lt {input : List Byte} {n : ℕ} (h : input.length < n) :
    readn input n = (none, []) := if_neg (Nat.not_le.mpr h)

/-- All of a stream. -/
theorem readn_length (input : List Byte) : readn input input.length = (some input, []) := by
  rw [readn_of_le le_rfl, List.take_length, List.drop_length]

/-- A string in front of the rest of the stream. -/
theorem readn_append (b rest : List Byte) : readn (b ++ rest) b.length = (some b, rest) := by
  rw [readn_of_le (by simp), List.take_left', List.drop_left'] <;> rfl

theorem readnInt_natCast (input : List Byte) (n : ℕ) :
    readnInt input n = (((min n input.length : ℕ) : Int), input.take n, input.drop n) := by
  rw [readnInt, if_neg (Int.not_lt.mpr (Int.natCast_nonneg n)), Int.toNat_natCast]

/-- A count that is not negative was read exactly when there was enough. -/
theorem min_natCast_ne_iff {n m : ℕ} : ((min n m : ℕ) : Int) ≠ n ↔ ¬n ≤ m := by
  omega

/-- A count that is -1 is taken for the -1 of a failed read. -/
theorem neg_one_ne_sub_iff {n m : ℕ} : -1 ≠ (n : Int) - m ↔ ¬n + 1 = m := by
  omega

variable {env : ServeEnv img} {eof : Bool} {s : Sandbox}

/-- A list reply whose length covers the header. -/
theorem dispatchListResponse_of_le {len : BitVec 32} (hcalloc : env.calloc = true)
    (h : sandboxMsgHdrlen ≤ len.toNat) (input : List Byte) :
    dispatchListResponse env len input s =
      if len.toNat - sandboxMsgHdrlen ≤ input.length then
        ⟨sandboxOk, s, input.drop (len.toNat - sandboxMsgHdrlen), [],
          some (input.take (len.toNat - sandboxMsgHdrlen))⟩
      else ⟨sandboxErrParse, s, input.drop (len.toNat - sandboxMsgHdrlen), [], none⟩ := by
  have hremaining : (len.toNat : Int) - sandboxMsgHdrlen = (len.toNat - sandboxMsgHdrlen : ℕ) :=
    (Nat.cast_sub h).symm
  simp only [dispatchListResponse, hremaining, readnInt_natCast, min_natCast_ne_iff, hcalloc,
    Bool.true_eq_false, if_false, ite_not]

/-- One whose length does not. -/
theorem dispatchListResponse_of_lt {len : BitVec 32} (hcalloc : env.calloc = true)
    (h : len.toNat < sandboxMsgHdrlen) (input : List Byte) :
    dispatchListResponse env len input s =
      if len.toNat + 1 = sandboxMsgHdrlen then ⟨sandboxOk, s, input, [], some []⟩
      else ⟨sandboxErrParse, s, input, [], none⟩ := by
  have hneg : (len.toNat : Int) - sandboxMsgHdrlen < 0 := by omega
  simp only [dispatchListResponse, readnInt, if_pos hneg, neg_one_ne_sub_iff, hcalloc,
    Bool.true_eq_false, if_false, ite_not]

/-- Build information whose length covers the header. -/
theorem dispatchGetbldRes_of_le {len : BitVec 32} (hcalloc : env.calloc = true)
    (h : sandboxMsgHdrlen ≤ len.toNat) (input : List Byte) :
    dispatchGetbldRes env len input s =
      if len.toNat - sandboxMsgHdrlen ≤ input.length then
        ⟨sandboxOk, s, input.drop (len.toNat - sandboxMsgHdrlen), [],
          some (input.take (len.toNat - sandboxMsgHdrlen))⟩
      else ⟨sandboxErrRw, s, input.drop (len.toNat - sandboxMsgHdrlen), [],
        some (input.take (len.toNat - sandboxMsgHdrlen))⟩ := by
  have hremaining : (len.toNat : Int) - sandboxMsgHdrlen = (len.toNat - sandboxMsgHdrlen : ℕ) :=
    (Nat.cast_sub h).symm
  have hroom : ¬((len.toNat - sandboxMsgHdrlen : ℕ) : Int) + 1 < 0 := by omega
  simp only [dispatchGetbldRes, hremaining, readnInt_natCast, min_natCast_ne_iff, hcalloc,
    hroom, Bool.true_eq_false, or_self, if_false, ite_not]

/-- Build information whose length does not. -/
theorem dispatchGetbldRes_of_lt {len : BitVec 32} (hcalloc : env.calloc = true)
    (h : len.toNat < sandboxMsgHdrlen) (input : List Byte) :
    dispatchGetbldRes env len input s =
      if len.toNat + 1 = sandboxMsgHdrlen then ⟨sandboxOk, s, input, [], some []⟩
      else ⟨sandboxErrNomem, s, input, [], none⟩ := by
  have hneg : (len.toNat : Int) - sandboxMsgHdrlen < 0 := by omega
  have hroom : (len.toNat : Int) - sandboxMsgHdrlen + 1 < 0 ↔
      ¬len.toNat + 1 = sandboxMsgHdrlen := by omega
  simp only [dispatchGetbldRes, readnInt, if_pos hneg, neg_one_ne_sub_iff, hroom, hcalloc,
    Bool.true_eq_false, false_or, ite_not]
  split_ifs <;> rfl

/-- A complete header that passes the checks goes to the dispatcher of its id. -/
theorem readSandboxMessageHeader_of_ok {hbuf : List Byte} (hlen : hbuf.length = sandboxMsgHdrlen)
    (hok : headerError hbuf = sandboxOk) (rest : List Byte) :
    readSandboxMessageHeader env eof (hbuf ++ rest) s =
      dispatch env (msgGetId hbuf) (msgGetLen hbuf) rest s := by
  rw [readSandboxMessageHeader, ← hlen, readn_append]
  exact if_neg (not_not.mpr hok)

theorem Reading.ccode_of_eq {r : Reading} {ccode : Int} {sandbox : Sandbox} {rest : List Byte}
    {written : List (List Byte)} {buf : Option (List Byte)}
    (h : r = ⟨ccode, sandbox, rest, written, buf⟩) : r.ccode = ccode := by rw [h]

theorem Reading.sandbox_of_eq {r : Reading} {ccode : Int} {sandbox : Sandbox} {rest : List Byte}
    {written : List (List Byte)} {buf : Option (List Byte)}
    (h : r = ⟨ccode, sandbox, rest, written, buf⟩) : r.sandbox = sandbox := by rw [h]

/-- A complete APPLY that is handed to the library. -/
theorem dispatchApply_of_le {len : BitVec 32} {input : List Byte} {out : Outcome}
    (hcalloc : env.calloc = true)
    (hlt : (len - BitVec.ofNat 32 sandboxMsgHdrlen).toNat < sandboxAllocSize)
    (hle : (len - BitVec.ofNat 32 sandboxMsgHdrlen).toNat ≤ input.length)
    (hout : xenlpApply4 img env.apply (fromList
      (input.take (len - BitVec.ofNat 32 sandboxMsgHdrlen).toNat) env.beyond) s = out) :
    dispatchApply env len input s = ⟨out.ccode, out.sandbox,
      input.drop (len - BitVec.ofNat 32 sandboxMsgHdrlen).toNat,
      (env.reply sandboxMsgApplyrsp (storeCcode out.ccode)).2, none⟩ := by
  rw [dispatchApply, if_neg (Nat.not_le.mpr hlt), if_neg (by simp [hcalloc]), readn_of_le hle]
  simp only [hout]

theorem dispatchApply_ccode {len : BitVec 32} {input : List Byte} (hcalloc : env.calloc = true)
    (hlt : (len - BitVec.ofNat 32 sandboxMsgHdrlen).toNat < sandboxAllocSize)
    (hle : (len - BitVec.ofNat 32 sandboxMsgHdrlen).toNat ≤ input.length) :
    (dispatchApply env len input s).ccode = (xenlpApply4 img env.apply (fromList
      (input.take (len - BitVec.ofNat 32 sandboxMsgHdrlen).toNat) env.beyond) s).ccode := by
  exact Reading.ccode_of_eq (dispatchApply_of_le hcalloc hlt hle rfl)

/-- A closed stream with less than a header. -/
theorem readSandboxMessageHeader_of_short {input : List Byte}
    (h : input.length < sandboxMsgHdrlen) :
    (readSandboxMessageHeader env true input s).ccode = sandboxErrClosed := by
  rw [readSandboxMessageHeader, readn_of_lt h]
  rfl

/-- A complete header. -/
theorem readSandboxMessageHeader_of_le {input : List Byte} (h : sandboxMsgHdrlen ≤ input.length) :
    readSandboxMessageHeader env eof input s =
      if headerError (input.take sandboxMsgHdrlen) ≠ sandboxOk then
        ⟨headerError (input.take sandboxMsgHdrlen), s, input.drop sandboxMsgHdrlen, [], none⟩
      else dispatch env (msgGetId (input.take sandboxMsgHdrlen))
        (msgGetLen (input.take sandboxMsgHdrlen)) (input.drop sandboxMsgHdrlen) s := by
  rw [readSandboxMessageHeader, readn_of_le h]

/-- A message with one field. -/
theorem readSandboxMessageHeader_of_sent {id : BitVec 16} {bufs : List (List Byte)}
    {msg : List Byte} (h : sendRrBuf id bufs = some msg) (hone : bufs.length ≤ 1)
    (hlen : sandboxMsgHdrlen + bufs.flatten.length < 2 ^ 32) (hfirst : sandboxMsgFirst ≤ id)
    (hlast : id ≤ sandboxMsgLast) (rest : List Byte) :
    ∃ len : BitVec 32, len.toNat = sandboxMsgHdrlen + bufs.flatten.length ∧
      readSandboxMessageHeader env eof (msg ++ rest) s =
        dispatch env id len (bufs.flatten ++ rest) s := by
  obtain ⟨hdrop, htotal, hid, hmsglen, hok⟩ := sendRrBuf_eq_some h hone hlen
  have hhead : (msg.take sandboxMsgHdrlen).length = sandboxMsgHdrlen := by
    rw [List.length_take, htotal]
    omega
  refine ⟨msgGetLen (msg.take sandboxMsgHdrlen), hmsglen.trans htotal, ?_⟩
  have hread := @readSandboxMessageHeader_of_ok img env eof s _ hhead (hok hfirst hlast)
    (msg.drop sandboxMsgHdrlen ++ rest)
  rw [← List.append_assoc, List.take_append_drop, hid, hdrop] at hread
  exact hread

/-! ## The replies -/

/-- The ids a client sends. -/
def IsRequest (id : BitVec 16) : Prop :=
  id = sandboxMsgApply ∨ id = sandboxMsgList ∨ id = sandboxMsgGetBld ∨ id = sandboxMsgUndoReq

/-- The client takes the message, all of it and no more, for one with this id. -/
structure TakenAs (id : BitVec 16) (msg : List Byte) : Prop where
  id_eq : msgGetId (msg.take sandboxMsgHdrlen) = id
  header_ok : headerError (msg.take sandboxMsgHdrlen) = sandboxOk
  takes : ∀ (img : Image) (env : ServeEnv img) (eof : Bool) (rest : List Byte) (s : Sandbox),
    env.calloc = true → (readSandboxMessageHeader env eof (msg ++ rest) s).rest = rest

/-- The list reply is within the limit of the sender. -/
def ListFits (count : ℕ) : Prop :=
  sandboxMsgHdrlen + (count * sizeofListResponse + 4) ≤ sandboxAllocSize

/-- Of 2978 patches it is, of more it is not. -/
theorem listFits_iff {count : ℕ} : ListFits count ↔ count ≤ 2978 := by
  simp only [ListFits, sandboxMsgHdrlen, sizeofListResponse, sandboxAllocSize]
  omega

/-- A dispatcher takes the payload of a message of the length in its header. -/
def TakesPayload (id : BitVec 16) (payload : List Byte) : Prop :=
  ∀ (img : Image) (env : ServeEnv img) (len : BitVec 32) (rest : List Byte) (s : Sandbox),
    env.calloc = true → len.toNat = sandboxMsgHdrlen + payload.length →
      (dispatch env id len (payload ++ rest) s).rest = rest

theorem takesPayload_applyrsp {b : List Byte} (hb : b.length = 4) :
    TakesPayload sandboxMsgApplyrsp b := by
  intro img env len rest s _ _
  simp only [dispatch, dispatchApplyResponse, ← hb, readn_append]
  simp

theorem takesPayload_listrsp (b : List Byte) : TakesPayload sandboxMsgListrsp b := by
  intro img env len rest s hcalloc hlen
  have hsub : len.toNat - sandboxMsgHdrlen = b.length := by omega
  rw [dispatch_listrsp, dispatchListResponse_of_le hcalloc (by omega), hsub, if_pos (by simp)]
  exact List.drop_left

theorem takesPayload_getBldrsp (b : List Byte) : TakesPayload sandboxMsgGetBldrsp b := by
  intro img env len rest s hcalloc hlen
  have hsub : len.toNat - sandboxMsgHdrlen = b.length := by omega
  rw [dispatch_getBldrsp, dispatchGetbldRes_of_le hcalloc (by omega), hsub, if_pos (by simp)]
  exact List.drop_left

theorem takesPayload_undoRep {b : List Byte} (hb : b.length = 4) :
    TakesPayload sandboxMsgUndoRep b := by
  intro img env len rest s _ _
  simp only [dispatch, dispatchUndoRep, ← hb, readn_append]
  simp

/-- A reply that is not too long is written. -/
theorem reply_of_fits {b : List Byte} (hwrites : env.writes = true)
    (hfit : sandboxMsgHdrlen + b.length ≤ sandboxAllocSize) (id : BitVec 16) :
    ∃ msg, sendRrBuf id [b] = some msg ∧ env.reply id b = (sandboxOk, [msg]) := by
  have hsome : (sendRrBuf id [b]).isSome := by
    rw [sendRrBuf_isSome le_rfl] <;> rw [List.flatten_singleton]
    · exact hfit
    · exact hfit.trans_lt (by decide)
  obtain ⟨msg, hmsg⟩ := Option.isSome_iff_exists.mp hsome
  refine ⟨msg, hmsg, ?_⟩
  rw [ServeEnv.reply, hmsg]
  exact if_pos hwrites

/-- Nothing is written to a socket that takes nothing. -/
theorem reply_of_not_writes (hwrites : ¬env.writes = true) (id : BitVec 16) (b : List Byte) :
    env.reply id b = (sandboxErrRw, []) := by
  rw [ServeEnv.reply]
  cases sendRrBuf id [b] with
  | none => rfl
  | some msg => exact if_neg hwrites

/-- It is taken for what it is. -/
theorem takenAs_of_sent {id : BitVec 16} {b msg : List Byte} (hmsg : sendRrBuf id [b] = some msg)
    (hfit : sandboxMsgHdrlen + b.length ≤ sandboxAllocSize) (hfirst : sandboxMsgFirst ≤ id)
    (hlast : id ≤ sandboxMsgLast) (htakes : TakesPayload id b) : TakenAs id msg := by
  have hflat : [b].flatten = b := List.flatten_singleton
  have hlen : sandboxMsgHdrlen + [b].flatten.length < 2 ^ 32 := by
    rw [hflat]
    exact hfit.trans_lt (by decide)
  obtain ⟨-, -, hid, -, hok⟩ := sendRrBuf_eq_some hmsg le_rfl hlen
  refine ⟨hid, hok hfirst hlast, ?_⟩
  intro img env eof rest s hcalloc
  obtain ⟨len, hlen, hread⟩ :=
    @readSandboxMessageHeader_of_sent img env eof s _ _ _ hmsg le_rfl hlen hfirst hlast rest
  rw [hread, hflat]
  exact htakes img env len rest s hcalloc (hflat ▸ hlen)

/-- A reply that is too long is not written. -/
theorem reply_of_not_fits {id : BitVec 16} {b : List Byte}
    (hlen : sandboxMsgHdrlen + b.length < 2 ^ 32)
    (hfit : ¬sandboxMsgHdrlen + b.length ≤ sandboxAllocSize) :
    env.reply id b = (sandboxErrRw, []) := by
  have hflat : [b].flatten = b := List.flatten_singleton
  have hnone : sendRrBuf id [b] = none := by
    rw [← Option.not_isSome_iff_eq_none, sendRrBuf_isSome le_rfl (by rw [hflat]; exact hlen), hflat]
    exact hfit
  rw [ServeEnv.reply, hnone]

@[simp] theorem length_storeCcode (ccode : Int) : (storeCcode ccode).length = 4 :=
  length_leBytes 4 _

theorem length_storeListResponse (ap : AppliedPatch) :
    (storeListResponse ap).length = sizeofListResponse := by
  rw [storeListResponse, List.length_append, List.length_append, length_leBytes,
    List.length_replicate, Bytes.length_toList]
  rfl

theorem length_storeList (list : List AppliedPatch) :
    (storeList list).length = list.length * sizeofListResponse + 4 := by
  rw [storeList, List.length_append, length_leBytes, List.length_flatMap,
    List.map_congr_left fun ap _ => length_storeListResponse ap]
  simp [Nat.add_comm]

/-- A list reply that is sent fits its buffer. -/
theorem listBuf_of_fits {list : List AppliedPatch} (h : ListFits list.length) :
    listBuf list = some (storeList list) := by
  rw [ListFits, ← length_storeList] at h
  have hlt : (storeList list).length < 2 ^ 32 := by
    simp only [sandboxMsgHdrlen, sandboxAllocSize] at h
    omega
  rw [listBuf, Nat.mod_eq_of_lt hlt, if_neg (Nat.lt_irrefl _)]

/-! ## Which requests get one -/

theorem written_dispatchApply (env : ServeEnv img) (len : BitVec 32) (input : List Byte)
    (s : Sandbox) : ∃ ccode, (dispatchApply env len input s).written =
      (env.reply sandboxMsgApplyrsp (storeCcode ccode)).2 := by
  rw [dispatchApply]
  split_ifs with hlarge hcalloc
  · exact ⟨_, rfl⟩
  · exact ⟨_, rfl⟩
  · cases readn input (len - BitVec.ofNat 32 sandboxMsgHdrlen).toNat with
    | mk patchBuf rest =>
        cases patchBuf with
        | none => exact ⟨_, rfl⟩
        | some patchBuf => exact ⟨_, rfl⟩

theorem written_dispatchUndoReq (env : ServeEnv img) (len : BitVec 32) (input : List Byte)
    (s : Sandbox) : ∃ ccode, (dispatchUndoReq env len input s).written =
      (env.reply sandboxMsgUndoRep (storeCcode ccode)).2 := by
  rw [dispatchUndoReq]
  split_ifs with hlen
  · exact ⟨_, rfl⟩
  · cases readn input shaDigestLength with
    | mk sha1 rest =>
        cases sha1 with
        | none => exact ⟨_, rfl⟩
        | some sha1 => exact ⟨_, rfl⟩

/-- A reply that carries a status. -/
theorem reply_storeCcode (hwrites : env.writes = true) (id : BitVec 16) (ccode : Int) :
    ∃ msg, sendRrBuf id [storeCcode ccode] = some msg ∧
      env.reply id (storeCcode ccode) = (sandboxOk, [msg]) :=
  reply_of_fits hwrites (by rw [length_storeCcode]; decide) id

/-- The status of an undo request is that of its reply. -/
theorem dispatchUndoReq_ccode (hwrites : env.writes = true) (len : BitVec 32) (input : List Byte) :
    (dispatchUndoReq env len input s).ccode = sandboxOk := by
  have hreply : ∀ ccode, (env.reply sandboxMsgUndoRep (storeCcode ccode)).1 = sandboxOk := by
    intro ccode
    obtain ⟨msg, -, hmsg⟩ := reply_storeCcode hwrites sandboxMsgUndoRep ccode
    rw [hmsg]
  rw [dispatchUndoReq]
  split_ifs with hlen
  · exact hreply _
  · cases readn input shaDigestLength with
    | mk sha1 rest =>
        cases sha1 with
        | none => exact hreply _
        | some sha1 => exact hreply _

/-- The list reply that fits. -/
theorem dispatchList_of_fits {s : Sandbox} (hmem : ¬(s.lpPatchHead ≠ [] ∧ env.calloc = false))
    (hwrites : env.writes = true) (hfit : ListFits s.lpPatchHead.length) (input : List Byte) :
    ∃ msg, sendRrBuf sandboxMsgListrsp [storeList s.lpPatchHead] = some msg ∧
      dispatchList env input s = ⟨sandboxOk, s, input, [msg], none⟩ := by
  have hbuf := listBuf_of_fits hfit
  rw [ListFits, ← length_storeList] at hfit
  obtain ⟨msg, hmsg, hreply⟩ := @reply_of_fits img env _ hwrites hfit sandboxMsgListrsp
  refine ⟨msg, hmsg, ?_⟩
  rw [dispatchList, if_neg hmem, hbuf]
  simp only [hreply]

/-- The list reply that does not. -/
theorem dispatchList_of_not_fits {s : Sandbox} (hfit : ¬ListFits s.lpPatchHead.length)
    (input : List Byte) : (dispatchList env input s).written = [] ∧
      (dispatchList env input s).ccode < 0 ∧ (dispatchList env input s).sandbox = s := by
  rw [dispatchList]
  split_ifs with hmem
  · exact ⟨rfl, by simp, rfl⟩
  · rw [listBuf]
    split_ifs with hover
    · exact ⟨rfl, by simp, rfl⟩
    · -- the length that does not wrap leaves room for the header
      have hlt : sandboxMsgHdrlen + (storeList s.lpPatchHead).length < 2 ^ 32 := by
        have hmod := Nat.mod_lt (storeList s.lpPatchHead).length (Nat.two_pow_pos 32)
        rw [length_storeList] at hover hmod ⊢
        simp only [sandboxMsgHdrlen, sizeofListResponse] at *
        omega
      rw [ListFits, ← length_storeList] at hfit
      have hreply := @reply_of_not_fits img env sandboxMsgListrsp _ hlt hfit
      simp only [hreply]
      exact ⟨trivial, by simp, trivial⟩

/-- A list request is answered with the list, or not at all. -/
theorem dispatchList_cases (env : ServeEnv img) (input : List Byte) (s : Sandbox) :
    ((dispatchList env input s).written = [] ∧ (dispatchList env input s).sandbox = s) ∨
      ListFits s.lpPatchHead.length ∧
        ∃ msg, sendRrBuf sandboxMsgListrsp [storeList s.lpPatchHead] = some msg ∧
          dispatchList env input s = ⟨sandboxOk, s, input, [msg], none⟩ := by
  by_cases hfit : ListFits s.lpPatchHead.length
  · by_cases hmem : s.lpPatchHead ≠ [] ∧ env.calloc = false
    · rw [dispatchList, if_pos hmem]
      exact .inl ⟨rfl, rfl⟩
    · by_cases hwrites : env.writes = true
      · exact .inr ⟨hfit, dispatchList_of_fits hmem hwrites hfit input⟩
      · rw [dispatchList, if_neg hmem, listBuf_of_fits hfit]
        simp only [reply_of_not_writes hwrites]
        exact .inl ⟨trivial, trivial⟩
  · have hnone := @dispatchList_of_not_fits img env s hfit input
    exact .inl ⟨hnone.1, hnone.2.2⟩

theorem length_buildInfoBuffer (info : List Byte) :
    sandboxMsgHdrlen + (buildInfoBuffer info).length ≤ sandboxAllocSize := by
  have hle : (buildInfoBuffer info).length ≤ sandboxMsgBldBufsize - 1 := List.length_take_le _ _
  exact (Nat.add_le_add_left hle _).trans (by decide)

theorem ne_zero_of_mem_buildInfoBuffer {info : List Byte} {b : Byte}
    (h : b ∈ buildInfoBuffer info) : b ≠ 0 := by
  have hmem := List.mem_takeWhile_imp (List.mem_of_mem_take h)
  simpa using hmem

theorem dispatchGetbld_eq (hwrites : env.writes = true) (input : List Byte) (s : Sandbox) :
    ∃ msg, sendRrBuf sandboxMsgGetBldrsp [buildInfoBuffer env.buildInfo] = some msg ∧
      dispatchGetbld env input s = ⟨sandboxOk, s, input, [msg], none⟩ := by
  obtain ⟨msg, hmsg, hreply⟩ :=
    @reply_of_fits img env _ hwrites (length_buildInfoBuffer env.buildInfo) sandboxMsgGetBldrsp
  exact ⟨msg, hmsg, by rw [dispatchGetbld, hreply]⟩

/-- A request for the build information is answered with it, or not at all. -/
theorem dispatchGetbld_cases (env : ServeEnv img) (input : List Byte) (s : Sandbox) :
    ((dispatchGetbld env input s).written = [] ∧ (dispatchGetbld env input s).sandbox = s) ∨
      ∃ msg, sendRrBuf sandboxMsgGetBldrsp [buildInfoBuffer env.buildInfo] = some msg ∧
        dispatchGetbld env input s = ⟨sandboxOk, s, input, [msg], none⟩ := by
  by_cases hwrites : env.writes = true
  · exact .inr (dispatchGetbld_eq hwrites input s)
  · rw [dispatchGetbld, reply_of_not_writes hwrites]
    exact .inl ⟨rfl, rfl⟩

/-- The list reply: one, or none when it is too long. -/
theorem dispatchList_replies (hcalloc : env.calloc = true) (hwrites : env.writes = true)
    (input : List Byte) (s : Sandbox) :
    (∃ msg, (dispatchList env input s).written = [msg] ∧ TakenAs sandboxMsgListrsp msg) ↔
      ListFits s.lpPatchHead.length := by
  constructor
  · intro ⟨msg, hmsg, _⟩
    by_contra hfit
    rw [(dispatchList_of_not_fits hfit input).1] at hmsg
    exact List.cons_ne_nil _ _ hmsg.symm
  · intro hfit
    obtain ⟨msg, hmsg, hread⟩ := dispatchList_of_fits (by simp [hcalloc]) hwrites hfit input
    rw [ListFits, ← length_storeList] at hfit
    exact ⟨msg, by rw [hread],
      takenAs_of_sent hmsg hfit (by decide) (by decide) (takesPayload_listrsp _)⟩

/-- **Which requests get their reply.** A request whose header passes the checks is answered
with exactly one message, of the id that follows its own, which the client takes; only a list
that is too long for a message is not sent. -/
theorem replies_iff (env : ServeEnv img) (eof : Bool) (hbuf payload : List Byte) (s : Sandbox)
    (hcalloc : env.calloc = true) (hwrites : env.writes = true)
    (hlen : hbuf.length = sandboxMsgHdrlen) (hok : headerError hbuf = sandboxOk)
    (hreq : IsRequest (msgGetId hbuf)) :
    (∃ msg, (readSandboxMessageHeader env eof (hbuf ++ payload) s).written = [msg] ∧
        TakenAs (msgGetId hbuf + 1) msg) ↔
      (msgGetId hbuf = sandboxMsgList → ListFits s.lpPatchHead.length) := by
  rw [readSandboxMessageHeader_of_ok hlen hok]
  generalize msgGetLen hbuf = len
  rcases hreq with hid | hid | hid | hid <;> rw [hid]
  · obtain ⟨ccode, hwritten⟩ := written_dispatchApply env len payload s
    obtain ⟨msg, hmsg, hreply⟩ := reply_storeCcode hwrites sandboxMsgApplyrsp ccode
    refine iff_of_true ⟨msg, by rw [dispatch_apply, hwritten, hreply], ?_⟩
      fun h => absurd h (by decide)
    exact takenAs_of_sent hmsg (length_storeCcode ccode ▸ by decide) (by decide) (by decide)
      (takesPayload_applyrsp (length_storeCcode ccode))
  · rw [dispatch_list, forall_prop_of_true rfl]
    exact dispatchList_replies hcalloc hwrites payload s
  · obtain ⟨msg, hmsg, hread⟩ := dispatchGetbld_eq hwrites payload s
    refine iff_of_true ⟨msg, by rw [dispatch_getBld, hread], ?_⟩ fun h => absurd h (by decide)
    exact takenAs_of_sent hmsg (length_buildInfoBuffer _) (by decide) (by decide)
      (takesPayload_getBldrsp _)
  · obtain ⟨ccode, hwritten⟩ := written_dispatchUndoReq env len payload s
    obtain ⟨msg, hmsg, hreply⟩ := reply_storeCcode hwrites sandboxMsgUndoRep ccode
    refine iff_of_true ⟨msg, by rw [dispatch_undoReq, hwritten, hreply], ?_⟩
      fun h => absurd h (by decide)
    exact takenAs_of_sent hmsg (length_storeCcode ccode ▸ by decide) (by decide) (by decide)
      (takesPayload_undoRep (length_storeCcode ccode))

/-- A system that refuses nothing. -/
def sampleServeEnv : ServeEnv sampleImage := ⟨sampleEnv, true, true, fun _ => 0, []⟩

/-- The message of `sandbox_list_patches`. -/
def listMessage : List Byte := bareMessage sandboxMsgList

theorem headerError_listMessage : headerError listMessage = sandboxOk := by decide +kernel

theorem msgGetId_listMessage : msgGetId listMessage = sandboxMsgList := by decide +kernel

theorem replies_iff_listMessage :
    (∃ msg, (readSandboxMessageHeader sampleServeEnv true (listMessage ++ [1, 2, 3])
        (Sandbox.init (fun _ => 0) fun _ => 0)).written = [msg] ∧
        TakenAs (msgGetId listMessage + 1) msg) ↔
      (msgGetId listMessage = sandboxMsgList → ListFits 0) :=
  replies_iff sampleServeEnv true listMessage [1, 2, 3] (Sandbox.init (fun _ => 0) fun _ => 0)
    rfl rfl rfl headerError_listMessage (.inr (.inl msgGetId_listMessage))

/-- The reply to the message for a list. -/
theorem listMessage_replies (s : Sandbox) :
    (∃ msg, (readSandboxMessageHeader sampleServeEnv true listMessage s).written = [msg] ∧
        TakenAs (msgGetId listMessage + 1) msg) ↔ ListFits s.lpPatchHead.length := by
  have hread := @readSandboxMessageHeader_of_ok _ sampleServeEnv true s listMessage rfl
    headerError_listMessage []
  rw [List.append_nil, msgGetId_listMessage, dispatch_list] at hread
  rw [hread, msgGetId_listMessage]
  exact dispatchList_replies rfl rfl [] s

/-- A server with 2979 live patches, none of which has a blob or a write. -/
def manyPatches : Sandbox where
  text := fun _ => 0
  lpPatchHead := List.replicate 2979 ⟨⟨0, 0⟩, fun _ => 0, 0, [], 0, [], fun _ => 0⟩
  maps := MapState.init fun _ => 0

theorem length_manyPatches : manyPatches.lpPatchHead.length = 2979 := List.length_replicate

/-- Its list is not sent. -/
theorem list_too_long : ¬∃ msg,
    (readSandboxMessageHeader sampleServeEnv true listMessage manyPatches).written = [msg] ∧
      TakenAs (msgGetId listMessage + 1) msg := by
  rw [listMessage_replies, length_manyPatches, listFits_iff]
  decide

end Patchbox
