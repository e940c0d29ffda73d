import Patchbox.Exchange

/-!
# Sessions in step

Along a session that is granted, the server reads exactly what the client has sent and the other
way round, until there is an undo request.

## Main definitions

* `InStep` — the server and the client read what the other has sent.
* `inStep_iff` — when they do, along a session.
-/

namespace Patchbox
open Lib

variable {img : Image}

/-- A request, and what the system answers while it is served. -/
structure Turn (img : Image) where
  env : ExchangeEnv img
  request : ClientRequest

/-- The server's state and the connection after one turn. -/
def turnStep (q : Sandbox × Link) (t : Turn img) : Sandbox × Link :=
  ((exchange t.env q.1 q.2 t.request).1, (exchange t.env q.1 q.2 t.request).2.1)

/-- The server's call of `read_sandbox_message_header` starts with the message of this turn and
takes as many bytes as its header announces, and the client's call starts with the reply to this
message and takes the whole of it. -/
def InStep (q : Sandbox × Link) (t : Turn img) : Prop :=
  q.2.toServer = [] ∧ q.2.toClient = [] ∧ ∃ msg reply, t.request.message = some msg ∧
    (msgGetLen (msg.take sandboxMsgHdrlen)).toNat = msg.length ∧
    (serveMessage t.env q.1 q.2 msg).rest = [] ∧
    (serveMessage t.env q.1 q.2 msg).written = [reply] ∧
    msgGetId (reply.take sandboxMsgHdrlen) = t.request.id + 1 ∧
    (readAnswer t.env q.1 q.2 [reply]).rest = []

/-- The system refuses nothing, and the server accepts the request: the list fits in a message, and
an APPLY or an undo request, which has the length its dispatcher wants, is answered without an
error. -/
def Granted (q : Sandbox × Link) (t : Turn img) : Prop :=
  t.env.sends = true ∧ t.env.server.calloc = true ∧ t.env.server.writes = true ∧
    t.env.client.calloc = true ∧
    match t.request with
    | .getBld => True
    | .list => ListFits q.1.lpPatchHead.length
    | .apply buf => sandboxMsgHdrlen + buf.length ≤ sandboxAllocSize ∧
        0 ≤ (xenlpApply4 img t.env.server.apply (fromList buf t.env.server.beyond) q.1).ccode
    | .undo buf => buf.length = sizeofXenlpHash ∧
        0 ≤ (xenlpUndo4 (fromList (buf.take shaDigestLength) t.env.server.beyond) q.1).ccode

/-- The request is no undo request. -/
def Turn.NotUndo (t : Turn img) : Prop := ∀ buf, t.request ≠ .undo buf

variable {q : Sandbox × Link} {t : Turn img} {left : ℕ}

/-- Its turn is in step, and the next one can be. -/
theorem Answered.inStep {b : List Byte} {s' : Sandbox} {ans : Answer}
    (h : Answered t.env q.1 q.2 t.request b s' ans) (hl : q.2.Serving (left + 1))
    (hsends : t.env.sends = true) : InStep q t ∧ (turnStep q t).2.Serving left := by
  obtain ⟨l', hexchange, hl'⟩ := h.exchange hl hsends
  obtain ⟨msg, reply, ccode, s'', hmsg, hlen, hreply, hblen, -, hserved, hread⟩ := h
  constructor
  · refine ⟨hl.clean.toServer, hl.clean.toClient, msg, reply, hmsg, ?_, by rw [hserved],
      by rw [hserved], ?_, by rw [hread]⟩
    · exact (sendRrBuf_eq_some hmsg t.request.bufs_length hlen).2.2.2.1
    · exact (sendRrBuf_eq_some hreply le_rfl (by rwa [List.flatten_singleton])).2.2.1
  · rw [turnStep, hexchange]
    exact hl'

/-- **One granted turn that is no undo request** is in step, and the next one can be. -/
theorem inStep_of_granted (hl : q.2.Serving (left + 1)) (hgranted : Granted q t)
    (hundo : t.NotUndo) : InStep q t ∧ (turnStep q t).2.Serving left := by
  obtain ⟨hsends, hscalloc, hwrites, hccalloc, hrequest⟩ := hgranted
  cases hr : t.request with
  | getBld =>
      have hanswered := @answered_getBld img t.env q.1 q.2 hl.clean hwrites hccalloc
      rw [← hr] at hanswered
      exact hanswered.inStep hl hsends
  | list =>
      rw [hr] at hrequest
      have hanswered := answered_list hl.clean hscalloc hwrites hccalloc hrequest
      rw [← hr] at hanswered
      exact hanswered.inStep hl hsends
  | apply buf =>
      rw [hr] at hrequest
      obtain ⟨hfit, hcode⟩ := hrequest
      cases hout : xenlpApply4 img t.env.server.apply (fromList buf t.env.server.beyond) q.1 with
      | mk ccode s' log =>
        rw [hout] at hcode
        have hanswered := answered_apply hl.clean hscalloc hwrites hfit hcode hout
        rw [← hr] at hanswered
        exact hanswered.inStep hl hsends
  | undo buf => exact absurd hr (hundo buf)

/-- **A granted undo request is never in step.** The server leaves the four bytes of padding. -/
theorem not_inStep_of_undo (hgranted : Granted q t) {buf : List Byte}
    (hundo : t.request = .undo buf) : ¬InStep q t := by
  rintro ⟨htoServer, -, msg, reply, hmsg, -, hrest, -⟩
  obtain ⟨-, -, -, -, hrequest⟩ := hgranted
  rw [hundo] at hrequest hmsg
  obtain ⟨hbuf, -⟩ := hrequest
  have hflat : (ClientRequest.undo buf).bufs.flatten = buf := List.flatten_singleton
  obtain ⟨len, htotal, hserved⟩ := @serveMessage_eq img t.env q.1 q.2 _ htoServer _ hmsg
    (by rw [hflat, hbuf]; decide)
  rw [hflat, hbuf] at htotal
  have hlong : shaDigestLength ≤ buf.length := by
    rw [hbuf]
    decide
  have hsize : ¬len.toNat ≠ sandboxMsgHdrlen + 4 + shaDigestLength := fun hne => hne htotal
  rw [hserved, hflat, ClientRequest.id, dispatch_undoReq, dispatchUndoReq, if_neg hsize,
    readn_of_le hlong] at hrest
  have hdrop := congrArg List.length hrest
  rw [List.length_drop, hbuf] at hdrop
  exact absurd hdrop (by decide)

/-- **Client and server stay in step when the session has no undo request, and only then.** -/
theorem inStep_iff (s : Sandbox) (steps : List (Turn img))
    (hlimit : steps.length ≤ sandboxMsgSessionLimit)
    (hgranted : Along turnStep Granted (s, Link.fresh) steps) :
    Along turnStep InStep (s, Link.fresh) steps ↔ ∀ t ∈ steps, t.NotUndo := by
  have hserving : Link.fresh.Serving sandboxMsgSessionLimit := ⟨Link.clean_fresh, rfl, rfl⟩
  obtain ⟨spare, hspare⟩ := Nat.exists_eq_add_of_le' hlimit
  rw [hspare] at hserving
  clear hlimit hspare
  generalize Link.fresh = l at hgranted hserving
  induction steps generalizing s l with
  | nil => simp
  | cons t steps ih =>
      obtain ⟨hhead, htail⟩ := hgranted
      rw [List.length_cons, ← Nat.add_assoc] at hserving
      constructor
      · rintro ⟨hin, hrest⟩
        have hundo : t.NotUndo := fun buf hr => not_inStep_of_undo hhead hr hin
        have hnext := (inStep_of_granted hserving hhead hundo).2
        have hall := (ih _ _ htail hnext).mp hrest
        intro t' ht'
        rcases List.mem_cons.mp ht' with rfl | ht'
        · exact hundo
        · exact hall t' ht'
      · intro hall
        obtain ⟨hin, hnext⟩ := inStep_of_granted hserving hhead (hall t List.mem_cons_self)
        exact ⟨hin, (ih _ _ htail hnext).mpr fun t' ht' => hall t' (List.mem_cons_of_mem _ ht')⟩

/-- Nothing is refused. -/
def sampleExchangeEnv : ExchangeEnv sampleImage := ⟨true, sampleServeEnv, sampleServeEnv⟩

/-- The client asks for the build information and for the list, has a patch applied, and asks for
the list again. -/
def mixedSession : List (Turn sampleImage) :=
  [⟨sampleExchangeEnv, .getBld⟩, ⟨sampleExchangeEnv, .list⟩,
    ⟨sampleExchangeEnv, .apply (sampleHeader 0 0 ++ sampleSections)⟩, ⟨sampleExchangeEnv, .list⟩]

theorem granted_mixedSession :
    Along turnStep Granted (Sandbox.init (fun _ => 0) fun _ => 0, Link.fresh) mixedSession :=
  ⟨⟨rfl, rfl, rfl, rfl, trivial⟩, ⟨rfl, rfl, rfl, rfl, listFits_iff.mpr (by decide +kernel)⟩,
    ⟨rfl, rfl, rfl, rfl, by decide +kernel, by decide +kernel⟩,
    ⟨rfl, rfl, rfl, rfl, listFits_iff.mpr (by decide +kernel)⟩, trivial⟩

/-- All four turns are in step, and the last list has the patch. -/
theorem inStep_iff_mixedSession :
    Along turnStep Granted (Sandbox.init (fun _ => 0) fun _ => 0, Link.fresh) mixedSession ∧
      Along turnStep InStep (Sandbox.init (fun _ => 0) fun _ => 0, Link.fresh) mixedSession ∧
      (run turnStep (Sandbox.init (fun _ => 0) fun _ => 0, Link.fresh)
        mixedSession).1.lpPatchHead.length = 1 := by
  refine ⟨granted_mixedSession,
    (inStep_iff _ mixedSession (by decide) granted_mixedSession).mpr ?_, by decide +kernel⟩
  intro t ht buf hundo
  simp only [mixedSession, List.mem_cons, List.not_mem_nil, or_false] at ht
  rcases ht with rfl | rfl | rfl | rfl <;> cases hundo

/-- A server with one live patch, which has a write. -/
def oneLiveWrite : Sandbox where
  text := fun _ => 0
  lpPatchHead := [⟨⟨0, 0⟩, fun _ => 0, 1, [⟨0x401000, fun _ => 0, 0, 0⟩], 0, [], fun _ => 0⟩]
  maps := MapState.init fun _ => 0

/-- The buffer of `_cmd_undo3`: the hash, and the padding of `struct xenlp_hash`. -/
def undoBuffer : List Byte := List.replicate sizeofXenlpHash 0

/-- The patch is undone, and four bytes of the request stay in front of the next one. -/
theorem undo_leaves_padding :
    ([⟨sampleExchangeEnv, .undo undoBuffer⟩] : List (Turn sampleImage)).length ≤
        sandboxMsgSessionLimit ∧
      Along turnStep Granted (oneLiveWrite, Link.fresh)
        ([⟨sampleExchangeEnv, .undo undoBuffer⟩] : List (Turn sampleImage)) ∧
      ¬Along turnStep InStep (oneLiveWrite, Link.fresh)
        ([⟨sampleExchangeEnv, .undo undoBuffer⟩] : List (Turn sampleImage)) := by
  have hcode : 0 ≤ (xenlpUndo4 (fromList (undoBuffer.take shaDigestLength) fun _ => 0)
      oneLiveWrite).ccode := by decide +kernel
  have hgranted : Granted (oneLiveWrite, Link.fresh)
      (⟨sampleExchangeEnv, .undo undoBuffer⟩ : Turn sampleImage) :=
    ⟨rfl, rfl, rfl, rfl, rfl, hcode⟩
  exact ⟨by decide, ⟨hgranted, trivial⟩, fun h => not_inStep_of_undo hgranted rfl h.1⟩

end Patchbox
