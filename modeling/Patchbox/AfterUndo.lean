import Patchbox.InStep
import Patchbox.Invocations

/-!
# What an undo request leaves

The dispatcher takes twenty bytes of an undo request that has 24, and four stay in the stream. The
next message is read from there and its header is wrong, so that the server's thread returns and
no client is served any more. No invocation of the client asks for it: its undo request is its
last.

## Main definitions

* `GoesOn` — something comes behind an undo request.
* `returned_iff` — when the server's thread returns.
* `undo_last` — what comes behind the undo request of an invocation.
-/

namespace Patchbox
open Lib

variable {img : Image} {e : ExchangeEnv img} {s : Sandbox} {l : Link} {r : ClientRequest}
  {q : Sandbox × Link} {t : Turn img} {left : ℕ}

/-! ## The message behind an undo request -/

/-- Four bytes are unread in front of what comes next. -/
structure Link.Padded (l : Link) (left : ℕ) : Prop where
  padding : l.toServer.length = 4
  returned : l.returned = false
  left_eq : l.left = left

/-- **A granted undo request** leaves its padding. -/
theorem padded_of_undo (hl : q.2.Serving (left + 1)) (hgranted : Granted q t) {buf : List Byte}
    (hundo : t.request = .undo buf) : (turnStep q t).2.Padded left := by
  obtain ⟨hsends, -, hwrites, -, hrequest⟩ := hgranted
  rw [hundo] at hrequest
  obtain ⟨hbuf, -⟩ := hrequest
  have hflat : (ClientRequest.undo buf).bufs.flatten = buf := List.flatten_singleton
  have hlen : sandboxMsgHdrlen + (ClientRequest.undo buf).bufs.flatten.length < 2 ^ 32 := by
    rw [hflat, hbuf]
    decide
  obtain ⟨msg, hmsg⟩ := Option.isSome_iff_exists.mp
    ((sendRrBuf_isSome (ClientRequest.bufs_length (.undo buf)) hlen).mpr (by
      rw [hflat, hbuf]
      decide))
  have hleft : 0 < q.2.left := by
    rw [hl.left_eq]
    exact Nat.succ_pos left
  obtain ⟨len, htotal, hserved⟩ :=
    @serveMessage_eq img t.env q.1 q.2 _ hl.clean.toServer _ hmsg hlen
  have hsize : ¬len.toNat ≠ sandboxMsgHdrlen + 4 + shaDigestLength := by
    rw [hflat, hbuf] at htotal
    exact not_not.mpr htotal
  have hlong : shaDigestLength ≤ buf.length := by
    rw [hbuf]
    decide
  rw [hflat, ClientRequest.id, dispatch_undoReq, dispatchUndoReq, if_neg hsize,
    readn_of_le hlong] at hserved
  dsimp only at hserved
  generalize hout : xenlpUndo4 _ q.1 = out at hserved
  obtain ⟨reply, hreply, hsent⟩ := reply_storeCcode hwrites sandboxMsgUndoRep out.ccode
  rw [hsent] at hserved
  have hread := @readAnswer_storeCcode img t.env q.1 q.2 hl.clean.toClient _ _ _ (.inr rfl) hreply
  rw [turnStep, hundo, exchange_of_serving hsends hmsg hl.returned hleft,
    deliver_of_reply hserved hread]
  refine ⟨?_, rfl, ?_⟩
  · have hdrop : (buf.drop shaDigestLength).length = sizeofXenlpHash - shaDigestLength := by
      rw [List.length_drop, hbuf]
    exact hdrop
  · dsimp only
    rw [hl.left_eq, Nat.add_sub_cancel]

/-- The padding in front of a message is no header. -/
theorem headerError_of_padding {padding msg : List Byte} {id : BitVec 16} {bufs : List (List Byte)}
    (hpadding : padding.length = 4) (hmsg : sendRrBuf id bufs = some msg) :
    headerError ((padding ++ msg).take sandboxMsgHdrlen) ≠ sandboxOk := by
  obtain ⟨rest, rfl⟩ := sendRrBuf_front hmsg
  obtain ⟨a, b, c, d, rfl⟩ : ∃ a b c d, padding = [a, b, c, d] := by
    match padding, hpadding with
    | [a, b, c, d], _ => exact ⟨a, b, c, d, rfl⟩
  have hlt : 5 < (([a, b, c, d] ++ ([0x53, 0x41, 0x4e, 0x44, 1] ++ rest)).take
      sandboxMsgHdrlen).length := by
    simp only [List.length_take, List.length_append, List.length_cons, List.length_nil,
      sandboxMsgHdrlen]
    omega
  refine headerError_of_sixth ?_
  rw [bytesOf, fromList_lt hlt, List.getElem_take]
  -- the second byte of the magic number
  exact (by decide : (0x41 : Byte) ≠ 0)

/-- The errors of a header are none of a stream that was closed. -/
theorem headerError_cases (hbuf : List Byte) :
    headerError hbuf = sandboxOk ∨ headerError hbuf < 0 ∧ headerError hbuf ≠ sandboxErrClosed := by
  rw [headerError]
  split_ifs
  · exact .inr (by decide)
  · exact .inr (by decide)
  · exact .inr (by decide)
  · exact .inr (by decide)
  · exact .inl rfl

/-- A message has a header. -/
theorem length_message_ge {msg : List Byte} (hmsg : r.message = some msg) :
    sandboxMsgHdrlen ≤ msg.length := by
  obtain ⟨first, hfirst, hfields⟩ := storeFields_eq r.bufs_length
  rw [ClientRequest.message, sendRrBuf] at hmsg
  split_ifs at hmsg
  rw [← Option.some.inj hmsg, hfields, List.length_append, List.length_append,
    length_storeMsgHeader, hfirst, ← Nat.add_assoc]
  exact Nat.le_add_right sandboxMsgHdrlen _

/-- **The next message** makes the thread return. -/
theorem returned_of_padded (hl : l.Padded (left + 1)) (hsends : e.sends = true) {msg : List Byte}
    (hmsg : r.message = some msg) : (exchange e s l r).2.1.returned = true := by
  have hleft : 0 < l.left := by
    rw [hl.left_eq]
    exact Nat.succ_pos left
  have hwrong := headerError_of_padding hl.padding hmsg
  have hfailed := (headerError_cases _).resolve_left hwrong
  have hlong : sandboxMsgHdrlen ≤ (l.toServer ++ msg).length := by
    rw [List.length_append]
    exact (length_message_ge hmsg).trans (Nat.le_add_left _ _)
  have hserved := @readSandboxMessageHeader_of_le img e.server false s _ hlong
  rw [if_pos hwrong] at hserved
  rw [exchange_of_serving hsends hmsg hl.returned hleft, deliver, serveMessage, hserved]
  exact decide_eq_true hfailed

/-- A request that is granted can be sent. -/
theorem message_of_granted (hgranted : Granted q t) : ∃ msg, t.request.message = some msg := by
  obtain ⟨-, -, -, -, hrequest⟩ := hgranted
  refine Option.isSome_iff_exists.mp ?_
  cases hr : t.request with
  | getBld => rfl
  | list => rfl
  | apply buf =>
      rw [hr] at hrequest
      have hfit : sandboxMsgHdrlen + (ClientRequest.apply buf).bufs.flatten.length ≤
          sandboxAllocSize := by
        rw [ClientRequest.bufs, List.flatten_singleton]
        exact hrequest.1
      exact (sendRrBuf_isSome (ClientRequest.bufs_length (.apply buf))
        (hfit.trans_lt (by decide))).mpr hfit
  | undo buf =>
      rw [hr] at hrequest
      have hfit : sandboxMsgHdrlen + (ClientRequest.undo buf).bufs.flatten.length ≤
          sandboxAllocSize := by
        rw [ClientRequest.bufs, List.flatten_singleton, hrequest.1]
        decide
      exact (sendRrBuf_isSome (ClientRequest.bufs_length (.undo buf))
        (hfit.trans_lt (by decide))).mpr hfit

/-! ## The thread -/

/-- Something comes behind an undo request. -/
def GoesOn (steps : List (Turn img)) : Prop :=
  ∃ before t after, steps = before ++ t :: after ∧ ¬t.NotUndo ∧ after ≠ []

theorem goesOn_cons_of_notUndo {steps : List (Turn img)} (h : t.NotUndo) :
    GoesOn (t :: steps) ↔ GoesOn steps := by
  constructor
  · rintro ⟨before, u, after, heq, hundo, hafter⟩
    cases before with
    | nil =>
        obtain ⟨rfl, -⟩ := List.cons.inj heq
        exact absurd h hundo
    | cons _ before => exact ⟨before, u, after, (List.cons.inj heq).2, hundo, hafter⟩
  · rintro ⟨before, u, after, rfl, hundo, hafter⟩
    exact ⟨t :: before, u, after, rfl, hundo, hafter⟩

/-- A thread that has returned does not come back. -/
theorem returned_run (h : q.2.returned = true) (steps : List (Turn img)) :
    (run turnStep q steps).2.returned = true := by
  induction steps generalizing q with
  | nil => exact h
  | cons t steps ih => exact ih (exchange_of_returned h).2

/-- **When the server's thread returns.** Along a session in which the system refuses nothing and
the server accepts the requests, it does so exactly when something comes behind an undo
request. -/
theorem returned_iff (s : Sandbox) (steps : List (Turn img))
    (hlimit : steps.length ≤ sandboxMsgSessionLimit)
    (hgranted : Along turnStep Granted (s, Link.fresh) steps) :
    (run turnStep (s, Link.fresh) steps).2.returned = true ↔ GoesOn steps := by
  have hserving : Link.fresh.Serving sandboxMsgSessionLimit := ⟨Link.clean_fresh, rfl, rfl⟩
  obtain ⟨spare, hspare⟩ := Nat.exists_eq_add_of_le' hlimit
  rw [hspare] at hserving
  clear hlimit hspare
  generalize Link.fresh = l at hgranted hserving
  induction steps generalizing s l with
  | nil =>
      rw [run_nil, hserving.returned]
      exact iff_of_false Bool.false_ne_true fun ⟨_, _, _, heq, _⟩ => by simp at heq
  | cons t steps ih =>
      obtain ⟨hhead, htail⟩ := hgranted
      rw [List.length_cons, ← Nat.add_assoc] at hserving
      rw [run_cons]
      by_cases hundo : t.NotUndo
      · rw [goesOn_cons_of_notUndo hundo]
        exact ih _ _ htail (inStep_of_granted hserving hhead hundo).2
      · obtain ⟨buf, hbuf⟩ := not_forall_not.mp hundo
        have hpadded := padded_of_undo hserving hhead hbuf
        cases steps with
        | nil =>
            rw [run_nil, hpadded.returned]
            refine iff_of_false Bool.false_ne_true ?_
            rintro ⟨before, u, after, heq, -, hafter⟩
            cases before with
            | nil => exact hafter (List.cons.inj heq).2.symm
            | cons _ before => simp at heq
        | cons t' steps =>
            refine iff_of_true ?_ ⟨[], t, t' :: steps, rfl, hundo, List.cons_ne_nil _ _⟩
            obtain ⟨msg, hmsg⟩ := message_of_granted htail.1
            rw [List.length_cons, ← Nat.add_assoc] at hpadded
            exact returned_run (returned_of_padded hpadded htail.1.1 hmsg) steps

/-- The patch that a session has applied is undone, and the client asks for the list again. -/
def undoneSession : List (Turn sampleImage) :=
  mixedSession ++ [⟨sampleExchangeEnv, .undo undoBuffer⟩, ⟨sampleExchangeEnv, .list⟩]

theorem granted_undoneSession :
    Along turnStep Granted (Sandbox.init (fun _ => 0) fun _ => 0, Link.fresh) undoneSession := by
  refine (along_append _ _).mpr ⟨granted_mixedSession, ⟨rfl, rfl, rfl, rfl, rfl, ?_⟩,
    ⟨rfl, rfl, rfl, rfl, listFits_iff.mpr ?_⟩, trivial⟩
  · decide +kernel
  · decide +kernel

/-- The patch is taken out, and the list request behind makes the thread return. -/
theorem returned_iff_undoneSession :
    Along turnStep Granted (Sandbox.init (fun _ => 0) fun _ => 0, Link.fresh) undoneSession ∧
      (run turnStep (Sandbox.init (fun _ => 0) fun _ => 0, Link.fresh)
        undoneSession).1.lpPatchHead = [] ∧
      (run turnStep (Sandbox.init (fun _ => 0) fun _ => 0, Link.fresh)
        undoneSession).2.returned = true := by
  refine ⟨granted_undoneSession, by decide +kernel,
    (returned_iff _ undoneSession (by decide) granted_undoneSession).mpr ?_⟩
  exact ⟨mixedSession, _, _, rfl, fun h => h undoBuffer rfl, List.cons_ne_nil _ _⟩

/-! ## The last request of an invocation -/

/-- An undo request. -/
def IsUndo (r : ClientRequest) : Prop := ∃ buf, r = .undo buf

theorem Ordinary.not_isUndo (h : Ordinary r) : ¬IsUndo r := by
  rintro ⟨buf, rfl⟩
  exact h

theorem ends_cmdUndo (behind sha1 : List Byte) : (cmdUndo behind sha1).Ends IsUndo := by
  rw [cmdUndo]
  split_ifs
  · trivial
  · refine Client.Ends.bind ?_ fun r => ?_
    · rw [cmdUndo3]
      refine ((asks_findPatch3 _).mono (fun _ h => h.ordinary.not_isUndo) fun _ h => h).bind_ends
        fun r => ?_
      rcases r with _ | _ | pi
      · trivial
      · trivial
      · intro ans
        dsimp only
        split_ifs
        · exact ⟨fun _ => trivial, trivial⟩
        · exact ⟨fun _ => trivial, trivial⟩
    · split_ifs <;> trivial
  · trivial

/-- **An invocation ends with its undo request.** -/
theorem ends_main (o : Options) (a : Surroundings) (hash : List Byte → Bytes shaDigestLength) :
    (o.main a hash).Ends IsUndo := by
  have hlooks : ∀ {β : Type} {c : Command β}, c.Asks Looks (fun _ => True) →
      c.Asks (fun r => ¬IsUndo r) fun _ => True := fun h =>
    h.mono (fun _ h => h.ordinary.not_isUndo) fun _ h => h
  rw [Options.main]
  split_ifs
  · trivial
  · refine (hlooks o.asks_info).bind_ends fun strings => ?_
    refine (hlooks o.asks_list).bind_ends fun _ => (hlooks (o.asks_find a)).bind_ends fun _ => ?_
    have happly := (o.asks_apply a hash strings).mono (fun _ h => h.not_isUndo) fun _ h => h
    refine happly.bind_ends fun _ => ?_
    refine Client.Ends.bind ?_ fun _ => trivial
    rw [Options.remove]
    split_ifs
    · exact ends_cmdUndo _ _
    · trivial

/-- **Whatever the server does**, nothing comes behind the undo request of an invocation, so that
the bytes which the dispatcher leaves of it are in front of no other message. -/
theorem undo_last {σ κ η : Type} (S : Service σ κ ClientRequest Answer η) (o : Options)
    (a : Surroundings) (hash : List Byte → Bytes shaDigestLength) (env : ℕ → η) (s : σ) (l : κ)
    (before behind : List (ClientRequest ⊕ ℕ)) (buf : List Byte) (r : ClientRequest)
    (hrun : ((o.main a hash).run S env s l).1 = before ++ .inl (.undo buf) :: behind) :
    .inl r ∉ behind :=
  (ends_main o a hash).run env ⟨buf, rfl⟩ hrun

/-- An invocation that takes a patch out. -/
theorem undo_last_oneBlob :
    let hash : List Byte → Bytes shaDigestLength := fun l _ => l.headD 0
    ∃ s, s = run Sandbox.step (Sandbox.init (fun _ => 0) fun _ => 0) oneBlobRun ∧
      (((removeOptions (hexText oneBlobHash.toList)).main plainSurroundings hash).run
        (sandboxService sampleImage sampleInfo) (fun _ => sampleSystemEnv) s Link.fresh).1 =
          [.inl .list] ++ .inl (.undo (storeHash oneBlobHash)) :: [] ∧
      .inl ClientRequest.list ∉ ([] : List (ClientRequest ⊕ ℕ)) := by
  intro hash
  have hrun : (((removeOptions (hexText oneBlobHash.toList)).main plainSurroundings hash).run
      (sandboxService sampleImage sampleInfo) (fun _ => sampleSystemEnv)
      (run Sandbox.step (Sandbox.init (fun _ => 0) fun _ => 0) oneBlobRun) Link.fresh).1 =
        [.inl .list] ++ .inl (.undo (storeHash oneBlobHash)) :: [] := by
    decide +kernel
  exact ⟨_, rfl, hrun, undo_last _ _ _ hash _ _ _ _ _ _ .list hrun⟩

end Patchbox
