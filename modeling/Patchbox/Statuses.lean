import Patchbox.Dispatch

/-!
# The status of a message

The loop of `listen_thread` goes on while `read_sandbox_message_header` returns no negative status.
What it returns is decided by the message, by what the system grants, and by the state in which
the message is served.

## Main definitions

* `KeepsGoing` — what has to stand behind a header for the session to go on.
* `ServedMessage` — a message that keeps it going, with its header.
* `readSandboxMessageHeader_ccode_nonneg_iff` — these are the messages without a negative status.
-/

namespace Patchbox
open Lib

variable {img : Image}

/-! ## The messages -/

/-- The rest of a reply is there. With one byte less than a header there seems to be no rest. -/
def WholeReply (len : BitVec 32) (payload : List Byte) : Prop :=
  len.toNat + 1 = sandboxMsgHdrlen ∨
    sandboxMsgHdrlen ≤ len.toNat ∧ len.toNat - sandboxMsgHdrlen ≤ payload.length

/-- An APPLY that is whole and whose data can be read, a request whose reply is written, or a
response that is whole and carries no negative status. -/
def KeepsGoing (env : ServeEnv img) (id : BitVec 16) (len : BitVec 32) (payload : List Byte)
    (s : Sandbox) : Prop :=
  let remaining := (len - BitVec.ofNat 32 sandboxMsgHdrlen).toNat
  (id = sandboxMsgApply ∧ remaining < sandboxAllocSize ∧ env.calloc = true ∧
      remaining ≤ payload.length ∧
      Readable env.apply (fromList (payload.take remaining) env.beyond) s) ∨
    (id = sandboxMsgList ∧ (s.lpPatchHead = [] ∨ env.calloc = true) ∧
      ListFits s.lpPatchHead.length ∧ env.writes = true) ∨
    ((id = sandboxMsgGetBld ∨ id = sandboxMsgUndoReq) ∧ env.writes = true) ∨
    ((id = sandboxMsgApplyrsp ∨ id = sandboxMsgUndoRep) ∧ 4 ≤ payload.length ∧
      0 ≤ loadCcode (payload.take 4)) ∨
    ((id = sandboxMsgListrsp ∨ id = sandboxMsgGetBldrsp) ∧ env.calloc = true ∧
      WholeReply len payload)

/-- A complete header that passes the checks, and a message that keeps the session going. -/
def ServedMessage (env : ServeEnv img) (input : List Byte) (s : Sandbox) : Prop :=
  sandboxMsgHdrlen ≤ input.length ∧ headerError (input.take sandboxMsgHdrlen) = sandboxOk ∧
    KeepsGoing env (msgGetId (input.take sandboxMsgHdrlen))
      (msgGetLen (input.take sandboxMsgHdrlen)) (input.drop sandboxMsgHdrlen) s

/-! ## The dispatchers one by one -/

variable {env : ServeEnv img} {len : BitVec 32} {payload : List Byte} {s : Sandbox}

theorem xenlpApply4_ccode_nonneg_iff {e : ApplyEnv img} {arg : ℕ → Byte} :
    0 ≤ (xenlpApply4 img e arg s).ccode ↔ Readable e arg s := by
  rw [← xenlpApply4_ccode_iff]
  rcases @isStatus_xenlpApply4 img e arg s with h | h | h <;> rw [h] <;> decide

theorem dispatchApply_ccode_nonneg_iff :
    0 ≤ (dispatchApply env len payload s).ccode ↔
      (len - BitVec.ofNat 32 sandboxMsgHdrlen).toNat < sandboxAllocSize ∧ env.calloc = true ∧
        (len - BitVec.ofNat 32 sandboxMsgHdrlen).toNat ≤ payload.length ∧
        Readable env.apply (fromList
          (payload.take (len - BitVec.ofNat 32 sandboxMsgHdrlen).toNat) env.beyond) s := by
  by_cases h : (len - BitVec.ofNat 32 sandboxMsgHdrlen).toNat < sandboxAllocSize ∧
      env.calloc = true ∧ (len - BitVec.ofNat 32 sandboxMsgHdrlen).toNat ≤ payload.length
  · obtain ⟨hlt, hcalloc, hle⟩ := h
    rw [dispatchApply_ccode hcalloc hlt hle, xenlpApply4_ccode_nonneg_iff, and_iff_right hlt,
      and_iff_right hcalloc, and_iff_right hle]
  · refine iff_of_false ?_ fun hall => h ⟨hall.1, hall.2.1, hall.2.2.1⟩
    rw [dispatchApply]
    split_ifs with hlarge hcalloc
    · simp
    · simp
    · have hshort : payload.length < (len - BitVec.ofNat 32 sandboxMsgHdrlen).toNat := by
        refine Nat.lt_of_not_le fun hle => h ⟨Nat.lt_of_not_le hlarge, ?_, hle⟩
        simpa using hcalloc
      rw [readn_of_lt hshort]
      simp

theorem dispatchList_ccode_nonneg_iff :
    0 ≤ (dispatchList env payload s).ccode ↔ (s.lpPatchHead = [] ∨ env.calloc = true) ∧
      ListFits s.lpPatchHead.length ∧ env.writes = true := by
  have hmem : s.lpPatchHead = [] ∨ env.calloc = true ↔
      ¬(s.lpPatchHead ≠ [] ∧ env.calloc = false) := by
    rw [not_and_or, not_not, Bool.not_eq_false]
  rw [hmem]
  by_cases hrefused : s.lpPatchHead ≠ [] ∧ env.calloc = false
  · rw [dispatchList, if_pos hrefused]
    exact iff_of_false (by simp) fun h => h.1 hrefused
  · by_cases hfit : ListFits s.lpPatchHead.length
    · by_cases hwrites : env.writes = true
      · obtain ⟨msg, -, hread⟩ := dispatchList_of_fits hrefused hwrites hfit payload
        rw [hread]
        exact iff_of_true le_rfl ⟨hrefused, hfit, hwrites⟩
      · rw [dispatchList, if_neg hrefused, listBuf_of_fits hfit]
        simp only [reply_of_not_writes hwrites]
        exact iff_of_false (by simp) fun h => hwrites h.2.2
    · obtain ⟨-, hneg, -⟩ := @dispatchList_of_not_fits img env s hfit payload
      exact iff_of_false (Int.not_le.mpr hneg) fun h => hfit h.2.1

theorem dispatchGetbld_ccode_nonneg_iff :
    0 ≤ (dispatchGetbld env payload s).ccode ↔ env.writes = true := by
  by_cases hwrites : env.writes = true
  · obtain ⟨msg, -, hread⟩ := dispatchGetbld_eq hwrites payload s
    rw [hread]
    exact iff_of_true le_rfl hwrites
  · rw [dispatchGetbld, reply_of_not_writes hwrites]
    exact iff_of_false (by simp) hwrites

/-- The status is that of the reply, whatever came of the request. -/
theorem dispatchUndoReq_ccode_nonneg_iff :
    0 ≤ (dispatchUndoReq env len payload s).ccode ↔ env.writes = true := by
  by_cases hwrites : env.writes = true
  · rw [dispatchUndoReq_ccode hwrites]
    exact iff_of_true le_rfl hwrites
  · refine iff_of_false ?_ hwrites
    simp only [dispatchUndoReq, reply_of_not_writes hwrites]
    split_ifs
    · simp
    · cases readn payload shaDigestLength with
      | mk sha1 rest => cases sha1 <;> simp

theorem dispatchApplyResponse_ccode_nonneg_iff :
    0 ≤ (dispatchApplyResponse payload s).ccode ↔
      4 ≤ payload.length ∧ 0 ≤ loadCcode (payload.take 4) := by
  rw [dispatchApplyResponse]
  by_cases hle : 4 ≤ payload.length
  · rw [readn_of_le hle, and_iff_right hle]
  · rw [readn_of_lt (Nat.lt_of_not_le hle)]
    exact iff_of_false (by simp) fun h => hle h.1

theorem dispatchUndoRep_ccode_nonneg_iff :
    0 ≤ (dispatchUndoRep payload s).ccode ↔
      4 ≤ payload.length ∧ 0 ≤ loadCcode (payload.take 4) := by
  rw [dispatchUndoRep]
  by_cases hle : 4 ≤ payload.length
  · rw [readn_of_le hle, and_iff_right hle]
  · rw [readn_of_lt (Nat.lt_of_not_le hle)]
    exact iff_of_false (by simp) fun h => hle h.1

theorem wholeReply_of_le (h : sandboxMsgHdrlen ≤ len.toNat) :
    WholeReply len payload ↔ len.toNat - sandboxMsgHdrlen ≤ payload.length := by
  rw [WholeReply, or_iff_right (by omega), and_iff_right h]

theorem wholeReply_of_lt (h : len.toNat < sandboxMsgHdrlen) :
    WholeReply len payload ↔ len.toNat + 1 = sandboxMsgHdrlen := by
  rw [WholeReply, or_iff_left fun hle => absurd hle.1 (Nat.not_le.mpr h)]

theorem dispatchListResponse_ccode_nonneg_iff :
    0 ≤ (dispatchListResponse env len payload s).ccode ↔
      env.calloc = true ∧ WholeReply len payload := by
  by_cases hcalloc : env.calloc = true
  · rw [and_iff_right hcalloc]
    rcases Nat.lt_or_ge len.toNat sandboxMsgHdrlen with hlt | hge
    · rw [dispatchListResponse_of_lt hcalloc hlt, wholeReply_of_lt hlt]
      split_ifs with hwrapped
      · exact iff_of_true le_rfl hwrapped
      · exact iff_of_false (by simp) hwrapped
    · rw [dispatchListResponse_of_le hcalloc hge, wholeReply_of_le hge]
      split_ifs with hle
      · exact iff_of_true le_rfl hle
      · exact iff_of_false (by simp) hle
  · rw [dispatchListResponse, if_pos (by simpa using hcalloc)]
    exact iff_of_false (by simp) fun h => hcalloc h.1

theorem dispatchGetbldRes_ccode_nonneg_iff :
    0 ≤ (dispatchGetbldRes env len payload s).ccode ↔
      env.calloc = true ∧ WholeReply len payload := by
  by_cases hcalloc : env.calloc = true
  · rw [and_iff_right hcalloc]
    rcases Nat.lt_or_ge len.toNat sandboxMsgHdrlen with hlt | hge
    · rw [dispatchGetbldRes_of_lt hcalloc hlt, wholeReply_of_lt hlt]
      split_ifs with hwrapped
      · exact iff_of_true le_rfl hwrapped
      · exact iff_of_false (by simp) hwrapped
    · rw [dispatchGetbldRes_of_le hcalloc hge, wholeReply_of_le hge]
      split_ifs with hle
      · exact iff_of_true le_rfl hle
      · exact iff_of_false (by simp) hle
  · rw [dispatchGetbldRes, if_pos (.inl (by simpa using hcalloc))]
    exact iff_of_false (by simp) fun h => hcalloc h.1

/-! ## One message -/

/-- **The messages without a negative status**, behind their header. -/
theorem dispatch_ccode_nonneg_iff {id : BitVec 16} :
    0 ≤ (dispatch env id len payload s).ccode ↔ KeepsGoing env id len payload s := by
  rw [KeepsGoing, dispatch]
  split_ifs with happly happlyrsp hlist hlistrsp hgetBld hgetBldrsp hundoReq hundoRep
  · subst happly
    simp [dispatchApply_ccode_nonneg_iff]
  · subst happlyrsp
    simp [dispatchApplyResponse_ccode_nonneg_iff]
  · subst hlist
    simp [dispatchList_ccode_nonneg_iff]
  · subst hlistrsp
    simp [dispatchListResponse_ccode_nonneg_iff]
  · subst hgetBld
    simp [dispatchGetbld_ccode_nonneg_iff]
  · subst hgetBldrsp
    simp [dispatchGetbldRes_ccode_nonneg_iff]
  · subst hundoReq
    simp [dispatchUndoReq_ccode_nonneg_iff]
  · subst hundoRep
    simp [dispatchUndoRep_ccode_nonneg_iff]
  · simp only [happly, happlyrsp, hlist, hlistrsp, hgetBld, hgetBldrsp, hundoReq, hundoRep,
      false_and, or_self, iff_false]
    simp

theorem headerError_neg {hbuf : List Byte} (h : headerError hbuf ≠ sandboxOk) :
    headerError hbuf < 0 ∧ headerError hbuf ≠ sandboxErrClosed := by
  rw [headerError] at h ⊢
  split_ifs at h ⊢
  all_goals first | decide | exact absurd rfl h

/-- **The messages without a negative status.** -/
theorem readSandboxMessageHeader_ccode_nonneg_iff {eof : Bool} {input : List Byte} :
    0 ≤ (readSandboxMessageHeader env eof input s).ccode ↔ ServedMessage env input s := by
  rw [ServedMessage]
  rcases Nat.lt_or_ge input.length sandboxMsgHdrlen with hlt | hge
  · rw [readSandboxMessageHeader, readn_of_lt hlt]
    refine iff_of_false ?_ fun h => absurd h.1 (Nat.not_le.mpr hlt)
    cases eof <;> simp
  · rw [readSandboxMessageHeader_of_le hge, and_iff_right hge]
    split_ifs with hbad
    · exact iff_of_false (Int.not_le.mpr (headerError_neg hbad).1) fun h => hbad h.1
    · rw [dispatch_ccode_nonneg_iff, and_iff_right (not_not.mp hbad)]

end Patchbox
