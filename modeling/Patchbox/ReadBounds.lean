import Patchbox.Dispatch

/-!
# What the dispatchers read

Only an upper limit on the length is checked in `read_sandbox_message_header`. Each
dispatcher subtracts that of the header in types of its own, allocates its buffer by the
difference, and asks for as much. A difference below zero wraps: the allocation or the
`read` is then refused, so that no buffer is overrun, but the length is wrong all the same.

## Main definitions

* `remainingBytes` — the value of `remaining_bytes` in a dispatcher.
* `bufReads` — the reads that are carried out, with the room in their buffers.
* `rest_dispatch` — they are the reads that `dispatch` makes.
* `readsWithin` — no read runs over its buffer.
* `lengthKept_iff` — the headers whose length is computed without wrapping.
-/

namespace Patchbox
open Lib

variable {img : Image}

/-! ## The reads -/

/-- An `int` where a `size_t` is wanted. -/
def toSizeT (v : BitVec 32) : BitVec 64 := v.signExtend 64

/-- `len - SANDBOX_MSG_HDRLEN`, an `int`. -/
def lenAfterHeader (len : BitVec 32) : BitVec 32 := len - BitVec.ofNat 32 sandboxMsgHdrlen

/-- `remaining_bytes` in `dispatch_undo_req`. The difference is a `size_t` before it is an `int`
again. -/
def undoRemaining (len : BitVec 32) : BitVec 32 := (toSizeT (lenAfterHeader len) - 4).setWidth 32

/-- The length of the rest of the message as the dispatcher computes it. It is unsigned in
`dispatch_apply`; `dispatch_apply_response` and `dispatch_list` do without. -/
def remainingBytes (id : BitVec 16) (len : BitVec 32) : Option Int :=
  if id = sandboxMsgApply then some (lenAfterHeader len).toNat
  else if id = sandboxMsgApplyrsp ∨ id = sandboxMsgList then none
  else if id = sandboxMsgUndoReq then some (undoRemaining len).toInt
  else some (lenAfterHeader len).toInt

/-- A call of `readn`: the bytes it asks for, and the room in its buffer. -/
structure BufRead where
  asked : ℕ
  room : ℕ
  deriving DecidableEq

/-- What is carried out. `calloc` refuses what does not fit in a `ptrdiff_t`, and `read` what does
not fit in an `ssize_t`. -/
def grantedRead (room asked : BitVec 64) : List BufRead :=
  if 2 ^ 63 ≤ room.toNat ∨ 2 ^ 63 ≤ asked.toNat then [] else [⟨asked.toNat, room.toNat⟩]

/-- The reads of the dispatcher of this id. -/
def bufReads (id : BitVec 16) (len : BitVec 32) : List BufRead :=
  if id = sandboxMsgApply then
    if sandboxAllocSize ≤ (lenAfterHeader len).toNat then []
    else [⟨(lenAfterHeader len).toNat, (lenAfterHeader len).toNat⟩]
  else if id = sandboxMsgApplyrsp then [⟨4, 4⟩]
  else if id = sandboxMsgListrsp then
    grantedRead (toSizeT (lenAfterHeader len) + BitVec.ofNat 64 sizeofListResponse + 4)
      (toSizeT (lenAfterHeader len))
  else if id = sandboxMsgGetBldrsp then
    grantedRead (toSizeT (lenAfterHeader len + 1)) (toSizeT (lenAfterHeader len))
  else if id = sandboxMsgUndoReq then
    if toSizeT (undoRemaining len) ≠ BitVec.ofNat 64 shaDigestLength then []
    else [⟨shaDigestLength, shaDigestLength⟩]
  else if id = sandboxMsgUndoRep then [⟨4, 4⟩]
  else []

/-- A header that is accepted, with the id of a dispatcher. -/
structure AcceptedHeader (hbuf : List Byte) : Prop where
  length_eq : hbuf.length = sandboxMsgHdrlen
  checked : headerError hbuf = sandboxOk
  dispatched : msgGetId hbuf ≠ 7 ∧ msgGetId hbuf ≠ 8

/-- The ids that have a dispatcher. -/
theorem AcceptedHeader.id_cases {hbuf : List Byte} (h : AcceptedHeader hbuf) :
    msgGetId hbuf = sandboxMsgApply ∨ msgGetId hbuf = sandboxMsgApplyrsp ∨
      msgGetId hbuf = sandboxMsgList ∨ msgGetId hbuf = sandboxMsgListrsp ∨
      msgGetId hbuf = sandboxMsgGetBld ∨ msgGetId hbuf = sandboxMsgGetBldrsp ∨
      msgGetId hbuf = sandboxMsgUndoReq ∨ msgGetId hbuf = sandboxMsgUndoRep := by
  obtain ⟨hseven, height⟩ := h.dispatched
  obtain ⟨-, -, hfirst, hlast, -⟩ := (headerError_eq_ok_iff hbuf).mp h.checked
  generalize msgGetId hbuf = id at *
  simp only [BitVec.le_def, ← BitVec.toNat_inj, ne_eq] at *
  simp at *
  omega

/-- The length in its header is within the limit. -/
theorem AcceptedHeader.len_le {hbuf : List Byte} (h : AcceptedHeader hbuf) :
    (msgGetLen hbuf).toNat ≤ sandboxAllocSize :=
  ((headerError_eq_ok_iff hbuf).mp h.checked).2.2.2.2

/-! ## The lengths -/

section Lengths

variable {len : BitVec 32}

theorem toNat_lenAfterHeader (hle : sandboxMsgHdrlen ≤ len.toNat) :
    (lenAfterHeader len).toNat = len.toNat - sandboxMsgHdrlen := by
  simp only [lenAfterHeader, sandboxMsgHdrlen] at *
  bv_omega

/-- A short message has a negative rest. -/
theorem toInt_lenAfterHeader (hmax : len.toNat ≤ sandboxAllocSize) :
    (lenAfterHeader len).toInt = (len.toNat : Int) - sandboxMsgHdrlen := by
  simp only [lenAfterHeader, sandboxMsgHdrlen, sandboxAllocSize] at *
  rw [BitVec.toInt_eq_toNat_cond, BitVec.toNat_sub, BitVec.toNat_ofNat]
  split_ifs <;> omega

theorem toNat_toSizeT_of_lt {v : BitVec 32} (h : v.toNat < 2 ^ 31) : (toSizeT v).toNat = v.toNat := by
  have hmsb : v.msb = false := by
    rw [BitVec.msb_eq_decide]
    exact decide_eq_false (Nat.not_le.mpr h)
  rw [toSizeT, BitVec.toNat_signExtend, hmsb, BitVec.toNat_setWidth]
  simp only [Bool.false_eq_true, if_false]
  omega

theorem toNat_toSizeT_of_ge {v : BitVec 32} (h : 2 ^ 31 ≤ v.toNat) :
    (toSizeT v).toNat = v.toNat + (2 ^ 64 - 2 ^ 32) := by
  have hmsb : v.msb = true := by
    rw [BitVec.msb_eq_decide]
    exact decide_eq_true h
  have hlt := v.isLt
  rw [toSizeT, BitVec.toNat_signExtend, hmsb, if_pos rfl, BitVec.toNat_setWidth]
  omega

/-- Where the rest is not negative it is the same as a `size_t`. -/
theorem toSizeT_lenAfterHeader (hmax : len.toNat ≤ sandboxAllocSize)
    (hle : sandboxMsgHdrlen ≤ len.toNat) :
    (toSizeT (lenAfterHeader len)).toNat = len.toNat - sandboxMsgHdrlen := by
  have hrest := toNat_lenAfterHeader hle
  rw [toNat_toSizeT_of_lt, hrest]
  rw [hrest]
  simp only [sandboxMsgHdrlen, sandboxAllocSize] at *
  omega

/-- Where it is negative it wraps. -/
theorem toSizeT_lenAfterHeader_of_short (hshort : len.toNat < sandboxMsgHdrlen) :
    (toSizeT (lenAfterHeader len)).toNat = 2 ^ 64 + len.toNat - sandboxMsgHdrlen := by
  have hrest : (lenAfterHeader len).toNat = 2 ^ 32 + len.toNat - sandboxMsgHdrlen := by
    simp only [lenAfterHeader, sandboxMsgHdrlen] at *
    bv_omega
  rw [toNat_toSizeT_of_ge, hrest]
  all_goals simp only [hrest, sandboxMsgHdrlen] at *
  all_goals omega

/-- The rest as a `size_t`, whatever the length. -/
theorem toSizeT_lenAfterHeader_eq (hmax : len.toNat ≤ sandboxAllocSize) :
    (toSizeT (lenAfterHeader len)).toNat =
      if len.toNat < sandboxMsgHdrlen then 2 ^ 64 + len.toNat - sandboxMsgHdrlen
      else len.toNat - sandboxMsgHdrlen := by
  split_ifs with hshort
  · exact toSizeT_lenAfterHeader_of_short hshort
  · exact toSizeT_lenAfterHeader hmax (Nat.le_of_not_lt hshort)

/-- The `int` does not overflow when a terminator is added. -/
theorem toSizeT_lenAfterHeader_succ (hmax : len.toNat ≤ sandboxAllocSize) :
    toSizeT (lenAfterHeader len + 1) = toSizeT (lenAfterHeader len) + 1 := by
  have hone : (1 : BitVec 32).toInt = 1 := by decide
  have hone' : (1 : BitVec 64).toInt = 1 := by decide
  have hint := toInt_lenAfterHeader hmax
  apply BitVec.eq_of_toInt_eq
  rw [toSizeT, toSizeT, BitVec.toInt_signExtend_of_le (by norm_num), BitVec.toInt_add,
    BitVec.toInt_add, BitVec.toInt_signExtend_of_le (by norm_num), hint, hone, hone',
    Int.bmod_eq_of_le, Int.bmod_eq_of_le]
  all_goals simp only [sandboxMsgHdrlen, sandboxAllocSize] at *
  all_goals omega

/-- The rest of an undo request. -/
theorem toInt_undoRemaining (hmax : len.toNat ≤ sandboxAllocSize) :
    (undoRemaining len).toInt = (len.toNat : Int) - sandboxMsgHdrlen - 4 := by
  have hfour : (4 : BitVec 64).toNat = 4 := rfl
  rw [undoRemaining, BitVec.toInt_eq_toNat_cond, BitVec.toNat_setWidth, BitVec.toNat_sub,
    toSizeT_lenAfterHeader_eq hmax, hfour]
  simp only [sandboxMsgHdrlen, sandboxAllocSize] at *
  split_ifs <;> omega

/-- It is twenty only for a message of forty bytes. -/
theorem toSizeT_undoRemaining_iff (hmax : len.toNat ≤ sandboxAllocSize) :
    toSizeT (undoRemaining len) = BitVec.ofNat 64 shaDigestLength ↔
      len.toNat = sandboxMsgHdrlen + 4 + shaDigestLength := by
  have hint : (toSizeT (undoRemaining len)).toInt = (undoRemaining len).toInt :=
    BitVec.toInt_signExtend_of_le (by norm_num)
  rw [← BitVec.toInt_inj, hint, toInt_undoRemaining hmax]
  have htwenty : (BitVec.ofNat 64 shaDigestLength).toInt = shaDigestLength := by decide
  rw [htwenty]
  simp only [sandboxMsgHdrlen, shaDigestLength]
  omega

end Lengths

/-! ## The room in the buffers -/

/-- No read stores more bytes than there is room, when so many can be read. -/
def ReadsWithin (id : BitVec 16) (len : BitVec 32) (input : List Byte) : Prop :=
  ∀ r ∈ bufReads id len, min r.asked input.length ≤ r.room

/-- The rest of the message is neither negative nor longer than a message can be. -/
def RemainingKept (id : BitVec 16) (len : BitVec 32) : Prop :=
  ∀ v ∈ remainingBytes id len, 0 ≤ v ∧ v ≤ (sandboxAllocSize : Int) - sandboxMsgHdrlen

/-- The length covers what the dispatcher subtracts from it. -/
def LengthCovers (id : BitVec 16) (len : BitVec 32) : Prop :=
  id = sandboxMsgApplyrsp ∨ id = sandboxMsgList ∨
    sandboxMsgHdrlen + (if id = sandboxMsgUndoReq then 4 else 0) ≤ len.toNat

theorem bufReads_apply (len : BitVec 32) : bufReads sandboxMsgApply len =
    if sandboxAllocSize ≤ (lenAfterHeader len).toNat then []
    else [⟨(lenAfterHeader len).toNat, (lenAfterHeader len).toNat⟩] := by
  rw [bufReads, if_pos rfl]

theorem bufReads_listrsp (len : BitVec 32) : bufReads sandboxMsgListrsp len =
    grantedRead (toSizeT (lenAfterHeader len) + BitVec.ofNat 64 sizeofListResponse + 4)
      (toSizeT (lenAfterHeader len)) := by
  rw [bufReads, if_neg (by decide), if_neg (by decide), if_pos rfl]

theorem bufReads_getBldrsp (len : BitVec 32) : bufReads sandboxMsgGetBldrsp len =
    grantedRead (toSizeT (lenAfterHeader len + 1)) (toSizeT (lenAfterHeader len)) := by
  rw [bufReads, if_neg (by decide), if_neg (by decide), if_neg (by decide), if_pos rfl]

theorem bufReads_undoReq (len : BitVec 32) : bufReads sandboxMsgUndoReq len =
    if toSizeT (undoRemaining len) ≠ BitVec.ofNat 64 shaDigestLength then []
    else [⟨shaDigestLength, shaDigestLength⟩] := by
  rw [bufReads, if_neg (by decide), if_neg (by decide), if_neg (by decide), if_neg (by decide),
    if_pos rfl]

theorem within_grantedRead {room asked : BitVec 64}
    (h : asked.toNat < 2 ^ 63 → asked.toNat ≤ room.toNat) (n : ℕ) :
    ∀ r ∈ grantedRead room asked, min r.asked n ≤ r.room := by
  rw [grantedRead]
  split_ifs with hrefused
  · simp
  · simp only [List.mem_singleton, forall_eq]
    exact (Nat.min_le_left _ _).trans (h (Nat.lt_of_not_le (not_or.mp hrefused).2))

/-- The buffer for a list has room for a record and a count more. -/
theorem room_listrsp {len : BitVec 32} (hmax : len.toNat ≤ sandboxAllocSize) :
    (toSizeT (lenAfterHeader len) + BitVec.ofNat 64 sizeofListResponse + 4).toNat =
      len.toNat + 340 := by
  have hfour : (4 : BitVec 64).toNat = 4 := rfl
  simp only [BitVec.toNat_add, BitVec.toNat_ofNat, hfour, toSizeT_lenAfterHeader_eq hmax]
  simp only [sizeofListResponse, sandboxMsgHdrlen, sandboxAllocSize] at *
  split_ifs <;> omega

/-- That for the build information has room for a terminator. -/
theorem room_getBldrsp {len : BitVec 32} (hmax : len.toNat ≤ sandboxAllocSize) :
    (toSizeT (lenAfterHeader len + 1)).toNat =
      if len.toNat + 1 < sandboxMsgHdrlen then 2 ^ 64 + len.toNat + 1 - sandboxMsgHdrlen
      else len.toNat + 1 - sandboxMsgHdrlen := by
  have hone : (1 : BitVec 64).toNat = 1 := rfl
  rw [toSizeT_lenAfterHeader_succ hmax, BitVec.toNat_add, hone, toSizeT_lenAfterHeader_eq hmax]
  simp only [sandboxMsgHdrlen, sandboxAllocSize] at *
  split_ifs <;> omega

/-- **No read runs over its buffer**, also when a length has wrapped. -/
theorem readsWithin {hbuf : List Byte} (h : AcceptedHeader hbuf) (input : List Byte) :
    ReadsWithin (msgGetId hbuf) (msgGetLen hbuf) input := by
  have hid := h.id_cases
  have hmax := h.len_le
  generalize msgGetId hbuf = id at *
  generalize msgGetLen hbuf = len at *
  rcases hid with rfl | rfl | rfl | rfl | rfl | rfl | rfl | rfl
  · rw [ReadsWithin, bufReads_apply]
    split_ifs <;> simp
  · simp [ReadsWithin, bufReads]
  · simp [ReadsWithin, bufReads]
  · rw [ReadsWithin, bufReads_listrsp]
    refine within_grantedRead (fun hgranted => ?_) input.length
    rw [toSizeT_lenAfterHeader_eq hmax] at hgranted ⊢
    rw [room_listrsp hmax]
    simp only [sandboxMsgHdrlen, sandboxAllocSize] at *
    split_ifs at hgranted ⊢ <;> omega
  · simp [ReadsWithin, bufReads]
  · rw [ReadsWithin, bufReads_getBldrsp]
    refine within_grantedRead (fun hgranted => ?_) input.length
    rw [toSizeT_lenAfterHeader_eq hmax] at hgranted ⊢
    rw [room_getBldrsp hmax]
    simp only [sandboxMsgHdrlen] at *
    split_ifs at hgranted ⊢ <;> omega
  · rw [ReadsWithin, bufReads_undoReq]
    split_ifs <;> simp
  · simp [ReadsWithin, bufReads]

/-! ## The dispatchers make these reads -/

theorem sum_asked_grantedRead (room asked : BitVec 64) :
    ((grantedRead room asked).map BufRead.asked).sum =
      if 2 ^ 63 ≤ room.toNat ∨ 2 ^ 63 ≤ asked.toNat then 0 else asked.toNat := by
  rw [grantedRead]
  split_ifs <;> simp

/-- What is left of the stream behind a read, complete or not. -/
theorem readn_snd (input : List Byte) (n : ℕ) : (readn input n).2 = input.drop n := by
  rw [readn]
  split_ifs with hle
  · rfl
  · exact (List.drop_eq_nil_of_le (Nat.le_of_not_le hle)).symm

theorem rest_dispatchApply (env : ServeEnv img) (len : BitVec 32) (input : List Byte)
    (s : Sandbox) : (dispatchApply env len input s).rest =
      if sandboxAllocSize ≤ (lenAfterHeader len).toNat ∨ env.calloc = false then input
      else input.drop (lenAfterHeader len).toNat := by
  have hsnd := readn_snd input (lenAfterHeader len).toNat
  rw [dispatchApply, ← lenAfterHeader]
  by_cases hlarge : sandboxAllocSize ≤ (lenAfterHeader len).toNat
  · rw [if_pos hlarge, if_pos (.inl hlarge)]
  · by_cases hnomem : env.calloc = false
    · rw [if_neg hlarge, if_pos hnomem, if_pos (.inr hnomem)]
    · rw [if_neg hlarge, if_neg hnomem, if_neg (not_or.mpr ⟨hlarge, hnomem⟩), ← hsnd]
      cases readn input (lenAfterHeader len).toNat with
      | mk patchBuf rest =>
          cases patchBuf with
          | none => rfl
          | some patchBuf => rfl

theorem rest_dispatchUndoReq (env : ServeEnv img) (len : BitVec 32) (input : List Byte)
    (s : Sandbox) : (dispatchUndoReq env len input s).rest =
      if len.toNat ≠ sandboxMsgHdrlen + 4 + shaDigestLength then input
      else input.drop shaDigestLength := by
  have hsnd := readn_snd input shaDigestLength
  rw [dispatchUndoReq]
  by_cases hlen : len.toNat ≠ sandboxMsgHdrlen + 4 + shaDigestLength
  · rw [if_pos hlen, if_pos hlen]
  · rw [if_neg hlen, if_neg hlen, ← hsnd]
    cases readn input shaDigestLength with
    | mk sha1 rest =>
        cases sha1 with
        | none => rfl
        | some sha1 => rfl

theorem rest_dispatchApplyResponse (input : List Byte) (s : Sandbox) :
    (dispatchApplyResponse input s).rest = input.drop 4 := by
  rw [dispatchApplyResponse, ← readn_snd]
  cases readn input 4 with
  | mk code rest => cases code <;> rfl

theorem rest_dispatchUndoRep (input : List Byte) (s : Sandbox) :
    (dispatchUndoRep input s).rest = input.drop 4 := by
  rw [dispatchUndoRep, ← readn_snd]
  cases readn input 4 with
  | mk code rest => cases code <;> rfl

theorem rest_dispatchListResponse {env : ServeEnv img} (hcalloc : env.calloc = true)
    (len : BitVec 32) (input : List Byte) (s : Sandbox) :
    (dispatchListResponse env len input s).rest =
      if len.toNat < sandboxMsgHdrlen then input
      else input.drop (len.toNat - sandboxMsgHdrlen) := by
  split_ifs with hshort
  · rw [dispatchListResponse_of_lt hcalloc hshort]
    split_ifs <;> rfl
  · rw [dispatchListResponse_of_le hcalloc (Nat.le_of_not_lt hshort)]
    split_ifs <;> rfl

theorem rest_dispatchGetbldRes {env : ServeEnv img} (hcalloc : env.calloc = true)
    (len : BitVec 32) (input : List Byte) (s : Sandbox) :
    (dispatchGetbldRes env len input s).rest =
      if len.toNat < sandboxMsgHdrlen then input
      else input.drop (len.toNat - sandboxMsgHdrlen) := by
  split_ifs with hshort
  · rw [dispatchGetbldRes_of_lt hcalloc hshort]
    split_ifs <;> rfl
  · rw [dispatchGetbldRes_of_le hcalloc (Nat.le_of_not_lt hshort)]
    split_ifs <;> rfl

theorem rest_dispatchList {env : ServeEnv img} (hcalloc : env.calloc = true) {s : Sandbox}
    (hlist : (listBuf s.lpPatchHead).isSome) (input : List Byte) :
    (dispatchList env input s).rest = input := by
  obtain ⟨rbuf, hrbuf⟩ := Option.isSome_iff_exists.mp hlist
  rw [dispatchList, if_neg (by simp [hcalloc]), hrbuf]

theorem rest_dispatchGetbld (env : ServeEnv img) (input : List Byte) (s : Sandbox) :
    (dispatchGetbld env input s).rest = input := by
  rw [dispatchGetbld]

/-- **The reads that are made.** A dispatcher takes from the stream what the reads that are carried
out ask for, or all there is. -/
theorem rest_dispatch {hbuf : List Byte} (h : AcceptedHeader hbuf) {env : ServeEnv img}
    (hcalloc : env.calloc = true) {s : Sandbox} (hlist : (listBuf s.lpPatchHead).isSome)
    (input : List Byte) :
    (dispatch env (msgGetId hbuf) (msgGetLen hbuf) input s).rest =
      input.drop ((bufReads (msgGetId hbuf) (msgGetLen hbuf)).map BufRead.asked).sum := by
  have hid := h.id_cases
  have hmax := h.len_le
  generalize msgGetId hbuf = id at *
  generalize msgGetLen hbuf = len at *
  rcases hid with rfl | rfl | rfl | rfl | rfl | rfl | rfl | rfl
  · rw [dispatch_apply, rest_dispatchApply, bufReads_apply]
    by_cases hlarge : sandboxAllocSize ≤ (lenAfterHeader len).toNat
    · rw [if_pos (.inl hlarge), if_pos hlarge, List.map_nil, List.sum_nil, List.drop_zero]
    · rw [if_neg (by simp [hlarge, hcalloc]), if_neg hlarge, List.map_singleton,
        List.sum_singleton]
  · rw [dispatch_applyrsp, rest_dispatchApplyResponse]
    simp [bufReads]
  · rw [dispatch_list, rest_dispatchList hcalloc hlist]
    simp [bufReads]
  · rw [dispatch_listrsp, rest_dispatchListResponse hcalloc, bufReads_listrsp,
      sum_asked_grantedRead, room_listrsp hmax, toSizeT_lenAfterHeader_eq hmax]
    simp only [sandboxMsgHdrlen, sandboxAllocSize] at *
    split_ifs with hshort hgranted hgranted
    · rfl
    · omega
    · omega
    · rfl
  · rw [dispatch_getBld, rest_dispatchGetbld]
    simp [bufReads]
  · rw [dispatch_getBldrsp, rest_dispatchGetbldRes hcalloc, bufReads_getBldrsp,
      sum_asked_grantedRead, room_getBldrsp hmax, toSizeT_lenAfterHeader_eq hmax]
    simp only [sandboxMsgHdrlen, sandboxAllocSize] at *
    split_ifs with hshort
    all_goals first | rfl | omega
  · have hiff := toSizeT_undoRemaining_iff hmax
    rw [dispatch_undoReq, rest_dispatchUndoReq, bufReads_undoReq]
    split_ifs with hlen hsize hsize
    · rfl
    · exact absurd (hiff.mp (not_not.mp hsize)) hlen
    · exact absurd (hiff.mpr (not_not.mp hlen)) hsize
    · simp
  · rw [dispatch_undoRep, rest_dispatchUndoRep]
    simp [bufReads]

/-! ## The lengths that do not wrap -/

/-- What a dispatcher subtracts from a length within the limit. -/
theorem remainingKept_iff {hbuf : List Byte} (h : AcceptedHeader hbuf) :
    RemainingKept (msgGetId hbuf) (msgGetLen hbuf) ↔
      LengthCovers (msgGetId hbuf) (msgGetLen hbuf) := by
  have hid := h.id_cases
  have hmax := h.len_le
  generalize msgGetId hbuf = id at *
  generalize msgGetLen hbuf = len at *
  have hint := toInt_lenAfterHeader hmax
  have hundo := toInt_undoRemaining hmax
  -- the dispatchers that compute an `int`
  have hsigned : ∀ {id}, remainingBytes id len = some (lenAfterHeader len).toInt →
      id ≠ sandboxMsgApplyrsp → id ≠ sandboxMsgList → id ≠ sandboxMsgUndoReq →
      (RemainingKept id len ↔ LengthCovers id len) := by
    intro id hremaining happlyrsp hlist hundoReq
    rw [RemainingKept, LengthCovers, hremaining, hint, if_neg hundoReq, or_iff_right happlyrsp,
      or_iff_right hlist]
    simp only [Option.mem_some_iff, forall_eq', sandboxMsgHdrlen, sandboxAllocSize] at *
    omega
  rcases hid with rfl | rfl | rfl | rfl | rfl | rfl | rfl | rfl
  · have hnat := @toNat_lenAfterHeader len
    rw [RemainingKept, LengthCovers, remainingBytes, if_pos rfl, if_neg (by decide),
      or_iff_right (by decide), or_iff_right (by decide)]
    rw [BitVec.toInt_eq_toNat_cond] at hint
    have hlt := (lenAfterHeader len).isLt
    simp only [Option.mem_some_iff, forall_eq', sandboxMsgHdrlen, sandboxAllocSize] at *
    split_ifs at hint <;> omega
  · exact iff_of_true (by simp [RemainingKept, remainingBytes]) (.inl rfl)
  · exact iff_of_true (by simp [RemainingKept, remainingBytes]) (.inr (.inl rfl))
  · exact hsigned (by simp [remainingBytes]) (by decide) (by decide) (by decide)
  · exact hsigned (by simp [remainingBytes]) (by decide) (by decide) (by decide)
  · exact hsigned (by simp [remainingBytes]) (by decide) (by decide) (by decide)
  · rw [RemainingKept, LengthCovers, remainingBytes, if_neg (by decide), if_neg (by decide),
      if_pos rfl, if_pos rfl, or_iff_right (by decide), or_iff_right (by decide), hundo]
    simp only [Option.mem_some_iff, forall_eq', sandboxMsgHdrlen, sandboxAllocSize] at *
    omega
  · exact hsigned (by simp [remainingBytes]) (by decide) (by decide) (by decide)

/-- **Headers that are served safely.** The rest of the message is between zero and the limit, and
no read runs over its buffer, exactly when the length covers what the dispatcher subtracts. -/
theorem lengthKept_iff {hbuf : List Byte} (h : AcceptedHeader hbuf) :
    (RemainingKept (msgGetId hbuf) (msgGetLen hbuf) ∧
        ∀ input, ReadsWithin (msgGetId hbuf) (msgGetLen hbuf) input) ↔
      LengthCovers (msgGetId hbuf) (msgGetLen hbuf) := by
  rw [remainingKept_iff h]
  exact and_iff_left (readsWithin h)

theorem acceptedHeader_bareMessage {id : BitVec 16} (hfirst : sandboxMsgFirst ≤ id)
    (hlast : id ≤ sandboxMsgLast) (hid : id ≠ 7 ∧ id ≠ 8) : AcceptedHeader (bareMessage id) := by
  have hok := @headerError_storeMsgHeader id 16 (List.replicate 4 0) hfirst hlast (by decide)
  refine ⟨rfl, hok, ?_⟩
  rwa [bareMessage, (msgGet_storeMsgHeader id 16 _).2.2.1]

theorem lengthKept_iff_listMessage :
    (RemainingKept (msgGetId listMessage) (msgGetLen listMessage) ∧
        ∀ input, ReadsWithin (msgGetId listMessage) (msgGetLen listMessage) input) ↔
      LengthCovers (msgGetId listMessage) (msgGetLen listMessage) :=
  lengthKept_iff (acceptedHeader_bareMessage (by decide) (by decide) (by decide))

/-- The header of a list reply without a length. -/
def emptyReply : List Byte := storeMsgHeader sandboxMsgListrsp 0 ++ List.replicate 4 0

/-- It is accepted, and the rest of the message is computed as -16. -/
theorem short_reply_wraps : AcceptedHeader emptyReply ∧
    remainingBytes (msgGetId emptyReply) (msgGetLen emptyReply) = some (-16) ∧
    ¬RemainingKept (msgGetId emptyReply) (msgGetLen emptyReply) := by
  obtain ⟨-, -, hid, hlen⟩ := msgGet_storeMsgHeader sandboxMsgListrsp 0 (List.replicate 4 0)
  have haccepted : AcceptedHeader emptyReply := by
    refine ⟨rfl, headerError_storeMsgHeader _ (by decide) (by decide) (by decide), ?_⟩
    rw [emptyReply, hid]
    decide
  have hremaining : remainingBytes (msgGetId emptyReply) (msgGetLen emptyReply) = some (-16) := by
    rw [emptyReply, hid, hlen]
    decide
  refine ⟨haccepted, hremaining, fun hkept => ?_⟩
  exact absurd (hkept _ hremaining).1 (by decide)

end Patchbox
