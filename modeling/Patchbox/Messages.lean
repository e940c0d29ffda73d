import Patchbox.Records

/-!
# The frames of the sandbox protocol

A message has a header of sixteen bytes: magic, version, id, the length of the whole
message, and the length of its first field. `sendRrBuf` writes one, unless it would be
longer than the receiver takes. The receiver checks magic, version, id and length, in
this order.

## Main definitions

* `sendRrBuf` — `send_rr_buf` of `sandbox-listen.c`.
* `headerError` — the checks of `read_sandbox_message_header`.
* `headerError_sendRrBuf` — what is sent passes the checks.
-/

namespace Patchbox
open Lib

/-! ## Constants of `sandbox.h` -/

abbrev sandboxMsgApply : BitVec 16 := 1
abbrev sandboxMsgApplyrsp : BitVec 16 := 2
abbrev sandboxMsgList : BitVec 16 := 3
abbrev sandboxMsgListrsp : BitVec 16 := 4
abbrev sandboxMsgGetBld : BitVec 16 := 5
abbrev sandboxMsgGetBldrsp : BitVec 16 := 6
abbrev sandboxMsgUndoReq : BitVec 16 := 9
abbrev sandboxMsgUndoRep : BitVec 16 := 10

/-- `SANDBOX_MSG_FIRST` and `SANDBOX_MSG_LAST`. -/
abbrev sandboxMsgFirst : BitVec 16 := sandboxMsgApply
abbrev sandboxMsgLast : BitVec 16 := sandboxMsgUndoRep

abbrev sandboxMsgHdrlen : ℕ := 0x10
abbrev sandboxMsgVersion : BitVec 16 := 1
/-- `SANDBOX_MSG_SESSION_LIMIT`, the requests served on one connection. -/
abbrev sandboxMsgSessionLimit : ℕ := 0x64
abbrev sandboxMsgBldBufsize : ℕ := 512

/-- `SANDBOX_MSG_MAGIC`, the letters `SAND`. -/
def sandboxMsgMagic : List Byte := [0x53, 0x41, 0x4e, 0x44]

/-! ## Sending -/

/-- The length in the header: the fields, and the length of each field after the first. -/
def msgLen (bufs : List (List Byte)) : BitVec 32 :=
  BitVec.ofNat 32 (sandboxMsgHdrlen + (bufs.map List.length).sum + 4 * (bufs.length - 1))

/-- The header without the length of the first field. -/
def storeMsgHeader (id : BitVec 16) (len : BitVec 32) : List Byte :=
  sandboxMsgMagic ++ leBytes 2 sandboxMsgVersion.toNat ++ leBytes 2 id.toNat ++ leBytes 4 len.toNat

/-- The fields, each behind its length; four zero bytes complete the header when there is none. -/
def storeFields (bufs : List (List Byte)) : List Byte :=
  if bufs = [] then List.replicate 4 0 else bufs.flatMap fun b => leBytes 4 b.length ++ b

/-- `send_rr_buf`: the bytes that are written; nothing when the message is too long. -/
def sendRrBuf (id : BitVec 16) (bufs : List (List Byte)) : Option (List Byte) :=
  if sandboxAllocSize < (msgLen bufs).toNat then none
  else some (storeMsgHeader id (msgLen bufs) ++ storeFields bufs)

/-- A message without fields. -/
def bareMessage (id : BitVec 16) : List Byte := storeMsgHeader id 16 ++ List.replicate 4 0

theorem sendRrBuf_nil (id : BitVec 16) : sendRrBuf id [] = some (bareMessage id) := rfl

/-! ## The checks on a header -/

/-- The 16-bit word at offset `off`. -/
def word16 (f : ℕ → Byte) (off : ℕ) : BitVec 16 := BitVec.ofNat 16 (leNat (fun i => f (off + i)) 2)

/-- A buffer seen from its first byte. -/
def bytesOf (hbuf : List Byte) : ℕ → Byte := fromList hbuf fun _ => 0

/-- `SANDBOX_MSG_GET_VER`, `SANDBOX_MSG_GET_ID` and `SANDBOX_MSG_GET_LEN`. -/
def msgGetVer (hbuf : List Byte) : BitVec 16 := word16 (bytesOf hbuf) 4
def msgGetId (hbuf : List Byte) : BitVec 16 := word16 (bytesOf hbuf) 6
def msgGetLen (hbuf : List Byte) : BitVec 32 := word32 (bytesOf hbuf) 8

/-- `check_magic` and the checks behind it: `SANDBOX_OK` or the error of the first that fails. -/
def headerError (hbuf : List Byte) : Int :=
  if hbuf.take 4 ≠ sandboxMsgMagic then sandboxErrBadHdr
  else if sandboxMsgVersion ≠ msgGetVer hbuf then sandboxErrBadVer
  else if msgGetId hbuf < sandboxMsgFirst ∨ sandboxMsgLast < msgGetId hbuf then
    sandboxErrBadMsgid
  else if sandboxAllocSize < (msgGetLen hbuf).toNat then sandboxErrBadLen
  else sandboxOk

/-! ## What is sent passes -/

theorem StandsAt.word16 {f : ℕ → Byte} {off : ℕ} {v : BitVec 16}
    (h : StandsAt f off (leBytes 2 v.toNat)) : word16 f off = v := by
  rw [Patchbox.word16, h.leNat]
  exact BitVec.eq_of_toNat_eq (by simp only [BitVec.toNat_ofNat]; omega)

@[simp] theorem length_storeMsgHeader (id : BitVec 16) (len : BitVec 32) :
    (storeMsgHeader id len).length = 12 := by
  simp [storeMsgHeader, sandboxMsgMagic]

/-- The fields of a header that was stored. -/
theorem msgGet_storeMsgHeader (id : BitVec 16) (len : BitVec 32) (rest : List Byte) :
    (storeMsgHeader id len ++ rest).take 4 = sandboxMsgMagic ∧
      msgGetVer (storeMsgHeader id len ++ rest) = sandboxMsgVersion ∧
      msgGetId (storeMsgHeader id len ++ rest) = id ∧
      msgGetLen (storeMsgHeader id len ++ rest) = len := by
  have hall := standsAt_fromList (storeMsgHeader id len ++ rest) fun _ => 0
  have hmagic : sandboxMsgMagic.length = 4 := rfl
  simp only [storeMsgHeader, standsAt_append, List.length_append, length_leBytes, hmagic,
    and_assoc, Nat.zero_add] at hall
  obtain ⟨-, hver, hid, hlen, -⟩ := hall
  refine ⟨?_, StandsAt.word16 hver, StandsAt.word16 hid, StandsAt.word32 hlen⟩
  simp [storeMsgHeader, sandboxMsgMagic]

/-- A header passes the checks when its id is in range and its length within the limit. -/
theorem headerError_storeMsgHeader {id : BitVec 16} {len : BitVec 32} (rest : List Byte)
    (hfirst : sandboxMsgFirst ≤ id) (hlast : id ≤ sandboxMsgLast)
    (hlen : len.toNat ≤ sandboxAllocSize) :
    headerError (storeMsgHeader id len ++ rest) = sandboxOk := by
  obtain ⟨hmagic, hver, hid, hget⟩ := msgGet_storeMsgHeader id len rest
  have hrange : ¬(id < sandboxMsgFirst ∨ sandboxMsgLast < id) :=
    not_or.mpr ⟨BitVec.not_lt.mpr hfirst, BitVec.not_lt.mpr hlast⟩
  rw [headerError, hmagic, hver, hid, hget, if_neg (not_not.mpr rfl), if_neg (not_not.mpr rfl),
    if_neg hrange, if_neg (Nat.not_lt.mpr hlen)]

/-- What a header that passes has been checked for. -/
theorem headerError_eq_ok_iff (hbuf : List Byte) :
    headerError hbuf = sandboxOk ↔ hbuf.take 4 = sandboxMsgMagic ∧
      msgGetVer hbuf = sandboxMsgVersion ∧ sandboxMsgFirst ≤ msgGetId hbuf ∧
      msgGetId hbuf ≤ sandboxMsgLast ∧ (msgGetLen hbuf).toNat ≤ sandboxAllocSize := by
  rw [headerError, ← BitVec.not_lt, ← BitVec.not_lt, ← Nat.not_lt, eq_comm (b := sandboxMsgVersion)]
  split_ifs with hmagic hver hrange hlimit
  · exact iff_of_false (by decide) fun h => hmagic h.1
  · exact iff_of_false (by decide) fun h => hver h.2.1
  · exact iff_of_false (by decide) fun h => hrange.elim h.2.2.1 h.2.2.2.1
  · exact iff_of_false (by decide) fun h => h.2.2.2.2 hlimit
  · rw [not_or] at hrange
    exact iff_of_true rfl ⟨not_not.mp hmagic, not_not.mp hver, hrange.1, hrange.2, hlimit⟩

/-- With one field or none the first length completes the header. -/
theorem storeFields_eq {bufs : List (List Byte)} (hone : bufs.length ≤ 1) :
    ∃ first, first.length = 4 ∧ storeFields bufs = first ++ bufs.flatten := by
  cases bufs with
  | nil => exact ⟨List.replicate 4 0, List.length_replicate, by simp [storeFields]⟩
  | cons b bufs =>
      have hnil : bufs = [] := List.length_eq_zero_iff.mp (by simpa using hone)
      subst hnil
      exact ⟨leBytes 4 b.length, length_leBytes 4 _, by simp [storeFields]⟩

theorem toNat_msgLen {bufs : List (List Byte)} (hone : bufs.length ≤ 1)
    (hlen : sandboxMsgHdrlen + bufs.flatten.length < 2 ^ 32) :
    (msgLen bufs).toNat = sandboxMsgHdrlen + bufs.flatten.length := by
  have hpred : bufs.length - 1 = 0 := by omega
  rw [msgLen, hpred, ← List.length_flatten, BitVec.toNat_ofNat, Nat.mod_eq_of_lt (by omega)]
  omega

/-- **A message with at most one field.** Its header passes the checks and says how long it is,
and the field follows. -/
theorem sendRrBuf_eq_some {id : BitVec 16} {bufs : List (List Byte)} {msg : List Byte}
    (h : sendRrBuf id bufs = some msg) (hone : bufs.length ≤ 1)
    (hlen : sandboxMsgHdrlen + bufs.flatten.length < 2 ^ 32) :
    msg.drop sandboxMsgHdrlen = bufs.flatten ∧
      msg.length = sandboxMsgHdrlen + bufs.flatten.length ∧
      msgGetId (msg.take sandboxMsgHdrlen) = id ∧
      (msgGetLen (msg.take sandboxMsgHdrlen)).toNat = msg.length ∧
      (sandboxMsgFirst ≤ id → id ≤ sandboxMsgLast →
        headerError (msg.take sandboxMsgHdrlen) = sandboxOk) := by
  obtain ⟨first, hfirst, hfields⟩ := storeFields_eq hone
  have hget := toNat_msgLen hone hlen
  rw [sendRrBuf] at h
  split_ifs at h with hlimit
  obtain rfl := Option.some.inj h
  rw [hfields]
  have hhead : (storeMsgHeader id (msgLen bufs) ++ first).length = sandboxMsgHdrlen := by
    rw [List.length_append, length_storeMsgHeader, hfirst]
  have htake : (storeMsgHeader id (msgLen bufs) ++ (first ++ bufs.flatten)).take
      sandboxMsgHdrlen = storeMsgHeader id (msgLen bufs) ++ first := by
    rw [← List.append_assoc, ← hhead, List.take_left']
    rfl
  have hdrop : (storeMsgHeader id (msgLen bufs) ++ (first ++ bufs.flatten)).drop
      sandboxMsgHdrlen = bufs.flatten := by
    rw [← List.append_assoc, ← hhead, List.drop_left']
    rfl
  have htotal : (storeMsgHeader id (msgLen bufs) ++ (first ++ bufs.flatten)).length =
      sandboxMsgHdrlen + bufs.flatten.length := by
    rw [← List.append_assoc, List.length_append, hhead]
  obtain ⟨-, -, hid, hmsglen⟩ := msgGet_storeMsgHeader id (msgLen bufs) first
  rw [htake, htotal]
  refine ⟨hdrop, rfl, hid, by rw [hmsglen, hget], fun hge hle => ?_⟩
  exact headerError_storeMsgHeader first hge hle (Nat.le_of_not_lt hlimit)

/-- The message is sent when it is not longer than the limit. -/
theorem sendRrBuf_isSome {id : BitVec 16} {bufs : List (List Byte)} (hone : bufs.length ≤ 1)
    (hlen : sandboxMsgHdrlen + bufs.flatten.length < 2 ^ 32) :
    (sendRrBuf id bufs).isSome ↔ sandboxMsgHdrlen + bufs.flatten.length ≤ sandboxAllocSize := by
  have hget := toNat_msgLen hone hlen
  rw [sendRrBuf, hget]
  split_ifs with hlimit
  · exact iff_of_false (by simp) (Nat.not_le.mpr hlimit)
  · exact iff_of_true rfl (Nat.le_of_not_lt hlimit)

end Patchbox
