import Patchbox.Dispatch
import Patchbox.Lib.Transfers

/-!
# Sending a message

`send_rr_buf` goes over its arguments twice. The first loop puts them in an array and
adds up the length, the second writes them. Between the two the header is written, and
only there the result of a write is looked at.

The array has a slot more than there may be arguments. The first loop marks its end, and
behind the loop the last slot is marked once more: the test in front compares the index
with -1 and always holds.

## Main definitions

* `sendRrBufBy` — `send_rr_buf`, with the calls of `write` given.
* `sendRrBufBy_eq` — without failures it writes what `sendRrBuf` says.
* `delivers_iff` — when a message is sent and read as the format says.
* `whole_iff` — when `SANDBOX_OK` means that all of it was written.
-/

namespace Patchbox
open Lib

/-! ## The arguments -/

/-- `SANDBOX_LAST_ARG`, as an unsigned size. -/
abbrev sandboxLastArg : BitVec 32 := BitVec.ofInt 32 (-1)
/-- `SANDBOX_MAX_ARG`. -/
abbrev sandboxMaxArg : ℕ := 0xff

/-- `struct sandbox_buf`. A null pointer has nothing behind it. -/
structure SandboxBuf where
  size : BitVec 32
  buf : Option (ℕ → Byte)

/-- The slot that ends the array. Its pointer is that of `nullsize`. -/
def SandboxBuf.last : SandboxBuf := ⟨sandboxLastArg, some fun _ => 0⟩

/-- The bytes of a buffer; without a pointer only an empty one has them. -/
def SandboxBuf.bytes (b : SandboxBuf) : Option (List Byte) :=
  match b.buf with
  | none => if b.size = 0 then some [] else none
  | some f => some (List.ofFn fun i : Fin b.size.toNat => f i)

/-- The first loop: the length, and the array. A null pointer ends the loop, too, without a
mark. -/
def gatherBufs : List SandboxBuf → ℕ → BitVec 32 → (ℕ → SandboxBuf) →
    BitVec 32 × (ℕ → SandboxBuf)
  | [], index, len, bufs => (len, Function.update bufs index .last)
  | b :: args, index, len, bufs =>
    if b.size = sandboxLastArg then (len, Function.update bufs index .last)
    else if b.buf.isNone then (len, Function.update bufs index b)
    else
      let len := (if 0 < index then len + 4 else len) + b.size
      if index + 1 < sandboxMaxArg then
        gatherBufs args (index + 1) len (Function.update bufs index b)
      else (len, Function.update bufs index b)

/-- The length and the array in front of the header. The stack holds anything before. -/
def argBufs (stack : ℕ → SandboxBuf) (args : List SandboxBuf) : BitVec 32 × (ℕ → SandboxBuf) :=
  let (len, bufs) := gatherBufs args 0 (BitVec.ofNat 32 sandboxMsgHdrlen) stack
  (len, Function.update bufs 255 .last)

/-- The slots that the second loop comes to. -/
def sentBufs (bufs : ℕ → SandboxBuf) : List SandboxBuf :=
  ((List.range 255).map bufs).takeWhile fun b => b.size ≠ sandboxLastArg

/-- What the second loop writes: four zero bytes when there is no buffer, else each size and each
buffer. -/
def fieldPieces (bufs : ℕ → SandboxBuf) : List (Option (List Byte)) :=
  if sentBufs bufs = [] then [some (List.replicate 4 0)]
  else (sentBufs bufs).flatMap fun b => [some (leBytes 4 b.size.toNat), b.bytes]

/-- What is written in front of it. -/
def headerPieces (id : BitVec 16) (len : BitVec 32) : List (List Byte) :=
  [sandboxMsgMagic, leBytes 2 sandboxMsgVersion.toNat, leBytes 2 id.toNat, leBytes 4 len.toNat]

/-- What `send_rr_buf` returns, and the bytes that reach the socket. -/
structure Sent where
  ccode : Int
  written : List Byte

/-- `send_rr_buf`. -/
def sendRrBufBy (stack : ℕ → SandboxBuf) (calls : List Call) (id : BitVec 16)
    (args : List SandboxBuf) : Sent :=
  let gathered := argBufs stack args
  let header := pushUntil calls (headerPieces id gathered.1)
  if sandboxAllocSize < gathered.1.toNat then ⟨sandboxErrRw, []⟩
  else if header.done then
    let fields := pushEach header.calls (fieldPieces gathered.2)
    ⟨sandboxOk, header.out ++ fields.out⟩
  else ⟨sandboxErrRw, header.out⟩

/-! ## The array -/

/-- A buffer that is not taken for the end of the arguments. -/
structure SandboxBuf.Plain (b : SandboxBuf) : Prop where
  buf : b.buf.isSome
  size : b.size ≠ sandboxLastArg

/-- The first loop leaves the slots in front as they are and puts the arguments behind them. -/
theorem gatherBufs_slots {args : List SandboxBuf} (hplain : ∀ b ∈ args, b.Plain) {index : ℕ}
    (hindex : index < 255) (hlen : index + args.length ≤ 255) (len : BitVec 32)
    (bufs : ℕ → SandboxBuf) :
    (∀ i < index, (gatherBufs args index len bufs).2 i = bufs i) ∧
      ((List.range' index (255 - index)).map (gatherBufs args index len bufs).2).takeWhile
        (fun b => b.size ≠ sandboxLastArg) = args := by
  induction args generalizing index len bufs with
  | nil =>
      have hrange : List.range' index (255 - index) =
          index :: List.range' (index + 1) (255 - (index + 1)) := by
        rw [show 255 - index = 255 - (index + 1) + 1 by omega, List.range'_succ]
      refine ⟨fun i hi => Function.update_of_ne hi.ne _ _, ?_⟩
      rw [hrange, List.map_cons, List.takeWhile_cons_of_neg]
      simp [gatherBufs, SandboxBuf.last]
  | cons b args ih =>
      obtain ⟨hbuf, hsize⟩ := hplain b List.mem_cons_self
      have hrange : List.range' index (255 - index) =
          index :: List.range' (index + 1) (255 - (index + 1)) := by
        rw [show 255 - index = 255 - (index + 1) + 1 by omega, List.range'_succ]
      rw [List.length_cons] at hlen
      rw [gatherBufs, if_neg hsize, if_neg (by simpa using Option.isSome_iff_ne_none.mp hbuf)]
      by_cases hnext : index + 1 < sandboxMaxArg
      · obtain ⟨hfront, hslots⟩ := ih (fun c hc => hplain c (List.mem_cons_of_mem _ hc)) hnext
          (by omega) ((if 0 < index then len + 4 else len) + b.size) (Function.update bufs index b)
        simp only [if_pos hnext]
        refine ⟨fun i hi => ?_, ?_⟩
        · rw [hfront i (hi.trans (Nat.lt_succ_self _)), Function.update_of_ne hi.ne]
        · rw [hrange, List.map_cons, hfront index (Nat.lt_succ_self _), Function.update_self,
            List.takeWhile_cons_of_pos (by simpa using hsize), hslots]
      · simp only [sandboxMaxArg] at hnext
        have hnil : args = [] := List.length_eq_zero_iff.mp (by omega)
        obtain rfl : index = 254 := by omega
        subst hnil
        simp only [sandboxMaxArg, Nat.reduceAdd, lt_self_iff_false, if_false]
        refine ⟨fun i hi => Function.update_of_ne hi.ne _ _, ?_⟩
        simp [hsize]

/-- It adds up the sizes, and the words for the sizes of all buffers but the first. -/
theorem gatherBufs_len {args : List SandboxBuf} (hplain : ∀ b ∈ args, b.Plain) {index : ℕ}
    (hlen : index + args.length ≤ 255) (len : BitVec 32) (bufs : ℕ → SandboxBuf) :
    (gatherBufs args index len bufs).1 = len + BitVec.ofNat 32 ((args.map fun b =>
      b.size.toNat).sum + 4 * if 0 < index then args.length else args.length - 1) := by
  induction args generalizing index len bufs with
  | nil => simp [gatherBufs]
  | cons b args ih =>
      obtain ⟨hbuf, hsize⟩ := hplain b List.mem_cons_self
      rw [List.length_cons] at hlen
      rw [gatherBufs, if_neg hsize, if_neg (by simpa using Option.isSome_iff_ne_none.mp hbuf)]
      have hsum : (if 0 < index then len + 4 else len) + b.size +
          BitVec.ofNat 32 ((args.map fun b => b.size.toNat).sum + 4 * args.length) =
          len + BitVec.ofNat 32 ((List.map (fun b => b.size.toNat) (b :: args)).sum +
            4 * if 0 < index then (b :: args).length else (b :: args).length - 1) := by
        apply BitVec.eq_of_toNat_eq
        simp only [List.map_cons, List.sum_cons, List.length_cons]
        have hfour : (4 : BitVec 32).toNat = 4 := rfl
        split_ifs <;> simp only [BitVec.toNat_add, BitVec.toNat_ofNat, hfour] <;> omega
      by_cases hnext : index + 1 < sandboxMaxArg
      · simp only [if_pos hnext]
        rw [ih (fun c hc => hplain c (List.mem_cons_of_mem _ hc)) (by omega),
          if_pos (Nat.succ_pos index), hsum]
      · simp only [if_neg hnext]
        simp only [sandboxMaxArg] at hnext
        have hnil : args = [] := List.length_eq_zero_iff.mp (by omega)
        subst hnil
        rw [← hsum]
        simp

/-- The bytes of the buffers. -/
def fieldBytes (args : List SandboxBuf) : List (List Byte) := args.filterMap SandboxBuf.bytes

theorem SandboxBuf.Plain.bytes {b : SandboxBuf} (h : b.Plain) :
    ∃ l, b.bytes = some l ∧ l.length = b.size.toNat := by
  obtain ⟨f, hf⟩ := Option.isSome_iff_exists.mp h.buf
  exact ⟨_, by rw [SandboxBuf.bytes, hf], List.length_ofFn⟩

theorem length_fieldBytes {args : List SandboxBuf} (hplain : ∀ b ∈ args, b.Plain) :
    (fieldBytes args).map List.length = args.map fun b => b.size.toNat := by
  induction args with
  | nil => rfl
  | cons b args ih =>
      obtain ⟨l, hl, hlen⟩ := (hplain b List.mem_cons_self).bytes
      rw [fieldBytes, List.filterMap_cons_some hl, List.map_cons, List.map_cons, hlen,
        ← ih fun c hc => hplain c (List.mem_cons_of_mem _ hc)]
      rfl

theorem fieldBytes_eq_nil_iff {args : List SandboxBuf} (hplain : ∀ b ∈ args, b.Plain) :
    fieldBytes args = [] ↔ args = [] := by
  have hlen := congrArg List.length (length_fieldBytes hplain)
  rw [List.length_map, List.length_map] at hlen
  rw [← List.length_eq_zero_iff, hlen, List.length_eq_zero_iff]

/-- **The array.** At most 255 buffers are put into it as they are, and their length is that of
the message. -/
theorem argBufs_eq {args : List SandboxBuf} (hplain : ∀ b ∈ args, b.Plain)
    (hlen : args.length ≤ sandboxMaxArg) (stack : ℕ → SandboxBuf) :
    (argBufs stack args).1 = msgLen (fieldBytes args) ∧
      sentBufs (argBufs stack args).2 = args := by
  have hsizes := length_fieldBytes hplain
  have hcount := congrArg List.length hsizes
  rw [List.length_map, List.length_map] at hcount
  constructor
  · rw [argBufs, gatherBufs_len hplain (by simpa using hlen), if_neg (Nat.lt_irrefl 0), msgLen,
      hsizes, hcount, ← BitVec.ofNat_add, Nat.add_assoc]
  · have hslots := (gatherBufs_slots hplain (by norm_num : 0 < 255) (by simpa using hlen)
      (BitVec.ofNat 32 sandboxMsgHdrlen) stack).2
    have hmap : (List.range 255).map (argBufs stack args).2 =
        (List.range' 0 (255 - 0)).map
          (gatherBufs args 0 (BitVec.ofNat 32 sandboxMsgHdrlen) stack).2 := by
      rw [← List.range_eq_range']
      refine List.map_congr_left fun i hi => ?_
      exact Function.update_of_ne (List.mem_range.mp hi).ne _ _
    rw [sentBufs, hmap, hslots]

/-- The fields are written as the format says. -/
theorem fieldPieces_eq {args : List SandboxBuf} (hplain : ∀ b ∈ args, b.Plain)
    {bufs : ℕ → SandboxBuf} (hsent : sentBufs bufs = args) :
    ∃ l : List (List Byte), fieldPieces bufs = l.map some ∧
      l.flatten = storeFields (fieldBytes args) := by
  rw [fieldPieces, storeFields, hsent]
  by_cases hnil : args = []
  · rw [if_pos hnil, if_pos ((fieldBytes_eq_nil_iff hplain).mpr hnil)]
    exact ⟨[List.replicate 4 0], rfl, List.flatten_singleton⟩
  · rw [if_neg hnil, if_neg (mt (fieldBytes_eq_nil_iff hplain).mp hnil)]
    clear hnil hsent
    induction args with
    | nil => exact ⟨[], rfl, rfl⟩
    | cons b args ih =>
        obtain ⟨l, hl, hlen⟩ := (hplain b List.mem_cons_self).bytes
        obtain ⟨ls, hls, hflat⟩ := ih fun c hc => hplain c (List.mem_cons_of_mem _ hc)
        refine ⟨leBytes 4 b.size.toNat :: l :: ls, ?_, ?_⟩
        · rw [List.flatMap_cons, hls, hl]
          rfl
        · rw [fieldBytes, List.filterMap_cons_some hl, List.flatMap_cons, List.flatten_cons,
            List.flatten_cons, hflat, hlen, List.append_assoc]
          rfl

/-- **What is sent.** When no write fails, the result is what `sendRrBuf` says. -/
theorem sendRrBufBy_eq {args : List SandboxBuf} (hplain : ∀ b ∈ args, b.Plain)
    (hlen : args.length ≤ sandboxMaxArg) {calls : List Call} (hcalls : ∀ c ∈ calls, ¬c.Breaks)
    (stack : ℕ → SandboxBuf) (id : BitVec 16) :
    ((sendRrBufBy stack calls id args).ccode, (sendRrBufBy stack calls id args).written) =
      match sendRrBuf id (fieldBytes args) with
      | none => (sandboxErrRw, [])
      | some msg => (sandboxOk, msg) := by
  obtain ⟨hmsglen, hsent⟩ := argBufs_eq hplain hlen stack
  obtain ⟨l, hl, hflat⟩ := fieldPieces_eq hplain hsent
  obtain ⟨hdone, hleft⟩ :=
    pushUntil_of_forall_not_breaks hcalls (headerPieces id (msgLen (fieldBytes args)))
  have hfields := (done_pushEach_iff _ _).mp (pushEach_of_forall_not_breaks hleft l)
  rw [whole_map_some] at hfields
  simp only [sendRrBufBy, sendRrBuf, hmsglen]
  split_ifs with hlimit
  · rfl
  · simp only [hl, hfields, hflat, out_pushUntil hdone]
    simp [headerPieces, storeMsgHeader, sandboxMsgMagic]

/-! ## The message and its reader -/

/-- The number of bytes of a message. -/
def messageLength (args : List SandboxBuf) : ℕ := 12 + (storeFields (fieldBytes args)).length

/-- What stands behind the header: the first buffer, and each other one behind its size. -/
def fromFirst : List (List Byte) → List Byte
  | [] => []
  | b :: bufs => b ++ bufs.flatMap fun b => leBytes 4 b.length ++ b

/-- The first four bytes of the fields complete the header. -/
theorem storeFields_eq_fromFirst (bufs : List (List Byte)) :
    ∃ first, first.length = 4 ∧ storeFields bufs = first ++ fromFirst bufs := by
  cases bufs with
  | nil => exact ⟨List.replicate 4 0, List.length_replicate, by simp [storeFields, fromFirst]⟩
  | cons b bufs =>
      exact ⟨leBytes 4 b.length, length_leBytes 4 _, by simp [storeFields, fromFirst]⟩

theorem length_storeFields (bufs : List (List Byte)) :
    (storeFields bufs).length = 4 + (bufs.map List.length).sum + 4 * (bufs.length - 1) := by
  rw [storeFields]
  split_ifs with hnil
  · simp [hnil]
  · have hpos := List.length_pos_of_ne_nil hnil
    rw [List.length_flatMap]
    simp only [List.length_append, length_leBytes, List.sum_map_add, List.map_const',
      List.sum_replicate, smul_eq_mul]
    omega

/-- The length in the header, which has 32 bits. -/
theorem toNat_msgLen_eq (args : List SandboxBuf) :
    (msgLen (fieldBytes args)).toNat = messageLength args % 2 ^ 32 := by
  rw [msgLen, BitVec.toNat_ofNat, messageLength, length_storeFields]
  simp only [sandboxMsgHdrlen]
  congr 1
  omega

/-- **A message of several fields is read.** Its header is accepted, and the dispatcher of its id
starts at the first buffer. -/
theorem readSandboxMessageHeader_of_fields {img : Image} (env : ServeEnv img) (eof : Bool)
    {id : BitVec 16} (hfirst : sandboxMsgFirst ≤ id) (hlast : id ≤ sandboxMsgLast)
    {len : BitVec 32} (hlen : len.toNat ≤ sandboxAllocSize) (bufs : List (List Byte))
    (rest : List Byte) (s : Sandbox) :
    readSandboxMessageHeader env eof (storeMsgHeader id len ++ storeFields bufs ++ rest) s =
      dispatch env id len (fromFirst bufs ++ rest) s := by
  obtain ⟨first, hfour, hfields⟩ := storeFields_eq_fromFirst bufs
  obtain ⟨-, -, hid, hget⟩ := msgGet_storeMsgHeader id len first
  have hhead : (storeMsgHeader id len ++ first).length = sandboxMsgHdrlen := by
    rw [List.length_append, length_storeMsgHeader, hfour]
  have hread := @readSandboxMessageHeader_of_ok img env eof s _ hhead
    (headerError_storeMsgHeader first hfirst hlast hlen) (fromFirst bufs ++ rest)
  rw [hid, hget] at hread
  rw [hfields, ← hread]
  simp only [List.append_assoc]

/-- `SANDBOX_OK` exactly for messages that are not too long; what is written then is the message,
and its reader calls the dispatcher with its length, at the first buffer. -/
def Delivers (stack : ℕ → SandboxBuf) (calls : List Call) (id : BitVec 16)
    (args : List SandboxBuf) : Prop :=
  let sent := sendRrBufBy stack calls id args
  (sent.ccode = sandboxOk ↔ messageLength args ≤ sandboxAllocSize) ∧
    (sent.ccode = sandboxOk → sent.written.length = messageLength args ∧
      sent.written = sandboxMsgMagic ++ leBytes 2 sandboxMsgVersion.toNat ++ leBytes 2 id.toNat ++
        leBytes 4 sent.written.length ++ storeFields (fieldBytes args) ∧
      (sandboxMsgFirst ≤ id → id ≤ sandboxMsgLast →
        ∀ (img : Image) (env : ServeEnv img) (eof : Bool) (rest : List Byte) (s : Sandbox),
          readSandboxMessageHeader env eof (sent.written ++ rest) s =
            dispatch env id (BitVec.ofNat 32 sent.written.length)
              (fromFirst (fieldBytes args) ++ rest) s))

/-- A buffer whose size is not the mark for the last one. -/
theorem plain_of_sum_lt {args : List SandboxBuf} (hbufs : ∀ b ∈ args, b.buf.isSome)
    (hsum : (args.map fun b => b.size.toNat + 4).sum < 2 ^ 32) : ∀ b ∈ args, b.Plain := by
  intro b hb
  refine ⟨hbufs b hb, fun hlast => ?_⟩
  have hle := List.le_sum_of_mem (List.mem_map_of_mem (f := fun b => b.size.toNat + 4) hb)
  rw [hlast] at hle
  have hvalue : sandboxLastArg.toNat = 2 ^ 32 - 1 := by decide
  omega

/-- A message is twelve bytes longer than its fields. -/
theorem messageLength_lt {args : List SandboxBuf} (hplain : ∀ b ∈ args, b.Plain)
    (hsum : (args.map fun b => b.size.toNat + 4).sum < 2 ^ 32) :
    messageLength args < 2 ^ 32 + 12 := by
  have hsizes := length_fieldBytes hplain
  have hcount := congrArg List.length hsizes
  rw [List.length_map, List.length_map] at hcount
  rw [messageLength, length_storeFields, hsizes, hcount]
  simp only [List.sum_map_add, List.map_const', List.sum_replicate, smul_eq_mul] at hsum
  cases args with
  | nil => simp
  | cons b args =>
      simp only [List.length_cons] at hsum ⊢
      omega

/-- **When a message is delivered.** For at most 255 buffers whose sizes and length words sum to
less than `2 ^ 32`, and when no write fails: exactly when the whole message has less than `2 ^ 32`
bytes. -/
theorem delivers_iff (stack : ℕ → SandboxBuf) (calls : List Call) (id : BitVec 16)
    (args : List SandboxBuf) (hcount : args.length ≤ sandboxMaxArg)
    (hbufs : ∀ b ∈ args, b.buf.isSome)
    (hsum : (args.map fun b => b.size.toNat + 4).sum < 2 ^ 32)
    (hcalls : ∀ c ∈ calls, ¬c.Breaks) :
    Delivers stack calls id args ↔ messageLength args < 2 ^ 32 := by
  have hplain := plain_of_sum_lt hbufs hsum
  have heq := sendRrBufBy_eq hplain hcount hcalls stack id
  have hlen := toNat_msgLen_eq args
  constructor
  · intro hdelivers
    by_contra hlarge
    -- the length wraps to one that passes the test
    have hlt := messageLength_lt hplain hsum
    have hsmall : ¬sandboxAllocSize < (msgLen (fieldBytes args)).toNat := by
      simp only [sandboxAllocSize]
      omega
    rw [sendRrBuf, if_neg hsmall] at heq
    have hle := hdelivers.1.mp (Prod.mk.inj heq).1
    simp only [sandboxAllocSize] at hle
    omega
  · intro hsmall
    rw [Nat.mod_eq_of_lt hsmall] at hlen
    have hwritten : (storeMsgHeader id (msgLen (fieldBytes args)) ++
        storeFields (fieldBytes args)).length = messageLength args := by
      rw [List.length_append, length_storeMsgHeader, messageLength]
    rw [sendRrBuf, hlen] at heq
    split_ifs at heq with hlimit
    · obtain ⟨hcode, -⟩ := Prod.mk.inj heq
      rw [Delivers, hcode]
      exact ⟨iff_of_false (by decide) (Nat.not_le.mpr hlimit), fun h => absurd h (by decide)⟩
    · obtain ⟨hcode, hbytes⟩ := Prod.mk.inj heq
      have hfit := Nat.le_of_not_lt hlimit
      have hofNat : BitVec.ofNat 32 (messageLength args) = msgLen (fieldBytes args) :=
        BitVec.eq_of_toNat_eq (by rw [BitVec.toNat_ofNat, Nat.mod_eq_of_lt hsmall, hlen])
      rw [Delivers, hcode, hbytes, hwritten, hofNat]
      refine ⟨iff_of_true rfl hfit, fun _ => ⟨rfl, ?_, fun hfirst hlast img env eof rest s => ?_⟩⟩
      · rw [storeMsgHeader, hlen]
      · exact readSandboxMessageHeader_of_fields env eof hfirst hlast (hlen ▸ hfit) _ rest s

/-- A buffer of so many bytes. -/
def SandboxBuf.zeros (size : BitVec 32) : SandboxBuf := ⟨size, some fun _ => 0⟩

theorem delivers_iff_zeros :
    Delivers (fun _ => .last) [.moves 3, .interrupted] 1 [.zeros 4, .zeros 2] ↔
      messageLength [.zeros 4, .zeros 2] < 2 ^ 32 :=
  delivers_iff (fun _ => .last) [.moves 3, .interrupted] 1 [.zeros 4, .zeros 2] (by decide)
    (by simp [SandboxBuf.zeros]) (by decide) (by decide)

/-- Two buffers of almost two gigabytes. -/
def hugeBufs : List SandboxBuf := List.replicate 2 (.zeros 0x7ffffff8)

/-- Their length word is 4, and the message is sent. -/
theorem length_wraps : hugeBufs.length ≤ sandboxMaxArg ∧ (∀ b ∈ hugeBufs, b.buf.isSome) ∧
    (hugeBufs.map fun b => b.size.toNat + 4).sum < 2 ^ 32 ∧
    ¬Delivers (fun _ => .last) [] 1 hugeBufs := by
  have hplain : ∀ b ∈ hugeBufs, b.Plain := by
    intro b hb
    rw [List.eq_of_mem_replicate hb]
    exact ⟨rfl, by decide⟩
  have hlength : messageLength hugeBufs = 2 ^ 32 + 4 := by
    rw [messageLength, length_storeFields, length_fieldBytes hplain, ← List.length_map,
      length_fieldBytes hplain]
    rfl
  have heq := @sendRrBufBy_eq hugeBufs hplain (by decide) [] (by simp) (fun _ => .last) 1
  have hlen := toNat_msgLen_eq hugeBufs
  rw [hlength] at hlen
  rw [sendRrBuf, if_neg (by rw [hlen]; decide)] at heq
  refine ⟨by decide, fun b hb => (hplain b hb).buf, by decide, fun hdelivers => ?_⟩
  have hle := hdelivers.1.mp (Prod.mk.inj heq).1
  rw [hlength] at hle
  exact absurd hle (by decide)

/-! ## Failures -/

/-- The header and the fields. -/
def messagePieces (stack : ℕ → SandboxBuf) (id : BitVec 16) (args : List SandboxBuf) :
    List (Option (List Byte)) :=
  (headerPieces id (argBufs stack args).1).map some ++ fieldPieces (argBufs stack args).2

/-- The lengths of what the second loop writes, where it can be read. -/
def fieldSizes (bufs : ℕ → SandboxBuf) : List (Option ℕ) :=
  (fieldPieces bufs).map (Option.map List.length)

/-- The calls of `write` behind those for the header, if there are any, get through the fields. A
message that is too long makes no call. -/
def FieldsCarried (stack : ℕ → SandboxBuf) (calls : List Call) (args : List SandboxBuf) : Prop :=
  (argBufs stack args).1.toNat ≤ sandboxAllocSize →
    ∀ left, carryEach calls [some 4, some 2, some 2, some 4] = some left →
      (carryEach left (fieldSizes (argBufs stack args).2)).isSome

theorem carryEach_headerPieces (calls : List Call) (id : BitVec 16) (len : BitVec 32) :
    carryEach calls [some 4, some 2, some 2, some 4] =
      if (pushUntil calls (headerPieces id len)).done then
        some (pushUntil calls (headerPieces id len)).calls
      else none := by
  rw [← carryEach_eq_pushUntil]
  simp [headerPieces, sandboxMsgMagic]

/-- **When `SANDBOX_OK` means that all was written.** For all arguments and whatever the calls of
`write` do: exactly when no call fails behind those for the header. -/
theorem whole_iff (stack : ℕ → SandboxBuf) (calls : List Call) (id : BitVec 16)
    (args : List SandboxBuf) :
    ((sendRrBufBy stack calls id args).ccode = sandboxOk →
        Whole (messagePieces stack id args) (sendRrBufBy stack calls id args).written) ↔
      FieldsCarried stack calls args := by
  have hcarry := carryEach_headerPieces calls id (argBufs stack args).1
  have herr : sandboxErrRw ≠ sandboxOk := by decide
  simp only [FieldsCarried, sendRrBufBy, messagePieces]
  split_ifs with hlimit hheader
  · exact iff_of_true (fun h => absurd h herr) fun h => absurd h (Nat.not_le.mpr hlimit)
  · rw [if_pos hheader] at hcarry
    simp only [hcarry, Option.some.injEq, forall_eq', Nat.le_of_not_lt hlimit, forall_const,
      fieldSizes, isSome_carryEach, done_pushEach_iff, out_pushUntil hheader]
    exact whole_append_iff _ _ _
  · rw [if_neg hheader] at hcarry
    exact iff_of_true (fun h => absurd h herr) fun _ left h => absurd (hcarry ▸ h) nofun

/-- The client asks for the list, and the connection breaks behind the first twelve bytes. -/
theorem broken_message_ok :
    ¬((sendRrBufBy (fun _ => .last) [.moves 4, .moves 2, .moves 2, .moves 4, .fails] sandboxMsgList
        []).ccode = sandboxOk →
      Whole (messagePieces (fun _ => .last) sandboxMsgList [])
        (sendRrBufBy (fun _ => .last) [.moves 4, .moves 2, .moves 2, .moves 4, .fails]
          sandboxMsgList []).written) := by
  decide +kernel

end Patchbox
