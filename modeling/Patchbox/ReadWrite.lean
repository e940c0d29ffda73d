import Patchbox.Lib.Schedules
import Patchbox.Lib.Stores
import Patchbox.Lib.Transfers
import Patchbox.Dispatch

/-!
# Reading and writing in pieces

`readn` and `writen` go on until all bytes are moved, however few each call of `read` or
`write` moves, and make a call again that is interrupted. Their counts are unsigned, their
results are not. A schedule lists what the calls do; every schedule that moves something
leads to one result, which the lengths alone decide.

## Main definitions

* `readnBy`, `writenBy` — the two functions, with the calls given.
* `AlwaysYields` — the result under every schedule, that there is one, and -1 after an error.
* `readWrite_alwaysYields` — what the two functions come to.
-/

namespace Patchbox
open Lib

/-! ## The calls -/

/-- The values of `errno` after which a call is made again. -/
abbrev eintr : ℕ := 4
abbrev eagain : ℕ := 11

/-- `SSIZE_MAX`, the most that a call moves. -/
abbrev ssizeMax : ℕ := 2 ^ 63 - 1

/-- What a call of `read` or `write` does: it moves so many bytes at most, or fails. -/
inductive Syscall where
  | moves (k : ℕ)
  | fails (errno : ℕ)
  deriving DecidableEq

/-- The call is made again. -/
def Again (errno : ℕ) : Prop := errno = eintr ∨ errno = eagain

instance (errno : ℕ) : Decidable (Again errno) := inferInstanceAs (Decidable (_ ∨ _))

/-- The call moves something, or is made again. -/
def Syscall.Transfers : Syscall → Prop
  | .moves k => k ≠ 0
  | .fails errno => Again errno

instance : DecidablePred Syscall.Transfers
  | .moves k => inferInstanceAs (Decidable (k ≠ 0))
  | .fails errno => inferInstanceAs (Decidable (Again errno))

/-- A call that moves something. -/
def Syscall.isMove : Syscall → Bool
  | .moves _ => true
  | .fails _ => false

/-- How many of `count` bytes a call moves. -/
def moved (k count : ℕ) : ℕ := min (min k ssizeMax) count

/-- What a pointer points to: the memory from there on, and how many bytes of it are one object.
None has more than `PTRDIFF_MAX` bytes. -/
structure Object where
  mem : ℕ → Byte
  size : ℕ
  size_le : size ≤ ssizeMax

/-! ## The functions -/

/-- The variables of `readn`, the memory it fills, and the bytes to come. -/
structure ReadnState where
  nleft : BitVec 64
  ptr : ℕ
  mem : ℕ → Byte
  input : List Byte

/-- What `readn` returns and leaves. -/
structure ReadnResult where
  ret : Int
  mem : ℕ → Byte
  input : List Byte

/-- The end of `readn`. -/
def ReadnState.finish (n : BitVec 64) (s : ReadnState) : ReadnResult :=
  ⟨(n - s.nleft).toInt, s.mem, s.input⟩

/-- The test of its loop. -/
def ReadnState.ended (n : BitVec 64) (s : ReadnState) : Option ReadnResult :=
  if 0 < s.nleft then none else some (s.finish n)

/-- One round of `readn`, behind its call of `read`. -/
def readnRound (n : BitVec 64) (s : ReadnState) : Syscall → ReadnState ⊕ ReadnResult
  | .fails errno => if Again errno then .inl s else .inr ⟨-1, s.mem, s.input⟩
  | .moves k =>
    let nread := moved k (min s.nleft.toNat s.input.length)
    if nread = 0 then .inr (s.finish n)
    else .inl {
      nleft := s.nleft - BitVec.ofNat 64 nread
      ptr := s.ptr + nread
      mem := store s.mem s.ptr (s.input.take nread)
      input := s.input.drop nread }

/-- `readn`. The stream ends behind `input`. -/
def readnBy (vptr : Object) (n : BitVec 64) (input : List Byte) (calls : List Syscall) :
    Option ReadnResult :=
  drive (ReadnState.ended n) (readnRound n) calls ⟨n, 0, vptr.mem, input⟩

/-- The variables of `writen`, and the bytes that were taken. -/
structure WritenState where
  nleft : BitVec 64
  ptr : ℕ
  out : List Byte

/-- What `writen` returns, and the bytes that were taken. -/
structure WritenResult where
  ret : Int
  out : List Byte

/-- The test of the loop of `writen`. -/
def WritenState.ended (n : BitVec 64) (s : WritenState) : Option WritenResult :=
  if 0 < s.nleft then none else some ⟨n.toInt, s.out⟩

/-- One round of `writen`, behind its call of `write`. -/
def writenRound (vptr : Object) (s : WritenState) : Syscall → WritenState ⊕ WritenResult
  | .fails errno => if Again errno then .inl s else .inr ⟨-1, s.out⟩
  | .moves k =>
    let nwritten := moved k s.nleft.toNat
    if nwritten = 0 then .inr ⟨-1, s.out⟩
    else .inl {
      nleft := s.nleft - BitVec.ofNat 64 nwritten
      ptr := s.ptr + nwritten
      out := s.out ++ (List.range nwritten).map fun i => vptr.mem (s.ptr + i) }

/-- `writen`. -/
def writenBy (vptr : Object) (n : BitVec 64) (calls : List Syscall) : Option WritenResult :=
  drive (WritenState.ended n) (writenRound vptr) calls ⟨n, 0, []⟩

/-! ## What a schedule leads to -/

/-- Every schedule of calls that move something or are made again leads to one result, and calls
that move something often enough lead to it. A call that fails otherwise, when the loop comes to
it, makes the function return -1. -/
structure AlwaysYields {ρ : Type} (run : List Syscall → Option ρ) (ret : ρ → Int) (enough : ℕ)
    (result : ρ) : Prop where
  result_eq : ∀ calls, (∀ c ∈ calls, c.Transfers) → ∀ r, run calls = some r → r = result
  ends : ∀ calls, (∀ c ∈ calls, c.Transfers) → enough ≤ calls.countP Syscall.isMove →
    (run calls).isSome
  breaks : ∀ calls, (∀ c ∈ calls, c.Transfers) → run calls = none → ∀ errno, ¬Again errno →
    ∀ rest, ∃ r, run (calls ++ .fails errno :: rest) = some r ∧ ret r = -1

/-- **The rule for such a loop.** A call that transfers leads from a state of the loop to another
one or to the result; the variant is lowered by those that move something. -/
theorem alwaysYields_drive {σ ρ : Type} {ended : σ → Option ρ} {round : σ → Syscall → σ ⊕ ρ}
    {ret : ρ → Int} {result : ρ} {I : σ → Prop} (variant : σ → ℕ) {s₀ : σ} (hs₀ : I s₀)
    (hended : ∀ s r, I s → ended s = some r → r = result)
    (hzero : ∀ s, I s → variant s = 0 → (ended s).isSome)
    (hround : ∀ s c, I s → c.Transfers → ended s = none →
      (∃ s', round s c = .inl s' ∧ I s' ∧
        variant s' + (if c.isMove then 1 else 0) ≤ variant s) ∨ round s c = .inr result)
    (hbreak : ∀ s errno, ¬Again errno → ∃ r, round s (.fails errno) = .inr r ∧ ret r = -1) :
    AlwaysYields (fun calls => drive ended round calls s₀) ret (variant s₀) result := by
  have hinl : ∀ s c s', I s → c.Transfers → ended s = none → round s c = .inl s' →
      I s' ∧ variant s' + (if c.isMove then 1 else 0) ≤ variant s := by
    intro s c s' hs hc hend hs'
    rcases hround s c hs hc hend with ⟨s'', hs'', hI, hle⟩ | hr
    · obtain rfl := Sum.inl.inj (hs''.symm.trans hs')
      exact ⟨hI, hle⟩
    · cases hr.symm.trans hs'
  have hkeeps := fun s c s' hs hc hend hs' => (hinl s c s' hs hc hend hs').1
  refine ⟨fun calls hcalls r hr => ?_, fun calls hcalls henough => ?_,
    fun calls hcalls hnone errno hnot rest => ?_⟩
  · refine drive_invariant (R := (· = result)) hended hkeeps (fun s c r hs hc hend hr => ?_)
      hcalls hs₀ hr
    rcases hround s c hs hc hend with ⟨s', hs', -⟩ | hresult
    · cases hs'.symm.trans hr
    · exact Sum.inr.inj (hr.symm.trans hresult)
  · exact drive_isSome variant hzero hinl hcalls hs₀ henough
  · obtain ⟨s, -, -, hdrive⟩ := drive_break hkeeps hcalls hs₀ hnone (.fails errno) rest
    obtain ⟨r, hr, hret⟩ := hbreak s errno hnot
    rw [hr] at hdrive
    exact ⟨r, hdrive, hret⟩

theorem moved_pos {k count : ℕ} (hk : k ≠ 0) (hcount : 0 < count) : 0 < moved k count := by
  simp only [moved, ssizeMax]
  omega

theorem moved_le (k count : ℕ) : moved k count ≤ count := Nat.min_le_right _ _

theorem toNat_sub_ofNat {n : BitVec 64} {j : ℕ} (h : j ≤ n.toNat) :
    (n - BitVec.ofNat 64 j).toNat = n.toNat - j := by
  have hlt := n.isLt
  rw [BitVec.toNat_sub, BitVec.toNat_ofNat, Nat.mod_eq_of_lt (h.trans_lt hlt)]
  omega

theorem sub_ofNat_add (n : BitVec 64) (j k : ℕ) :
    n - BitVec.ofNat 64 j - BitVec.ofNat 64 k = n - BitVec.ofNat 64 (j + k) := by
  rw [BitVec.sub_sub, BitVec.ofNat_add]

theorem toInt_ofNat_of_le {j : ℕ} (h : j ≤ ssizeMax) : (BitVec.ofNat 64 j).toInt = j :=
  toInt_ofNat_of_lt (by simp only [ssizeMax] at h; omega)

/-- Either loop goes on as long as bytes are left. -/
theorem test_eq_none_iff {ρ : Type} {nleft : BitVec 64} {r : ρ} :
    (if 0 < nleft then none else some r) = none ↔ 0 < nleft.toNat := by
  have hpos : 0 < nleft ↔ 0 < nleft.toNat := BitVec.lt_def
  split_ifs with h
  · exact iff_of_true rfl (hpos.mp h)
  · exact iff_of_false nofun (mt hpos.mpr h)

theorem ReadnState.ended_eq_none_iff {n : BitVec 64} {s : ReadnState} :
    s.ended n = none ↔ 0 < s.nleft.toNat := test_eq_none_iff

theorem WritenState.ended_eq_none_iff {n : BitVec 64} {s : WritenState} :
    s.ended n = none ↔ 0 < s.nleft.toNat := test_eq_none_iff

/-! ## Reading -/

section Readn
variable {vptr : Object} {n : BitVec 64} {input : List Byte} {j : ℕ}

/-- The state of `readn` once `j` bytes are there. -/
def readnAfter (vptr : Object) (n : BitVec 64) (input : List Byte) (j : ℕ) : ReadnState :=
  ⟨n - BitVec.ofNat 64 j, j, store vptr.mem 0 (input.take j), input.drop j⟩

/-- What `readn` comes to. -/
def readnResult (vptr : Object) (n : BitVec 64) (input : List Byte) : ReadnResult where
  ret := (min n.toNat input.length : ℕ)
  mem := fromList (input.take n.toNat) vptr.mem
  input := input.drop n.toNat

theorem readnRound_moves (h : j ≤ n.toNat) (k : ℕ) :
    readnRound n (readnAfter vptr n input j) (.moves k) =
      let nread := moved k (min (n.toNat - j) (input.length - j))
      if nread = 0 then .inr ((readnAfter vptr n input j).finish n)
      else .inl (readnAfter vptr n input (j + nread)) := by
  have hnleft : (readnAfter vptr n input j).nleft.toNat = n.toNat - j := toNat_sub_ofNat h
  have hrest : (readnAfter vptr n input j).input.length = input.length - j := List.length_drop
  simp only [readnRound, hnleft, hrest]
  split_ifs with hzero
  · rfl
  · have hle := moved_le k (min (n.toNat - j) (input.length - j))
    have hlen : 0 + (input.take j).length = j := by
      rw [List.length_take]
      omega
    have hmem := store_store vptr.mem 0 (input.take j)
      ((input.drop j).take (moved k (min (n.toNat - j) (input.length - j))))
    rw [hlen, ← List.take_add] at hmem
    simp only [readnAfter, sub_ofNat_add, hmem, List.drop_drop]

/-- The end, when all that there is was read. -/
theorem finish_readnAfter (hfit : min n.toNat input.length ≤ ssizeMax)
    (h : j = min n.toNat input.length) :
    (readnAfter vptr n input j).finish n = readnResult vptr n input := by
  subst h
  have htake : input.take (min n.toNat input.length) = input.take n.toNat := by
    rw [List.take_eq_take_iff]
    omega
  have hdrop : input.drop (min n.toNat input.length) = input.drop n.toNat := by
    rcases Nat.le_total n.toNat input.length with hle | hle
    · rw [Nat.min_eq_left hle]
    · rw [Nat.min_eq_right hle, List.drop_length, List.drop_of_length_le hle]
  rw [ReadnState.finish, readnAfter, readnResult, sub_sub_cancel, toInt_ofNat_of_le hfit, htake,
    hdrop, store_zero_eq_fromList]

/-- The states that `readn` comes to. -/
def ReadnReached (vptr : Object) (n : BitVec 64) (input : List Byte) (s : ReadnState) : Prop :=
  ∃ j ≤ min n.toNat input.length, s = readnAfter vptr n input j

theorem readnReached_start : ReadnReached vptr n input ⟨n, 0, vptr.mem, input⟩ :=
  ⟨0, Nat.zero_le _, by simp [readnAfter]⟩

/-- **One round of `readn`.** It goes on with more bytes, or there are none left. -/
theorem ReadnReached.round {s : ReadnState} (hs : ReadnReached vptr n input s)
    (hfit : min n.toNat input.length ≤ ssizeMax) {c : Syscall} (hc : c.Transfers)
    (hgoes : s.ended n = none) :
    (∃ s', readnRound n s c = .inl s' ∧ ReadnReached vptr n input s' ∧
        min s'.nleft.toNat (s'.input.length + 1) + (if c.isMove then 1 else 0) ≤
          min s.nleft.toNat (s.input.length + 1)) ∨
      readnRound n s c = .inr (readnResult vptr n input) := by
  obtain ⟨j, hj, rfl⟩ := hs
  have hjn : j ≤ n.toNat := by omega
  have hnleft : (readnAfter vptr n input j).nleft.toNat = n.toNat - j := toNat_sub_ofNat hjn
  have hleft : 0 < n.toNat - j := hnleft ▸ ReadnState.ended_eq_none_iff.mp hgoes
  cases c with
  | fails errno =>
      exact .inl ⟨_, if_pos hc, ⟨j, hj, rfl⟩, by simp [Syscall.isMove]⟩
  | moves k =>
      rw [readnRound_moves hjn]
      rcases Nat.eq_zero_or_pos (input.length - j) with hend | hrest
      · right
        have hzero : moved k (min (n.toNat - j) (input.length - j)) = 0 := by
          rw [hend, Nat.min_zero]
          exact Nat.le_zero.mp (moved_le k 0)
        rw [if_pos hzero, finish_readnAfter hfit (by omega)]
      · left
        have hpos := moved_pos (k := k) hc (Nat.lt_min.mpr ⟨hleft, hrest⟩)
        have hle := moved_le k (min (n.toNat - j) (input.length - j))
        have hnext : (readnAfter vptr n input
            (j + moved k (min (n.toNat - j) (input.length - j)))).nleft.toNat =
            n.toNat - (j + moved k (min (n.toNat - j) (input.length - j))) :=
          toNat_sub_ofNat (by omega)
        rw [if_neg hpos.ne']
        refine ⟨_, rfl, ⟨_, by omega, rfl⟩, ?_⟩
        rw [hnleft, hnext]
        simp only [readnAfter, List.length_drop, Syscall.isMove, if_true]
        omega

/-- **`readn` under every schedule.** -/
theorem readnBy_alwaysYields (hfit : min n.toNat input.length ≤ ssizeMax) :
    AlwaysYields (readnBy vptr n input) ReadnResult.ret (min n.toNat (input.length + 1))
      (readnResult vptr n input) := by
  refine alwaysYields_drive (fun s => min s.nleft.toNat (s.input.length + 1)) readnReached_start
    (fun s r hs hr => ?_) (fun s hs hzero => ?_) (fun s c hs hc hend => ?_) fun s errno hnot => ?_
  · obtain ⟨j, hj, rfl⟩ := hs
    have hnleft : (readnAfter vptr n input j).nleft.toNat = n.toNat - j :=
      toNat_sub_ofNat (by omega)
    have hgoes := mt ReadnState.ended_eq_none_iff.mpr (Option.ne_none_iff_exists'.mpr ⟨r, hr⟩)
    rw [hnleft] at hgoes
    rw [ReadnState.ended] at hr
    split_ifs at hr
    rw [← Option.some.inj hr, finish_readnAfter hfit (by omega)]
  · rw [← Option.ne_none_iff_isSome, Ne, ReadnState.ended_eq_none_iff]
    omega
  · exact hs.round hfit hc hend
  · exact ⟨_, if_neg hnot, rfl⟩

end Readn

/-! ## Writing -/

section Writen
variable {vptr : Object} {n : BitVec 64} {j : ℕ}

/-- The first bytes of an object. -/
def Object.bytes (vptr : Object) (k : ℕ) : List Byte := (List.range k).map vptr.mem

theorem Object.bytes_append (vptr : Object) (j k : ℕ) :
    vptr.bytes j ++ (List.range k).map (fun i => vptr.mem (j + i)) = vptr.bytes (j + k) := by
  rw [Object.bytes, Object.bytes, List.range_add, List.map_append, List.map_map]
  rfl

/-- The state of `writen` once `j` bytes are taken. -/
def writenAfter (vptr : Object) (n : BitVec 64) (j : ℕ) : WritenState :=
  ⟨n - BitVec.ofNat 64 j, j, vptr.bytes j⟩

theorem writenRound_moves (h : j ≤ n.toNat) (k : ℕ) :
    writenRound vptr (writenAfter vptr n j) (.moves k) =
      let nwritten := moved k (n.toNat - j)
      if nwritten = 0 then .inr ⟨-1, vptr.bytes j⟩
      else .inl (writenAfter vptr n (j + nwritten)) := by
  have hnleft : (writenAfter vptr n j).nleft.toNat = n.toNat - j := toNat_sub_ofNat h
  simp only [writenRound, hnleft]
  split_ifs with hzero
  · rfl
  · simp only [writenAfter, sub_ofNat_add, Object.bytes_append]

/-- What `writen` comes to. -/
def writenResult (vptr : Object) (n : BitVec 64) : WritenResult := ⟨n.toNat, vptr.bytes n.toNat⟩

/-- The end, when all was taken. -/
theorem ended_writenAfter (hj : j ≤ n.toNat) (hfit : n.toNat ≤ ssizeMax) :
    (writenAfter vptr n j).ended n = if j < n.toNat then none else some (writenResult vptr n) := by
  have hnleft : (writenAfter vptr n j).nleft.toNat = n.toNat - j := toNat_sub_ofNat hj
  split_ifs with hlt
  · rw [WritenState.ended_eq_none_iff, hnleft]
    omega
  · obtain rfl : j = n.toNat := by omega
    have hnot : ¬0 < (writenAfter vptr n n.toNat).nleft := by
      rw [BitVec.lt_def, hnleft, Nat.sub_self]
      exact Nat.lt_irrefl 0
    have hret := toInt_ofNat_of_le hfit
    rw [BitVec.ofNat_toNat, BitVec.setWidth_eq] at hret
    rw [WritenState.ended, if_neg hnot, hret, writenResult, writenAfter]

/-- The states that `writen` comes to. -/
def WritenReached (vptr : Object) (n : BitVec 64) (s : WritenState) : Prop :=
  ∃ j ≤ n.toNat, s = writenAfter vptr n j

/-- **One round of `writen`.** -/
theorem WritenReached.round {s : WritenState} (hs : WritenReached vptr n s) {c : Syscall}
    (hc : c.Transfers) (hgoes : s.ended n = none) :
    ∃ s', writenRound vptr s c = .inl s' ∧ WritenReached vptr n s' ∧
      s'.nleft.toNat + (if c.isMove then 1 else 0) ≤ s.nleft.toNat := by
  obtain ⟨j, hj, rfl⟩ := hs
  have hnleft : (writenAfter vptr n j).nleft.toNat = n.toNat - j := toNat_sub_ofNat hj
  have hleft : 0 < n.toNat - j := hnleft ▸ WritenState.ended_eq_none_iff.mp hgoes
  cases c with
  | fails errno => exact ⟨_, if_pos hc, ⟨j, hj, rfl⟩, by simp [Syscall.isMove]⟩
  | moves k =>
      have hpos := moved_pos (k := k) hc hleft
      have hle := moved_le k (n.toNat - j)
      have hnext : (writenAfter vptr n (j + moved k (n.toNat - j))).nleft.toNat =
          n.toNat - (j + moved k (n.toNat - j)) := toNat_sub_ofNat (by omega)
      refine ⟨writenAfter vptr n (j + moved k (n.toNat - j)), ?_, ⟨_, by omega, rfl⟩, ?_⟩
      · rw [writenRound_moves hj]
        exact if_neg hpos.ne'
      · rw [hnleft, hnext, Syscall.isMove, if_pos rfl]
        omega

/-- **`writen` under every schedule.** -/
theorem writenBy_alwaysYields (hfit : n.toNat ≤ ssizeMax) :
    AlwaysYields (writenBy vptr n) WritenResult.ret n.toNat (writenResult vptr n) := by
  refine alwaysYields_drive (I := WritenReached vptr n) (fun s => s.nleft.toNat)
    ⟨0, Nat.zero_le _, by simp [writenAfter, Object.bytes]⟩ (fun s r hs hr => ?_)
    (fun s hs hzero => ?_) (fun s c hs hc hend => ?_) fun s errno hnot => ?_
  · obtain ⟨j, hj, rfl⟩ := hs
    rw [ended_writenAfter hj hfit] at hr
    split_ifs at hr with hend
    exact (Option.some.inj hr).symm
  · rw [← Option.ne_none_iff_isSome, Ne, WritenState.ended_eq_none_iff]
    omega
  · exact .inl (hs.round hc hend)
  · exact ⟨_, if_neg hnot, rfl⟩

end Writen

/-! ## Both functions -/

/-- **However a transfer is cut up.** For every stream, every `n` and all memory at `vptr`, of which
one object takes what is read: under every schedule `readn` delivers the first `n` bytes of the
stream, or all there are, in order and returns how many, and `writen` emits the `n` bytes that
stand at its pointer and returns `n`. -/
theorem readWrite_alwaysYields (vptr : Object) (n : BitVec 64) (input : List Byte)
    (hroom : min n.toNat input.length ≤ vptr.size) :
    AlwaysYields (readnBy vptr n input) ReadnResult.ret (min n.toNat (input.length + 1))
        (readnResult vptr n input) ∧
      (n.toNat ≤ vptr.size →
        AlwaysYields (writenBy vptr n) WritenResult.ret n.toNat (writenResult vptr n)) :=
  ⟨readnBy_alwaysYields (hroom.trans vptr.size_le),
    fun hn => writenBy_alwaysYields (hn.trans vptr.size_le)⟩

/-- A buffer of four bytes. -/
def fourBytes : Object := ⟨fun _ => 0, 4, by decide⟩

theorem readWrite_alwaysYields_fourBytes :
    AlwaysYields (readnBy fourBytes 4 [1, 2, 3]) ReadnResult.ret 4
        ⟨3, fromList [1, 2, 3] fun _ => 0, []⟩ ∧
      AlwaysYields (writenBy fourBytes 4) WritenResult.ret 4 ⟨4, [0, 0, 0, 0]⟩ := by
  have h := readWrite_alwaysYields fourBytes 4 [1, 2, 3] (by decide)
  exact ⟨h.1, h.2 (by decide)⟩

/-! ## The coarser models -/

/-- What a call does, for the loop over lists. -/
def Syscall.call : Syscall → Call
  | .moves k => .moves (min k ssizeMax)
  | .fails errno => if Again errno then .interrupted else .fails

variable {vptr : Object} {n : BitVec 64} {r : WritenResult}

/-- The bytes that `writen` has still to write. -/
def leftBytes (vptr : Object) (n : BitVec 64) (j : ℕ) : List Byte :=
  (List.range (n.toNat - j)).map fun i => vptr.mem (j + i)

theorem length_leftBytes (vptr : Object) (n : BitVec 64) (j : ℕ) :
    (leftBytes vptr n j).length = n.toNat - j := by
  rw [leftBytes, List.length_map, List.length_range]

/-- A call takes the first of them. -/
theorem leftBytes_eq_append {j k : ℕ} (h : k ≤ n.toNat - j) :
    leftBytes vptr n j =
      (List.range k).map (fun i => vptr.mem (j + i)) ++ leftBytes vptr n (j + k) := by
  rw [leftBytes, ← Nat.add_sub_cancel' h, List.range_add, List.map_append, List.map_map, leftBytes,
    Nat.sub_add_eq]
  simp only [Function.comp_def, Nat.add_assoc]

/-- What the loop over lists has in common with `writen`. -/
def SameWrites (vptr : Object) (n : BitVec 64) (calls : List Syscall) (j : ℕ) (r : WritenResult) :
    Prop :=
  let p := push (calls.map Syscall.call) (leftBytes vptr n j)
  r.out = vptr.bytes j ++ p.out ∧ (p.done = true ↔ r.ret ≠ -1)

theorem sameWrites_end (vptr : Object) (n : BitVec 64) (calls : List Syscall) :
    SameWrites vptr n calls n.toNat (writenResult vptr n) := by
  have hnil : leftBytes vptr n n.toNat = [] := by simp [leftBytes]
  rw [SameWrites, hnil, push_nil]
  refine ⟨(List.append_nil _).symm, iff_of_true rfl ?_⟩
  simp only [writenResult]
  omega

/-- Either loop is broken off by the next call. -/
theorem sameWrites_broken {calls : List Syscall} {left : List Call} {j : ℕ}
    (h : push (calls.map Syscall.call) (leftBytes vptr n j) = ⟨false, [], left⟩) :
    SameWrites vptr n calls j ⟨-1, vptr.bytes j⟩ := by
  rw [SameWrites, h]
  exact ⟨(List.append_nil _).symm, iff_of_false nofun (not_not.mpr rfl)⟩

theorem leftBytes_ne_nil {j : ℕ} (h : j < n.toNat) : leftBytes vptr n j ≠ [] :=
  List.ne_nil_of_length_pos (by rw [length_leftBytes]; omega)

/-- A call that takes some of the bytes that are left, in either loop. -/
theorem sameWrites_moves {calls : List Syscall} {j k : ℕ} (hk : k ≠ 0) (hlt : j < n.toNat)
    (h : SameWrites vptr n calls (j + moved k (n.toNat - j)) r) :
    SameWrites vptr n (.moves k :: calls) j r := by
  obtain ⟨q, hq⟩ : ∃ q, min k ssizeMax = q + 1 :=
    Nat.exists_eq_succ_of_ne_zero (by simp only [ssizeMax]; omega)
  have hmin : min (q + 1) (leftBytes vptr n j).length =
      min (moved k (n.toNat - j)) (leftBytes vptr n j).length := by
    rw [length_leftBytes, moved, hq, min_assoc, min_self]
  have hsplit := @leftBytes_eq_append vptr n j _ (moved_le k (n.toNat - j))
  have htake : (leftBytes vptr n j).take (q + 1) =
      (List.range (moved k (n.toNat - j))).map fun i => vptr.mem (j + i) := by
    rw [List.take_eq_take_iff.mpr hmin, hsplit]
    exact List.take_left' (by rw [List.length_map, List.length_range])
  have hdrop : (leftBytes vptr n j).drop (q + 1) =
      leftBytes vptr n (j + moved k (n.toNat - j)) := by
    rw [List.drop_eq_drop_iff.mpr hmin, hsplit]
    exact List.drop_left' (by rw [List.length_map, List.length_range])
  obtain ⟨hout, hdone⟩ := h
  rw [SameWrites, List.map_cons, Syscall.call, hq, push_moves (leftBytes_ne_nil hlt), htake, hdrop]
  refine ⟨?_, hdone⟩
  rw [hout, ← Object.bytes_append, List.append_assoc]

theorem sameWrites_of_drive (hfit : n.toNat ≤ ssizeMax) {calls : List Syscall} {j : ℕ}
    (hj : j ≤ n.toNat)
    (h : drive (WritenState.ended n) (writenRound vptr) calls (writenAfter vptr n j) = some r) :
    SameWrites vptr n calls j r := by
  induction calls generalizing j with
  | nil =>
      rw [drive, ended_writenAfter hj hfit] at h
      split_ifs at h with hlt
      obtain rfl : j = n.toNat := by omega
      exact Option.some.inj h ▸ sameWrites_end vptr n []
  | cons c calls ih =>
      have hend := @ended_writenAfter vptr n j hj hfit
      rcases Nat.eq_or_lt_of_le hj with rfl | hlt
      · rw [if_neg (Nat.lt_irrefl _)] at hend
        rw [drive_of_ended hend] at h
        exact Option.some.inj h ▸ sameWrites_end vptr n (c :: calls)
      · rw [if_pos hlt] at hend
        have hne := @leftBytes_ne_nil vptr n j hlt
        cases c with
        | fails errno =>
            by_cases hagain : Again errno
            · rw [drive_of_inl hend (if_pos hagain)] at h
              have hsame := ih hj h
              rw [SameWrites] at hsame
              rwa [SameWrites, List.map_cons, Syscall.call, if_pos hagain, push_interrupted hne]
            · rw [drive_of_inr hend (if_neg hagain)] at h
              have hpush := push_fails hne (calls.map Syscall.call)
              rw [← Option.some.inj h]
              exact sameWrites_broken (by rwa [List.map_cons, Syscall.call, if_neg hagain])
        | moves k =>
            have hround := @writenRound_moves vptr n j hj k
            rcases Nat.eq_zero_or_pos k with rfl | hk
            · rw [drive_of_inr hend (hround.trans (if_pos (Nat.zero_min _)))] at h
              have hpush := push_moves_zero hne (calls.map Syscall.call)
              rw [← Option.some.inj h]
              exact sameWrites_broken (by rwa [List.map_cons, Syscall.call, Nat.zero_min])
            · have hpos := moved_pos hk.ne' (Nat.sub_pos_of_lt hlt)
              have hle := moved_le k (n.toNat - j)
              rw [drive_of_inl hend (hround.trans (if_neg hpos.ne'))] at h
              exact sameWrites_moves hk.ne' hlt (ih (by omega) h)

/-- **`writen` is the loop over lists.** It returns -1 where that is broken off. -/
theorem push_of_writenBy (hfit : n.toNat ≤ ssizeMax) {calls : List Syscall}
    (h : writenBy vptr n calls = some r) :
    r.out = (push (calls.map Syscall.call) (vptr.bytes n.toNat)).out ∧
      ((push (calls.map Syscall.call) (vptr.bytes n.toNat)).done = true ↔ r.ret ≠ -1) := by
  have hstart : (⟨n, 0, []⟩ : WritenState) = writenAfter vptr n 0 := by
    simp [writenAfter, Object.bytes]
  have hleft : leftBytes vptr n 0 = vptr.bytes n.toNat := by simp [leftBytes, Object.bytes]
  rw [writenBy, hstart] at h
  have hsame := sameWrites_of_drive hfit (Nat.zero_le _) h
  rwa [SameWrites, hleft] at hsame

end Patchbox
