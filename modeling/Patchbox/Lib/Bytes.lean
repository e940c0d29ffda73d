import Mathlib

/-!
# Bytes and fixed-width numbers

A number of `k` bytes is read from, and written to, a byte string in one of two
orders: the little-endian order of a machine word in memory, and the big-endian
order of a file format. Both are stated on natural numbers, so that one pair of
round-trip lemmas serves every width.

A fixed array of `n` bytes is a function on `Fin n`; an unbounded byte string
with a start, such as the memory behind a pointer, is a function on `ℕ`.

## Main definitions

* `Byte`, `Bytes n` — a byte, and a fixed array of bytes.
* `leNat`, `leByte` — little-endian reading and writing.
* `beNat`, `beBytes` — big-endian reading and writing.
* `fromList` — a finite string continued by whatever follows it.
* `StandsAt` — a finite string inside another.
-/

namespace Lib

/-- Eight bits. -/
abbrev Byte := BitVec 8

/-- A fixed array of `n` bytes. -/
abbrev Bytes (n : ℕ) := Fin n → Byte

/-- The array as a list. -/
def Bytes.toList {n : ℕ} (b : Bytes n) : List Byte := List.ofFn b

@[simp] theorem Bytes.length_toList {n : ℕ} (b : Bytes n) : b.toList.length = n := by
  simp [Bytes.toList]

@[simp] theorem Bytes.getElem_toList {n : ℕ} (b : Bytes n) {i : ℕ} (h : i < b.toList.length) :
    b.toList[i] = b ⟨i, by simpa using h⟩ := by simp [Bytes.toList]

/-- The array as an unbounded string, zero past its end. -/
def Bytes.get {n : ℕ} (b : Bytes n) (i : ℕ) : Byte := if h : i < n then b ⟨i, h⟩ else 0

/-! ## Little-endian words -/

/-- The value of the first `k` bytes of `f`, least significant first. -/
def leNat (f : ℕ → Byte) : ℕ → ℕ
  | 0 => 0
  | k + 1 => leNat f k + (f k).toNat * 256 ^ k

/-- The `i`-th byte of `v`, counted from the least significant. -/
def leByte (v i : ℕ) : Byte := BitVec.ofNat 8 (v / 256 ^ i)

/-- The `k` low bytes of `v`, least significant first. -/
def leBytes (k v : ℕ) : List Byte := List.ofFn fun i : Fin k => leByte v i

@[simp] theorem length_leBytes (k v : ℕ) : (leBytes k v).length = k := by simp [leBytes]

@[simp] theorem getElem_leBytes {k v i : ℕ} (h : i < (leBytes k v).length) :
    (leBytes k v)[i] = leByte v i := by simp [leBytes]

@[simp] theorem toNat_leByte (v i : ℕ) : (leByte v i).toNat = v / 256 ^ i % 256 := by
  simp [leByte]

theorem leNat_lt (f : ℕ → Byte) (k : ℕ) : leNat f k < 256 ^ k := by
  induction k with
  | zero => simp [leNat]
  | succ k ih =>
      have hb : (f k).toNat ≤ 255 := Nat.le_of_lt_succ (f k).isLt
      have hm : (f k).toNat * 256 ^ k ≤ 255 * 256 ^ k := Nat.mul_le_mul_right _ hb
      simp only [leNat, pow_succ]
      omega

theorem leNat_congr {f g : ℕ → Byte} {k : ℕ} (h : ∀ i < k, f i = g i) :
    leNat f k = leNat g k := by
  induction k with
  | zero => rfl
  | succ k ih => simp only [leNat, ih fun i hi => h i (by omega), h k (by omega)]

/-- Reading back what was written keeps the low `k` bytes. -/
theorem leNat_leByte (v k : ℕ) : leNat (leByte v) k = v % 256 ^ k := by
  induction k with
  | zero => simp [leNat, Nat.mod_one]
  | succ k ih =>
      simp only [leNat, ih, toNat_leByte]
      rw [Nat.mod_pow_succ]
      ring

/-- Writing what was read gives the bytes back. -/
theorem leByte_leNat (f : ℕ → Byte) {k i : ℕ} (h : i < k) : leByte (leNat f k) i = f i := by
  induction k with
  | zero => omega
  | succ k ih =>
      apply BitVec.eq_of_toNat_eq
      rcases Nat.lt_succ_iff_lt_or_eq.mp h with hi | rfl
      · have hk : 256 ^ k = 256 ^ i * (256 * 256 ^ (k - i - 1)) := by
          rw [← pow_succ', ← pow_add]; congr 1; omega
        rw [toNat_leByte, leNat, hk]
        rw [show (f k).toNat * (256 ^ i * (256 * 256 ^ (k - i - 1)))
            = 256 ^ i * (256 * ((f k).toNat * 256 ^ (k - i - 1))) by ring]
        rw [Nat.add_mul_div_left _ _ (by positivity), Nat.add_mul_mod_self_left]
        rw [← toNat_leByte, ih hi]
      · rw [toNat_leByte, leNat, Nat.add_mul_div_right _ _ (by positivity),
          Nat.div_eq_of_lt (leNat_lt f i), Nat.zero_add, Nat.mod_eq_of_lt (f i).isLt]

theorem leByte_mod {v i k : ℕ} (h : i < k) : leByte (v % 256 ^ k) i = leByte v i := by
  rw [← leNat_leByte, leByte_leNat _ h]

/-- Only the low bytes are stored. -/
theorem leBytes_mod (k v : ℕ) : leBytes k (v % 256 ^ k) = leBytes k v := by
  refine List.ext_getElem (by simp) fun i hi _ => ?_
  rw [length_leBytes] at hi
  rw [getElem_leBytes, getElem_leBytes, leByte_mod hi]

/-- The low bytes of a number, and the bytes above them. -/
theorem leBytes_add (k l v : ℕ) : leBytes (k + l) v = leBytes k v ++ leBytes l (v / 256 ^ k) := by
  refine List.ext_getElem (by simp) fun i hi hi' => ?_
  rw [getElem_leBytes]
  by_cases hk : i < k
  · rw [List.getElem_append_left (by simpa using hk), getElem_leBytes]
  · have hle := Nat.le_of_not_lt hk
    rw [List.getElem_append_right (by simpa using hle), getElem_leBytes, length_leBytes, leByte,
      leByte, Nat.div_div_eq_div_mul, ← pow_add, Nat.add_sub_cancel' hle]

/-- The array with the low `k` bytes of `v` stored from offset `off` on. -/
def Bytes.set {n : ℕ} (b : Bytes n) (off k v : ℕ) : Bytes n :=
  fun i => if off ≤ (i : ℕ) ∧ (i : ℕ) < off + k then leByte v (i - off) else b i

/-- What was stored in an array is read back. -/
theorem leNat_set {n : ℕ} (b : Bytes n) {off k : ℕ} (h : off + k ≤ n) (v : ℕ) :
    leNat (fun i => (b.set off k v).get (off + i)) k = v % 256 ^ k := by
  rw [← leNat_leByte]
  refine leNat_congr fun i hi => ?_
  rw [Bytes.get, dif_pos (by omega), Bytes.set]
  simp [hi]

/-! ## Big-endian numbers -/

/-- The value of a byte string, most significant first. -/
def beNat : List Byte → ℕ
  | [] => 0
  | b :: bs => b.toNat * 256 ^ bs.length + beNat bs

/-- The `k` low bytes of `v`, most significant first. -/
def beBytes : ℕ → ℕ → List Byte
  | 0, _ => []
  | k + 1, v => leByte v k :: beBytes k v

@[simp] theorem length_beBytes (k v : ℕ) : (beBytes k v).length = k := by
  induction k with
  | zero => rfl
  | succ k ih => simp [beBytes, ih]

theorem beNat_lt (bs : List Byte) : beNat bs < 256 ^ bs.length := by
  induction bs with
  | nil => simp [beNat]
  | cons b bs ih =>
      have hb : b.toNat ≤ 255 := Nat.le_of_lt_succ b.isLt
      have hm : b.toNat * 256 ^ bs.length ≤ 255 * 256 ^ bs.length := Nat.mul_le_mul_right _ hb
      simp only [beNat, List.length_cons, pow_succ]
      omega

theorem beNat_beBytes (k v : ℕ) : beNat (beBytes k v) = v % 256 ^ k := by
  induction k with
  | zero => simp [beBytes, beNat, Nat.mod_one]
  | succ k ih =>
      simp only [beBytes, beNat, length_beBytes, toNat_leByte, ih]
      rw [Nat.mod_pow_succ]
      ring

/-- Only the low `k` bytes of the value matter. -/
theorem beBytes_add_mul (k v a : ℕ) : beBytes k (a * 256 ^ k + v) = beBytes k v := by
  induction k generalizing a with
  | zero => rfl
  | succ k ih =>
      have hhead : leByte (a * 256 ^ (k + 1) + v) k = leByte v k := by
        rw [← leByte_mod (Nat.lt_succ_self k), ← leByte_mod (v := v) (Nat.lt_succ_self k),
          Nat.mul_add_mod_self_right]
      have htail := ih (a * 256)
      rw [mul_assoc, ← pow_succ'] at htail
      simp only [beBytes, hhead, htail]

theorem beBytes_beNat (bs : List Byte) : beBytes bs.length (beNat bs) = bs := by
  induction bs with
  | nil => rfl
  | cons b bs ih =>
      have hhead : leByte (b.toNat * 256 ^ bs.length + beNat bs) bs.length = b := by
        apply BitVec.eq_of_toNat_eq
        rw [toNat_leByte, Nat.mul_comm, Nat.mul_add_div (by positivity),
          Nat.div_eq_of_lt (beNat_lt bs), Nat.add_zero, Nat.mod_eq_of_lt b.isLt]
      simp only [List.length_cons, beNat, beBytes, beBytes_add_mul, ih, hhead]

/-! ## Finite strings in memory -/

/-- The bytes of `l`, followed by `beyond`, seen from the first byte of `l`. -/
def fromList (l : List Byte) (beyond : ℕ → Byte) : ℕ → Byte := fun i => l.getD i (beyond i)

theorem fromList_lt {l : List Byte} {beyond : ℕ → Byte} {i : ℕ} (h : i < l.length) :
    fromList l beyond i = l[i] := by simp [fromList, h]

/-! ## Strings at an offset -/

/-- The string `bs` stands in `f` from offset `off` on. -/
def StandsAt (f : ℕ → Byte) (off : ℕ) (bs : List Byte) : Prop :=
  ∀ i (h : i < bs.length), f (off + i) = bs[i]

theorem standsAt_fromList (l : List Byte) (beyond : ℕ → Byte) :
    StandsAt (fromList l beyond) 0 l := by
  intro i h
  rw [Nat.zero_add, fromList_lt h]

theorem standsAt_append {f : ℕ → Byte} {off : ℕ} {bs cs : List Byte} :
    StandsAt f off (bs ++ cs) ↔ StandsAt f off bs ∧ StandsAt f (off + bs.length) cs := by
  constructor
  · intro h
    refine ⟨fun i hi => ?_, fun i hi => ?_⟩
    · rw [h i (by simp; omega), List.getElem_append_left hi]
    · rw [Nat.add_assoc, h (bs.length + i) (by simp; omega),
        List.getElem_append_right (Nat.le_add_right _ _)]
      simp
  · rintro ⟨hbs, hcs⟩ i hi
    by_cases hlt : i < bs.length
    · rw [List.getElem_append_left hlt, hbs i hlt]
    · have hle := Nat.le_of_not_lt hlt
      have hcs' := hcs (i - bs.length) (by simp at hi; omega)
      rw [Nat.add_assoc, Nat.add_sub_cancel' hle] at hcs'
      rw [hcs', List.getElem_append_right hle]

/-- A stored word reads back. -/
theorem StandsAt.leNat {f : ℕ → Byte} {off k v : ℕ} (h : StandsAt f off (leBytes k v)) :
    leNat (fun i => f (off + i)) k = v % 256 ^ k := by
  rw [← leNat_leByte]
  refine leNat_congr fun i hi => ?_
  rw [h i (by simpa using hi), getElem_leBytes]

/-- A stored array reads back. -/
theorem StandsAt.bytes {n : ℕ} {f : ℕ → Byte} {off : ℕ} {b : Bytes n}
    (h : StandsAt f off b.toList) : (fun i : Fin n => f (off + i)) = b := by
  funext i
  rw [h i (by simp), Bytes.getElem_toList]

theorem length_flatMap_const {α : Type} {enc : α → List Byte} {k : ℕ}
    (hk : ∀ a, (enc a).length = k) (l : List α) : (l.flatMap enc).length = k * l.length := by
  simp [List.length_flatMap, hk, Nat.mul_comm]

theorem flatMap_const_eq_nil {α : Type} {enc : α → List Byte} {k : ℕ}
    (hk : ∀ a, (enc a).length = k) (hne : k ≠ 0) (l : List α) : l.flatMap enc = [] ↔ l = [] := by
  rw [← List.length_eq_zero_iff, length_flatMap_const hk, Nat.mul_eq_zero,
    List.length_eq_zero_iff, or_iff_right hne]

/-- Among records of one length, the `i`-th stands at `i` times that length. -/
theorem StandsAt.flatMap {α : Type} {f : ℕ → Byte} {enc : α → List Byte} {k : ℕ}
    (hk : ∀ a, (enc a).length = k) {l : List α} {off : ℕ} (h : StandsAt f off (l.flatMap enc))
    {i : ℕ} (hi : i < l.length) : StandsAt f (off + k * i) (enc l[i]) := by
  induction l generalizing off i with
  | nil => simp at hi
  | cons a l ih =>
      rw [List.flatMap_cons, standsAt_append, hk] at h
      cases i with
      | zero => exact h.1
      | succ i =>
          have hrest := ih h.2 (by simpa using hi)
          rwa [Nat.add_assoc, Nat.add_comm k, ← Nat.mul_succ] at hrest

/-! ## Signed numbers -/

/-- A number that fits is not changed by the sign. -/
theorem toInt_ofNat_of_lt {w n : ℕ} (h : 2 * n < 2 ^ w) : (BitVec.ofNat w n).toInt = n := by
  have hnat : (BitVec.ofNat w n).toNat = n := by
    rw [BitVec.toNat_ofNat, Nat.mod_eq_of_lt (by omega)]
  rw [BitVec.toInt_eq_toNat_of_lt (by rwa [hnat]), hnat]

/-- A signed number that is not negative. -/
theorem toNat_of_toInt_nonneg {w : ℕ} {x : BitVec w} (h : 0 ≤ x.toInt) : (x.toNat : Int) = x.toInt := by
  have hlt := x.isLt
  rw [BitVec.toInt_eq_toNat_cond] at h ⊢
  split_ifs at h ⊢ with hsmall
  · rfl
  · omega

end Lib
