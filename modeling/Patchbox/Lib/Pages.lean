import Mathlib

/-!
# Page rounding and ascending blocks

Masking the low bits of an address rounds it down to a multiple of the page
size. An allocator that only ever moves upward hands out an ascending list of
half-open blocks, newest first: each block starts at or above the end of the one
before it, the first at or above a floor.
-/

namespace Lib

/-- Clearing the low `k` bits rounds down to a multiple of `2 ^ k`. -/
theorem toNat_and_not_low {w : ℕ} (x : BitVec w) (k : ℕ) :
    (x &&& ~~~BitVec.ofNat w (2 ^ k - 1)).toNat = x.toNat / 2 ^ k * 2 ^ k := by
  have hbits : x &&& ~~~BitVec.ofNat w (2 ^ k - 1) = x >>> k <<< k := by
    apply BitVec.eq_of_getLsbD_eq
    intro i hi
    have hlow : (BitVec.ofNat w (2 ^ k - 1)).getLsbD i = decide (i < k) := by
      rw [BitVec.getLsbD_ofNat, Nat.testBit_two_pow_sub_one]
      simp [hi]
    by_cases hk : i < k
    · simp [BitVec.getLsbD_and, BitVec.getLsbD_not, hi, hk, hlow, -BitVec.getLsbD_eq_getElem]
    · have hadd : k + (i - k) = i := by omega
      simp [BitVec.getLsbD_and, BitVec.getLsbD_not, hi, hk, hlow, hadd,
        -BitVec.getLsbD_eq_getElem]
  rw [hbits, BitVec.toNat_shiftLeft, BitVec.toNat_ushiftRight, Nat.shiftLeft_eq,
    Nat.shiftRight_eq_div_pow, Nat.mod_eq_of_lt]
  exact lt_of_le_of_lt (Nat.div_mul_le_self _ _) x.isLt

universe u
variable {α : Type u} [Preorder α] {floor : α} {b : α × α} {bs : List (α × α)}

/-- The end of the newest block, or the floor. -/
def top (floor : α) : List (α × α) → α
  | [] => floor
  | b :: _ => b.2

/-- Non-empty half-open blocks, newest first, each at or above the end of the one before. -/
def Ascending (floor : α) : List (α × α) → Prop
  | [] => True
  | b :: bs => top floor bs ≤ b.1 ∧ b.1 < b.2 ∧ Ascending floor bs

theorem Ascending.floor_le_top (h : Ascending floor bs) : floor ≤ top floor bs := by
  induction bs with
  | nil => exact le_rfl
  | cons b bs ih => exact (ih h.2.2).trans (h.1.trans h.2.1.le)

theorem Ascending.le_top (h : Ascending floor bs) (hb : b ∈ bs) : b.2 ≤ top floor bs := by
  induction bs with
  | nil => simp at hb
  | cons c cs ih =>
      rcases List.mem_cons.mp hb with rfl | hb
      · exact le_rfl
      · exact (ih h.2.2 hb).trans (h.1.trans h.2.1.le)

theorem Ascending.lt (h : Ascending floor bs) (hb : b ∈ bs) : b.1 < b.2 := by
  induction bs with
  | nil => simp at hb
  | cons c cs ih =>
      rcases List.mem_cons.mp hb with rfl | hb
      · exact h.2.1
      · exact ih h.2.2 hb

/-- Every block lies above the floor. -/
theorem Ascending.floor_le (h : Ascending floor bs) (hb : b ∈ bs) : floor ≤ b.1 := by
  induction bs with
  | nil => simp at hb
  | cons c cs ih =>
      rcases List.mem_cons.mp hb with rfl | hb
      · exact h.2.2.floor_le_top.trans h.1
      · exact ih h.2.2 hb

/-- Of two blocks the older one ends where the newer one starts, or below. -/
theorem Ascending.pairwise (h : Ascending floor bs) :
    bs.Pairwise fun newer older => older.2 ≤ newer.1 := by
  induction bs with
  | nil => exact List.Pairwise.nil
  | cons c cs ih =>
      exact List.Pairwise.cons (fun b hb => (h.2.2.le_top hb).trans h.1) (ih h.2.2)

theorem disjoint_of_le {b c : α × α} (h : c.2 ≤ b.1) :
    Disjoint (Set.Ico b.1 b.2) (Set.Ico c.1 c.2) := by
  rw [Set.disjoint_left]
  rintro a ⟨hba, _⟩ ⟨_, hac⟩
  exact lt_irrefl a (hac.trans_le (h.trans hba))

end Lib
