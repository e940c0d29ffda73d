import Mathlib

/-!
# Displacements

A word that is relative to a place holds the distance from there to its target, cut to
the width of the word. When the place or the target is moved, the word is corrected by the
distance of the move, cut to the same width; nothing is lost by that. Whoever follows the
word extends it by its sign, and lands on the target when the distance fits.

## Main definitions

* `RefersTo` — where a word leads, counted from a place.
* `Fits` — a distance that survives the cut.
* `RefersTo.retarget`, `RefersTo.move` — how a word is corrected.
-/

namespace Lib

variable {k n : ℕ}

/-- Counted from `place`, the word leads to `target`, up to a multiple of `2 ^ k`. -/
def RefersTo (w : BitVec k) (place target : BitVec n) : Prop := w = (target - place).setWidth k

/-- The distance is that of a signed word of `k` bits. -/
def Fits (k : ℕ) (d : BitVec n) : Prop := (d.setWidth k).signExtend n = d

instance (w : BitVec k) (place target : BitVec n) : Decidable (RefersTo w place target) :=
  inferInstanceAs (Decidable (_ = _))

instance (d : BitVec n) : Decidable (Fits k d) := inferInstanceAs (Decidable (_ = _))

/-- A difference can be cut before or after it is taken. -/
theorem setWidth_sub (hk : k ≤ n) (x y : BitVec n) :
    (x - y).setWidth k = x.setWidth k - y.setWidth k := by
  rw [BitVec.sub_eq_add_neg, BitVec.setWidth_add _ _ hk, BitVec.setWidth_neg_of_le hk,
    ← BitVec.sub_eq_add_neg]

/-- The low bits of an extended word are the word. -/
theorem setWidth_signExtend (hk : k ≤ n) (w : BitVec k) : (w.signExtend n).setWidth k = w := by
  apply BitVec.eq_of_getLsbD_eq
  intro i hi
  rw [BitVec.getLsbD_setWidth, BitVec.getLsbD_signExtend]
  simp [hi, hi.trans_le hk]

/-- Extending by the sign keeps the value, and cutting keeps it up to a multiple of `2 ^ k`. -/
theorem toInt_signExtend_setWidth (hk : k ≤ n) (d : BitVec n) :
    ((d.setWidth k).signExtend n).toInt = d.toInt.bmod (2 ^ k) := by
  rw [BitVec.toInt_signExtend_of_le hk, BitVec.toInt_setWidth, BitVec.toInt_eq_toNat_bmod,
    Int.bmod_bmod_of_dvd (Nat.pow_dvd_pow 2 hk)]

/-- A distance fits when it lies in the range of a signed word. -/
theorem fits_iff (hk : k ≤ n) {d : BitVec n} :
    Fits k d ↔ -2 ^ k ≤ 2 * d.toInt ∧ 2 * d.toInt < 2 ^ k := by
  have hpos : 0 < 2 ^ k := Nat.two_pow_pos k
  have hcast : ((2 ^ k : ℕ) : Int) = 2 ^ k := Nat.cast_pow 2 k
  rw [Fits, ← BitVec.toInt_inj, toInt_signExtend_setWidth hk]
  constructor
  · intro h
    have hle := Int.le_bmod (x := d.toInt) hpos
    have hlt := Int.bmod_lt (x := d.toInt) hpos
    rw [h] at hle hlt
    omega
  · rintro ⟨hle, hlt⟩
    exact Int.bmod_eq_of_le_mul_two (by omega) (by omega)

/-- Following the word leads to the target when the distance fits. -/
theorem RefersTo.lands {w : BitVec k} {place target : BitVec n} (h : RefersTo w place target)
    (hfit : Fits k (target - place)) : place + w.signExtend n = target := by
  rw [h, hfit]
  ring

/-- **The target moves.** The word is increased by the distance. -/
theorem RefersTo.retarget (hk : k ≤ n) {w : BitVec k} {place old x : BitVec n}
    (h : RefersTo w place (old + x)) (new : BitVec n) :
    RefersTo (w + (new - old).setWidth k) place (new + x) := by
  rw [RefersTo, h, ← BitVec.setWidth_add _ _ hk]
  congr 1
  ring

/-- **The place moves.** The word is decreased by the distance. -/
theorem RefersTo.move (hk : k ≤ n) {w : BitVec k} {old x target : BitVec n}
    (h : RefersTo w (old + x) target) (new : BitVec n) :
    RefersTo (w - (new - old).setWidth k) (new + x) target := by
  rw [RefersTo, h, ← setWidth_sub hk]
  congr 1
  ring

/-- Only the distance counts. -/
theorem RefersTo.shift {w : BitVec k} {place target : BitVec n} (h : RefersTo w place target)
    (x : BitVec n) : RefersTo w (place + x) (target + x) := by
  rw [RefersTo, h]
  congr 1
  ring

/-- A word leads to one target, up to a multiple of `2 ^ k`. -/
theorem RefersTo.iff_of_target (hk : k ≤ n) {w : BitVec k} {place target target' : BitVec n}
    (h : RefersTo w place target) :
    RefersTo w place target' ↔ (target - target').setWidth k = 0 := by
  have hsub : target - target' = (target - place) - (target' - place) := by ring
  rw [RefersTo, h, hsub, setWidth_sub hk (target - place), sub_eq_zero]

/-- A distance that was cut and extended is the right one when the two agree in their low bits
and the right one fits. -/
theorem signExtend_setWidth_eq_iff (hk : k ≤ n) {d d' : BitVec n} :
    (d.setWidth k).signExtend n = d' ↔ (d' - d).setWidth k = 0 ∧ Fits k d' := by
  rw [setWidth_sub hk, sub_eq_zero]
  constructor
  · intro h
    have hlow : d'.setWidth k = d.setWidth k := by rw [← h, setWidth_signExtend hk]
    exact ⟨hlow, by rw [Fits, hlow, h]⟩
  · rintro ⟨hlow, hfit⟩
    rw [← hlow]
    exact hfit

end Lib
