import Patchbox.Lib.Bytes

/-!
# Byte memory over a fixed-width address space

Addresses wrap, so the block of `n` bytes at `a` is the set of addresses at
distance less than `n` above `a`. Reading a block back after a write gives what
was written, and everything outside the block is unchanged.
-/

namespace Lib

/-- A byte at every address of `w` bits. -/
abbrev Mem (w : ℕ) := BitVec w → Byte

namespace Mem
variable {w n k : ℕ}

/-- The addresses of the `n` bytes from `a` on. -/
def block (a : BitVec w) (n : ℕ) : Set (BitVec w) := {x | (x - a).toNat < n}

instance (a : BitVec w) (n : ℕ) : DecidablePred (· ∈ block a n) :=
  fun x => inferInstanceAs (Decidable ((x - a).toNat < n))

theorem mem_block {a x : BitVec w} : x ∈ block a n ↔ (x - a).toNat < n := Iff.rfl

/-- A block that lies above an address does not hold it. -/
theorem not_mem_block_of_lt {a x : BitVec w} (h : x.toNat < a.toNat) (hn : a.toNat + n ≤ 2 ^ w) :
    x ∉ block a n := by
  rw [mem_block, BitVec.toNat_sub, Nat.mod_eq_of_lt (by omega)]
  omega

/-- The `n` bytes at `a`. -/
def read (m : Mem w) (a : BitVec w) (n : ℕ) : Bytes n := fun i => m (a + BitVec.ofNat w i)

/-- Put `b` at `a`. -/
def write (m : Mem w) (a : BitVec w) (b : Bytes n) : Mem w :=
  fun x => if h : (x - a).toNat < n then b ⟨(x - a).toNat, h⟩ else m x

theorem offset_toNat (a : BitVec w) {i : ℕ} (h : i < 2 ^ w) :
    (a + BitVec.ofNat w i - a).toNat = i := by
  rw [BitVec.add_comm, BitVec.add_sub_cancel, BitVec.toNat_ofNat, Nat.mod_eq_of_lt h]

theorem offset_mem_block (a : BitVec w) {i : ℕ} (h : i < n) :
    a + BitVec.ofNat w i ∈ block a n := by
  rw [mem_block, BitVec.add_comm, BitVec.add_sub_cancel, BitVec.toNat_ofNat]
  exact lt_of_le_of_lt (Nat.mod_le _ _) h

theorem write_apply_mem (m : Mem w) {a x : BitVec w} (b : Bytes n) (h : x ∈ block a n) :
    m.write a b x = b ⟨(x - a).toNat, h⟩ := dif_pos h

theorem write_apply_not_mem (m : Mem w) {a x : BitVec w} (b : Bytes n) (h : x ∉ block a n) :
    m.write a b x = m x := dif_neg h

/-- A block shorter than the address space reads back as it was written. -/
theorem read_write (m : Mem w) (a : BitVec w) (b : Bytes n) (hn : n ≤ 2 ^ w) :
    (m.write a b).read a n = b := by
  funext i
  have hi : (i : ℕ) < 2 ^ w := by omega
  simp only [read, write, offset_toNat a hi, i.isLt, dif_pos]

/-- Reading depends on the block only. -/
theorem read_congr {m m' : Mem w} {a : BitVec w} (h : ∀ x ∈ block a n, m x = m' x) :
    m.read a n = m'.read a n := by
  funext i
  exact h _ (offset_mem_block a i.isLt)

/-- A byte of a block is an entry of what is read there. -/
theorem apply_eq_read (m : Mem w) {a x : BitVec w} (h : x ∈ block a n) :
    m x = m.read a n ⟨(x - a).toNat, h⟩ := by
  have hx : a + BitVec.ofNat w (x - a).toNat = x := by
    rw [BitVec.ofNat_toNat, BitVec.setWidth_eq, BitVec.add_comm, BitVec.sub_add_cancel]
  simp only [read, hx]

/-- Two blocks of one length are apart when neither start lies in the other block. -/
theorem disjoint_block_iff {a b : BitVec w} (hn : 0 < n) :
    Disjoint (block a n) (block b n) ↔ n ≤ (b - a).toNat ∧ n ≤ (a - b).toNat := by
  have hself : ∀ c : BitVec w, c ∈ block c n := by
    intro c
    rw [mem_block, BitVec.sub_self]
    simpa using hn
  constructor
  · intro h
    exact ⟨Nat.le_of_not_lt fun hlt => Set.disjoint_left.mp h hlt (hself b),
      Nat.le_of_not_lt fun hlt => Set.disjoint_left.mp h (hself a) hlt⟩
  · rintro ⟨hab, hba⟩
    rw [Set.disjoint_left]
    intro x hxa hxb
    -- x lies at `x - a` above `a`, below `b`; so it lies past the block of `b` by wrapping around
    have hsum : x - b = (x - a) + (a - b) := by
      rw [BitVec.sub_eq_add_neg, BitVec.sub_eq_add_neg, BitVec.sub_eq_add_neg, BitVec.add_assoc,
        ← BitVec.add_assoc (-a), BitVec.add_comm (-a), ← BitVec.sub_eq_add_neg a a,
        BitVec.sub_self, BitVec.zero_add]
    have hneg : (a - b).toNat = (2 ^ w - (b - a).toNat) % 2 ^ w := by
      rw [← BitVec.toNat_neg, BitVec.neg_sub, BitVec.add_comm, ← BitVec.sub_eq_add_neg]
    rw [mem_block] at hxa hxb
    rw [Nat.mod_eq_of_lt (by omega)] at hneg
    rw [hsum, BitVec.toNat_add, Nat.mod_eq_of_lt (by omega)] at hxb
    omega

instance (a b : BitVec w) : Decidable (Disjoint (block a (n + 1)) (block b (n + 1))) :=
  decidable_of_iff _ (disjoint_block_iff (Nat.succ_pos n)).symm

/-! ## Updates in place -/

/-- Replace the `n` bytes at `a` by a function of them. -/
def modify (m : Mem w) (a : BitVec w) (f : Bytes n → Bytes n) : Mem w :=
  m.write a (f (m.read a n))

theorem modify_apply_not_mem (m : Mem w) {a x : BitVec w} (f : Bytes n → Bytes n)
    (h : x ∉ block a n) : m.modify a f x = m x := write_apply_not_mem m _ h

/-- Replace the bytes at each address of a list. -/
def modifyAll (m : Mem w) (as : List (BitVec w)) (f : Bytes n → Bytes n) : Mem w :=
  as.foldl (fun m a => m.modify a f) m

theorem modifyAll_cons (m : Mem w) (a : BitVec w) (as : List (BitVec w))
    (f : Bytes n → Bytes n) : m.modifyAll (a :: as) f = (m.modify a f).modifyAll as f := rfl

/-- Outside the blocks nothing changes. -/
theorem modifyAll_apply_not_mem (m : Mem w) {as : List (BitVec w)} {x : BitVec w}
    (f : Bytes n → Bytes n) (h : ∀ a ∈ as, x ∉ block a n) : m.modifyAll as f x = m x := by
  induction as generalizing m with
  | nil => rfl
  | cons a as ih =>
      rw [modifyAll_cons, ih _ fun b hb => h b (List.mem_cons_of_mem a hb)]
      exact modify_apply_not_mem m f (h a List.mem_cons_self)

/-- A block that meets none of them stays as it is. -/
theorem read_modifyAll_of_disjoint (m : Mem w) {as : List (BitVec w)} {c : BitVec w}
    (f : Bytes n → Bytes n) (h : ∀ a ∈ as, Disjoint (block a n) (block c k)) :
    (m.modifyAll as f).read c k = m.read c k :=
  read_congr fun _ hx => modifyAll_apply_not_mem m f fun a ha => Set.disjoint_right.mp (h a ha) hx

/-- **A block that no other one meets is replaced once.** -/
theorem read_modifyAll (m : Mem w) {as bs : List (BitVec w)} {a : BitVec w}
    (f : Bytes n → Bytes n) (hn : n ≤ 2 ^ w)
    (h : ∀ b ∈ as ++ bs, Disjoint (block b n) (block a n)) :
    (m.modifyAll (as ++ a :: bs) f).read a n = f (m.read a n) := by
  have hsplit : m.modifyAll (as ++ a :: bs) f = ((m.modifyAll as f).modify a f).modifyAll bs f := by
    rw [modifyAll, List.foldl_append]
    rfl
  rw [hsplit, read_modifyAll_of_disjoint _ f fun b hb => h b (List.mem_append_right as hb),
    modify, read_write _ _ _ hn,
    read_modifyAll_of_disjoint m f fun b hb => h b (List.mem_append_left bs hb)]

end Mem
end Lib
