import Patchbox.Lib.Bytes

/-!
# Stores one behind the other

A function that fills a buffer does so in several stores. The stores are kept as data, so
that where they go can be told apart from what they leave in memory: a store that puts the
old value back is still a store.

## Main definitions

* `store`, `storeAll` — the memory after one store, and after several.
* `inARow` — the stores of some pieces, each where the one in front ends.
* `storeAll_inARow` — they leave the pieces, one behind the other.
* `end_le_of_mem_inARow` — they stay in front of the end of the last.
-/

namespace Lib

variable {α : Type}

/-- The memory once `l` is stored at `off`. -/
def store (mem : ℕ → α) (off : ℕ) (l : List α) : ℕ → α :=
  fun i => if off ≤ i then l.getD (i - off) (mem i) else mem i

/-- The memory after a list of stores, the first one first. -/
def storeAll (mem : ℕ → α) (stores : List (ℕ × List α)) : ℕ → α :=
  stores.foldl (fun mem st => store mem st.1 st.2) mem

@[simp] theorem storeAll_nil (mem : ℕ → α) : storeAll mem [] = mem := rfl

@[simp] theorem storeAll_cons (mem : ℕ → α) (st : ℕ × List α) (stores : List (ℕ × List α)) :
    storeAll mem (st :: stores) = storeAll (store mem st.1 st.2) stores := rfl

@[simp] theorem store_nil (mem : ℕ → α) (off : ℕ) : store mem off [] = mem := by
  funext i
  rw [store, List.getD_nil, ite_self]

theorem store_of_lt {mem : ℕ → α} {off i : ℕ} {l : List α} (h : i < off) :
    store mem off l i = mem i := if_neg (Nat.not_le.mpr h)

/-- Behind the end of a store nothing changes. -/
theorem store_of_le {mem : ℕ → α} {off i : ℕ} {l : List α} (h : off + l.length ≤ i) :
    store mem off l i = mem i := by
  rw [store, if_pos (by omega), List.getD_eq_default _ _ (by omega)]

theorem store_of_mem {mem : ℕ → α} {off i : ℕ} {l : List α} (h : i < l.length) :
    store mem off l (off + i) = l[i] := by
  rw [store, if_pos (Nat.le_add_right off i), Nat.add_sub_cancel_left, List.getD_eq_getElem _ _ h]

/-- Two stores, the second where the first one ends. -/
theorem store_store (mem : ℕ → α) (off : ℕ) (l l' : List α) :
    store (store mem off l) (off + l.length) l' = store mem off (l ++ l') := by
  funext i
  rcases Nat.lt_or_ge i off with hlt | hge
  · rw [store_of_lt (by omega), store_of_lt hlt, store_of_lt hlt]
  · obtain ⟨k, rfl⟩ := Nat.exists_eq_add_of_le hge
    by_cases hk : k < l.length
    · rw [store_of_lt (by omega), store_of_mem hk,
        store_of_mem (by rw [List.length_append]; omega), List.getElem_append_left hk]
    · by_cases hk' : k < l.length + l'.length
      · rw [show off + k = off + l.length + (k - l.length) by omega, store_of_mem (by omega),
          Nat.add_assoc, store_of_mem (by rw [List.length_append]; omega),
          List.getElem_append_right (by omega)]
        simp
      · rw [store_of_le (by omega), store_of_le (by omega),
          store_of_le (by rw [List.length_append]; omega)]

/-- Each piece stored where the one in front ends, the first at `off`. -/
def inARow : ℕ → List (List α) → List (ℕ × List α)
  | _, [] => []
  | off, l :: ls => (off, l) :: inARow (off + l.length) ls

theorem inARow_append (off : ℕ) (ls ms : List (List α)) :
    inARow off (ls ++ ms) = inARow off ls ++ inARow (off + ls.flatten.length) ms := by
  induction ls generalizing off with
  | nil => rfl
  | cons l ls ih =>
      rw [List.cons_append, inARow, inARow, ih, List.flatten_cons, List.length_append,
        Nat.add_assoc, List.cons_append]

/-- **What the stores leave.** -/
theorem storeAll_inARow (mem : ℕ → α) (off : ℕ) (ls : List (List α)) :
    storeAll mem (inARow off ls) = store mem off ls.flatten := by
  induction ls generalizing mem off with
  | nil => rw [inARow, storeAll_nil, List.flatten_nil, store_nil]
  | cons l ls ih => rw [inARow, storeAll_cons, ih, store_store, List.flatten_cons]

/-- Each store ends in front of the end of the last. -/
theorem end_le_of_mem_inARow {off : ℕ} {ls : List (List α)} {st : ℕ × List α}
    (h : st ∈ inARow off ls) : st.1 + st.2.length ≤ off + ls.flatten.length := by
  induction ls generalizing off with
  | nil => cases h
  | cons l ls ih =>
      rw [List.flatten_cons, List.length_append]
      rcases List.mem_cons.mp h with rfl | h
      · dsimp only
        omega
      · have hle := ih h
        omega

/-- A string that is stored in front of memory. -/
theorem store_zero_eq_fromList (mem : ℕ → Byte) (l : List Byte) :
    store mem 0 l = fromList l mem := by
  funext i
  rw [store, if_pos (Nat.zero_le i)]
  rfl

/-- What is read back from memory that begins with a string. -/
theorem map_range_fromList {l : List Byte} {n : ℕ} (h : l.length ≤ n) (mem : ℕ → Byte) :
    (List.range n).map (fromList l mem) =
      l ++ (List.range (n - l.length)).map fun i => mem (l.length + i) := by
  obtain ⟨k, rfl⟩ := Nat.exists_eq_add_of_le h
  rw [Nat.add_sub_cancel_left, List.range_add, List.map_append, List.map_map]
  congr 1
  · refine List.ext_getElem (by rw [List.length_map, List.length_range]) fun i _ hi => ?_
    rw [List.getElem_map, List.getElem_range, fromList_lt hi]
  · refine List.map_congr_left fun i _ => ?_
    exact List.getD_eq_default _ _ (Nat.le_add_right _ i)

end Lib
