import Patchbox.Apply

/-!
# Exchanging twice

An undo runs `swapTrampolines` on the array that the apply left behind, in the same
order. At one address the text byte and the bytes of the writes that cover it form a
cycle, and an exchange turns the cycle by one place. Two exchanges give everything
back where turning by two places does: at addresses that at most one write covers,
and elsewhere only by coincidence of the bytes.

## Main definitions

* `coveringBytes`, `byteCycle` — the bytes at one address.
* `byteCycle_swapTrampolines` — an exchange turns the cycle.
* `swapTrampolines_twice_iff` — when two exchanges give text and writes back.
-/

namespace Patchbox
open Lib

variable {writes writes' : List XenlpPatchWrite} {text text' : Mem 64}

/-- The bytes of the writes that cover the address, in the order of the array. -/
def coveringBytes (writes : List XenlpPatchWrite) (x : Addr) : List Byte :=
  writes.filterMap fun pw =>
    if h : x ∈ pw.block then some (pw.data ⟨(x - pw.hvabs).toNat, h⟩) else none

/-- The byte of the text in front of them. -/
def byteCycle (writes : List XenlpPatchWrite) (text : Mem 64) (x : Addr) : List Byte :=
  text x :: coveringBytes writes x

theorem coveringBytes_cons_of_mem {pw : XenlpPatchWrite} {x : Addr} (h : x ∈ pw.block) :
    coveringBytes (pw :: writes) x =
      pw.data ⟨(x - pw.hvabs).toNat, h⟩ :: coveringBytes writes x :=
  List.filterMap_cons_some (dif_pos h)

theorem coveringBytes_cons_of_not_mem {pw : XenlpPatchWrite} {x : Addr} (h : x ∉ pw.block) :
    coveringBytes (pw :: writes) x = coveringBytes writes x :=
  List.filterMap_cons_none (dif_neg h)

/-- **An exchange turns the cycle** at every address by one place. -/
theorem byteCycle_swapTrampolines (writes : List XenlpPatchWrite) (text : Mem 64) (x : Addr) :
    (byteCycle (swapTrampolines writes text).1 (swapTrampolines writes text).2 x).rotate 1 =
      byteCycle writes text x := by
  induction writes generalizing text with
  | nil => simp [byteCycle, coveringBytes]
  | cons pw writes ih =>
      have hrest := ih (text.write pw.hvabs pw.data)
      rw [swapTrampolines_cons]
      generalize swapTrampolines writes (text.write pw.hvabs pw.data) = out at hrest ⊢
      simp only [byteCycle, List.rotate_cons_succ, List.rotate_zero] at hrest ⊢
      -- the first cell gets the text byte, and its own byte goes through the others
      by_cases hx : x ∈ pw.block
      · have hcell := @coveringBytes_cons_of_mem out.1 { pw with data := text.read pw.hvabs 8 } x hx
        rw [hcell, List.cons_append, hrest, coveringBytes_cons_of_mem hx,
          Mem.write_apply_mem text pw.data hx, Mem.apply_eq_read text hx]
      · have hcell :=
          @coveringBytes_cons_of_not_mem out.1 { pw with data := text.read pw.hvabs 8 } x hx
        rw [hcell, hrest, coveringBytes_cons_of_not_mem hx, Mem.write_apply_not_mem text pw.data hx]

/-! ## The cycles determine everything -/

/-- A write without its data. -/
def XenlpPatchWrite.place (pw : XenlpPatchWrite) : Addr × BitVec 8 × BitVec 8 :=
  (pw.hvabs, pw.reloctype, pw.dataoff)

/-- Two writes agree when their four fields do. -/
theorem XenlpPatchWrite.eq_mk {pw pw' : XenlpPatchWrite} (haddr : pw.hvabs = pw'.hvabs)
    (hdata : pw.data = pw'.data) (htype : pw.reloctype = pw'.reloctype)
    (hoff : pw.dataoff = pw'.dataoff) : pw = pw' := by
  cases pw
  cases pw'
  simp_all

/-- The exchange moves data only. -/
theorem place_swapTrampolines (writes : List XenlpPatchWrite) (text : Mem 64) :
    (swapTrampolines writes text).1.map XenlpPatchWrite.place =
      writes.map XenlpPatchWrite.place := by
  induction writes generalizing text with
  | nil => rfl
  | cons pw writes ih =>
      rw [swapTrampolines_cons, List.map_cons, List.map_cons, ih]
      rfl

variable {pw pw' : XenlpPatchWrite}

/-- The data of a write are its bytes at the addresses of its block. -/
theorem data_ext (haddr : pw.hvabs = pw'.hvabs)
    (h : ∀ x (hx : x ∈ pw.block) (hx' : x ∈ pw'.block),
      pw.data ⟨(x - pw.hvabs).toNat, hx⟩ = pw'.data ⟨(x - pw'.hvabs).toNat, hx'⟩) :
    pw.data = pw'.data := by
  have hsize : 8 ≤ 2 ^ 64 := by decide
  have hread : (Mem.write (fun _ => 0) pw.hvabs pw.data).read pw'.hvabs 8 =
      (Mem.write (fun _ => 0) pw'.hvabs pw'.data).read pw'.hvabs 8 := by
    refine Mem.read_congr fun x hx' => ?_
    have hx : x ∈ pw.block := by
      rw [XenlpPatchWrite.block, haddr]
      exact hx'
    rw [Mem.write_apply_mem _ pw.data hx, Mem.write_apply_mem _ pw'.data hx']
    exact h x hx hx'
  rw [← haddr, Mem.read_write _ pw.hvabs pw.data hsize, haddr,
    Mem.read_write _ pw'.hvabs pw'.data hsize] at hread
  exact hread

/-- At one place, the same bytes everywhere mean the same data, here and in the rest. -/
theorem coveringBytes_cons_inj (haddr : pw.hvabs = pw'.hvabs)
    (h : ∀ x, coveringBytes (pw :: writes) x = coveringBytes (pw' :: writes') x) :
    pw.data = pw'.data ∧ ∀ x, coveringBytes writes x = coveringBytes writes' x := by
  have hblock : ∀ x, x ∈ pw.block ↔ x ∈ pw'.block := by
    intro x
    rw [XenlpPatchWrite.block, XenlpPatchWrite.block, haddr]
  constructor
  · refine data_ext haddr fun x hx hx' => ?_
    have hcell := h x
    rw [@coveringBytes_cons_of_mem writes pw x hx, @coveringBytes_cons_of_mem writes' pw' x hx']
      at hcell
    exact (List.cons.inj hcell).1
  · intro x
    have hcell := h x
    by_cases hx : x ∈ pw.block
    · rw [@coveringBytes_cons_of_mem writes pw x hx,
        @coveringBytes_cons_of_mem writes' pw' x ((hblock x).mp hx)] at hcell
      exact (List.cons.inj hcell).2
    · rwa [@coveringBytes_cons_of_not_mem writes pw x hx,
        @coveringBytes_cons_of_not_mem writes' pw' x fun hx' => hx ((hblock x).mpr hx')] at hcell

/-- Arrays with the same places and the same bytes everywhere are equal. -/
theorem writes_ext (hplace : writes.map XenlpPatchWrite.place = writes'.map XenlpPatchWrite.place)
    (hbytes : ∀ x, coveringBytes writes x = coveringBytes writes' x) : writes = writes' := by
  induction writes generalizing writes' with
  | nil => exact (List.map_eq_nil_iff.mp hplace.symm).symm
  | cons pw writes ih =>
      cases writes' with
      | nil => simp at hplace
      | cons pw' writes' =>
          simp only [List.map_cons, List.cons.injEq, XenlpPatchWrite.place, Prod.mk.injEq]
            at hplace
          obtain ⟨⟨haddr, htype, hoff⟩, hrest⟩ := hplace
          obtain ⟨hdata, htail⟩ := coveringBytes_cons_inj haddr hbytes
          rw [ih hrest htail, XenlpPatchWrite.eq_mk haddr hdata htype hoff]

/-- Two exchanges turn the bytes of an address by two places. -/
theorem byteCycle_twice (writes : List XenlpPatchWrite) (text : Mem 64) (x : Addr) :
    (byteCycle
      (swapTrampolines (swapTrampolines writes text).1 (swapTrampolines writes text).2).1
      (swapTrampolines (swapTrampolines writes text).1 (swapTrampolines writes text).2).2
      x).rotate 2 = byteCycle writes text x := by
  rw [← byteCycle_swapTrampolines writes text x, ← byteCycle_swapTrampolines
    (swapTrampolines writes text).1, List.rotate_rotate]

/-- Where that changes nothing, they give everything back. -/
theorem twice_of_byteCycle
    (h : ∀ x, (byteCycle writes text x).rotate 2 = byteCycle writes text x) :
    swapTrampolines (swapTrampolines writes text).1 (swapTrampolines writes text).2 =
      (writes, text) := by
  have hturn := byteCycle_twice writes text
  have hplace : (swapTrampolines (swapTrampolines writes text).1
      (swapTrampolines writes text).2).1.map XenlpPatchWrite.place =
        writes.map XenlpPatchWrite.place := by
    rw [place_swapTrampolines, place_swapTrampolines]
  generalize swapTrampolines (swapTrampolines writes text).1 (swapTrampolines writes text).2 = out
    at hturn hplace ⊢
  obtain ⟨writes', text'⟩ := out
  have hcycle : ∀ x, byteCycle writes' text' x = byteCycle writes text x := fun x =>
    List.rotate_injective 2 ((hturn x).trans (h x).symm)
  have htext : text' = text := funext fun x => (List.cons.inj (hcycle x)).1
  have hwrites : writes' = writes := writes_ext hplace fun x => (List.cons.inj (hcycle x)).2
  rw [htext, hwrites]

/-- **Two exchanges.** They give back the text and the data of every write exactly when, at each
address, the text byte and the bytes that cover it repeat after two places. -/
theorem swapTrampolines_twice_iff (writes : List XenlpPatchWrite) (text : Mem 64) :
    swapTrampolines (swapTrampolines writes text).1 (swapTrampolines writes text).2 =
        (writes, text) ↔
      ∀ x, (byteCycle writes text x).rotate 2 = byteCycle writes text x := by
  constructor
  · intro h x
    have hturn := byteCycle_twice writes text x
    rw [h] at hturn
    exact hturn
  · exact twice_of_byteCycle

theorem coveringBytes_of_not_mem {x : Addr} (h : ∀ pw ∈ writes, x ∉ pw.block) :
    coveringBytes writes x = [] := by
  induction writes with
  | nil => rfl
  | cons pw writes ih =>
      rw [coveringBytes_cons_of_not_mem (h pw (by simp))]
      exact ih fun pw' hpw' => h pw' (by simp [hpw'])

/-- Among disjoint ranges an address has one byte at most. -/
theorem length_coveringBytes_le (h : WritesDisjoint writes) (x : Addr) :
    (coveringBytes writes x).length ≤ 1 := by
  induction writes with
  | nil => exact Nat.zero_le 1
  | cons pw writes ih =>
      obtain ⟨hpw, hrest⟩ := List.pairwise_cons.mp h
      by_cases hx : x ∈ pw.block
      · have hnone : coveringBytes writes x = [] :=
          coveringBytes_of_not_mem fun pw' hpw' => Set.disjoint_left.mp (hpw pw' hpw') hx
        rw [coveringBytes_cons_of_mem hx, hnone]
        exact le_rfl
      · rw [coveringBytes_cons_of_not_mem hx]
        exact ih hrest

/-- Writes whose ranges do not meet are given back, and so is the text. -/
theorem swapTrampolines_twice_of_disjoint (h : WritesDisjoint writes) (text : Mem 64) :
    swapTrampolines (swapTrampolines writes text).1 (swapTrampolines writes text).2 =
      (writes, text) := by
  refine twice_of_byteCycle fun x => ?_
  have hlen := length_coveringBytes_le h x
  rw [byteCycle]
  cases hbytes : coveringBytes writes x with
  | nil => simp
  | cons b bs =>
      rw [hbytes, List.length_cons] at hlen
      have hnil : bs = [] := List.length_eq_zero_iff.mp (by omega)
      rw [hnil]
      exact List.rotate_length [text x, b]

/-- A message with a blob of four bytes and two writes of the same function. -/
def sameFunctionMessage : ℕ → Byte :=
  fromList
    (List.replicate 24 0 ++ leBytes 8 0x400000 ++ leBytes 4 4 ++ leBytes 4 0 ++ leBytes 4 2
      ++ List.replicate 20 0 ++ [1, 2, 3, 4]
      ++ (leBytes 8 0x401000 ++ (0xe9 :: leBytes 4 0x2ff000) ++ List.replicate 3 0 ++ [1, 1])
      ++ List.replicate 6 0
      ++ (leBytes 8 0x401000 ++ (0xe9 :: leBytes 4 0x2ff001) ++ List.replicate 3 0 ++ [1, 1])
      ++ List.replicate 6 0) fun _ => 0

/-- Both writes are accepted, and the second exchange leaves the first jump in the text. -/
theorem swapTrampolines_twice_sameFunction :
    let s := Sandbox.init (fun _ => 0) fun _ => 0
    let out := patchData sampleImage sampleEnv sameFunctionMessage s
    let once := swapTrampolines out.writes s.text
    out.ccode = sandboxOk ∧ swapTrampolines once.1 once.2 ≠ (out.writes, s.text) := by
  refine ⟨ccode_patchData_iff.mpr (by decide +kernel), fun h => ?_⟩
  have hbyte := congrArg (fun out => out.2 0x401000) h
  revert hbyte
  decide +kernel

end Patchbox
