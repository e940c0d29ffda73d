import Patchbox.Lib.Stores
import Patchbox.Messages
import Patchbox.OldLayout

/-!
# Filling the buffer of an APPLY message

The client calls `fill_patch_buf4` twice. Without a buffer it returns how many bytes to
allocate, with one it copies the header and those of the sections that are not empty, each
behind the one in front. Either pass computes the lengths with its own sizes: the first
counts `struct dependency` for a dependency, the second copies `struct xenlp_hash`.
`fill_patch_buf3` does the same with a shorter header and without the exception tables.

## Main definitions

* `fillPatchBuf4By`, `fillPatchBuf3By` — the two functions, either pass.
* `StaysWithin` — the second pass lays sections out within what the first one returns.
* `fillPatchBuf_staysWithin` — both functions do.
-/

namespace Patchbox
open Lib

/-! ## The source functions -/

/-- An array of writes and its number, a `uint32_t`. -/
abbrev Writes := { l : List XenlpPatchWrite // l.length < 2 ^ 32 }

/-- `numwrites`. -/
def Writes.numwrites (writes : Writes) : BitVec 32 := BitVec.ofNat 32 writes.1.length

/-- `sizeof (struct dependency)`, its padding included. -/
abbrev sizeofDependency : ℕ := 40

/-- A conditional copy: from where, the size of an entry, and how many there are. -/
structure Section where
  src : ℕ → Byte
  size : ℕ
  count : BitVec 32

/-- How far the second pass has come: `ptr - buf`, and the copies it made. -/
structure Filling where
  ptr : BitVec 64
  stores : List (ℕ × List Byte)

/-- `ADR`. -/
def Filling.adr (f : Filling) (d : ℕ → Byte) (s : BitVec 64) : Filling where
  ptr := f.ptr + s
  stores := f.stores ++ [(f.ptr.toNat, List.ofFn fun i : Fin s.toNat => d i)]

/-- `ADA`, for a section that is not empty. -/
def Filling.ada (f : Filling) (s : Section) : Filling :=
  if 0 < s.count then f.adr s.src (BitVec.ofNat 64 s.size * s.count.setWidth 64) else f

/-- What both functions do once the header is filled in: its bytes, then the sections. -/
def fillSections (apply : List Byte) (sections : List Section) : Filling :=
  sections.foldl Filling.ada (Filling.adr ⟨0, []⟩ (bytesOf apply) (BitVec.ofNat 64 apply.length))

/-- What a call returns, and the copies it makes. -/
structure Filled where
  ret : BitVec 64
  stores : List (ℕ × List Byte)

/-- `fill_patch_buf4`. `null` tells that there is no buffer. -/
def fillPatchBuf4By (p : Patch) (writes : Writes) (null : Bool) : Filled :=
  let apply := p.header writes.1
  let buflen : BitVec 64 := BitVec.ofNat 64 sizeofXenlpApply4 + p.blob.bloblen.setWidth 64 +
    p.relocs.count.setWidth 64 * 4 +
    writes.numwrites.setWidth 64 * BitVec.ofNat 64 sizeofXenlpPatchWrite +
    p.exctblents.count.setWidth 64 * BitVec.ofNat 64 sizeofXenlpExctblEntry +
    p.preexctblents.count.setWidth 64 * BitVec.ofNat 64 sizeofXenlpExctblEntry +
    p.deps.count.setWidth 64 * BitVec.ofNat 64 sizeofDependency + apply.taglen.setWidth 64
  if null then ⟨buflen, []⟩
  else
    let f := fillSections apply.store [
      ⟨bytesOf p.blob.1, 1, p.blob.bloblen⟩,
      ⟨bytesOf (p.relocs.1.flatMap storeReloc), 4, p.relocs.count.setWidth 32⟩,
      ⟨bytesOf (writes.1.flatMap XenlpPatchWrite.store), sizeofXenlpPatchWrite, writes.numwrites⟩,
      ⟨bytesOf (p.exctblents.1.flatMap ExctblEntry.store), sizeofXenlpExctblEntry,
        apply.numexctblents⟩,
      ⟨bytesOf (p.preexctblents.1.flatMap ExctblEntry.store), sizeofXenlpExctblEntry,
        apply.numpreexctblents⟩,
      ⟨bytesOf (p.deps.1.flatMap fun d => storeHash d.sha1), sizeofXenlpHash, apply.numdeps⟩,
      ⟨bytesOf p.tags.1, 1, apply.taglen⟩]
    ⟨f.ptr, f.stores⟩

/-- `fill_patch_buf3`. -/
def fillPatchBuf3By (p : Patch) (writes : Writes) (null : Bool) : Filled :=
  let apply := p.header3 writes.1
  let buflen : BitVec 64 := BitVec.ofNat 64 sizeofXenlpApply3 + p.blob.bloblen.setWidth 64 +
    p.relocs.count.setWidth 64 * 4 +
    writes.numwrites.setWidth 64 * BitVec.ofNat 64 sizeofXenlpPatchWrite +
    p.deps.count.setWidth 64 * BitVec.ofNat 64 sizeofDependency + apply.taglen.setWidth 64
  if null then ⟨buflen, []⟩
  else
    let f := fillSections apply.store [
      ⟨bytesOf p.blob.1, 1, p.blob.bloblen⟩,
      ⟨bytesOf (p.relocs.1.flatMap storeReloc), 4, p.relocs.count.setWidth 32⟩,
      ⟨bytesOf (writes.1.flatMap XenlpPatchWrite.store), sizeofXenlpPatchWrite, writes.numwrites⟩,
      ⟨bytesOf (p.deps.1.flatMap fun d => storeHash d.sha1), sizeofXenlpHash, apply.numdeps⟩,
      ⟨bytesOf p.tags.1, 1, apply.taglen⟩]
    ⟨f.ptr, f.stores⟩

/-- The header and the sections of the older message. -/
def Patch.sections3 (p : Patch) (writes : List XenlpPatchWrite) : List (List Byte) :=
  [(p.header3 writes).store, p.blob.1, p.relocs.1.flatMap storeReloc,
    writes.flatMap XenlpPatchWrite.store, p.deps.1.flatMap fun d => storeHash d.sha1,
    p.tags.1.take p.taglen]

/-! ## A chain of copies -/

/-- The pieces so far were copied one behind the other, empty ones left out. -/
structure Filling.Holds (f : Filling) (pieces : List (List Byte)) : Prop where
  ptr : f.ptr.toNat = pieces.flatten.length
  stores : f.stores = inARow 0 (pieces.filter (· ≠ []))

/-- The section copies these bytes. -/
def Section.Copies (s : Section) (l : List Byte) : Prop :=
  l.length = s.size * s.count.toNat ∧ ∃ behind, s.src = bytesOf (l ++ behind)

theorem flatten_filter_ne_nil (pieces : List (List Byte)) :
    (pieces.filter (· ≠ [])).flatten = pieces.flatten := by
  induction pieces with
  | nil => rfl
  | cons l pieces ih =>
      by_cases hl : l = []
      · rw [List.filter_cons_of_neg (by simpa using hl), ih, hl, List.flatten_cons, List.nil_append]
      · rw [List.filter_cons_of_pos (by simpa using hl), List.flatten_cons, ih, List.flatten_cons]

theorem ofFn_bytesOf_append (l behind : List Byte) :
    (List.ofFn fun i : Fin l.length => bytesOf (l ++ behind) i) = l := by
  refine List.ext_getElem List.length_ofFn fun i hi hi' => ?_
  have hlt : i < (l ++ behind).length := by
    rw [List.length_append]
    omega
  rw [List.getElem_ofFn]
  exact (fromList_lt hlt).trans (List.getElem_append_left hi')

/-- One copy. -/
theorem Filling.Holds.adr {f : Filling} {pieces : List (List Byte)} (h : f.Holds pieces)
    {l behind : List Byte} {s : BitVec 64} (hs : s.toNat = l.length) (hne : l ≠ [])
    (hlt : (pieces ++ [l]).flatten.length < 2 ^ 64) :
    (f.adr (bytesOf (l ++ behind)) s).Holds (pieces ++ [l]) := by
  rw [List.flatten_append, List.flatten_singleton, List.length_append] at hlt
  constructor
  · rw [Filling.adr, BitVec.toNat_add, h.ptr, hs, Nat.mod_eq_of_lt hlt, List.flatten_append,
      List.flatten_singleton, List.length_append]
  · rw [Filling.adr, h.stores, h.ptr, hs, ofFn_bytesOf_append, List.filter_append,
      List.filter_cons_of_pos (by simpa using hne), List.filter_nil, inARow_append,
      flatten_filter_ne_nil, Nat.zero_add]
    rfl

/-- A section is copied when it is not empty. -/
theorem Filling.Holds.ada {f : Filling} {pieces : List (List Byte)} (h : f.Holds pieces)
    {s : Section} {l : List Byte} (hs : s.Copies l) (hpos : 0 < s.size)
    (hlt : (pieces ++ [l]).flatten.length < 2 ^ 64) : (f.ada s).Holds (pieces ++ [l]) := by
  obtain ⟨hlen, behind, hsrc⟩ := hs
  rw [Filling.ada]
  split_ifs with hcount
  · have hnum : 0 < s.count.toNat := BitVec.lt_def.mp hcount
    have hne : l ≠ [] := List.ne_nil_of_length_pos (hlen ▸ Nat.mul_pos hpos hnum)
    rw [hsrc]
    refine h.adr ?_ hne hlt
    rw [List.flatten_append, List.flatten_singleton, List.length_append] at hlt
    rw [BitVec.toNat_mul, BitVec.toNat_ofNat, BitVec.toNat_setWidth, ← Nat.mul_mod, ← hlen,
      Nat.mod_eq_of_lt (by omega)]
  · have hzero : s.count.toNat = 0 := Nat.eq_zero_of_not_pos fun h => hcount (BitVec.lt_def.mpr h)
    obtain rfl : l = [] := List.length_eq_zero_iff.mp (by rw [hlen, hzero, Nat.mul_zero])
    exact ⟨by simpa using h.ptr, by simpa using h.stores⟩

/-- One section after the other. -/
theorem Filling.Holds.foldl {f : Filling} {pieces ls : List (List Byte)} {secs : List Section}
    (h : f.Holds pieces) (hsecs : List.Forall₂ Section.Copies secs ls)
    (hpos : ∀ s ∈ secs, 0 < s.size) (hlt : (pieces ++ ls).flatten.length < 2 ^ 64) :
    (secs.foldl Filling.ada f).Holds (pieces ++ ls) := by
  induction hsecs generalizing f pieces with
  | nil => rwa [List.append_nil]
  | @cons s l secs ls hs _ ih =>
      rw [List.append_cons] at hlt ⊢
      have hfirst : (pieces ++ [l]).flatten.length < 2 ^ 64 := by
        rw [List.flatten_append, List.length_append] at hlt
        omega
      exact ih (h.ada hs (hpos s List.mem_cons_self) hfirst)
        (fun s hs => hpos s (List.mem_cons_of_mem _ hs)) hlt

/-- **The header and the sections.** -/
theorem holds_fillSections {apply : List Byte} {secs : List Section} {ls : List (List Byte)}
    (hne : apply ≠ []) (hsecs : List.Forall₂ Section.Copies secs ls)
    (hpos : ∀ s ∈ secs, 0 < s.size) (hlt : (apply :: ls).flatten.length < 2 ^ 64) :
    (fillSections apply secs).Holds (apply :: ls) := by
  have hlen : apply.length < 2 ^ 64 := by
    rw [List.flatten_cons, List.length_append] at hlt
    omega
  have hempty : Filling.Holds ⟨0, []⟩ [] := ⟨rfl, rfl⟩
  have hstart : (Filling.adr ⟨0, []⟩ (bytesOf (apply ++ [])) (BitVec.ofNat 64 apply.length)).Holds
      ([] ++ [apply]) :=
    hempty.adr (by rw [BitVec.toNat_ofNat, Nat.mod_eq_of_lt hlen]) hne (by simpa using hlen)
  rw [List.append_nil] at hstart
  exact hstart.foldl hsecs hpos hlt

/-! ## The two passes -/

/-- The second pass lays the sections out from the start of the buffer, one behind the other, and
returns how many bytes that are. The first one makes no copy and returns at least as many: no copy
ends behind them, and in a buffer with any contents only the sections change. -/
structure StaysWithin (fill : Bool → Filled) (sections : List (List Byte)) : Prop where
  estimate : (fill true).stores = []
  contiguous : (fill false).stores = inARow 0 (sections.filter (· ≠ []))
  ret : (fill false).ret.toNat = sections.flatten.length
  within : ∀ st ∈ (fill false).stores, st.1 + st.2.length ≤ (fill true).ret.toNat
  leaves : ∀ buf, storeAll buf (fill false).stores = fromList sections.flatten buf

/-- The passes fit when the copies hold the sections and the first returns no less. -/
theorem Filling.Holds.staysWithin {fill : Bool → Filled} {sections : List (List Byte)} {f : Filling}
    (h : f.Holds sections) (hfalse : fill false = ⟨f.ptr, f.stores⟩)
    (htrue : (fill true).stores = [])
    (hle : sections.flatten.length ≤ (fill true).ret.toNat) : StaysWithin fill sections := by
  have hflat := flatten_filter_ne_nil sections
  refine ⟨htrue, ?_, ?_, fun st hst => ?_, fun buf => ?_⟩
  · rw [hfalse, h.stores]
  · rw [hfalse, h.ptr]
  · rw [hfalse, h.stores] at hst
    have hend := end_le_of_mem_inARow hst
    rw [hflat, Nat.zero_add] at hend
    exact hend.trans hle
  · rw [hfalse, h.stores, storeAll_inARow, hflat, store_zero_eq_fromList]

/-- A section of records. -/
theorem copies_flatMap {α : Type} {enc : α → List Byte} {size : ℕ}
    (henc : ∀ a, (enc a).length = size) {l : List α} {count : BitVec 32}
    (hcount : count.toNat = l.length) :
    Section.Copies ⟨bytesOf (l.flatMap enc), size, count⟩ (l.flatMap enc) :=
  ⟨by rw [length_flatMap_const henc, hcount], [], by rw [List.append_nil]⟩

/-- A section of bytes, of which the first are copied. -/
theorem copies_take {l : List Byte} {n : ℕ} {count : BitVec 32} (hn : n ≤ l.length)
    (hcount : count.toNat = n) : Section.Copies ⟨bytesOf l, 1, count⟩ (l.take n) :=
  ⟨by rw [List.length_take_of_le hn, hcount, Nat.one_mul], l.drop n, by
    rw [List.take_append_drop]⟩

theorem length_storeHash (sha1 : Bytes shaDigestLength) :
    (storeHash sha1).length = sizeofXenlpHash := by
  simp [storeHash]

theorem ExctblEntry.length_store (e : ExctblEntry) : e.store.length = sizeofXenlpExctblEntry := by
  simp [ExctblEntry.store]

section Passes
variable (p : Patch) (writes : Writes)

theorem toNat_numwrites : writes.numwrites.toNat = writes.1.length := by
  rw [Writes.numwrites, BitVec.toNat_ofNat, Nat.mod_eq_of_lt writes.2]

theorem copies_blob : Section.Copies ⟨bytesOf p.blob.1, 1, p.blob.bloblen⟩ p.blob.1 := by
  have h := copies_take (le_refl p.blob.1.length) p.blob.toNat_bloblen
  rwa [List.take_length] at h

theorem copies_relocs : Section.Copies
    ⟨bytesOf (p.relocs.1.flatMap storeReloc), 4, p.relocs.count.setWidth 32⟩
    (p.relocs.1.flatMap storeReloc) :=
  copies_flatMap length_storeReloc (toNat_setWidth_count p.relocs)

theorem copies_writes : Section.Copies
    ⟨bytesOf (writes.1.flatMap XenlpPatchWrite.store), sizeofXenlpPatchWrite, writes.numwrites⟩
    (writes.1.flatMap XenlpPatchWrite.store) :=
  copies_flatMap XenlpPatchWrite.length_store (toNat_numwrites writes)

/-- Of a dependency the hash is copied. -/
theorem copies_deps : Section.Copies
    ⟨bytesOf (p.deps.1.flatMap fun d => storeHash d.sha1), sizeofXenlpHash,
      p.deps.count.setWidth 32⟩ (p.deps.1.flatMap fun d => storeHash d.sha1) :=
  copies_flatMap (fun d : Dependency => length_storeHash d.sha1) (toNat_setWidth_count p.deps)

theorem copies_tags : Section.Copies ⟨bytesOf p.tags.1, 1, BitVec.ofNat 32 p.taglen⟩
    (p.tags.1.take p.taglen) :=
  copies_take (taglen_le_length p) (@toNat_taglen_header p [])

theorem length_sections : (p.sections writes.1).flatten.length =
    sizeofXenlpApply4 + p.blob.1.length + 4 * p.relocs.1.length +
      sizeofXenlpPatchWrite * writes.1.length + sizeofXenlpExctblEntry * p.exctblents.1.length +
      sizeofXenlpExctblEntry * p.preexctblents.1.length + sizeofXenlpHash * p.deps.1.length +
      p.taglen := by
  simp only [Patch.sections, List.flatten_cons, List.flatten_nil, List.length_append,
    List.length_nil, XenlpApply4.length_store, length_flatMap_const length_storeReloc,
    length_flatMap_const XenlpPatchWrite.length_store,
    length_flatMap_const ExctblEntry.length_store,
    length_flatMap_const fun d : Dependency => length_storeHash d.sha1,
    List.length_take_of_le (taglen_le_length p)]
  omega

theorem length_sections3 : (p.sections3 writes.1).flatten.length =
    sizeofXenlpApply3 + p.blob.1.length + 4 * p.relocs.1.length +
      sizeofXenlpPatchWrite * writes.1.length + sizeofXenlpHash * p.deps.1.length + p.taglen := by
  simp only [Patch.sections3, List.flatten_cons, List.flatten_nil, List.length_append,
    List.length_nil, XenlpApply3.length_store, length_flatMap_const length_storeReloc,
    length_flatMap_const XenlpPatchWrite.length_store,
    length_flatMap_const fun d : Dependency => length_storeHash d.sha1,
    List.length_take_of_le (taglen_le_length p)]
  omega

/-- What the first pass of `fill_patch_buf4` returns: sixteen bytes too many for each
dependency. -/
theorem toNat_ret_null4 : (fillPatchBuf4By p writes true).ret.toNat =
    (p.sections writes.1).flatten.length + 16 * p.deps.1.length := by
  have hblob := p.blob.2
  have hwrites := writes.2
  have hrelocs := p.relocs.2
  have hexct := p.exctblents.2
  have hpre := p.preexctblents.2
  have hdeps := p.deps.2
  have htags := taglen_le p
  rw [length_sections]
  simp only [fillPatchBuf4By, if_true, BitVec.toNat_add, BitVec.toNat_mul, BitVec.toNat_setWidth,
    BitVec.toNat_ofNat, Counted.toNat_count, Blob.toNat_bloblen, toNat_numwrites,
    toNat_taglen_header, BitVec.ofNat_eq_ofNat]
  simp only [maxTagsLen, sizeofXenlpApply4, sizeofXenlpPatchWrite, sizeofXenlpExctblEntry,
    sizeofXenlpHash, sizeofDependency] at *
  omega

/-- What that of `fill_patch_buf3` returns. -/
theorem toNat_ret_null3 : (fillPatchBuf3By p writes true).ret.toNat =
    (p.sections3 writes.1).flatten.length + 16 * p.deps.1.length := by
  have hblob := p.blob.2
  have hwrites := writes.2
  have hrelocs := p.relocs.2
  have hdeps := p.deps.2
  have htags := taglen_le p
  rw [length_sections3]
  simp only [fillPatchBuf3By, if_true, BitVec.toNat_add, BitVec.toNat_mul, BitVec.toNat_setWidth,
    BitVec.toNat_ofNat, Counted.toNat_count, Blob.toNat_bloblen, toNat_numwrites,
    Patch.header3, BitVec.ofNat_eq_ofNat]
  simp only [maxTagsLen, sizeofXenlpApply3, sizeofXenlpPatchWrite, sizeofXenlpHash,
    sizeofDependency] at *
  omega

/-- Nothing in a message comes near the end of the address space. -/
theorem length_sections_lt : (p.sections writes.1).flatten.length < 2 ^ 64 ∧
    (p.sections3 writes.1).flatten.length < 2 ^ 64 := by
  constructor
  · exact (Nat.le_add_right _ _).trans_lt (toNat_ret_null4 p writes ▸ BitVec.isLt _)
  · exact (Nat.le_add_right _ _).trans_lt (toNat_ret_null3 p writes ▸ BitVec.isLt _)

theorem staysWithin_fillPatchBuf4By :
    StaysWithin (fillPatchBuf4By p writes) (p.sections writes.1) := by
  have hexct := copies_flatMap ExctblEntry.length_store (toNat_setWidth_count p.exctblents)
  have hpre := copies_flatMap ExctblEntry.length_store (toNat_setWidth_count p.preexctblents)
  have hne := List.ne_nil_of_length_eq_add_one (XenlpApply4.length_store (p.header writes.1))
  have hholds := holds_fillSections hne
    (.cons (copies_blob p) (.cons (copies_relocs p) (.cons (copies_writes writes) (.cons hexct
      (.cons hpre (.cons (copies_deps p) (.cons (copies_tags p) .nil))))))) (by simp)
    (length_sections_lt p writes).1
  exact hholds.staysWithin rfl rfl (by rw [toNat_ret_null4]; exact Nat.le_add_right _ _)

theorem staysWithin_fillPatchBuf3By :
    StaysWithin (fillPatchBuf3By p writes) (p.sections3 writes.1) := by
  have hne := List.ne_nil_of_length_eq_add_one (XenlpApply3.length_store (p.header3 writes.1))
  have hholds := holds_fillSections hne
    (.cons (copies_blob p) (.cons (copies_relocs p) (.cons (copies_writes writes)
      (.cons (copies_deps p) (.cons (copies_tags p) .nil))))) (by simp)
    (length_sections_lt p writes).2
  exact hholds.staysWithin rfl rfl (by rw [toNat_ret_null3]; exact Nat.le_add_right _ _)

/-- **The buffer is large enough.** For every patch and all writes, the second pass of
`fill_patch_buf4`, and of `fill_patch_buf3`, lays its sections out one behind the other within what
the first pass returns, and returns the number of their bytes. -/
theorem fillPatchBuf_staysWithin :
    StaysWithin (fillPatchBuf4By p writes) (p.sections writes.1) ∧
      StaysWithin (fillPatchBuf3By p writes) (p.sections3 writes.1) :=
  ⟨staysWithin_fillPatchBuf4By p writes, staysWithin_fillPatchBuf3By p writes⟩

end Passes

/-! ## The message -/

/-- The bytes that the caller sends: those the second pass counted, of a cleared buffer. -/
def Filled.message (f : Filled) : List Byte :=
  List.ofFn fun i : Fin f.ret.toNat => storeAll (fun _ => 0) f.stores i

theorem StaysWithin.message_eq {fill : Bool → Filled} {sections : List (List Byte)}
    (h : StaysWithin fill sections) : (fill false).message = sections.flatten := by
  refine List.ext_getElem ?_ fun i hi hi' => ?_
  · rw [Filled.message, List.length_ofFn, h.ret]
  · simp only [Filled.message, List.getElem_ofFn, h.leaves]
    exact fromList_lt hi'

theorem flatten_sections3 (p : Patch) (writes : List XenlpPatchWrite) :
    (p.sections3 writes).flatten = fillPatchBuf3 p writes := by
  simp [Patch.sections3, fillPatchBuf3]

/-- **What is sent is what `fillPatchBuf4` and `fillPatchBuf3` say.** -/
theorem message_fillPatchBuf4By (p : Patch) (writes : Writes) :
    (fillPatchBuf4By p writes false).message = fillPatchBuf4 p writes.1 :=
  (staysWithin_fillPatchBuf4By p writes).message_eq

theorem message_fillPatchBuf3By (p : Patch) (writes : Writes) :
    (fillPatchBuf3By p writes false).message = fillPatchBuf3 p writes.1 :=
  (staysWithin_fillPatchBuf3By p writes).message_eq.trans (flatten_sections3 p writes.1)

end Patchbox
