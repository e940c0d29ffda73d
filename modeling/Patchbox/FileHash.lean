import Patchbox.PatchFormat

/-!
# The hash of a file

`calc_block_sha1` hashes the bytes of a file from one offset up to another, in blocks of at
most 4096 bytes, and puts the offset of the descriptor back. Its offsets are signed, the
count of its loop is not, and the test of the loop compares the two as unsigned. The loaders
take the whole file, or all but the trailer, whose length is subtracted from a size that may
be smaller.

## Main definitions

* `updateSha1` — the loop, and what it hands to `SHA1_Update`.
* `calcBlockSha1By` — `calc_block_sha1`, with the descriptor.
* `HashesRange` — what it does for one pair of offsets.
* `hashes_exactly` — what it does for every pair, and what the loaders hash.
-/

namespace Patchbox
open Lib

/-! ## The functions -/

/-- What `calc_block_sha1` returns, what it hands to `SHA1_Update`, and the descriptor it leaves. -/
structure HashRun where
  ret : Int
  blocks : List (List Byte)
  fd : Cursor Byte

/-- The size of the next block. -/
def readsize (size bytesread : BitVec 64) : BitVec 64 :=
  if size - bytesread < 4096 then size - bytesread else 4096

theorem toNat_readsize {size bytesread : BitVec 64} (h : bytesread < size) :
    (readsize size bytesread).toNat = min 4096 (size.toNat - bytesread.toNat) := by
  have hsub : (size - bytesread).toNat = size.toNat - bytesread.toNat :=
    BitVec.toNat_sub_of_le (BitVec.le_of_lt h)
  have hlimit : (4096 : BitVec 64).toNat = 4096 := rfl
  have hlt : size - bytesread < 4096 ↔ size.toNat - bytesread.toNat < 4096 := by
    rw [BitVec.lt_def, hsub, hlimit]
  rw [readsize]
  split_ifs with hshort
  · rw [hsub]
    have := hlt.mp hshort
    omega
  · have := mt hlt.mpr hshort
    omega

/-- The count behind it does not wrap. -/
theorem toNat_add_readsize {size bytesread : BitVec 64} (h : bytesread < size) :
    (bytesread + readsize size bytesread).toNat =
      bytesread.toNat + min 4096 (size.toNat - bytesread.toNat) := by
  have hlt := BitVec.lt_def.mp h
  have hsize := size.isLt
  rw [BitVec.toNat_add, toNat_readsize h, Nat.mod_eq_of_lt (by omega)]

/-- The loop of `calc_block_sha1`. -/
def updateSha1 (size bytesread : BitVec 64) (fd : Cursor Byte) : HashRun :=
  if _h : bytesread < size then
    match read (readsize size bytesread).toNat fd with
    | (none, fd) => ⟨-1, [], fd⟩
    | (some buf, fd) =>
      let r := updateSha1 size (bytesread + readsize size bytesread) fd
      ⟨r.ret, buf.1 :: r.blocks, r.fd⟩
  else ⟨0, [], fd⟩
termination_by size.toNat - bytesread.toNat
decreasing_by
  rw [toNat_add_readsize _h]
  have hlt := BitVec.lt_def.mp _h
  omega

/-- `calc_block_sha1`. The offsets are of type `off_t`. -/
def calcBlockSha1By (fd : Cursor Byte) (start end_ : BitVec 64) : HashRun :=
  let fileSize : BitVec 64 := BitVec.ofNat 64 fd.file.length
  if start.slt 0 ∨ end_.slt 0 ∨ end_.slt start ∨ fileSize.slt end_ then ⟨-1, [], fd⟩
  else
    let cur := fd.off
    let r := updateSha1 (end_ - start) 0 ⟨fd.file, start.toNat⟩
    if r.ret < 0 then r else ⟨0, r.blocks, ⟨fd.file, cur⟩⟩

/-- `calculate_file_sha1`. -/
def calculateFileSha1By (fd : Cursor Byte) : HashRun :=
  calcBlockSha1By fd 0 (BitVec.ofNat 64 fd.file.length)

/-- The call in `_load_patch_file3`, `_load_patch_file4` and `_load_patch_file5`. -/
def calcTrailedSha1By (fd : Cursor Byte) : HashRun :=
  calcBlockSha1By fd 0 (BitVec.ofNat 64 fd.file.length - BitVec.ofNat 64 shaDigestLength)

/-! ## The loop -/

/-- A read of a block within the file. -/
theorem read_of_le {n : ℕ} {c : Cursor Byte} (hn : n ≤ 4096) (h : n ≤ c.rest.length) :
    read n c = (some ⟨c.rest.take n, List.length_take_of_le h⟩, c.skip n) := by
  have hmax : n ≤ maxRwCount := hn.trans (by norm_num)
  refine (reads_read n c _ _).mpr ⟨c.rest.take n, ⟨hmax, rfl⟩, List.take_prefix n c.rest, ?_⟩
  rw [List.length_take_of_le h]

/-- **The loop hashes what is left of the range.** It ends there, having met no error. -/
theorem updateSha1_of_le {size bytesread : BitVec 64} {fd : Cursor Byte}
    (h : size.toNat - bytesread.toNat ≤ fd.rest.length) :
    (updateSha1 size bytesread fd).ret = 0 ∧
      (updateSha1 size bytesread fd).blocks.flatten =
        fd.rest.take (size.toNat - bytesread.toNat) ∧
      ∀ b ∈ (updateSha1 size bytesread fd).blocks, b.length ≤ 4096 := by
  fun_induction updateSha1 size bytesread fd with
  | case1 bytesread fd hlt fd' hread =>
      have hsize := toNat_readsize hlt
      rw [read_of_le (by omega) (by omega)] at hread
      cases hread
  | case2 bytesread fd hlt buf fd' hread r ih =>
      have hsize := toNat_readsize hlt
      have hnext := toNat_add_readsize hlt
      have hless := BitVec.lt_def.mp hlt
      rw [read_of_le (by omega) (by omega)] at hread
      obtain ⟨hbuf, rfl⟩ := Prod.mk.inj hread
      have hbytes : buf.1 = fd.rest.take (readsize size bytesread).toNat :=
        congrArg Subtype.val (Option.some.inj hbuf).symm
      obtain ⟨hret, hblocks, hlen⟩ := ih (by
        rw [Cursor.rest_skip, List.length_drop]
        omega)
      refine ⟨hret, ?_, ?_⟩
      · have hsum : size.toNat - bytesread.toNat = (readsize size bytesread).toNat +
            (size.toNat - (bytesread + readsize size bytesread).toNat) := by omega
        rw [List.flatten_cons, hblocks, hbytes, Cursor.rest_skip, hsum, List.take_add]
      · refine List.forall_mem_cons.mpr ⟨?_, hlen⟩
        rw [buf.2]
        omega
  | case3 bytesread fd hnot =>
      have hge := mt BitVec.lt_def.mpr hnot
      have hzero : size.toNat - bytesread.toNat = 0 := by omega
      rw [hzero, List.take_zero]
      exact ⟨rfl, rfl, nofun⟩

/-! ## The range -/

/-- A regular file. Its size is of type `off_t`. -/
abbrev RegularFile := { f : List Byte // f.length < 2 ^ 63 }

/-- The offsets are those of a range in the file. -/
def InFile (f : RegularFile) (start end_ : BitVec 64) : Prop :=
  0 ≤ start.toInt ∧ start.toInt ≤ end_.toInt ∧ end_.toInt ≤ f.1.length

/-- `calc_block_sha1` hashes the bytes of a range, in blocks that fit in its buffer, and leaves the
offset of the descriptor as it was; it refuses offsets that are not those of a range. -/
def HashesRange (f : RegularFile) (cur : ℕ) (start end_ : BitVec 64) : Prop :=
  let r := calcBlockSha1By ⟨f.1, cur⟩ start end_
  (InFile f start end_ → r.ret = 0 ∧ r.fd = ⟨f.1, cur⟩ ∧
      r.blocks.flatten = (f.1.take end_.toNat).drop start.toNat ∧
      ∀ b ∈ r.blocks, b.length ≤ 4096) ∧
    (¬InFile f start end_ → r = ⟨-1, [], ⟨f.1, cur⟩⟩)

theorem toInt_ofNat_length (f : RegularFile) : (BitVec.ofNat 64 f.1.length).toInt = f.1.length :=
  toInt_ofNat_of_lt (by have := f.2; omega)

theorem refused_iff (f : RegularFile) (start end_ : BitVec 64) :
    (start.slt 0 ∨ end_.slt 0 ∨ end_.slt start ∨ (BitVec.ofNat 64 f.1.length).slt end_) ↔
      ¬InFile f start end_ := by
  have hzero : (0 : BitVec 64).toInt = 0 := rfl
  simp only [BitVec.slt_iff_toInt_lt, hzero, toInt_ofNat_length, InFile]
  omega

theorem hashesRange (f : RegularFile) (cur : ℕ) (start end_ : BitVec 64) :
    HashesRange f cur start end_ := by
  constructor
  · intro hrange
    obtain ⟨hstart, horder, hend⟩ := hrange
    have hs := toNat_of_toInt_nonneg hstart
    have he := toNat_of_toInt_nonneg (hstart.trans horder)
    have hsize : (end_ - start).toNat - (0 : BitVec 64).toNat = end_.toNat - start.toNat :=
      BitVec.toNat_sub_of_le (BitVec.le_def.mpr (by omega))
    have hrest : (Cursor.mk f.1 start.toNat).rest.length = f.1.length - start.toNat :=
      List.length_drop
    obtain ⟨hret, hblocks, hlen⟩ := @updateSha1_of_le (end_ - start) 0 ⟨f.1, start.toNat⟩
      (by rw [hsize, hrest]; omega)
    have hrun : calcBlockSha1By ⟨f.1, cur⟩ start end_ =
        ⟨0, (updateSha1 (end_ - start) 0 ⟨f.1, start.toNat⟩).blocks, ⟨f.1, cur⟩⟩ := by
      have hnot := mt (refused_iff f start end_).mp (not_not.mpr ⟨hstart, horder, hend⟩)
      rw [calcBlockSha1By, if_neg hnot, if_neg (by rw [hret]; decide)]
    rw [hrun]
    refine ⟨rfl, rfl, ?_, hlen⟩
    have hle : start.toNat ≤ end_.toNat := by omega
    rw [hblocks, hsize, Cursor.rest, List.take_drop]
    exact congrArg (fun n => (f.1.take n).drop start.toNat) (Nat.add_sub_cancel' hle)
  · intro hrange
    exact if_pos ((refused_iff f start end_).mpr hrange)

/-! ## The loaders -/

/-- What a loader makes of the hash it expects and the one it computes. -/
def checkedLoad (sections : Bytes shaDigestLength → Reader Byte Patch) (f : List Byte)
    (expected : Option (Bytes shaDigestLength)) (hash' : Bytes shaDigestLength) : Option Patch :=
  expected.bind fun sha1 =>
    if sha1 = hash' then (sections sha1 ⟨f, xspatchCookieLen⟩).1 else none

/-- The bytes in front of the trailer. -/
def RegularFile.body (f : RegularFile) : List Byte := f.1.take (f.1.length - shaDigestLength)

/-- The loader of version 2 hashes the file, the others all of it in front of the trailer, which
holds the hash they expect; a file that is too short for a trailer is refused. With whatever hash
function, this is all that the loaders take from it. -/
structure LoadersHash (hash : List Byte → Bytes shaDigestLength) (filename : List Byte)
    (f : RegularFile) (cur : ℕ) : Prop where
  whole : (calculateFileSha1By ⟨f.1, cur⟩).blocks.flatten = f.1
  version2 : loadPatchFile2 hash filename f.1 =
    if getPatchVersion f.1 = 2 then
      checkedLoad readSections2 f.1 (extractSha1FromFilename filename) (hash f.1)
    else none
  front : shaDigestLength ≤ f.1.length → (calcTrailedSha1By ⟨f.1, cur⟩).blocks.flatten = f.body
  trailer : shaDigestLength ≤ f.1.length →
    ∃ sha1, extractSha1FromPatch f.1 = some sha1 ∧ f.1 = f.body ++ sha1.toList
  short : f.1.length < shaDigestLength → extractSha1FromPatch f.1 = none
  version3 : loadPatchFile3 hash f.1 =
    checkedLoad (readSections 3 true false false) f.1 (extractSha1FromPatch f.1) (hash f.body)
  version4 : loadPatchFile4 hash f.1 =
    checkedLoad (readSections 4 false true false) f.1 (extractSha1FromPatch f.1) (hash f.body)
  version5 : loadPatchFile5 hash f.1 =
    checkedLoad (readSections 5 false true true) f.1 (extractSha1FromPatch f.1) (hash f.body)

variable (hash : List Byte → Bytes shaDigestLength) (f : RegularFile) (cur : ℕ)

theorem readBlock_of_le {size : ℕ} {c : Cursor Byte} (h : size ≤ c.rest.length) :
    (readBlock size c).1 = some (c.rest.take size) := by
  have hread := (reads_readBlock size c (c.rest.take size) _).mpr
    ⟨_, ⟨List.length_take_of_le h, rfl⟩, List.take_prefix _ _, rfl⟩
  rw [hread]

/-- **The coarser model** hashes what is handed to `SHA1_Update`. -/
theorem calcBlockSha1_eq (start end_ : BitVec 64) :
    calcBlockSha1 hash f.1 start.toInt end_.toInt =
      let r := calcBlockSha1By ⟨f.1, cur⟩ start end_
      if r.ret = 0 then some (hash r.blocks.flatten) else none := by
  obtain ⟨hashes, refuses⟩ := hashesRange f cur start end_
  by_cases hrange : InFile f start end_
  · obtain ⟨hret, -, hblocks, -⟩ := hashes hrange
    obtain ⟨hstart, horder, hend⟩ := hrange
    have hs := toNat_of_toInt_nonneg hstart
    have he := toNat_of_toInt_nonneg (hstart.trans horder)
    have hnat : start.toInt.toNat = start.toNat := by omega
    have hsize : (end_.toInt - start.toInt).toNat = end_.toNat - start.toNat := by omega
    have hle : start.toNat ≤ end_.toNat := by omega
    simp only [hret, hblocks, if_true]
    rw [calcBlockSha1, if_neg (by omega), hnat, hsize,
      readBlock_of_le (by rw [Cursor.rest, List.length_drop]; dsimp only; omega), Cursor.rest,
      List.take_drop, Nat.add_sub_cancel' hle]
    rfl
  · rw [calcBlockSha1, if_pos (by rw [InFile] at hrange; omega), refuses hrange]
    rfl

/-- The end of what is hashed is not wrapped, but negative for a file without room for a trailer. -/
theorem toInt_trailed :
    (BitVec.ofNat 64 f.1.length - BitVec.ofNat 64 shaDigestLength).toInt =
      f.1.length - shaDigestLength := by
  have hsmall := f.2
  rw [BitVec.toInt_sub, toInt_ofNat_length, toInt_ofNat_of_lt (by norm_num)]
  exact Int.bmod_eq_of_le (by norm_num; omega) (by norm_num; omega)

/-- A front of the file. -/
theorem calcBlockSha1By_front {end_ : BitVec 64} {n : ℕ} (hend : end_.toInt = n)
    (hle : n ≤ f.1.length) :
    (calcBlockSha1By ⟨f.1, cur⟩ 0 end_).ret = 0 ∧
      (calcBlockSha1By ⟨f.1, cur⟩ 0 end_).blocks.flatten = f.1.take n := by
  have hzero : (0 : BitVec 64).toInt = 0 := rfl
  have hnat := toNat_of_toInt_nonneg (hend ▸ Int.natCast_nonneg n)
  have hrange : InFile f 0 end_ := by
    rw [InFile, hzero]
    omega
  obtain ⟨hret, -, hblocks, -⟩ := (hashesRange f cur 0 end_).1 hrange
  have htake : end_.toNat = n := by omega
  rw [htake] at hblocks
  exact ⟨hret, hblocks⟩

/-- The file of version 2 is hashed as a whole. -/
theorem calculateFileSha1By_spec : (calculateFileSha1By ⟨f.1, cur⟩).ret = 0 ∧
    (calculateFileSha1By ⟨f.1, cur⟩).blocks.flatten = f.1 := by
  have h := calcBlockSha1By_front f cur (toInt_ofNat_length f) le_rfl
  rwa [List.take_length] at h

/-- From version 3 on all but the last twenty bytes are, when there are so many. -/
theorem calcTrailedSha1By_spec (h : shaDigestLength ≤ f.1.length) :
    (calcTrailedSha1By ⟨f.1, cur⟩).ret = 0 ∧
      (calcTrailedSha1By ⟨f.1, cur⟩).blocks.flatten = f.body :=
  calcBlockSha1By_front f cur (by rw [toInt_trailed, Int.ofNat_sub h]) (Nat.sub_le _ _)

theorem loadTrailed_eq (sections : Bytes shaDigestLength → Reader Byte Patch) :
    loadTrailed hash sections f.1 =
      checkedLoad sections f.1 (extractSha1FromPatch f.1) (hash f.body) := by
  by_cases hshort : f.1.length < shaDigestLength
  · rw [loadTrailed, extractSha1FromPatch, if_pos hshort]
    rfl
  · have hzero : (0 : BitVec 64).toInt = 0 := rfl
    have hcalc := calcBlockSha1_eq hash f 0 0
      (BitVec.ofNat 64 f.1.length - BitVec.ofNat 64 shaDigestLength)
    obtain ⟨hret, hblocks⟩ := calcTrailedSha1By_spec f 0 (Nat.le_of_not_lt hshort)
    rw [calcTrailedSha1By] at hret hblocks
    simp only [hret, hblocks, hzero, toInt_trailed, if_true] at hcalc
    simp only [loadTrailed, checkedLoad, hcalc, Option.bind_eq_bind, Option.bind_some, ne_eq,
      ite_not]

theorem loadPatchFile2_eq (filename : List Byte) : loadPatchFile2 hash filename f.1 =
    if getPatchVersion f.1 = 2 then
      checkedLoad readSections2 f.1 (extractSha1FromFilename filename) (hash f.1)
    else none := by
  have hcalc := calcBlockSha1_append hash f.1 []
  rw [List.append_nil] at hcalc
  simp only [loadPatchFile2, calculateFileSha1, checkedLoad, hcalc, Option.bind_eq_bind,
    Option.bind_some, ne_eq, ite_not]

/-- The trailer is the rest of the file. -/
theorem extractSha1FromPatch_eq (h : shaDigestLength ≤ f.1.length) :
    ∃ sha1, extractSha1FromPatch f.1 = some sha1 ∧ f.1 = f.body ++ sha1.toList := by
  obtain ⟨t, ht⟩ : ∃ t, t = f.1.drop (f.1.length - shaDigestLength) := ⟨_, rfl⟩
  have hlen : t.length = shaDigestLength := by
    rw [ht, List.length_drop, Nat.sub_sub_self h]
  have hlist : Bytes.toList (fun i : Fin shaDigestLength => t.get (i.cast hlen.symm)) = t := by
    refine List.ext_getElem (by rw [Bytes.length_toList, hlen]) fun i hi hi' => ?_
    rw [Bytes.getElem_toList]
    rfl
  have hsplit : f.1 = f.body ++
      Bytes.toList (fun i : Fin shaDigestLength => t.get (i.cast hlen.symm)) := by
    rw [hlist, ht, RegularFile.body, List.take_append_drop]
  exact ⟨_, (congrArg extractSha1FromPatch hsplit).trans (extractSha1FromPatch_append _ _), hsplit⟩

/-- **What is hashed.** For every file, every offset of the descriptor and all `start` and `end`,
`calc_block_sha1` hashes exactly the bytes of the range and puts the offset back, and it refuses
what is no range; the loaders hash the whole file, or all of it in front of the trailer. -/
theorem hashes_exactly (filename : List Byte) :
    (∀ start end_, HashesRange f cur start end_) ∧ LoadersHash hash filename f cur :=
  ⟨hashesRange f cur, {
    whole := (calculateFileSha1By_spec f cur).2
    version2 := loadPatchFile2_eq hash f filename
    front := fun h => (calcTrailedSha1By_spec f cur h).2
    trailer := extractSha1FromPatch_eq f
    short := fun h => if_pos h
    version3 := loadTrailed_eq hash f _
    version4 := loadTrailed_eq hash f _
    version5 := loadTrailed_eq hash f _ }⟩

end Patchbox
