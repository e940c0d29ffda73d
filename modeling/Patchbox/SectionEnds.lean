import Patchbox.PatchFormat

/-!
# Where the sections of a file end

The hash covers a file up to its trailer, and the sections are read on their own from the cookie on.
Nothing compares the place where the last section ends with the place where the trailer begins.

## Main definitions

* `sectionsEnd` — where a loader stops reading.
* `sectionsEnd_of_loaded` — it is where the encoding of the patch ends.
* `sectionsEnd_iff` — when this is the trailer, and that bytes may stand in between.
-/

namespace Patchbox
open Lib

variable (hash : List Byte → Bytes shaDigestLength)

/-- The position in the file when `load_patch_file` returns, for the versions with a trailer. -/
def sectionsEnd (f : List Byte) : ℕ :=
  let version := getPatchVersion f
  let sha1 := (extractSha1FromPatch f).getD fun _ => 0
  let c : Cursor Byte := ⟨f, xspatchCookieLen⟩
  if version = 3 then (readSections 3 true false false sha1 c).2.off
  else if version = 4 then (readSections 4 false true false sha1 c).2.off
  else (readSections 5 false true true sha1 c).2.off

/-- The parts that the sections of a version have, for the loader and for where it stops. -/
theorem sectionsEnd_of_version {filename f : List Byte} {version : Int} (hv : Trailed version)
    (h : getPatchVersion f = version) : ∃ crowbar exTable conflict,
      (crowbar = true ↔ version = 3) ∧ (exTable = true ↔ 4 ≤ version) ∧
        (conflict = true ↔ version = 5) ∧
        loadPatchFile hash filename f =
          loadTrailed hash (readSections version crowbar exTable conflict) f ∧
        sectionsEnd f = (readSections version crowbar exTable conflict
          ((extractSha1FromPatch f).getD fun _ => 0) ⟨f, xspatchCookieLen⟩).2.off := by
  rw [loadPatchFile, sectionsEnd, h]
  rcases hv with rfl | rfl | rfl
  · exact ⟨true, false, false, by simp, by simp, by simp, rfl, rfl⟩
  · exact ⟨false, true, false, by simp, by simp, by simp, rfl, rfl⟩
  · exact ⟨false, true, true, by simp, by simp, by simp, rfl, rfl⟩

/-- **Where a loader stops.** The sections of an accepted file end where the encoding of the loaded
patch does. -/
theorem sectionsEnd_of_loaded {filename f : List Byte} {p : Patch}
    (hv : Trailed (getPatchVersion f)) (h : loadPatchFile hash filename f = some p) :
    sectionsEnd f = p.encodeBody.length ∧ p.encodeBody <+: f ∧ shaDigestLength ≤ f.length := by
  obtain ⟨crowbar, exTable, conflict, hcrowbar, hexTable, hconflict, hload, hend⟩ :=
    @sectionsEnd_of_version hash filename _ _ hv rfl
  rw [hload] at h
  simp only [loadTrailed, Option.bind_eq_bind, Option.bind_eq_some_iff] at h
  obtain ⟨sha1, hsha1, hash', -, h⟩ := h
  split_ifs at h
  rw [hsha1, Option.getD_some] at hend
  obtain ⟨_, ⟨hloaded, rfl⟩, hsections, hcursor⟩ :=
    (reads_readSections hcrowbar hexTable hconflict sha1 _ p _).mp (Prod.ext h rfl)
  have hcookie := prefix_of_getPatchVersion (f := f) hv.toNat.1.symm
  refine ⟨?_, ?_, ?_⟩
  · have hoff := hend.trans (congrArg Cursor.off hcursor)
    rw [hoff, Patch.encodeBody, List.length_append]
    rfl
  · rw [Patch.encodeBody, hloaded.version_eq]
    exact append_prefix_iff.mpr ⟨hcookie, hsections⟩
  · rw [extractSha1FromPatch] at hsha1
    split_ifs at hsha1 with hshort
    exact Nat.le_of_not_lt hshort

/-- A file with the right trailer is loaded when its cookie and sections are in front, however far
they go. -/
theorem loadPatchFile_of_encodeBody {filename body : List Byte} {p : Patch} (hv : Trailed p.version)
    (hloaded : p.LoadedAs p.version (hash body))
    (hbody : p.encodeBody <+: body ++ (hash body).toList) :
    Trailed (getPatchVersion (body ++ (hash body).toList)) ∧
      loadPatchFile hash filename (body ++ (hash body).toList) = some p := by
  obtain ⟨hversion, hge, hle⟩ := hv.toNat
  obtain ⟨hcookie, hsections⟩ := append_prefix_iff.mp hbody
  have hget := (getPatchVersion_of_cookie hge hle hcookie).trans hversion
  obtain ⟨crowbar, exTable, conflict, hcrowbar, hexTable, hconflict, hload⟩ :=
    @loadPatchFile_of_version hash filename _ _ hv hget
  have hread := (reads_readSections hcrowbar hexTable hconflict (hash body)
    ⟨body ++ (hash body).toList, xspatchCookieLen⟩ p _).mpr ⟨_, ⟨hloaded, rfl⟩, hsections, rfl⟩
  constructor
  · rw [hget]
    exact hv
  · rw [hload, loadTrailed_append, hread]

/-- The patch, in a file with another hash. -/
def Patch.withSha1 (p : Patch) (sha1 : Bytes shaDigestLength) : Patch := { p with sha1 }

theorem encodeBody_withSha1 (p : Patch) (sha1 : Bytes shaDigestLength) :
    (p.withSha1 sha1).encodeBody = p.encodeBody := rfl

theorem encodeBody_loaded (p : Patch) : (p.loaded hash).encodeBody = p.encodeBody := by
  rw [Patch.encodeBody, encodeSections_loaded]
  rfl

theorem Patch.LoadedAs.withSha1 {p : Patch} {version : Int} {old : Bytes shaDigestLength}
    (h : p.LoadedAs version old) (sha1 : Bytes shaDigestLength) :
    (p.withSha1 sha1).LoadedAs version sha1 where
  version_eq := h.version_eq
  sha1_eq := rfl
  blob_le := h.blob_le
  reladdr := h.reladdr
  relocsAlloc := h.relocsAlloc
  crowbarabs := h.crowbarabs
  exctblents := h.exctblents
  preexctblents := h.preexctblents
  conflicts := h.conflicts

/-- A patch followed by any bytes, and the hash of all of it. -/
def Patch.encodeWith (p : Patch) (extra : List Byte) : List Byte :=
  p.encodeBody ++ extra ++ (hash (p.encodeBody ++ extra)).toList

/-- The patch that is loaded from it. -/
def Patch.loadedWith (p : Patch) (extra : List Byte) : Patch :=
  (p.loaded hash).withSha1 (hash (p.encodeBody ++ extra))

theorem encodeBody_loadedWith (p : Patch) (extra : List Byte) :
    (p.loadedWith hash extra).encodeBody = p.encodeBody := by
  rw [Patch.loadedWith, encodeBody_withSha1, encodeBody_loaded]

/-- The bytes behind the last section are hashed, and nothing else is done with them. -/
theorem loadPatchFile_encodeWith {filename : List Byte} {p : Patch} (hv : Trailed p.version)
    (hlimits : p.WithinLimits) (extra : List Byte) :
    Trailed (getPatchVersion (p.encodeWith hash extra)) ∧
      loadPatchFile hash filename (p.encodeWith hash extra) = some (p.loadedWith hash extra) := by
  refine loadPatchFile_of_encodeBody hash (p := p.loadedWith hash extra) hv
    ((loadedAs_loaded hash hlimits).withSha1 _) ?_
  rw [encodeBody_loadedWith, List.append_assoc]
  exact List.prefix_append _ _

/-- **Where the sections end.** For every hash function: the last section of an accepted file ends
where the trailer begins exactly when nothing but the cookie and the sections of the patch is
hashed; and any bytes may stand between the two, which are hashed and not read. -/
theorem sectionsEnd_iff (filename : List Byte) :
    (∀ (f : List Byte) (p : Patch), Trailed (getPatchVersion f) →
        loadPatchFile hash filename f = some p →
        p.encodeBody <+: f ∧ (sectionsEnd f = f.length - shaDigestLength ↔
          f.take (f.length - shaDigestLength) = p.encodeBody)) ∧
      ∀ (p : Patch) (extra : List Byte), Trailed p.version → p.WithinLimits →
        loadPatchFile hash filename (p.encodeWith hash extra) = some (p.loadedWith hash extra) ∧
          sectionsEnd (p.encodeWith hash extra) + extra.length =
            (p.encodeWith hash extra).length - shaDigestLength := by
  constructor
  · intro f p hv h
    obtain ⟨hend, hbody, hlen⟩ := sectionsEnd_of_loaded hash hv h
    refine ⟨hbody, ?_⟩
    rw [hend]
    constructor
    · intro heq
      rw [← heq]
      exact (List.prefix_iff_eq_take.mp hbody).symm
    · intro heq
      rw [← heq, List.length_take_of_le (Nat.sub_le _ _)]
  · intro p extra hv hlimits
    obtain ⟨hget, hload⟩ := loadPatchFile_encodeWith hash hv hlimits extra
    obtain ⟨hend, -, -⟩ := sectionsEnd_of_loaded hash hget hload
    refine ⟨hload, ?_⟩
    rw [hend, encodeBody_loadedWith, Patch.encodeWith, List.length_append, Bytes.length_toList,
      Nat.add_sub_cancel, List.length_append]

/-- A hash function that returns zeros. -/
def zeroHash : List Byte → Bytes shaDigestLength := fun _ _ => 0

theorem withinLimits_storedPatch : storedPatch.WithinLimits := ⟨by decide, by decide⟩

theorem sectionsEnd_iff_storedPatch :
    ((storedPatch.loadedWith zeroHash [7]).encodeBody <+: storedPatch.encodeWith zeroHash [7] ∧
      (sectionsEnd (storedPatch.encodeWith zeroHash [7]) =
          (storedPatch.encodeWith zeroHash [7]).length - shaDigestLength ↔
        (storedPatch.encodeWith zeroHash [7]).take
            ((storedPatch.encodeWith zeroHash [7]).length - shaDigestLength) =
          (storedPatch.loadedWith zeroHash [7]).encodeBody)) ∧
      loadPatchFile zeroHash [] (storedPatch.encodeWith zeroHash [7]) =
          some (storedPatch.loadedWith zeroHash [7]) ∧
        sectionsEnd (storedPatch.encodeWith zeroHash [7]) + [(7 : Byte)].length =
          (storedPatch.encodeWith zeroHash [7]).length - shaDigestLength := by
  have hv : Trailed storedPatch.version := .inr (.inl rfl)
  obtain ⟨hget, hload⟩ := @loadPatchFile_encodeWith zeroHash [] _ hv withinLimits_storedPatch [7]
  exact ⟨(sectionsEnd_iff zeroHash []).1 _ _ hget hload,
    (sectionsEnd_iff zeroHash []).2 storedPatch [7] hv withinLimits_storedPatch⟩

/-- The hashed part of a file whose last two bytes are found in the trailer. -/
def shortBody : List Byte := storedPatch.encodeBody.take (storedPatch.encodeBody.length - 2)

/-- A file with a byte in front of its trailer, and one whose last section ends in the trailer. -/
theorem sectionsEnd_not_at_trailer :
    (∃ f p, Trailed (getPatchVersion f) ∧ loadPatchFile zeroHash [] f = some p ∧
        sectionsEnd f < f.length - shaDigestLength) ∧
      ∃ f p, Trailed (getPatchVersion f) ∧ loadPatchFile zeroHash [] f = some p ∧
        f.length - shaDigestLength < sectionsEnd f := by
  have hv : Trailed storedPatch.version := .inr (.inl rfl)
  have hloaded := loadedAs_loaded zeroHash withinLimits_storedPatch
  constructor
  · obtain ⟨hget, hload⟩ := @loadPatchFile_encodeWith zeroHash [] _ hv withinLimits_storedPatch [7]
    refine ⟨_, _, hget, hload, ?_⟩
    rw [(sectionsEnd_of_loaded zeroHash hget hload).1, encodeBody_loadedWith, Patch.encodeWith,
      List.length_append, Bytes.length_toList, Nat.add_sub_cancel, List.length_append]
    exact Nat.lt_add_of_pos_right (by decide)
  · have hbody : ((storedPatch.loaded zeroHash).withSha1 (zeroHash shortBody)).encodeBody =
        storedPatch.encodeBody := by
      rw [encodeBody_withSha1, encodeBody_loaded]
    have hprefix : storedPatch.encodeBody <+: shortBody ++ (zeroHash shortBody).toList := by
      decide +kernel
    have hshort : shortBody.length < storedPatch.encodeBody.length := by
      decide +kernel
    obtain ⟨hget, hload⟩ := @loadPatchFile_of_encodeBody zeroHash [] shortBody
      ((storedPatch.loaded zeroHash).withSha1 (zeroHash shortBody)) hv
      (hloaded.withSha1 (zeroHash shortBody)) (by
        rw [hbody]
        exact hprefix)
    refine ⟨_, _, hget, hload, ?_⟩
    rw [(sectionsEnd_of_loaded zeroHash hget hload).1, hbody, List.length_append,
      Bytes.length_toList, Nat.add_sub_cancel]
    exact hshort

end Patchbox
