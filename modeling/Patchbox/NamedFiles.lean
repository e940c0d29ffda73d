import Patchbox.FileHash
import Patchbox.HexText

/-!
# Files that are called by their hash

A file of version 2 has no trailer: the hash that its loader expects is the name of the file. So
such a file may end anywhere behind its sections, and what is behind them is hashed, too.

## Main definitions

* `Patch.encode2` — what a file of version 2 starts with.
* `nameOf` — the name of a file with a given hash.
* `loadPatchFile_named` — a patch is loaded under the name of its file, and under no other hash.
-/

namespace Patchbox
open Lib

variable (hash : List Byte → Bytes shaDigestLength)

/-! ## The format -/

/-- The sections of version 2, behind the cookie. -/
def Patch.encodeSections2 (p : Patch) : List Byte :=
  encodeRefxen (p.xenversion, p.xencompiledate) ++ beBytes 8 p.crowbarabs.toNat
    ++ beBytes 8 p.refabs.toNat ++ p.blob.encode
    ++ encodeCounted (fun r => beBytes 4 r.toNat) p.relocs ++ encodeCounted Check.encode p.checks
    ++ encodeCounted FunctionPatch.encode p.funcs ++ encodeCounted TablePatch.encode p.tables

/-- The file of a patch, up to what its loader does not read. -/
def Patch.encode2 (p : Patch) : List Byte := xspatchCookie 2 ++ p.encodeSections2

/-- The name under which `extract_sha1_from_filename` finds a hash. -/
def nameOf (sha1 : Bytes shaDigestLength) : List Byte := hexText sha1.toList ++ raxlpxs

/-- What the loader makes of a patch: it has what the sections of version 2 have, and no room for
relocations that are added later. -/
structure Patch.LoadedAs2 (p : Patch) (sha1 : Bytes shaDigestLength) : Prop where
  version_eq : p.version = 2
  sha1_eq : p.sha1 = sha1
  blob_le : p.blob.1.length ≤ maxRwCount
  relocsAlloc : p.relocsAlloc = p.relocs.1.length
  tags : p.tags = .nil
  relocs3 : p.relocs3 = .nil
  symbols : p.symbols = .nil
  deps : p.deps = .nil
  exctblents : p.exctblents = .nil
  preexctblents : p.preexctblents = .nil
  conflicts : p.conflicts = .nil

/-- The patch as it is loaded from a file of version 2. -/
def Patch.loaded2 (p : Patch) (sha1 : Bytes shaDigestLength) : Patch :=
  { p with
    version := 2
    sha1
    relocsAlloc := p.relocs.1.length
    tags := .nil
    relocs3 := .nil
    symbols := .nil
    deps := .nil
    exctblents := .nil
    preexctblents := .nil
    conflicts := .nil }

theorem loadedAs2_loaded2 {p : Patch} (h : p.blob.1.length ≤ maxRwCount)
    (sha1 : Bytes shaDigestLength) : (p.loaded2 sha1).LoadedAs2 sha1 where
  version_eq := rfl
  sha1_eq := rfl
  blob_le := h
  relocsAlloc := rfl
  tags := rfl
  relocs3 := rfl
  symbols := rfl
  deps := rfl
  exctblents := rfl
  preexctblents := rfl
  conflicts := rfl

theorem encodeSections2_loaded2 (p : Patch) (sha1 : Bytes shaDigestLength) :
    (p.loaded2 sha1).encodeSections2 = p.encodeSections2 := rfl

/-! ## The sections are read -/

/-- **The sections of version 2** are read as they were stored. -/
theorem reads_readSections2 (sha1 : Bytes shaDigestLength) :
    Reads (readSections2 sha1) (encodedIf (fun p => p.LoadedAs2 sha1) Patch.encodeSections2) := by
  refine Reads.congr (reads_readRefxenData.field
      (fun p : Patch => (p.xenversion, p.xencompiledate)) fun (xenversion, xencompiledate) =>
    reads_readu64.field Patch.crowbarabs fun crowbarabs =>
    reads_readu64.field Patch.refabs fun refabs =>
    reads_readBlobData.fieldIf Patch.blob ?_ fun blob hblob =>
    reads_readRelocData.field Patch.relocs fun relocs =>
    reads_readCheckData.field Patch.checks fun checks =>
    reads_readFuncData.field Patch.funcs fun funcs =>
    reads_readTableData.field Patch.tables fun tables => reads_record fun p => ?_) fun p hloaded => ?_
  · exact fun p h => h.2.2.2.blob_le
  · constructor
    · rintro rfl
      exact ⟨rfl, rfl, rfl, rfl, rfl, rfl, rfl, rfl,
        ⟨rfl, rfl, hblob, rfl, rfl, rfl, rfl, rfl, rfl, rfl, rfl⟩⟩
    · rintro ⟨rfl, rfl, rfl, rfl, rfl, rfl, rfl, hxen, hloaded⟩
      obtain ⟨rfl, rfl⟩ := Prod.mk.inj hxen
      cases p
      simp only [Patch.mk.injEq, true_and]
      exact ⟨hloaded.version_eq, hloaded.sha1_eq, hloaded.relocsAlloc, hloaded.tags,
        hloaded.relocs3, hloaded.symbols, hloaded.deps, hloaded.exctblents,
        hloaded.preexctblents, hloaded.conflicts⟩
  · simp only [Patch.encodeSections2, List.append_assoc, List.append_nil]

/-- The sections stand behind the cookie. -/
theorem rest_append_encode2 (p : Patch) (rest : List Byte) :
    (Cursor.mk (p.encode2 ++ rest) xspatchCookieLen).rest = p.encodeSections2 ++ rest := by
  have hlen : (xspatchCookie 2).length = xspatchCookieLen := rfl
  rw [Cursor.rest, Patch.encode2, List.append_assoc]
  exact List.drop_left' hlen

/-! ## The loader -/

/-- The whole file is hashed. -/
theorem calculateFileSha1_eq (f : List Byte) : calculateFileSha1 hash f = some (hash f) := by
  have hcalc := calcBlockSha1_append hash f []
  rwa [List.append_nil] at hcalc

/-- The loader of version 2, when the name has the hash of the file. -/
theorem loadPatchFile_of_name {filename f : List Byte} (hv : getPatchVersion f = 2)
    (hname : extractSha1FromFilename filename = some (hash f)) :
    loadPatchFile hash filename f = (readSections2 (hash f) ⟨f, xspatchCookieLen⟩).1 := by
  rw [loadPatchFile, if_pos hv]
  simp only [loadPatchFile2, hv, hname, calculateFileSha1_eq, Option.bind_eq_bind,
    Option.bind_some, ne_eq, not_true_eq_false, if_false]

/-- Where it succeeds the name has the hash of the file. -/
theorem name_of_loadPatchFile {filename f : List Byte} {p : Patch} (hv : getPatchVersion f = 2)
    (h : loadPatchFile hash filename f = some p) :
    extractSha1FromFilename filename = some (hash f) := by
  rw [loadPatchFile, if_pos hv] at h
  simp only [loadPatchFile2, hv, calculateFileSha1_eq, Option.bind_eq_bind, ne_eq,
    not_true_eq_false, if_false, Option.bind_eq_some_iff] at h
  obtain ⟨sha1, hname, hash', hhash, h⟩ := h
  split_ifs at h with hne
  obtain rfl := Option.some.inj hhash
  rwa [hne] at hname

theorem loadPatchFile_of_encode2 {p : Patch} (hblob : p.blob.1.length ≤ maxRwCount)
    (rest : List Byte) :
    loadPatchFile hash (nameOf (hash (p.encode2 ++ rest))) (p.encode2 ++ rest) =
      some (p.loaded2 (hash (p.encode2 ++ rest))) := by
  have hcookie : xspatchCookie 2 <+: p.encode2 ++ rest := by
    rw [Patch.encode2, List.append_assoc]
    exact List.prefix_append _ _
  have hget := getPatchVersion_of_cookie le_rfl (by decide) hcookie
  have hname := extractSha1FromFilename_hexText (hash (p.encode2 ++ rest))
  have hsections : (p.loaded2 (hash (p.encode2 ++ rest))).encodeSections2 <+:
      (Cursor.mk (p.encode2 ++ rest) xspatchCookieLen).rest := by
    rw [encodeSections2_loaded2, rest_append_encode2]
    exact List.prefix_append _ _
  have hread := (reads_readSections2 (hash (p.encode2 ++ rest)) _ _ _).mpr
    ⟨_, ⟨loadedAs2_loaded2 hblob _, rfl⟩, hsections, rfl⟩
  rw [nameOf, loadPatchFile_of_name hash hget hname, hread]

/-- **A patch is found under the hash of its file.** For every hash function: a file that starts
with a patch of version 2, whatever is behind it, is loaded as that patch when it is called by the
hash of all its bytes and one call of `read` gets the blob; and a file of version 2 that is loaded
starts with the patch, which has the hash of the file, and the name has that hash, too. -/
theorem loadPatchFile_named :
    (∀ (p : Patch) (rest : List Byte), p.blob.1.length ≤ maxRwCount →
        loadPatchFile hash (nameOf (hash (p.encode2 ++ rest))) (p.encode2 ++ rest) =
          some (p.loaded2 (hash (p.encode2 ++ rest)))) ∧
      ∀ (filename f : List Byte) (p : Patch), getPatchVersion f = 2 →
        loadPatchFile hash filename f = some p →
          p.encode2 <+: f ∧ p.LoadedAs2 (hash f) ∧
            extractSha1FromFilename filename = some (hash f) := by
  constructor
  · intro p rest hblob
    exact loadPatchFile_of_encode2 hash hblob rest
  · intro filename f p hv h
    have hname := name_of_loadPatchFile hash hv h
    rw [loadPatchFile_of_name hash hv hname] at h
    obtain ⟨_, ⟨hloaded, rfl⟩, hsections, -⟩ :=
      (reads_readSections2 (hash f) _ _ _).mp (Prod.ext h rfl)
    have hcookie : xspatchCookie 2 <+: f := prefix_of_getPatchVersion hv
    exact ⟨append_prefix_iff.mpr ⟨hcookie, hsections⟩, hloaded, hname⟩

theorem loadPatchFile_named_storedPatch :
    let hash : List Byte → Bytes shaDigestLength := fun l _ => l.headD 0
    let f := storedPatch.encode2 ++ [7]
    loadPatchFile hash (nameOf (hash f)) f = some (storedPatch.loaded2 (hash f)) ∧
      (storedPatch.loaded2 (hash f)).encode2 <+: f := by
  intro hash f
  have hblob : storedPatch.blob.1.length ≤ maxRwCount := by decide
  have hload := (loadPatchFile_named hash).1 storedPatch [7] hblob
  have hget : getPatchVersion f = 2 := by decide +kernel
  exact ⟨hload, ((loadPatchFile_named hash).2 _ _ _ hget hload).1⟩

end Patchbox
