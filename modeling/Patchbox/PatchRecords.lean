import Patchbox.Lib.Formats
import Patchbox.Records

/-!
# The records of `patch_file.h`

What the client keeps of a patch file. An array and its sixteen-bit count are one
counted list here, and so are a data buffer or a name and its length; the blob has
a 32-bit length. The allocated size of the relocation array is kept as well, since
the client appends to that array later.

## Main definitions

* `Patch` — `struct patch`.
* `Dependency`, `FunctionPatch`, `Symbol`, … — the records in its arrays.
-/

namespace Patchbox
open Lib

/-- `struct check`. -/
structure Check where
  hvabs : BitVec 64
  data : Counted Byte
  deriving DecidableEq

/-- `struct function_patch`. -/
structure FunctionPatch where
  funcname : Counted Byte
  oldabs : BitVec 64
  newrel : BitVec 32
  deriving DecidableEq

/-- `struct table_patch`. -/
structure TablePatch where
  tablename : Counted Byte
  hvabs : BitVec 64
  data : Counted Byte
  deriving DecidableEq

/-- `struct reloc3`. -/
structure Reloc3 where
  index : BitVec 16
  offset : BitVec 32
  deriving DecidableEq

/-- `struct symbol`. -/
structure Symbol where
  name : Counted Byte
  section_ : Counted Byte
  secOff : BitVec 32
  symOff : BitVec 32
  deriving DecidableEq

/-- `struct dependency`. -/
structure Dependency where
  sha1 : Bytes shaDigestLength
  refabs : BitVec 64
  reladdr : BitVec 32
  deriving DecidableEq

/-- `struct exctbl_entry`. -/
structure ExctblEntry where
  addrrel : BitVec 32
  contrel : BitVec 32
  deriving DecidableEq

/-- `struct conflict`. -/
structure Conflict where
  sha1 : Bytes shaDigestLength
  deriving DecidableEq

/-- A blob and its 32-bit length. -/
abbrev Blob := { l : List Byte // l.length < 2 ^ 32 }

/-- `bloblen`. -/
def Blob.bloblen (b : Blob) : BitVec 32 := BitVec.ofNat 32 b.1.length

@[simp] theorem Blob.toNat_bloblen (b : Blob) : b.bloblen.toNat = b.1.length := by
  rw [Blob.bloblen, BitVec.toNat_ofNat, Nat.mod_eq_of_lt b.2]

/-- `INFO_EXTRACT_LEN`, the size of the two version fields. -/
abbrev infoExtractLen : ℕ := 32

/-- `struct patch`. -/
structure Patch where
  version : Int
  sha1 : Bytes shaDigestLength
  xenversion : Bytes infoExtractLen
  xencompiledate : Bytes infoExtractLen
  crowbarabs : BitVec 64
  refabs : BitVec 64
  blob : Blob
  relocs : Counted (BitVec 32)
  /-- The number of entries allocated for `relocs`. -/
  relocsAlloc : ℕ
  checks : Counted Check
  funcs : Counted FunctionPatch
  tables : Counted TablePatch
  tags : Counted Byte
  relocs3 : Counted Reloc3
  symbols : Counted Symbol
  deps : Counted Dependency
  exctblents : Counted ExctblEntry
  preexctblents : Counted ExctblEntry
  conflicts : Counted Conflict
  deriving DecidableEq

end Patchbox
