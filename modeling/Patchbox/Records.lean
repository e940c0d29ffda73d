import Patchbox.Lib.Memory

/-!
# The records of `live_patch.h` and `sandbox.h`

Status codes, limits and the structures that the library, its listener and the
client share. A structure that travels in a message is loaded from the message
buffer at the byte offsets the C layout gives it on x86-64, little-endian words
included. Padding is skipped by every reader and is not a field here.

## Main definitions

* `Image` — the addresses `_start` and `_end` of the running program.
* `XenlpApply4`, `XenlpPatchWrite` — the header and the write record of an APPLY payload.
* `PatchMap`, `AppliedPatch` — what the server keeps for a live patch.
* `Access` — the memory accesses whose bounds matter.
-/

namespace Patchbox
open Lib

/-- A virtual address. -/
abbrev Addr := BitVec 64

/-! ## Status codes and limits -/

abbrev sandboxOk : Int := 0
abbrev sandboxErr : Int := -1
abbrev sandboxErrBadHdr : Int := -2
abbrev sandboxErrBadVer : Int := -3
abbrev sandboxErrBadLen : Int := -4
abbrev sandboxErrBadMsgid : Int := -5
abbrev sandboxErrNomem : Int := -6
abbrev sandboxErrRw : Int := -7
abbrev sandboxErrClosed : Int := -9
abbrev sandboxErrParse : Int := -10
abbrev sandboxErrInvalid : Int := -11
/-- `ENOENT`, `ENXIO`, `ENOMEM` and `EINVAL` of `errno.h`. -/
abbrev enoent : Int := 2
abbrev enxio : Int := 6
abbrev enomem : Int := 12
abbrev einval : Int := 22

abbrev maxPatchSize : ℕ := 1048576
abbrev maxTagsLen : ℕ := 128
abbrev shaDigestLength : ℕ := 20
abbrev sandboxAllocSize : ℕ := 0x100000

abbrev pageSize : ℕ := 4096
/-- `PAGE_MASK`, the complement of `PAGE_SIZE - 1`. -/
def pageMask : Addr := ~~~0xfff#64

/-- Linux gives a process the lower half of the address space. -/
abbrev userSpaceEnd : ℕ := 2 ^ 63

/-! ## Words in a buffer -/

/-- The 32-bit word at offset `off`. -/
def word32 (f : ℕ → Byte) (off : ℕ) : BitVec 32 := BitVec.ofNat 32 (leNat (fun i => f (off + i)) 4)

/-- The 64-bit word at offset `off`. -/
def word64 (f : ℕ → Byte) (off : ℕ) : BitVec 64 := BitVec.ofNat 64 (leNat (fun i => f (off + i)) 8)

theorem StandsAt.word32 {f : ℕ → Byte} {off : ℕ} {v : BitVec 32}
    (h : StandsAt f off (leBytes 4 v.toNat)) : word32 f off = v := by
  rw [Patchbox.word32, h.leNat]
  exact BitVec.eq_of_toNat_eq (by simp only [BitVec.toNat_ofNat]; omega)

theorem StandsAt.word64 {f : ℕ → Byte} {off : ℕ} {v : BitVec 64}
    (h : StandsAt f off (leBytes 8 v.toNat)) : word64 f off = v := by
  rw [Patchbox.word64, h.leNat]
  exact BitVec.eq_of_toNat_eq (by simp only [BitVec.toNat_ofNat]; omega)

/-- The program's image: `_start` and `_end`, supplied by the linker. -/
structure Image where
  start_ : Addr
  end_ : Addr

/-! ## The APPLY payload -/

/-- `struct xenlp_apply4`. -/
structure XenlpApply4 where
  sha1 : Bytes shaDigestLength
  refabs : BitVec 64
  bloblen : BitVec 32
  numrelocs : BitVec 32
  numwrites : BitVec 32
  numexctblents : BitVec 32
  numpreexctblents : BitVec 32
  numdeps : BitVec 32
  taglen : BitVec 32
  deriving DecidableEq

/-- `sizeof (struct xenlp_apply4)`, its padding included. -/
abbrev sizeofXenlpApply4 : ℕ := 64
/-- `sizeof (struct xenlp_patch_write)`. -/
abbrev sizeofXenlpPatchWrite : ℕ := 24
/-- `sizeof (struct xenlp_hash)`. -/
abbrev sizeofXenlpHash : ℕ := 24
/-- `sizeof (struct xenlp_exctbl_entry)`. -/
abbrev sizeofXenlpExctblEntry : ℕ := 8
/-- `__alignof__ (struct xenlp_patch_write)`. -/
abbrev alignofXenlpPatchWrite : ℕ := 8
/-- `__alignof__ (struct xenlp_hash)`, which holds characters only. -/
abbrev alignofXenlpHash : ℕ := 1

/-- The header at the start of a payload. -/
def XenlpApply4.load (arg : ℕ → Byte) : XenlpApply4 where
  sha1 := fun i => arg i
  refabs := word64 arg 24
  bloblen := word32 arg 32
  numrelocs := word32 arg 36
  numwrites := word32 arg 40
  numexctblents := word32 arg 44
  numpreexctblents := word32 arg 48
  numdeps := word32 arg 52
  taglen := word32 arg 56

/-- The bytes the counts of a header announce, the header included. -/
def XenlpApply4.declared (h : XenlpApply4) : ℕ :=
  sizeofXenlpApply4 + h.bloblen.toNat + 4 * h.numrelocs.toNat
    + sizeofXenlpPatchWrite * h.numwrites.toNat
    + sizeofXenlpExctblEntry * h.numexctblents.toNat
    + sizeofXenlpExctblEntry * h.numpreexctblents.toNat
    + sizeofXenlpHash * h.numdeps.toNat + h.taglen.toNat

/-- `XENLP_RELOC_UINT64`. -/
abbrev xenlpRelocUint64 : BitVec 8 := 0
/-- `XENLP_RELOC_INT32`. -/
abbrev xenlpRelocInt32 : BitVec 8 := 1

/-- `struct xenlp_patch_write`. The offset is a `char`, which is signed. -/
structure XenlpPatchWrite where
  hvabs : Addr
  data : Bytes 8
  reloctype : BitVec 8
  dataoff : BitVec 8
  deriving DecidableEq

/-- The write record at offset `off`. -/
def XenlpPatchWrite.load (arg : ℕ → Byte) (off : ℕ) : XenlpPatchWrite where
  hvabs := word64 arg off
  data := fun i => arg (off + 8 + i)
  reloctype := arg (off + 16)
  dataoff := arg (off + 17)

/-- The array of `n` write records at offset `off`. -/
def loadWrites (arg : ℕ → Byte) (off n : ℕ) : List XenlpPatchWrite :=
  List.ofFn fun i : Fin n => XenlpPatchWrite.load arg (off + sizeofXenlpPatchWrite * i)

/-- The array of `n` 32-bit words at offset `off`. -/
def loadRelocs (arg : ℕ → Byte) (off n : ℕ) : List (BitVec 32) :=
  List.ofFn fun i : Fin n => word32 arg (off + 4 * i)

/-! ## What the server keeps -/

/-- `struct patch_map`: where a blob was mapped, and its length in bytes. -/
structure PatchMap where
  addr : Addr
  size : BitVec 64
  deriving DecidableEq

/-- `struct applied_patch`. After the exchange `writes` holds the replaced bytes. -/
structure AppliedPatch where
  map : PatchMap
  sha1 : Bytes shaDigestLength
  numwrites : BitVec 32
  writes : List XenlpPatchWrite
  numdeps : BitVec 32
  deps : List (Bytes shaDigestLength)
  tags : Bytes maxTagsLen
  deriving DecidableEq

/-- The accesses made for one request: bytes of the message, a word changed by a
relocation, a page made writable, and eight bytes of text exchanged. -/
inductive Access where
  | message (off len : ℕ)
  | relocate (addr : Addr)
  | protect (page : Addr)
  | exchange (addr : Addr)
  deriving DecidableEq

end Patchbox
