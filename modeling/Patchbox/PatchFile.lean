import Patchbox.PatchRecords

/-!
# Reading a patch file

A patch file starts with a cookie that tells its version, and its sections follow in a
fixed order: counts, lengths and addresses are big-endian, and a buffer stands behind
its length. From version 3 on the file ends in the SHA1 of what is in front. One reader
goes on as if it were done when a name is cut off by the end of the file; the reader
after it finds nothing there.

## Main definitions

* `read`, `readu16`, … — the primitives of `patch_file.c`.
* `readBlobData`, `readCheckData`, … — its readers.
* `loadPatchFile2`, `loadPatchFile3`, … , `loadPatchFile` — its loaders.
-/

namespace Patchbox
open Lib

/-! ## Numbers and buffers -/

/-- The most bytes that Linux moves in one call of `read`. -/
abbrev maxRwCount : ℕ := 0x7ffff000

/-- What `read` of so many bytes returns for a regular file. It fits in an `int`. -/
def readRet (n : ℕ) (c : Cursor Byte) : ℕ := min (min n maxRwCount) c.rest.length

/-- `_read`, which calls `read` once. -/
def read (n : ℕ) : Reader Byte (ListOf Byte n) := fun c =>
  if h : n ≤ readRet n c then
    (some ⟨c.rest.take n, List.length_take_of_le (h.trans (Nat.min_le_right _ _))⟩, c.skip n)
  else (none, c.skip (readRet n c))

/-- A number of `k` bytes. -/
def readWord (w k : ℕ) : Reader Byte (BitVec w) := do
  let buf ← read k
  return BitVec.ofNat w (beNat buf.1)

/-- `_readu64`. -/
def readu64 : Reader Byte (BitVec 64) := readWord 64 8

/-- `_readu32`. -/
def readu32 : Reader Byte (BitVec 32) := readWord 32 4

/-- `_readu16`. -/
def readu16 : Reader Byte (BitVec 16) := readWord 16 2

/-- A field of `n` bytes. -/
def readArray (n : ℕ) : Reader Byte (Bytes n) := do
  let buf ← read n
  return fun i => buf.1.get (i.cast buf.2.symm)

/-- A length, and so many bytes. -/
def readBuffer : Reader Byte (Counted Byte) := do
  let size ← readu16
  let buf ← read size.toNat
  return buf.counted

/-! ## The sections -/

/-- `read_refxen_data`. -/
def readRefxenData : Reader Byte (Bytes infoExtractLen × Bytes infoExtractLen) := do
  let xenversion ← readArray infoExtractLen
  let xencompiledate ← readArray infoExtractLen
  return (xenversion, xencompiledate)

/-- `read_blob_data`. -/
def readBlobData : Reader Byte Blob := do
  let bloblen ← readu32
  let blob ← read bloblen.toNat
  return ⟨blob.1, by rw [blob.2]; exact bloblen.isLt⟩

/-- `read_reloc_data`. -/
def readRelocData : Reader Byte (Counted (BitVec 32)) := readCounted readu16 readu32

/-- `read_check_data`. -/
def readCheckData : Reader Byte (Counted Check) := readCounted readu16 do
  let hvabs ← readu64
  let data ← readBuffer
  return { hvabs, data }

/-- `read_func_data`. -/
def readFuncData : Reader Byte (Counted FunctionPatch) := readCounted readu16 do
  let funcname ← readBuffer
  let oldabs ← readu64
  let newrel ← readu32
  return { funcname, oldabs, newrel }

/-- `read_table_data`. -/
def readTableData : Reader Byte (Counted TablePatch) := readCounted readu16 do
  let tablename ← readBuffer
  let hvabs ← readu64
  let data ← readBuffer
  return { tablename, hvabs, data }

/-- `read_tag_data`. -/
def readTagData : Reader Byte (Counted Byte) := readBuffer

/-- `read_deps_data`. -/
def readDepsData : Reader Byte (Counted Dependency) := readCounted readu16 do
  let sha1 ← readArray shaDigestLength
  let refabs ← readu64
  return { sha1, refabs, reladdr := 0 }

/-- `read_conflicts_data`. -/
def readConflictsData : Reader Byte (Counted Conflict) := readCounted readu16 do
  let sha1 ← readArray shaDigestLength
  return { sha1 }

/-- `read_reloc_data3`. -/
def readRelocData3 : Reader Byte (Counted Reloc3 × Counted (BitVec 32)) := do
  let relocs3 ← readCounted readu16 do
    let index ← readu16
    let offset ← readu32
    return { index, offset }
  let relocs ← readCounted readu16 readu32
  return (relocs3, relocs)

/-- The entries that are allocated there for the relocations: the sum is a `uint16_t`. -/
def relCount (relocs3 : Counted Reloc3) (relocs : Counted (BitVec 32)) : ℕ :=
  (relocs.count + relocs3.count).toNat

/-- A buffer of `size` bytes that starts with what was left in the file. -/
def shortBuffer (size : BitVec 16) (left : List Byte) : Counted Byte :=
  ⟨(left ++ List.replicate size.toNat 0).take size.toNat, by
    have := size.isLt
    rw [List.length_take]
    omega⟩

/-- The entries that were not reached. -/
def blankSymbols (first : Symbol) (n : ℕ) : ListOf Symbol (n + 1) :=
  ⟨first :: List.replicate n ⟨.nil, .nil, 0, 0⟩, by simp⟩

/-- A length and a name. When the name is cut short, the result is what `short` says. -/
def readNameOr {β : Type} (short : BitVec 16 → List Byte → β)
    (k : Counted Byte → Reader Byte β) : Reader Byte β := do
  let size ← readu16
  Reader.bindOr (read size.toNat) (short size) fun buf => k buf.counted

/-- The loop of `read_symbols_data`. When a name is cut short the function returns 0. -/
def readSymbols : (n : ℕ) → Reader Byte (ListOf Symbol n)
  | 0 => pure ⟨[], rfl⟩
  | n + 1 =>
    readNameOr (fun size left => blankSymbols ⟨shortBuffer size left, .nil, 0, 0⟩ n) fun name =>
      readNameOr (fun size left => blankSymbols ⟨name, shortBuffer size left, 0, 0⟩ n)
        fun section_ => do
          let secOff ← readu32
          let symOff ← readu32
          let l ← readSymbols n
          return l.cons { name, section_, secOff, symOff }

/-- `read_symbols_data`. -/
def readSymbolsData : Reader Byte (Counted Symbol) := do
  let numsymbols ← readu16
  let symbols ← readSymbols numsymbols.toNat
  return symbols.counted

/-- The two loops of `read_ex_table_entries`. -/
def readExctblEntries : Reader Byte (Counted ExctblEntry) := readCounted readu16 do
  let addrrel ← readu32
  let contrel ← readu32
  return { addrrel, contrel }

/-- `read_ex_table_entries`. -/
def readExTableEntries : Reader Byte (Counted ExctblEntry × Counted ExctblEntry) := do
  let exctblents ← readExctblEntries
  let preexctblents ← readExctblEntries
  return (exctblents, preexctblents)

/-! ## The hash and the version -/

/-- The length of the cookie at the start of a file. -/
abbrev xspatchCookieLen : ℕ := 8

/-- `XSPATCH_COOKIE2` to `XSPATCH_COOKIE5`: "XSPATCH" and a digit. -/
def xspatchCookie (version : ℕ) : List Byte :=
  [0x58, 0x53, 0x50, 0x41, 0x54, 0x43, 0x48, BitVec.ofNat 8 (0x30 + version)]

/-- `get_patch_version`. -/
def getPatchVersion (f : List Byte) : Int :=
  match (read xspatchCookieLen ⟨f, 0⟩).1 with
  | none => -1
  | some signature =>
    if signature.1 = xspatchCookie 2 then 2
    else if signature.1 = xspatchCookie 3 then 3
    else if signature.1 = xspatchCookie 4 then 4
    else if signature.1 = xspatchCookie 5 then 5
    else -1

/-- The loop of `calc_block_sha1`: what is hashed, in pieces of at most 4096 bytes. -/
def readBlock (size : ℕ) : Reader Byte (List Byte) :=
  if _h : size = 0 then pure []
  else do
    let buf ← read (min 4096 size)
    let rest ← readBlock (size - min 4096 size)
    return buf.1 ++ rest
termination_by size
decreasing_by omega

/-- `calc_block_sha1`. -/
def calcBlockSha1 (hash : List Byte → Bytes shaDigestLength) (f : List Byte) (start end_ : Int) :
    Option (Bytes shaDigestLength) :=
  if start < 0 ∨ end_ < 0 ∨ end_ < start ∨ (f.length : Int) < end_ then none
  else (readBlock (end_ - start).toNat ⟨f, start.toNat⟩).1.map hash

/-- `calculate_file_sha1`. -/
def calculateFileSha1 (hash : List Byte → Bytes shaDigestLength) (f : List Byte) :
    Option (Bytes shaDigestLength) :=
  calcBlockSha1 hash f 0 f.length

/-- `extract_sha1_from_patch`. -/
def extractSha1FromPatch (f : List Byte) : Option (Bytes shaDigestLength) :=
  if f.length < shaDigestLength then none
  else (readArray shaDigestLength ⟨f, f.length - shaDigestLength⟩).1

/-- A hexadecimal digit. -/
def hexDigit (c : Byte) : Option (BitVec 8) :=
  if 0x30 ≤ c ∧ c ≤ 0x39 then some (c - 0x30)
  else if 0x41 ≤ c ∧ c ≤ 0x46 then some (c - 0x41 + 10)
  else if 0x61 ≤ c ∧ c ≤ 0x66 then some (c - 0x61 + 10)
  else none

/-- The low byte of what `sscanf` stores for `%02x`: two characters behind white space, which may
be a sign and a digit. `0x` alone is no number. -/
def scanHex (s : List Byte) : Option (BitVec 8) :=
  match s.dropWhile fun c => c = 0x20 ∨ (0x09 ≤ c ∧ c ≤ 0x0d) with
  | [] => none
  | c :: rest =>
    if c = 0x2b then rest.head?.bind hexDigit
    else if c = 0x2d then (rest.head?.bind hexDigit).map fun d => -d
    else if c = 0x30 ∧ (rest.head? = some 0x78 ∨ rest.head? = some 0x58) then none
    else
      match hexDigit c, rest.head?.bind hexDigit with
      | none, _ => none
      | some d, none => some d
      | some d, some d' => some (d * 16 + d')

/-- `string2sha1`, for a string of 40 characters or more. -/
def string2sha1 (string : List Byte) : Option (Bytes shaDigestLength) :=
  let pairs := List.ofFn fun i : Fin shaDigestLength => scanHex (string.drop (2 * i))
  if pairs.all Option.isSome then some fun i => (scanHex (string.drop (2 * i))).getD 0 else none

/-- ".raxlpxs" -/
def raxlpxs : List Byte := [0x2e, 0x72, 0x61, 0x78, 0x6c, 0x70, 0x78, 0x73]

/-- `extract_sha1_from_filename`. -/
def extractSha1FromFilename (filename : List Byte) : Option (Bytes shaDigestLength) :=
  if ¬raxlpxs <:+: filename ∨ filename.length ≠ 48 then none else string2sha1 filename

/-! ## The loaders -/

variable (hash : List Byte → Bytes shaDigestLength)

/-- The sections of a file of version 2. -/
def readSections2 (sha1 : Bytes shaDigestLength) : Reader Byte Patch := do
  let (xenversion, xencompiledate) ← readRefxenData
  let crowbarabs ← readu64
  let refabs ← readu64
  let blob ← readBlobData
  let relocs ← readRelocData
  let checks ← readCheckData
  let funcs ← readFuncData
  let tables ← readTableData
  return {
    version := 2, sha1, xenversion, xencompiledate, crowbarabs, refabs, blob, relocs
    relocsAlloc := relocs.1.length, checks, funcs, tables, tags := .nil, relocs3 := .nil
    symbols := .nil, deps := .nil, exctblents := .nil, preexctblents := .nil, conflicts := .nil }

/-- `_load_patch_file2`. -/
def loadPatchFile2 (filename f : List Byte) : Option Patch := do
  if getPatchVersion f ≠ 2 then none else
  let sha1 ← extractSha1FromFilename filename
  let hash' ← calculateFileSha1 hash f
  if sha1 ≠ hash' then none else
  (readSections2 sha1 ⟨f, xspatchCookieLen⟩).1

/-- The sections of a file from version 3 on. The version tells which of the parts at the end, and
of the address for crowbar patches, are there. -/
def readSections (version : Int) (crowbar exTable conflict : Bool)
    (sha1 : Bytes shaDigestLength) : Reader Byte Patch := do
  let tags ← readTagData
  let (xenversion, xencompiledate) ← readRefxenData
  let deps ← readDepsData
  let crowbarabs ← Reader.optional readu64 crowbar 0
  let refabs ← readu64
  let blob ← readBlobData
  let (relocs3, relocs) ← readRelocData3
  let checks ← readCheckData
  let symbols ← readSymbolsData
  let funcs ← readFuncData
  let tables ← readTableData
  let (exctblents, preexctblents) ← Reader.optional readExTableEntries exTable (.nil, .nil)
  let conflicts ← Reader.optional readConflictsData conflict .nil
  return {
    version, sha1, xenversion, xencompiledate, crowbarabs, refabs, blob, relocs
    relocsAlloc := relCount relocs3 relocs, checks, funcs, tables, tags, relocs3, symbols, deps
    exctblents, preexctblents, conflicts }

/-- What the loaders for the versions with a trailer share. -/
def loadTrailed (sections : Bytes shaDigestLength → Reader Byte Patch) (f : List Byte) :
    Option Patch := do
  let sha1 ← extractSha1FromPatch f
  let hash' ← calcBlockSha1 hash f 0 (f.length - shaDigestLength)
  if sha1 ≠ hash' then none else
  (sections sha1 ⟨f, xspatchCookieLen⟩).1

/-- `_load_patch_file3`. -/
def loadPatchFile3 (f : List Byte) : Option Patch :=
  loadTrailed hash (readSections 3 true false false) f

/-- `_load_patch_file4`. -/
def loadPatchFile4 (f : List Byte) : Option Patch :=
  loadTrailed hash (readSections 4 false true false) f

/-- `_load_patch_file5`. -/
def loadPatchFile5 (f : List Byte) : Option Patch :=
  loadTrailed hash (readSections 5 false true true) f

/-- `load_patch_file`: the patch, when it returns 0. -/
def loadPatchFile (filename f : List Byte) : Option Patch :=
  let version := getPatchVersion f
  if version = 2 then loadPatchFile2 hash filename f
  else if version = 3 then loadPatchFile3 hash f
  else if version = 4 then loadPatchFile4 hash f
  else if version = 5 then loadPatchFile5 hash f
  else none

end Patchbox
