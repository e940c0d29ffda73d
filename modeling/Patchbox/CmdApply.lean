import Patchbox.Lib.Sessions
import Patchbox.Exchange
import Patchbox.PatchFormat
import Patchbox.OldLayout

/-!
# `cmd_apply`

The command loads a patch file and compares its versions with the running program's. It
then goes twice over one patch in memory: once for the newer layout of the APPLY message and
once for the older one. Each time it lists the live patches, stops when the patch is one of
them, looks up the dependencies, adjusts the blob by the second-level relocations and sends
the message.

## Main definitions

* `findPatch3`, `searchPatches`, `sendPatch` — the parts of the two functions.
* `cmdApply4`, `cmdApply3`, `cmdApply` — the functions of `raxlpxs.c`.
* `sandboxService` — the server that they talk to.
-/

namespace Patchbox
open Lib

variable {img : Image}

/-- A command of the client. Its marks are the second-level relocations it applies, by index. -/
abbrev Command (β : Type) := Client ClientRequest Answer ℕ β

/-! ## The live patches -/

/-- What the client uses of a `struct xenlp_patch_info3`. -/
structure XenlpPatchInfo3 where
  hvaddr : Addr
  sha1 : Bytes shaDigestLength
  deriving DecidableEq

/-- The record at offset `off`. -/
def XenlpPatchInfo3.load (f : ℕ → Byte) (off : ℕ) : XenlpPatchInfo3 where
  hvaddr := word64 f off
  sha1 := fun i => f (off + 8 + i)

/-- `MAX_LIST_PATCHES`, of which `__find_patch` copies so many at most. -/
abbrev maxListPatches : ℕ := 255
/-- `MAX_LIST_PATCHES3`, the room in `struct xenlp_list3`. -/
abbrev maxListPatches3 : ℕ := 16

/-- `sandbox_list_patches`. -/
def sandboxListPatches (ans : Answer) : Option (List Byte) :=
  if ans.ccode ≠ sandboxOk then none else ans.buf

/-- `__find_patch` for a list. More patches than the caller has room for run over its stack. -/
def findPatch (buf : List Byte) : Option (List XenlpPatchInfo3) :=
  let count := (word32 (bytesOf buf) 0).toNat
  let size := min count maxListPatches
  if maxListPatches3 < size then none
  else some (List.ofFn fun i : Fin size =>
    XenlpPatchInfo3.load (bytesOf buf) (4 + sizeofListResponse * i))

/-- What `find_patch3` makes of the list: nothing for `none`, which is an error. A client whose
stack is overrun is lost. -/
def searchList (sha1 : Bytes shaDigestLength) :
    Option (Option (List XenlpPatchInfo3)) → Command (Option (Option XenlpPatchInfo3))
  | none => .done none
  | some none => .forever
  | some (some patches) => .done (some (patches.find? fun pi => pi.sha1 = sha1))

/-- `find_patch3`. Its loop ends after one round, as a list that there is room for is shorter than
`MAX_LIST_PATCHES`. -/
def findPatch3 (sha1 : Bytes shaDigestLength) : Command (Option (Option XenlpPatchInfo3)) :=
  .ask .list fun ans => searchList sha1 ((sandboxListPatches ans).map findPatch)

/-! ## The build information -/

/-- `COUNT_INFO_STRINGS`, `INFO_STRING_LEN`, `INFO_DATE_INDEX` and `INFO_VER_INDEX`. -/
abbrev countInfoStrings : ℕ := 7
abbrev infoStringLen : ℕ := 255
abbrev infoDateIndex : ℕ := 3
abbrev infoVerIndex : ℕ := 4

/-- The bytes in front of the terminator. -/
def cstring (b : List Byte) : List Byte := b.takeWhile (· ≠ 0)

theorem cstring_of_forall {s : List Byte} (h : ∀ b ∈ s, b ≠ 0) : cstring s = s := by
  rw [cstring, List.takeWhile_eq_self_iff]
  simpa using h

/-- The tokens of `strtok_r` between newlines. -/
def strtok (s : List Byte) : List (List Byte) := (s.splitOnP (· = 0x0a)).filter (· ≠ [])

/-- The strings that `get_info_strings` finds in the text. -/
def infoStrings (buf : List Byte) : List (List Byte) :=
  ((strtok (cstring buf)).take countInfoStrings).map (List.take infoStringLen)

/-- `info_strings[i]`. -/
def infoString (strings : List (List Byte)) (i : ℕ) : List Byte := strings.getD i []

/-- `get_info_strings`: it puts the strings it finds over those that were there. -/
def getInfoStrings (strings : List (List Byte)) : Command (List (List Byte)) :=
  .ask .getBld fun ans =>
    match ans.buf with
    | none => .done strings
    | some buf => .done (infoStrings buf ++ strings.drop (infoStrings buf).length)

/-- `INFO_CHECK`, in front of each use of a string. -/
def infoCheck (strings : List (List Byte)) : Command (List (List Byte)) :=
  if (infoString strings 0).length < 1 then getInfoStrings strings else .done strings

/-- `strncmp (a, b, n) == 0`. -/
def StrncmpEq (a b : List Byte) (n : ℕ) : Prop := (cstring a).take n = (cstring b).take n

instance (a b : List Byte) (n : ℕ) : Decidable (StrncmpEq a b n) :=
  inferInstanceAs (Decidable (_ = _))

/-! ## The patch in memory -/

/-- The relative address of a dependency that is live. -/
def Dependency.resolve (d : Dependency) (pi : XenlpPatchInfo3) : Dependency :=
  { d with reladdr := (pi.hvaddr - d.refabs).setWidth 32 }

/-- Look up the dependencies one by one; `none` is an error, or one that is not live. -/
def findDeps : (ds : List Dependency) → Command (Option (ListOf Dependency ds.length))
  | [] => .done (some ⟨[], rfl⟩)
  | d :: ds =>
    (findPatch3 d.sha1).bind fun
      | none => .done none
      | some none => .done none
      | some (some pi) =>
        (findDeps ds).bind fun deps => .done (deps.map (ListOf.cons (d.resolve pi)))

/-- The word at an offset of the blob, increased. A word that does not lie in the blob is left
out. -/
def addWord (blob : Blob) (off : ℕ) (v : BitVec 32) : Blob :=
  if h : off + 4 ≤ blob.1.length then
    ⟨blob.1.take off ++ leBytes 4 (word32 (bytesOf blob.1) off + v).toNat ++
        blob.1.drop (off + 4), by
      have hlt := blob.2
      simp only [List.length_append, List.length_take, length_leBytes, List.length_drop]
      omega⟩
  else blob

/-- The loop over the second-level relocations; one with an invalid index is an error. -/
def applyRelocs3 (deps : List Dependency) : ℕ → List Reloc3 → Blob → Command (Option Blob)
  | _, [], blob => .done (some blob)
  | i, rel3 :: relocs3, blob =>
    if h : rel3.index.toNat < deps.length then
      .mark i (applyRelocs3 deps (i + 1) relocs3
        (addWord blob rel3.offset.toNat (deps.get ⟨rel3.index.toNat, h⟩).reladdr))
    else .done none

/-- The relocations with the second-level ones behind them. Their number is a `uint16_t`. -/
def appendRelocs (relocs : Counted (BitVec 32)) (relocs3 : Counted Reloc3) : Counted (BitVec 32) :=
  ⟨(relocs.1 ++ relocs3.1.map Reloc3.offset).take (relocs.count + relocs3.count).toNat, by
    have hlt := (relocs.count + relocs3.count).isLt
    rw [List.length_take]
    omega⟩

/-- The patch with resolved dependencies and an adjusted blob. -/
def Patch.relocated (p : Patch) (deps : ListOf Dependency p.deps.1.length) (blob : Blob) : Patch :=
  { p with
    deps := ⟨deps.1, by rw [deps.2]; exact p.deps.2⟩
    blob := blob
    relocs := appendRelocs p.relocs p.relocs3 }

/-- The write for one function: a jump to its new place. -/
def FunctionPatch.write (refabs : BitVec 64) (func : FunctionPatch) : XenlpPatchWrite where
  hvabs := func.oldabs
  data :=
    let jmpoffset : BitVec 32 := (refabs + func.newrel.setWidth 64 - func.oldabs - 5).setWidth 32
    (Bytes.set (fun _ => 0) 0 1 0xe9).set 1 4 jmpoffset.toNat
  reloctype := xenlpRelocInt32
  dataoff := 1

/-- `patch_writes`. -/
def patchWrites (p : Patch) : List XenlpPatchWrite := p.funcs.1.map (FunctionPatch.write p.refabs)

/-! ## The command -/

/-- The first half of `_cmd_apply3` and `_cmd_apply4`: an error, a patch that is live already, or
its dependencies. -/
def searchPatches (p : Patch) :
    Command (Option (Option (ListOf Dependency p.deps.1.length))) :=
  (findPatch3 p.sha1).bind fun
    | none => .done none
    | some (some _) => .done (some none)
    | some none => (findDeps p.deps.1).bind fun
      | none => .done none
      | some deps => .done (some (some deps))

/-- The second half, with the function that fills the buffer: the patch as it is left, or an
error. -/
def sendPatch (fill : Patch → List XenlpPatchWrite → List Byte) (p : Patch)
    (deps : ListOf Dependency p.deps.1.length) : Command (Option Patch) :=
  (applyRelocs3 deps.1 0 p.relocs3.1 p.blob).bind fun
    | none => .done none
    | some blob =>
      let p' := p.relocated deps blob
      .ask (.apply (fill p' (patchWrites p'))) fun ans =>
        if ans.ccode < 0 then .done none else .done (some p')

/-- What the two functions share; `none` is a result below 0. -/
def applyPatch (fill : Patch → List XenlpPatchWrite → List Byte) (p : Patch) :
    Command (Option Patch) :=
  (searchPatches p).bind fun
    | none => .done none
    | some none => .done (some p)
    | some (some deps) => sendPatch fill p deps

/-- `_cmd_apply3`. -/
def cmdApply3 (p : Patch) : Command (Option Patch) :=
  if p.exctblents.count ≠ 0 ∨ p.preexctblents.count ≠ 0 then .done none
  else applyPatch fillPatchBuf3 p

/-- `_cmd_apply4`. -/
def cmdApply4 (p : Patch) : Command (Option Patch) := applyPatch fillPatchBuf4 p

/-- `XENLP_CAPS_V3` and `XENLP_CAPS_APPLY4`. -/
abbrev xenlpCapsV3 : BitVec 64 := 1
abbrev xenlpCapsApply4 : BitVec 64 := 2

/-- `__do_lp_caps`. -/
def doLpCaps (flags : BitVec 64) : BitVec 64 := flags ||| (xenlpCapsV3 ||| xenlpCapsApply4)

/-- The end of `cmd_apply`, after the checks. -/
def applyWithCaps (flags : BitVec 64) (p : Patch) : Command Int :=
  (if flags &&& xenlpCapsApply4 ≠ 0 then cmdApply4 p else .done (some p)).bind fun
    | none => .done (-1)
    | some p' =>
      if flags &&& xenlpCapsV3 ≠ 0 then
        (cmdApply3 p').bind fun
          | none => .done (-1)
          | some _ => .done 0
      else .done (-1)

/-- The checks of `cmd_apply` once the build information is there. -/
def checkAndApply (p : Patch) (strings : List (List Byte)) : Command Int :=
  let qemuVersion := infoString strings infoVerIndex
  let qemuCompileDate := infoString strings infoDateIndex
  if qemuVersion = [] ∨ qemuCompileDate = [] then .done sandboxErrRw
  else if ¬StrncmpEq qemuVersion p.xenversion.toList infoExtractLen ∨
      ¬StrncmpEq qemuCompileDate p.xencompiledate.toList infoExtractLen then .done sandboxErrBadVer
  else if p.crowbarabs ≠ 0 then .done (-1)
  else if p.checks.count ≠ 0 then .done (-1)
  else if p.tables.count ≠ 0 then .done (-1)
  else applyWithCaps (doLpCaps 0) p

/-- `cmd_apply` for a file with the given name; `none` cannot be opened. The strings are empty when
the program starts, and `get_qemu_version` and `get_qemu_date` both check them. -/
def cmdApply (hash : List Byte → Bytes shaDigestLength) (filename : List Byte)
    (f : Option (List Byte)) : Command Int :=
  match f.bind (loadPatchFile hash filename) with
  | none => .done (-1)
  | some p =>
    (infoCheck []).bind fun strings => (infoCheck strings).bind fun strings =>
      checkAndApply p strings

/-! ## The server -/

/-- The system's answers for one request to a server that was built with `info`. -/
abbrev SystemEnv (img : Image) (info : List Byte) :=
  { e : ExchangeEnv img // e.server.buildInfo = info }

/-- The server of the commands. -/
def sandboxService (img : Image) (info : List Byte) :
    Service Sandbox Link ClientRequest Answer (SystemEnv img info) where
  serve e s l r := exchange e.1 s l r
  fresh := Link.fresh
  ready l := l.returned = false ∧ 0 < l.left
  full l := l.returned = false ∧ l.left = 0

instance (info : List Byte) : DecidablePred (sandboxService img info).ready := fun l =>
  inferInstanceAs (Decidable (l.returned = false ∧ 0 < l.left))

end Patchbox
