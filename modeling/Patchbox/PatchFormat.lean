import Patchbox.PatchFile

/-!
# The format of a patch file

Each section has an encoding, and its reader reads that. So the file of a patch is loaded
as the patch, and a file that is loaded starts with the encoding of what was loaded: a
section that is cut short is never accepted, although the reader of the symbols does not
report it.

## Main definitions

* `Patch.encode` — the file that a patch is stored in.
* `Patch.LoadedAs` — what a loader makes of a patch.
* `reads_readSections` — the sections are read as they were stored.
* `loadPatchFile_encode_iff` — which stored patches are loaded, and that what is loaded was stored.
-/

namespace Patchbox
open Lib

variable (hash : List Byte → Bytes shaDigestLength)

/-! ## The format -/

/-- A buffer behind its length. -/
def encodeBuffer (b : Counted Byte) : List Byte := beBytes 2 b.count.toNat ++ b.1

/-- Records behind their count. -/
def encodeCounted {α : Type} (enc : α → List Byte) (l : Counted α) : List Byte :=
  beBytes 2 l.count.toNat ++ l.1.flatMap enc

def encodeRefxen (v : Bytes infoExtractLen × Bytes infoExtractLen) : List Byte :=
  v.1.toList ++ v.2.toList

def Blob.encode (b : Blob) : List Byte := beBytes 4 b.bloblen.toNat ++ b.1

def Check.encode (c : Check) : List Byte := beBytes 8 c.hvabs.toNat ++ encodeBuffer c.data

def FunctionPatch.encode (f : FunctionPatch) : List Byte :=
  encodeBuffer f.funcname ++ beBytes 8 f.oldabs.toNat ++ beBytes 4 f.newrel.toNat

def TablePatch.encode (t : TablePatch) : List Byte :=
  encodeBuffer t.tablename ++ beBytes 8 t.hvabs.toNat ++ encodeBuffer t.data

def Dependency.encode (d : Dependency) : List Byte := d.sha1.toList ++ beBytes 8 d.refabs.toNat

def Conflict.encode (c : Conflict) : List Byte := c.sha1.toList

def Reloc3.encode (r : Reloc3) : List Byte := beBytes 2 r.index.toNat ++ beBytes 4 r.offset.toNat

def Symbol.encode (s : Symbol) : List Byte :=
  encodeBuffer s.name ++ encodeBuffer s.section_ ++ beBytes 4 s.secOff.toNat
    ++ beBytes 4 s.symOff.toNat

def ExctblEntry.encode (e : ExctblEntry) : List Byte :=
  beBytes 4 e.addrrel.toNat ++ beBytes 4 e.contrel.toNat

/-- The sections behind the cookie. -/
def Patch.encodeSections (p : Patch) : List Byte :=
  encodeBuffer p.tags ++ encodeRefxen (p.xenversion, p.xencompiledate)
    ++ encodeCounted Dependency.encode p.deps
    ++ (if p.version = 3 then beBytes 8 p.crowbarabs.toNat else []) ++ beBytes 8 p.refabs.toNat
    ++ p.blob.encode ++ encodeCounted Reloc3.encode p.relocs3
    ++ encodeCounted (fun r => beBytes 4 r.toNat) p.relocs ++ encodeCounted Check.encode p.checks
    ++ encodeCounted Symbol.encode p.symbols ++ encodeCounted FunctionPatch.encode p.funcs
    ++ encodeCounted TablePatch.encode p.tables
    ++ (if 4 ≤ p.version then encodeCounted ExctblEntry.encode p.exctblents
        ++ encodeCounted ExctblEntry.encode p.preexctblents else [])
    ++ (if p.version = 5 then encodeCounted Conflict.encode p.conflicts else [])

/-- The file without its trailer. -/
def Patch.encodeBody (p : Patch) : List Byte := xspatchCookie p.version.toNat ++ p.encodeSections

/-- The file. -/
def Patch.encode (p : Patch) : List Byte := p.encodeBody ++ (hash p.encodeBody).toList

/-! ## Numbers and buffers are read -/

theorem le_readRet_iff {n : ℕ} {c : Cursor Byte} :
    n ≤ readRet n c ↔ n ≤ maxRwCount ∧ n ≤ c.rest.length := by
  simp [readRet]

/-- `_read` succeeds when there is enough to read, and not too much for one call. -/
theorem reads_read (n : ℕ) :
    Reads (read n) (encodedIf (fun _ => n ≤ maxRwCount) fun buf => buf.1) := by
  intro c buf c'
  rw [read]
  constructor
  · intro h
    split_ifs at h with hle
    · obtain ⟨hbuf, rfl⟩ := Prod.mk.inj h
      obtain rfl := Option.some.inj hbuf
      obtain ⟨hmax, hlen⟩ := le_readRet_iff.mp hle
      refine ⟨_, ⟨hmax, rfl⟩, List.take_prefix _ _, ?_⟩
      rw [List.length_take_of_le hlen]
    · cases (Prod.mk.inj h).1
  · rintro ⟨_, ⟨hmax, rfl⟩, hpre, rfl⟩
    have hle : n ≤ c.rest.length := buf.2 ▸ hpre.length_le
    have htake := (List.prefix_iff_eq_take.mp hpre).symm
    simp only [buf.2] at htake
    rw [dif_pos (le_readRet_iff.mpr ⟨hmax, hle⟩), buf.2]
    exact Prod.ext (congrArg some (Subtype.ext htake)) rfl

/-- Where a buffer that is not too long is cut short, the file is at its end. -/
theorem rest_of_read_none {n : ℕ} (hn : n ≤ maxRwCount) {c c' : Cursor Byte}
    (h : read n c = (none, c')) : c'.rest = [] := by
  rw [read] at h
  split_ifs at h with hle
  · cases (Prod.mk.inj h).1
  · obtain ⟨-, rfl⟩ := Prod.mk.inj h
    have hlt : c.rest.length < n := by
      by_contra hge
      exact hle (le_readRet_iff.mpr ⟨hn, Nat.le_of_not_lt hge⟩)
    rw [Cursor.rest_skip, readRet, Nat.min_eq_left hn, Nat.min_eq_right hlt.le, List.drop_length]

/-- A big-endian number. -/
theorem reads_readWord {w k : ℕ} (hw : 2 ^ w = 256 ^ k) (hk : k ≤ maxRwCount) :
    Reads (readWord w k) (encodedBy fun v => beBytes k v.toNat) := by
  refine ((reads_read k).bind fun buf => reads_pure _).of_iff fun v bs => ?_
  simp only [Format.seq, encodedIf, true_and]
  constructor
  · rintro ⟨buf, _, _, ⟨-, rfl⟩, ⟨rfl, rfl⟩, rfl⟩
    have hlt := beNat_lt buf.1
    have hback := beBytes_beNat buf.1
    rw [buf.2] at hlt hback
    rw [BitVec.toNat_ofNat, hw, Nat.mod_eq_of_lt hlt, hback, List.append_nil]
  · rintro rfl
    refine ⟨⟨beBytes k v.toNat, length_beBytes _ _⟩, _, [], ⟨hk, rfl⟩, ⟨?_, rfl⟩, by simp⟩
    apply BitVec.eq_of_toNat_eq
    have hlt := v.isLt
    rw [BitVec.toNat_ofNat, beNat_beBytes, ← hw, Nat.mod_mod, Nat.mod_eq_of_lt hlt]

theorem reads_readu64 : Reads readu64 (encodedBy fun v => beBytes 8 v.toNat) :=
  reads_readWord (by norm_num) (by norm_num)

theorem reads_readu32 : Reads readu32 (encodedBy fun v => beBytes 4 v.toNat) :=
  reads_readWord (by norm_num) (by norm_num)

theorem reads_readu16 : Reads readu16 (encodedBy fun v => beBytes 2 v.toNat) :=
  reads_readWord (by norm_num) (by norm_num)

theorem reads_readArray {n : ℕ} (hn : n ≤ maxRwCount) :
    Reads (readArray n) (encodedBy fun b => b.toList) := by
  refine ((reads_read n).bind fun buf => reads_pure _).of_iff fun b bs => ?_
  simp only [Format.seq, encodedIf, true_and]
  constructor
  · rintro ⟨buf, _, _, ⟨-, rfl⟩, ⟨rfl, rfl⟩, rfl⟩
    refine List.ext_getElem (by simp [buf.2]) fun i hi hi' => ?_
    simp
  · rintro rfl
    refine ⟨⟨b.toList, Bytes.length_toList b⟩, _, [], ⟨hn, rfl⟩, ⟨?_, rfl⟩, by simp⟩
    funext i
    simp

theorem reads_readBuffer : Reads readBuffer (encodedBy encodeBuffer) := by
  refine (reads_readu16.bind fun size => (reads_read size.toNat).bind fun buf =>
    reads_pure _).of_iff fun b bs => ?_
  simp only [Format.seq, encodedIf, true_and, encodeBuffer]
  constructor
  · rintro ⟨size, _, _, rfl, ⟨buf, _, _, ⟨-, rfl⟩, ⟨rfl, rfl⟩, rfl⟩, rfl⟩
    rw [ListOf.count_counted, List.append_nil]
    rfl
  · rintro rfl
    have hlt := b.2
    refine ⟨b.count, _, _, rfl, ⟨⟨b.1, (Counted.toNat_count b).symm⟩, _, [], ⟨?_, rfl⟩,
      ⟨rfl, rfl⟩, rfl⟩, by simp⟩
    rw [Counted.toNat_count]
    exact hlt.le.trans (by norm_num)

/-! ## The sections are read -/

theorem reads_readRefxenData : Reads readRefxenData (encodedBy encodeRefxen) := by
  have harray := @reads_readArray infoExtractLen (by norm_num)
  refine Reads.congr (harray.field Prod.fst fun xenversion => harray.field Prod.snd
    fun xencompiledate => reads_record fun x => ?_) fun x _ => ?_
  · simp [Prod.ext_iff, and_comm]
  · simp [encodeRefxen]

/-- A blob that is too long for one call of `read` is not read. -/
theorem reads_readBlobData :
    Reads readBlobData (encodedIf (fun b => b.1.length ≤ maxRwCount) Blob.encode) := by
  refine (reads_readu32.bind fun bloblen => (reads_read bloblen.toNat).bind fun blob =>
    reads_pure _).of_iff fun b bs => ?_
  simp only [Format.seq, encodedIf, true_and, Blob.encode]
  constructor
  · rintro ⟨bloblen, _, _, rfl, ⟨blob, _, _, ⟨hmax, rfl⟩, ⟨rfl, rfl⟩, rfl⟩, rfl⟩
    have hlen : Blob.bloblen ⟨blob.1, by rw [blob.2]; exact bloblen.isLt⟩ = bloblen :=
      BitVec.eq_of_toNat_eq (by rw [Blob.toNat_bloblen, blob.2])
    rw [hlen, List.append_nil]
    exact ⟨blob.2.trans_le hmax, rfl⟩
  · rintro ⟨hmax, rfl⟩
    refine ⟨b.bloblen, _, _, rfl, ⟨⟨b.1, (Blob.toNat_bloblen b).symm⟩, _, [], ⟨?_, rfl⟩,
      ⟨rfl, rfl⟩, rfl⟩, by simp⟩
    rwa [Blob.toNat_bloblen]

/-- Records that are read one by one. -/
theorem reads_counted {α : Type} {m : Reader Byte α} {C : α → Prop} {enc : α → List Byte}
    (h : Reads m (encodedIf C enc)) :
    Reads (readCounted readu16 m) (encodedIf (fun l => ∀ a ∈ l.1, C a) (encodeCounted enc)) :=
  reads_readu16.counted h

/-- Records that meet no condition. -/
theorem reads_counted_all {α : Type} {m : Reader Byte α} {enc : α → List Byte}
    (h : Reads m (encodedBy enc)) : Reads (readCounted readu16 m) (encodedBy (encodeCounted enc)) :=
  (reads_counted h).of_iff fun l bs => by simp [encodedIf]

theorem reads_readRelocData :
    Reads readRelocData (encodedBy (encodeCounted fun r => beBytes 4 r.toNat)) :=
  reads_counted_all reads_readu32

theorem reads_readCheckData : Reads readCheckData (encodedBy (encodeCounted Check.encode)) := by
  refine reads_counted_all (Reads.congr (reads_readu64.field Check.hvabs fun hvabs =>
    reads_readBuffer.field Check.data fun data => reads_record fun x => ?_) fun x _ => ?_)
  · cases x
    simp [and_comm]
  · simp [Check.encode]

theorem reads_readFuncData : Reads readFuncData (encodedBy (encodeCounted FunctionPatch.encode)) := by
  refine reads_counted_all (Reads.congr (reads_readBuffer.field FunctionPatch.funcname
    fun funcname => reads_readu64.field FunctionPatch.oldabs fun oldabs =>
      reads_readu32.field FunctionPatch.newrel fun newrel => reads_record fun x => ?_) fun x _ => ?_)
  · cases x
    simp only [FunctionPatch.mk.injEq, and_true]
    tauto
  · simp [FunctionPatch.encode]

theorem reads_readTableData : Reads readTableData (encodedBy (encodeCounted TablePatch.encode)) := by
  refine reads_counted_all (Reads.congr (reads_readBuffer.field TablePatch.tablename
    fun tablename => reads_readu64.field TablePatch.hvabs fun hvabs =>
      reads_readBuffer.field TablePatch.data fun data => reads_record fun x => ?_) fun x _ => ?_)
  · cases x
    simp only [TablePatch.mk.injEq, and_true]
    tauto
  · simp [TablePatch.encode]

/-- The relative address is not in the file. -/
theorem reads_readDepsData : Reads readDepsData
    (encodedIf (fun l => ∀ d ∈ l.1, d.reladdr = 0) (encodeCounted Dependency.encode)) := by
  refine reads_counted (Reads.congr ((reads_readArray (by norm_num)).field Dependency.sha1
    fun sha1 => reads_readu64.field Dependency.refabs fun refabs =>
      reads_record fun x => ?_) fun x _ => ?_)
  · cases x
    simp only [Dependency.mk.injEq]
    tauto
  · simp [Dependency.encode]

theorem reads_readConflictsData :
    Reads readConflictsData (encodedBy (encodeCounted Conflict.encode)) := by
  refine reads_counted_all (Reads.congr ((reads_readArray (by norm_num)).field Conflict.sha1
    fun sha1 => reads_record fun x => ?_) fun x _ => ?_)
  · cases x
    simp
  · simp [Conflict.encode]

theorem reads_readRelocData3 : Reads readRelocData3 (encodedBy fun x =>
    encodeCounted Reloc3.encode x.1 ++ encodeCounted (fun r => beBytes 4 r.toNat) x.2) := by
  have hreloc3 : Reads (do
      let index ← readu16
      let offset ← readu32
      return ({ index, offset } : Reloc3)) (encodedBy Reloc3.encode) := by
    refine Reads.congr (reads_readu16.field Reloc3.index fun index => reads_readu32.field
      Reloc3.offset fun offset => reads_record fun x => ?_) fun x _ => ?_
    · cases x
      simp [and_comm]
    · simp [Reloc3.encode]
  refine Reads.congr ((reads_counted_all hreloc3).field Prod.fst fun relocs3 =>
    (reads_counted_all reads_readu32).field Prod.snd fun relocs =>
      reads_record fun x => ?_) fun x _ => ?_
  · simp [Prod.ext_iff, and_comm]
  · simp

theorem reads_readExTableEntries : Reads readExTableEntries (encodedBy fun x =>
    encodeCounted ExctblEntry.encode x.1 ++ encodeCounted ExctblEntry.encode x.2) := by
  have hentries : Reads readExctblEntries (encodedBy (encodeCounted ExctblEntry.encode)) := by
    refine reads_counted_all (Reads.congr (reads_readu32.field ExctblEntry.addrrel fun addrrel =>
      reads_readu32.field ExctblEntry.contrel fun contrel => reads_record fun x => ?_) fun x _ => ?_)
    · cases x
      simp [and_comm]
    · simp [ExctblEntry.encode]
  refine Reads.congr (hentries.field Prod.fst fun exctblents => hentries.field Prod.snd
    fun preexctblents => reads_record fun x => ?_) fun x _ => ?_
  · simp [Prod.ext_iff, and_comm]
  · simp

/-- **A name that may be cut short**, in front of what is read loosely. -/
theorem readsLoosely_readNameOr {β : Type} {short : BitVec 16 → List Byte → β}
    {k : Counted Byte → Reader Byte β} {P : β → Prop} {tail : β → List Byte}
    (get : β → Counted Byte)
    (hk : ∀ buf, ReadsLoosely (k buf) (encodedIf (fun b => get b = buf ∧ P b) tail)) :
    ReadsLoosely (readNameOr short k) (encodedIf P fun b => encodeBuffer (get b) ++ tail b) := by
  have hname : ∀ size : BitVec 16, ReadsLoosely
      (Reader.bindOr (read size.toNat) (short size) fun buf => k buf.counted) _ := fun size =>
    (reads_read size.toNat).bindOr
      (fun c c' h => rest_of_read_none (size.isLt.le.trans (by norm_num)) h) _ fun buf =>
        hk buf.counted
  refine (reads_readu16.loosely.bindLoosely hname).of_iff fun b bs => ?_
  rw [← Format.seq_field]
  simp only [Format.seq, encodedIf, true_and, encodeBuffer]
  constructor
  · rintro ⟨size, _, _, rfl, ⟨buf, _, bs', ⟨-, rfl⟩, hS, rfl⟩, rfl⟩
    refine ⟨buf.counted, _, bs', rfl, hS, ?_⟩
    rw [ListOf.count_counted, List.append_assoc]
    rfl
  · rintro ⟨buf, _, bs', rfl, hS, rfl⟩
    exact ⟨buf.count, _, _, rfl, ⟨⟨buf.1, (Counted.toNat_count buf).symm⟩, _, bs',
      ⟨buf.count.isLt.le.trans (by norm_num), rfl⟩, hS, rfl⟩, by simp⟩

/-- The loop reads the symbols, or stops at the end of the file. -/
theorem readsLoosely_readSymbols (n : ℕ) :
    ReadsLoosely (readSymbols n) (encodedBy fun l => l.1.flatMap Symbol.encode) := by
  induction n with
  | zero =>
      refine ReadsLoosely.congr (reads_record fun l => ?_).loosely fun l => ?_
      · exact iff_of_true (Subtype.ext (List.length_eq_zero_iff.mp l.2)) trivial
      · rw [List.length_eq_zero_iff.mp l.2]
        rfl
  | succ n ih =>
      refine ReadsLoosely.congr
        (readsLoosely_readNameOr (fun l => l.head.name) fun name =>
          readsLoosely_readNameOr (fun l => l.head.section_) fun section_ =>
            reads_readu32.loosely.field (fun l => l.head.secOff) fun secOff =>
              reads_readu32.loosely.field (fun l => l.head.symOff) fun symOff =>
                ih.field ListOf.tail fun l => (reads_record fun x => ?_).loosely) fun x => ?_
      · obtain ⟨a, x, rfl⟩ := x.eq_cons
        cases a
        simp only [ListOf.cons_inj, Symbol.mk.injEq, ListOf.head_cons, ListOf.tail_cons, and_true]
        tauto
      · obtain ⟨a, x, rfl⟩ := x.eq_cons
        simp [ListOf.cons, ListOf.head, ListOf.tail, Symbol.encode]

/-- `read_symbols_data` may also succeed at the end of a file that is too short. -/
theorem readsLoosely_readSymbolsData :
    ReadsLoosely readSymbolsData (encodedBy (encodeCounted Symbol.encode)) := by
  refine (reads_readu16.loosely.bindLoosely fun numsymbols =>
    (readsLoosely_readSymbols numsymbols.toNat).bindLoosely fun symbols =>
      (reads_pure symbols.counted).loosely).of_iff fun l bs => ?_
  simp only [Format.seq, encodedIf, true_and, encodeCounted]
  constructor
  · rintro ⟨n, _, _, rfl, ⟨l', _, _, rfl, ⟨rfl, rfl⟩, rfl⟩, rfl⟩
    rw [ListOf.count_counted, List.append_nil]
    rfl
  · rintro rfl
    exact ⟨l.count, _, _, rfl,
      ⟨⟨l.1, (Counted.toNat_count l).symm⟩, _, _, rfl, ⟨rfl, rfl⟩, rfl⟩, by simp⟩

/-! ## The whole file -/

/-- What a loader makes of a patch: the parts that the version lacks are empty, the relative
addresses are not known yet, and the relocations have room for those that the client will add. -/
structure Patch.LoadedAs (p : Patch) (version : Int) (sha1 : Bytes shaDigestLength) : Prop where
  version_eq : p.version = version
  sha1_eq : p.sha1 = sha1
  blob_le : p.blob.1.length ≤ maxRwCount
  reladdr : ∀ d ∈ p.deps.1, d.reladdr = 0
  relocsAlloc : p.relocsAlloc = relCount p.relocs3 p.relocs
  crowbarabs : version ≠ 3 → p.crowbarabs = 0
  exctblents : ¬4 ≤ version → p.exctblents = .nil
  preexctblents : ¬4 ≤ version → p.preexctblents = .nil
  conflicts : version ≠ 5 → p.conflicts = .nil

theorem needsMore_readFuncData : NeedsMore readFuncData := by
  refine reads_readFuncData.needsMore fun l bs hl => ?_
  rw [hl.2, encodeCounted]
  exact List.append_ne_nil_of_left_ne_nil (List.ne_nil_of_length_pos (by simp)) _

/-- **The sections of a file** are read as they were stored. -/
theorem reads_readSections {version : Int} {crowbar exTable conflict : Bool}
    (hcrowbar : crowbar = true ↔ version = 3) (hexTable : exTable = true ↔ 4 ≤ version)
    (hconflict : conflict = true ↔ version = 5) (sha1 : Bytes shaDigestLength) :
    Reads (readSections version crowbar exTable conflict sha1)
      (encodedIf (fun p => p.LoadedAs version sha1) Patch.encodeSections) := by
  refine Reads.congr (reads_readBuffer.field Patch.tags fun tags =>
    reads_readRefxenData.field (fun p : Patch => (p.xenversion, p.xencompiledate))
      fun (xenversion, xencompiledate) =>
    reads_readDepsData.fieldIf Patch.deps ?_ fun deps hdeps =>
    (reads_readu64.optional crowbar 0).fieldIf Patch.crowbarabs ?_ fun crowbarabs hcrowbarabs =>
    reads_readu64.field Patch.refabs fun refabs =>
    reads_readBlobData.fieldIf Patch.blob ?_ fun blob hblob =>
    reads_readRelocData3.field (fun p : Patch => (p.relocs3, p.relocs)) fun (relocs3, relocs) =>
    reads_readCheckData.field Patch.checks fun checks =>
    readsLoosely_readSymbolsData.fieldThen Patch.symbols (fun symbols =>
      reads_readFuncData.field Patch.funcs fun funcs =>
      reads_readTableData.field Patch.tables fun tables =>
      (reads_readExTableEntries.optional exTable _).fieldIf
        (fun p : Patch => (p.exctblents, p.preexctblents)) ?_ fun (ex, pre) hex =>
      (reads_readConflictsData.optional conflict _).fieldIf Patch.conflicts ?_
        fun conflicts hconflicts => reads_record fun p => ?_)
      fun _ => needsMore_readFuncData.bind _) fun p hloaded => ?_
  · exact fun p h => h.2.2.reladdr
  · intro p h
    split_ifs with hc
    exact h.2.2.2.crowbarabs (mt hcrowbar.mpr hc)
  · exact fun p h => h.2.2.2.2.2.blob_le
  · intro p h
    have hloaded := h.2.2.2.2.2.2.2.2.2.2.2
    split_ifs with hc
    rw [hloaded.exctblents (mt hexTable.mpr hc), hloaded.preexctblents (mt hexTable.mpr hc)]
  · intro p h
    split_ifs with hc
    exact h.2.2.2.2.2.2.2.2.2.2.2.2.conflicts (mt hconflict.mpr hc)
  · constructor
    · rintro rfl
      refine ⟨rfl, rfl, rfl, rfl, rfl, rfl, rfl, rfl, rfl, rfl, rfl, rfl, rfl,
        ⟨rfl, rfl, hblob, hdeps, rfl, fun hv => ?_, fun hv => ?_, fun hv => ?_, fun hv => ?_⟩⟩
      · rwa [if_neg (mt hcrowbar.mp hv)] at hcrowbarabs
      · rw [if_neg (mt hexTable.mp hv)] at hex
        exact (Prod.mk.inj hex).1
      · rw [if_neg (mt hexTable.mp hv)] at hex
        exact (Prod.mk.inj hex).2
      · rwa [if_neg (mt hconflict.mp hv)] at hconflicts
    · rintro ⟨rfl, hex', rfl, rfl, rfl, rfl, hrelocs, rfl, rfl, rfl, rfl, hxen, rfl, hloaded⟩
      obtain ⟨rfl, rfl⟩ := Prod.mk.inj hex'
      obtain ⟨rfl, rfl⟩ := Prod.mk.inj hrelocs
      obtain ⟨rfl, rfl⟩ := Prod.mk.inj hxen
      obtain rfl := hloaded.version_eq
      obtain rfl := hloaded.sha1_eq
      rw [← hloaded.relocsAlloc]
  · obtain rfl := hloaded.version_eq
    simp only [Patch.encodeSections, hcrowbar, hexTable, hconflict, List.append_assoc,
      List.append_nil]

/-- The loop over a block reads all of it. -/
theorem reads_readBlock (size : ℕ) :
    Reads (readBlock size) (encodedIf (fun bs => bs.length = size) fun bs => bs) := by
  induction size using Nat.strong_induction_on with
  | _ size ih =>
    rw [readBlock]
    split_ifs with hzero
    · subst hzero
      refine (reads_pure _).of_iff fun bs bs' => ?_
      simp only [encodedIf, List.length_eq_zero_iff]
      exact ⟨fun h => ⟨h.1, h.2.trans h.1.symm⟩, fun h => ⟨h.1, h.2.trans h.1⟩⟩
    · have hle : min 4096 size ≤ size := Nat.min_le_right _ _
      have hsmall : min 4096 size ≤ maxRwCount := (Nat.min_le_left _ _).trans (by norm_num)
      refine ((reads_read (min 4096 size)).bind fun buf =>
        (ih (size - min 4096 size) (by omega)).bind fun rest => reads_pure _).of_iff fun bs bs' => ?_
      simp only [Format.seq, encodedIf]
      constructor
      · rintro ⟨buf, _, _, ⟨-, rfl⟩, ⟨rest, _, _, ⟨hrest, rfl⟩, ⟨rfl, rfl⟩, rfl⟩, rfl⟩
        refine ⟨?_, by simp⟩
        rw [List.length_append, buf.2, hrest, Nat.add_sub_cancel' hle]
      · rintro ⟨hlen, rfl⟩
        refine ⟨⟨bs'.take (min 4096 size), List.length_take_of_le (hlen ▸ hle)⟩, _, _,
          ⟨hsmall, rfl⟩, ⟨bs'.drop (min 4096 size), _, [], ⟨?_, rfl⟩, ⟨?_, rfl⟩, rfl⟩, ?_⟩
        · rw [List.length_drop, hlen]
        · exact (List.take_append_drop _ _).symm
        · rw [List.append_nil, List.take_append_drop]

/-- A front of the file is hashed. -/
theorem calcBlockSha1_append (body trailer : List Byte) :
    calcBlockSha1 hash (body ++ trailer) 0 body.length = some (hash body) := by
  have hread := (reads_readBlock body.length ⟨body ++ trailer, 0⟩ body _).mpr
    ⟨body, ⟨rfl, rfl⟩, List.prefix_append _ _, rfl⟩
  rw [calcBlockSha1, if_neg (by simp), Int.sub_zero, Int.toNat_natCast, Int.toNat_zero,
    hread, Option.map_some]

/-- The trailer is found. -/
theorem extractSha1FromPatch_append (body : List Byte) (sha1 : Bytes shaDigestLength) :
    extractSha1FromPatch (body ++ sha1.toList) = some sha1 := by
  have hlen : (body ++ sha1.toList).length = body.length + shaDigestLength := by simp
  have hread := (reads_readArray (by norm_num) ⟨body ++ sha1.toList, body.length⟩ sha1 _).mpr
    ⟨_, ⟨trivial, rfl⟩, by simp [Cursor.rest], rfl⟩
  rw [extractSha1FromPatch, if_neg (by omega), hlen, Nat.add_sub_cancel, hread]

/-- A file that starts with a cookie has its version. -/
theorem getPatchVersion_of_cookie {version : ℕ} (hge : 2 ≤ version) (hle : version ≤ 5)
    {f : List Byte} (h : xspatchCookie version <+: f) : getPatchVersion f = version := by
  have hread := (reads_read xspatchCookieLen ⟨f, 0⟩ ⟨xspatchCookie version, rfl⟩ _).mpr
    ⟨_, ⟨by norm_num, rfl⟩, h, rfl⟩
  rw [getPatchVersion, hread]
  interval_cases version <;> rfl

/-- A file that has a version starts with its cookie. -/
theorem prefix_of_getPatchVersion {version : ℕ} {f : List Byte}
    (h : getPatchVersion f = version) : xspatchCookie version <+: f := by
  rw [getPatchVersion] at h
  cases hread : read xspatchCookieLen ⟨f, 0⟩ with
  | mk signature c =>
      rw [hread] at h
      cases signature with
      | none =>
          simp only at h
          omega
      | some signature =>
          obtain ⟨_, ⟨-, rfl⟩, hpre, -⟩ := (reads_read _ _ _ _).mp hread
          simp only at h
          split_ifs at h with h2 h3 h4 h5
          · obtain rfl : version = 2 := by omega
            exact h2 ▸ hpre
          · obtain rfl : version = 3 := by omega
            exact h3 ▸ hpre
          · obtain rfl : version = 4 := by omega
            exact h4 ▸ hpre
          · obtain rfl : version = 5 := by omega
            exact h5 ▸ hpre

/-- The versions with a trailer. -/
def Trailed (version : Int) : Prop := version = 3 ∨ version = 4 ∨ version = 5

/-- The sum of the relocations fits in a `uint16_t`, and one call of `read` gets the blob. -/
structure Patch.WithinLimits (p : Patch) : Prop where
  relocs : p.relocs.1.length + p.relocs3.1.length ≤ 65535
  blob : p.blob.1.length ≤ maxRwCount

/-- The patch as it is loaded: with the hash of its file, without the parts that its version lacks
and the relative addresses of its dependencies, and with room for all its relocations. -/
def Patch.loaded (p : Patch) : Patch :=
  { p with
    sha1 := hash p.encodeBody
    relocsAlloc := p.relocs.1.length + p.relocs3.1.length
    deps := ⟨p.deps.1.map fun d => { d with reladdr := 0 }, by simpa using p.deps.2⟩
    crowbarabs := if p.version = 3 then p.crowbarabs else 0
    exctblents := if 4 ≤ p.version then p.exctblents else .nil
    preexctblents := if 4 ≤ p.version then p.preexctblents else .nil
    conflicts := if p.version = 5 then p.conflicts else .nil }

theorem loadedAs_loaded {p : Patch} (h : p.WithinLimits) :
    (p.loaded hash).LoadedAs p.version (hash p.encodeBody) where
  version_eq := rfl
  sha1_eq := rfl
  blob_le := h.blob
  reladdr := by
    intro d hd
    obtain ⟨d, -, rfl⟩ := List.mem_map.mp hd
    rfl
  relocsAlloc := by
    have hle := h.relocs
    simp only [Patch.loaded, relCount, BitVec.toNat_add, Counted.toNat_count]
    omega
  crowbarabs := fun hv => if_neg hv
  exctblents := fun hv => if_neg hv
  preexctblents := fun hv => if_neg hv
  conflicts := fun hv => if_neg hv

/-- What is not loaded is not in the file. -/
theorem encodeSections_loaded (p : Patch) : (p.loaded hash).encodeSections = p.encodeSections := by
  have hdeps : encodeCounted Dependency.encode (p.loaded hash).deps =
      encodeCounted Dependency.encode p.deps := by
    have hcount : (p.loaded hash).deps.count = p.deps.count :=
      BitVec.eq_of_toNat_eq (by simp [Patch.loaded])
    rw [encodeCounted, encodeCounted, hcount, Patch.loaded, List.flatMap_map]
    rfl
  rw [Patch.encodeSections, Patch.encodeSections, hdeps]
  simp only [Patch.loaded]
  split_ifs <;> rfl

/-- The loader of a version, and the parts that its sections have. -/
theorem loadPatchFile_of_version {filename f : List Byte} {version : Int} (hv : Trailed version)
    (h : getPatchVersion f = version) : ∃ crowbar exTable conflict,
      (crowbar = true ↔ version = 3) ∧ (exTable = true ↔ 4 ≤ version) ∧
        (conflict = true ↔ version = 5) ∧ loadPatchFile hash filename f =
          loadTrailed hash (readSections version crowbar exTable conflict) f := by
  rw [loadPatchFile, h]
  rcases hv with rfl | rfl | rfl
  · exact ⟨true, false, false, by simp, by simp, by simp, rfl⟩
  · exact ⟨false, true, false, by simp, by simp, by simp, rfl⟩
  · exact ⟨false, true, true, by simp, by simp, by simp, rfl⟩

/-- Where a loader succeeds its sections have been read. -/
theorem sections_of_loadTrailed {sections : Bytes shaDigestLength → Reader Byte Patch}
    {f : List Byte} {p : Patch} (h : loadTrailed hash sections f = some p) :
    ∃ sha1 c, sections sha1 ⟨f, xspatchCookieLen⟩ = (some p, c) := by
  simp only [loadTrailed, Option.bind_eq_bind, Option.bind_eq_some_iff] at h
  obtain ⟨sha1, -, hash', -, h⟩ := h
  split_ifs at h
  exact ⟨sha1, _, Prod.ext h rfl⟩

/-- A file with the right trailer is loaded from its sections. -/
theorem loadTrailed_append (sections : Bytes shaDigestLength → Reader Byte Patch)
    (body : List Byte) : loadTrailed hash sections (body ++ (hash body).toList) =
      (sections (hash body) ⟨body ++ (hash body).toList, xspatchCookieLen⟩).1 := by
  have hlen : ((body ++ (hash body).toList).length : Int) - shaDigestLength = body.length := by
    simp
  simp only [loadTrailed, extractSha1FromPatch_append, hlen, calcBlockSha1_append,
    Option.bind_eq_bind, Option.bind_some, ne_eq, not_true_eq_false, if_false]

theorem Trailed.toNat {version : Int} (h : Trailed version) :
    (version.toNat : Int) = version ∧ 2 ≤ version.toNat ∧ version.toNat ≤ 5 := by
  rcases h with rfl | rfl | rfl <;> decide

/-- The sections stand behind the cookie. -/
theorem rest_append_encodeBody (p : Patch) (trailer : List Byte) :
    (Cursor.mk (p.encodeBody ++ trailer) xspatchCookieLen).rest = p.encodeSections ++ trailer := by
  have hlen : (xspatchCookie p.version.toNat).length = xspatchCookieLen := rfl
  rw [Cursor.rest, Patch.encodeBody, List.append_assoc]
  exact List.drop_left' hlen

/-- What is loaded stands in the file. -/
theorem loaded_of_trailed {filename f : List Byte} {p : Patch}
    (hv : Trailed (getPatchVersion f)) (h : loadPatchFile hash filename f = some p) :
    ∃ sha1, p.LoadedAs (getPatchVersion f) sha1 ∧
      p.encodeSections <+: (Cursor.mk f xspatchCookieLen).rest := by
  obtain ⟨crowbar, exTable, conflict, hcrowbar, hexTable, hconflict, hload⟩ :=
    @loadPatchFile_of_version hash filename _ _ hv rfl
  rw [hload] at h
  obtain ⟨sha1, c, hread⟩ := sections_of_loadTrailed hash h
  obtain ⟨_, ⟨hloaded, rfl⟩, hsections, -⟩ :=
    (reads_readSections hcrowbar hexTable hconflict sha1 _ _ _).mp hread
  exact ⟨sha1, hloaded, hsections⟩

/-- Stored patches are loaded. -/
theorem loadPatchFile_of_encode {filename : List Byte} {p : Patch} (hv : Trailed p.version)
    (hlimits : p.WithinLimits) :
    loadPatchFile hash filename (p.encode hash) = some (p.loaded hash) := by
  obtain ⟨hversion, hge, hle⟩ := hv.toNat
  have hcookie : xspatchCookie p.version.toNat <+: p.encode hash := by
    rw [Patch.encode, Patch.encodeBody, List.append_assoc]
    exact List.prefix_append _ _
  have hget := (getPatchVersion_of_cookie hge hle hcookie).trans hversion
  obtain ⟨crowbar, exTable, conflict, hcrowbar, hexTable, hconflict, hload⟩ :=
    @loadPatchFile_of_version hash filename _ _ hv hget
  have hsections : (p.loaded hash).encodeSections <+:
      (Cursor.mk (p.encode hash) xspatchCookieLen).rest := by
    rw [encodeSections_loaded, Patch.encode, rest_append_encodeBody]
    exact List.prefix_append _ _
  have hread := (reads_readSections hcrowbar hexTable hconflict (hash p.encodeBody) _ _ _).mpr
    ⟨_, ⟨loadedAs_loaded hash hlimits, rfl⟩, hsections, rfl⟩
  rw [hload, Patch.encode, loadTrailed_append, ← Patch.encode, hread]

/-- The blob of a file of version 2 comes with one call of `read`, too. -/
theorem blob_le_of_readSections2 {sha1 : Bytes shaDigestLength} {c c' : Cursor Byte} {p : Patch}
    (h : readSections2 sha1 c = (some p, c')) : p.blob.1.length ≤ maxRwCount := by
  simp only [readSections2, Reader.bind_eq_some] at h
  obtain ⟨⟨_, _⟩, _, -, _, _, -, _, _, -, blob, _, hblob, _, _, -, _, _, -, _, _, -, _, _, -, h⟩ :=
    h
  obtain ⟨rfl, -⟩ := Prod.mk.inj (h.symm.trans (Reader.pure_apply _ _)) |>.imp Option.some.inj id
  obtain ⟨_, ⟨hmax, -⟩, -, -⟩ := (reads_readBlobData _ _ _).mp hblob
  exact hmax

/-- So does that of every file that is loaded. -/
theorem blob_le_of_loadPatchFile {filename f : List Byte} {p : Patch}
    (h : loadPatchFile hash filename f = some p) : p.blob.1.length ≤ maxRwCount := by
  by_cases hv : Trailed (getPatchVersion f)
  · obtain ⟨sha1, hloaded, -⟩ := loaded_of_trailed hash hv h
    exact hloaded.blob_le
  · rw [loadPatchFile] at h
    split_ifs at h with h2 h3 h4 h5
    · simp only [loadPatchFile2, Option.bind_eq_bind] at h
      split_ifs at h
      simp only [Option.bind_eq_some_iff] at h
      obtain ⟨sha1, -, hash', -, h⟩ := h
      split_ifs at h
      exact blob_le_of_readSections2 (Prod.ext h rfl)
    · exact absurd (.inl h3) hv
    · exact absurd (.inr (.inl h4)) hv
    · exact absurd (.inr (.inr h5)) hv

/-- The length of a blob that is loaded fits in an `int`. -/
theorem blob_lt_of_loadPatchFile {filename f : List Byte} {p : Patch}
    (h : loadPatchFile hash filename f = some p) : p.blob.1.length < 2 ^ 31 :=
  (blob_le_of_loadPatchFile hash h).trans_lt (by norm_num)

/-- **Which stored patches are loaded, and that what is loaded was stored.** For every hash
function: the file of a patch of version 3, 4 or 5, whose relocations can be counted, is loaded as
that patch exactly when one call of `read` gets the blob; and a file that is loaded starts with the
encoding of the patch, up to the trailer. -/
theorem loadPatchFile_encode_iff (filename : List Byte) :
    (∀ p : Patch, Trailed p.version → p.relocs.1.length + p.relocs3.1.length ≤ 65535 →
        (loadPatchFile hash filename (p.encode hash) = some (p.loaded hash) ↔
          p.blob.1.length ≤ maxRwCount)) ∧
      ∀ (f : List Byte) (p : Patch), Trailed (getPatchVersion f) →
        loadPatchFile hash filename f = some p → p.encodeBody <+: f := by
  constructor
  · intro p hv hrelocs
    constructor
    · intro h
      have hle : (p.loaded hash).blob.1.length ≤ maxRwCount := blob_le_of_loadPatchFile hash h
      exact hle
    · intro hblob
      exact loadPatchFile_of_encode hash hv ⟨hrelocs, hblob⟩
  · intro f p hv h
    obtain ⟨sha1, hloaded, hsections⟩ := loaded_of_trailed hash hv h
    have hcookie := prefix_of_getPatchVersion (f := f) hv.toNat.1.symm
    rw [Patch.encodeBody, hloaded.version_eq]
    exact append_prefix_iff.mpr ⟨hcookie, hsections⟩

/-- A patch with one function, a symbol and a relocation. -/
def storedPatch : Patch where
  version := 4
  sha1 := fun _ => 0
  xenversion := fun _ => 0x31
  xencompiledate := fun _ => 0x32
  crowbarabs := 0
  refabs := 0x400000
  blob := ⟨[1, 2, 3, 4, 5], by decide⟩
  relocs := ⟨[1], by decide⟩
  relocsAlloc := 1
  checks := .nil
  funcs := ⟨[⟨⟨[0x66], by decide⟩, 0x401000, 0⟩], by decide⟩
  tables := .nil
  tags := ⟨[0x74], by decide⟩
  relocs3 := .nil
  symbols := ⟨[⟨⟨[0x66], by decide⟩, .nil, 0, 0⟩], by decide⟩
  deps := .nil
  exctblents := .nil
  preexctblents := .nil
  conflicts := .nil

theorem loadPatchFile_encode_iff_storedPatch :
    let hash : List Byte → Bytes shaDigestLength := fun l _ => l.headD 0
    loadPatchFile hash [] (storedPatch.encode hash) = some (storedPatch.loaded hash) ∧
      (storedPatch.loaded hash).encodeBody <+: storedPatch.encode hash := by
  intro hash
  have hv : Trailed storedPatch.version := .inr (.inl rfl)
  have hload := ((loadPatchFile_encode_iff hash []).1 storedPatch hv (by decide)).mpr (by decide)
  have hget : Trailed (getPatchVersion (storedPatch.encode hash)) := .inr (.inl (by decide +kernel))
  exact ⟨hload, (loadPatchFile_encode_iff hash []).2 _ _ hget hload⟩

/-- The patch with a blob that is a byte longer than what one call of `read` gets. -/
def longPatch : Patch :=
  { storedPatch with
    blob := ⟨List.replicate (maxRwCount + 1) 0, by rw [List.length_replicate]; decide⟩ }

/-- It keeps to the limits of the format, and its file is not loaded as that patch. -/
theorem longPatch_refused :
    let hash : List Byte → Bytes shaDigestLength := fun l _ => l.headD 0
    Trailed longPatch.version ∧ longPatch.relocs.1.length + longPatch.relocs3.1.length ≤ 65535 ∧
      longPatch.blob.1.length < 2 ^ 31 ∧
      loadPatchFile hash [] (longPatch.encode hash) ≠ some (longPatch.loaded hash) := by
  intro hash
  have hlen : longPatch.blob.1.length = maxRwCount + 1 := List.length_replicate ..
  refine ⟨.inr (.inl rfl), by decide, hlen ▸ by decide, fun h => ?_⟩
  have hle : (longPatch.loaded hash).blob.1.length ≤ maxRwCount := blob_le_of_loadPatchFile hash h
  exact absurd (hlen.symm.trans_le hle) (by decide)

end Patchbox
