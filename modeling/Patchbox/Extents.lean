import Patchbox.StaleJumps
import Patchbox.Relocations

/-!
# The eight bytes of an exchange

Three functions look at the address of a write. `read_patch_data` checks that it lies in the
program, `make_text_writeable` makes its page writable, and `swap_trampolines` exchanges eight
bytes from there on. The first two look at the first byte only. An exchange that starts in the
last bytes of a page goes on in the next one, which is writable if another write of the message
starts there.

## Main definitions

* `Covered` — the exchanges of a log are in the program and in writable pages.
* `ExchangesCovered` — those of a message, and those of its undo.
* `ExchangeFits` — what an exchange needs.
* `exchangesCovered_iff` — the messages whose exchanges are all covered.
-/

namespace Patchbox
open Lib

variable {img : Image} {env : ApplyEnv img} {arg : ℕ → Byte} {s : Sandbox}
  {mprotectOk : Addr → Bool} {done log : List Access} {writes : List XenlpPatchWrite} {x : Addr}

/-- The page of the byte was made writable: `make_text_writeable` asked for it, and `mprotect` did
not fail. -/
def MadeWritable (mprotectOk : Addr → Bool) (log : List Access) (x : Addr) : Prop :=
  .protect (x &&& pageMask) ∈ log ∧ mprotectOk (x &&& pageMask) = true

/-- Each byte of the exchange lies in the program, and its page was made writable. -/
def ByteCovered (img : Image) (mprotectOk : Addr → Bool) (log : List Access) (a : Addr) : Prop :=
  ∀ i < 8, InText img (a + BitVec.ofNat 64 i) ∧
    MadeWritable mprotectOk log (a + BitVec.ofNat 64 i)

/-- That holds of each exchange of the log, by what was done before it. -/
def Covered (img : Image) (mprotectOk : Addr → Bool) (done log : List Access) : Prop :=
  ∀ before a behind, log = before ++ .exchange a :: behind →
    ByteCovered img mprotectOk (done ++ before) a

/-- The exchanges of a message, and those of an undo of the entry that it inserts. -/
def ExchangesCovered (img : Image) (mprotectOk : Addr → Bool) (env : ApplyEnv img)
    (arg : ℕ → Byte) (s : Sandbox) : Prop :=
  Covered img mprotectOk [] (xenlpApply4 img env arg s).log ∧
    ((XenlpApply4.load arg).numdeps = 0 → ∀ arg' s' newer older,
      undoTarget arg' s' = some (newer, insertedPatch img env arg s, older) →
        Covered img mprotectOk (xenlpApply4 img env arg s).log (xenlpUndo4 arg' s').log)

/-! ## Logs -/

/-- An access that neither makes a page writable nor exchanges bytes. -/
def Access.Plain : Access → Prop
  | .message _ _ => True
  | .relocate _ => True
  | .protect _ => False
  | .exchange _ => False

/-- Without exchanges there is nothing to cover. -/
theorem covered_of_plain (h : ∀ x ∈ log, x.Plain) : Covered img mprotectOk done log := by
  intro before a behind hlog
  exact (h (.exchange a) (by simp [hlog])).elim

/-- Exchanges at the end of a log are covered by what stands in front of them. -/
theorem covered_append_exchanges (h : ∀ a, .exchange a ∉ log) :
    Covered img mprotectOk done (log ++ exchanges writes) ↔
      ∀ pw ∈ writes, ByteCovered img mprotectOk (done ++ log) pw.hvabs := by
  constructor
  · intro hcovered pw hpw
    obtain ⟨l, r, rfl⟩ := List.append_of_mem hpw
    have hsplit : log ++ exchanges (l ++ pw :: r) =
        (log ++ exchanges l) ++ .exchange pw.hvabs :: exchanges r := by
      simp [exchanges]
    intro i hi
    obtain ⟨htext, hprotect, hok⟩ := hcovered _ _ _ hsplit i hi
    refine ⟨htext, ?_, hok⟩
    rw [← List.append_assoc] at hprotect
    rcases List.mem_append.mp hprotect with hmem | hmem
    · exact hmem
    · simp [exchanges] at hmem
  · intro hall before a behind hlog
    have ha : .exchange a ∈ log ++ exchanges writes := by
      rw [hlog]
      exact List.mem_append_right _ List.mem_cons_self
    rcases List.mem_append.mp ha with hlogged | hmem
    · exact absurd hlogged (h a)
    · obtain ⟨pw, hpw, heq⟩ := List.mem_map.mp hmem
      cases heq
      -- the exchange stands behind the whole log
      have hsub : ∀ y ∈ log, y ∈ before := by
        rcases List.append_eq_append_iff.mp hlog with ⟨l, rfl, -⟩ | ⟨l, rfl, hbehind⟩
        · exact fun y hy => List.mem_append_left l hy
        · cases l with
          | nil => simp
          | cons y l =>
              rw [List.cons_append, List.cons.injEq] at hbehind
              refine absurd ?_ (h pw.hvabs)
              rw [hbehind.1]
              exact List.mem_append_right _ List.mem_cons_self
      intro i hi
      obtain ⟨htext, hprotect, hok⟩ := hall pw hpw i hi
      refine ⟨htext, ?_, hok⟩
      rcases List.mem_append.mp hprotect with hdone | hlogged
      · exact List.mem_append_left _ hdone
      · exact List.mem_append_right _ (hsub _ hlogged)

/-- Pages are made writable by their writes. -/
theorem protect_mem_iff {page : Addr} (h : ∀ x ∈ log, x.Plain) :
    .protect page ∈ log ++ makeTextWriteable writes ↔
      page ∈ (writes.map XenlpPatchWrite.hvabs).map (· &&& pageMask) := by
  rw [List.mem_append, makeTextWriteable, List.map_map]
  constructor
  · rintro (hlogged | hmem)
    · exact (h _ hlogged).elim
    · obtain ⟨pw, hpw, heq⟩ := List.mem_map.mp hmem
      cases heq
      exact List.mem_map.mpr ⟨pw, hpw, rfl⟩
  · intro hmem
    obtain ⟨pw, hpw, rfl⟩ := List.mem_map.mp hmem
    exact .inr (List.mem_map.mpr ⟨pw, hpw, rfl⟩)

/-- Reading the data logs plain accesses only. -/
theorem plain_log_patchData (h : (patchData img env arg s).ccode = sandboxOk) :
    ∀ x ∈ (patchData img env arg s).log, x.Plain := by
  obtain ⟨writes, -, heq⟩ := readPatchData_eq_of_dataOk (ccode_patchData_iff.mp h)
  have hlog := (ReadOut.eq_mk heq).2.2.2.2
  rw [patchData, hlog]
  intro x hx
  simp only [List.mem_append, blobMessages, relocMessages, relocAccesses, writeMessages] at hx
  rcases hx with ((hx | hx) | hx) | hx
  · split_ifs at hx
    · cases List.mem_singleton.mp hx
      exact True.intro
    · exact absurd hx List.not_mem_nil
  · split_ifs at hx
    · cases List.mem_singleton.mp hx
      exact True.intro
    · exact absurd hx List.not_mem_nil
  · obtain ⟨r, -, rfl⟩ := List.mem_map.mp hx
    exact True.intro
  · split_ifs at hx
    · cases List.mem_singleton.mp hx
      exact True.intro
    · exact absurd hx List.not_mem_nil

/-! ## Places -/

/-- An exchange at `a` ends in the program, its pages are asked for by the writes at `places`, and
its first page is granted. -/
structure ExchangeFits (img : Image) (mprotectOk : Addr → Bool) (places : List Addr) (a : Addr) :
    Prop where
  inside : a.toNat + 8 ≤ img.end_.toNat
  page : a.toNat % pageSize + 8 ≤ pageSize ∨ ∃ b ∈ places, b &&& pageMask = (a + 7) &&& pageMask
  granted : mprotectOk (a &&& pageMask) = true

/-- Where a message has its writes put. -/
def writePlaces (img : Image) (arg : ℕ → Byte) : List Addr :=
  (loadWrites arg ((XenlpApply4.load arg).writesOff sizeofXenlpApply4)
    (XenlpApply4.load arg).numwrites.toNat).map
      fun pw => pw.hvabs + (XenlpApply4.load arg).runtimeConstant img

theorem toNat_add_ofNat {a : Addr} {i : ℕ} (h : a.toNat + i < 2 ^ 64) :
    (a + BitVec.ofNat 64 i).toNat = a.toNat + i := by
  rw [BitVec.toNat_add, BitVec.toNat_ofNat, Nat.mod_eq_of_lt (a := i) (by omega),
    Nat.mod_eq_of_lt h]

/-- The eight bytes lie in the program when the last one does not reach its end. -/
theorem inText_iff {a : Addr} (ha : InText img a) :
    (∀ i < 8, InText img (a + BitVec.ofNat 64 i)) ↔ a.toNat + 8 ≤ img.end_.toNat := by
  have hend := img.end_.isLt
  have hstart := BitVec.le_def.mp ha.1
  have hlt := BitVec.lt_def.mp ha.2
  constructor
  · intro h
    by_contra hle
    -- the byte at the end of the program
    have hi : img.end_.toNat - a.toNat < 8 := by omega
    have hbyte := BitVec.lt_def.mp (h _ hi).2
    rw [toNat_add_ofNat (by omega)] at hbyte
    omega
  · intro hle i hi
    rw [InText, BitVec.le_def, BitVec.lt_def, toNat_add_ofNat (by omega)]
    omega

/-- A byte lies in the page of the first one or in that of the last one. -/
theorem page_add {a : Addr} (ha : a.toNat + 8 ≤ 2 ^ 64) {i : ℕ} (hi : i < 8) :
    (a + BitVec.ofNat 64 i) &&& pageMask = a &&& pageMask ∨
      (a + BitVec.ofNat 64 i) &&& pageMask = (a + 7) &&& pageMask := by
  have hplace := @toNat_add_ofNat a i (by omega)
  have hlast : (a + 7).toNat = a.toNat + 7 := @toNat_add_ofNat a 7 (by omega)
  simp only [← BitVec.toNat_inj, toNat_and_pageMask, hplace, hlast, pageSize]
  omega

/-- An exchange that does not leave its page. -/
theorem page_add_seven {a : Addr} (ha : a.toNat + 8 ≤ 2 ^ 64)
    (hpage : a.toNat % pageSize + 8 ≤ pageSize) : (a + 7) &&& pageMask = a &&& pageMask := by
  have hlast : (a + 7).toNat = a.toNat + 7 := @toNat_add_ofNat a 7 (by omega)
  simp only [← BitVec.toNat_inj, toNat_and_pageMask, hlast, pageSize] at hpage ⊢
  omega

/-- The exchange at one of several places is covered when it fits. -/
theorem byteCovered_iff {places : List Addr} (hpages : ∀ page,
      .protect page ∈ log ↔ page ∈ places.map (· &&& pageMask))
    (hgranted : ∀ b ∈ places, mprotectOk (b &&& pageMask) = true) {a : Addr} (ha : a ∈ places)
    (htext : InText img a) :
    ByteCovered img mprotectOk log a ↔ ExchangeFits img mprotectOk places a := by
  have hend := img.end_.isLt
  constructor
  · intro h
    have hinside := (inText_iff htext).mp fun i hi => (h i hi).1
    obtain ⟨b, hb, hlast⟩ := List.mem_map.mp ((hpages _).mp (h 7 (by decide)).2.1)
    exact ⟨hinside, .inr ⟨b, hb, hlast⟩, hgranted a ha⟩
  · intro h i hi
    have hle : a.toNat + 8 ≤ 2 ^ 64 := by
      have hinside := h.inside
      omega
    obtain ⟨b, hb, hpage⟩ : ∃ b ∈ places,
        b &&& pageMask = (a + BitVec.ofNat 64 i) &&& pageMask := by
      rcases page_add hle hi with hfirst | hlast
      · exact ⟨a, ha, hfirst.symm⟩
      · rw [hlast]
        rcases h.page with hin | hother
        · exact ⟨a, ha, (page_add_seven hle hin).symm⟩
        · exact hother
    refine ⟨(inText_iff htext).mpr h.inside i hi, ?_, ?_⟩
    · rw [hpages, ← hpage]
      exact List.mem_map_of_mem hb
    · rw [← hpage]
      exact hgranted b hb

/-- All of them are covered when all of them fit. -/
theorem forall_byteCovered_iff {places : List Addr} (hpages : ∀ page,
      .protect page ∈ log ↔ page ∈ places.map (· &&& pageMask))
    (htext : ∀ a ∈ places, InText img a) :
    (∀ a ∈ places, ByteCovered img mprotectOk log a) ↔
      ∀ a ∈ places, ExchangeFits img mprotectOk places a := by
  constructor
  · intro h
    have hgranted : ∀ b ∈ places, mprotectOk (b &&& pageMask) = true := by
      intro b hb
      have hfirst := (h b hb 0 (by decide)).2.2
      rwa [BitVec.add_zero] at hfirst
    exact fun a ha => (byteCovered_iff hpages hgranted ha (htext a ha)).mp (h a ha)
  · intro h
    exact fun a ha =>
      (byteCovered_iff hpages (fun b hb => (h b hb).granted) ha (htext a ha)).mpr (h a ha)

/-! ## The message -/

/-- Each write is moved to its place, which is in the program. -/
theorem relocateWrite_hvabs {runtimeConstant : BitVec 64} {relocrel : BitVec 32}
    {pw pw' : XenlpPatchWrite} (h : relocateWrite img runtimeConstant relocrel pw = some pw') :
    pw'.hvabs = pw.hvabs + runtimeConstant ∧ InText img pw'.hvabs := by
  rw [relocateWrite] at h
  dsimp only at h
  rw [InText]
  split_ifs at h <;>
    (obtain rfl := Option.some.inj h
     exact ⟨rfl, by simp_all [BitVec.not_lt, BitVec.not_le]⟩)

theorem hvabs_patchData (h : (patchData img env arg s).ccode = sandboxOk) :
    (patchData img env arg s).writes.map XenlpPatchWrite.hvabs = writePlaces img arg ∧
      ∀ a ∈ writePlaces img arg, InText img a := by
  have hmoved := relocateWrites_eq_some.mp (patchData_writes h)
  rw [writePlaces]
  generalize patchData img env arg s = out at hmoved ⊢
  generalize out.writes = writes at hmoved ⊢
  generalize loadWrites arg ((XenlpApply4.load arg).writesOff sizeofXenlpApply4)
    (XenlpApply4.load arg).numwrites.toNat = sent at hmoved ⊢
  induction hmoved with
  | nil => simp
  | cons hhead _ ih =>
      obtain ⟨hplace, htext⟩ := relocateWrite_hvabs hhead
      rw [List.map_cons, List.map_cons, ih.1, ← hplace]
      exact ⟨rfl, List.forall_mem_cons.mpr ⟨htext, ih.2⟩⟩

/-- The accesses of a message that is applied. -/
theorem log_apply (hacc : Accepted env arg s) :
    ∃ front, (∀ x ∈ front, x.Plain) ∧ (xenlpApply4 img env arg s).log =
      front ++ makeTextWriteable (patchData img env arg s).writes ++
        exchanges (patchData img env arg s).writes := by
  have hplain := plain_log_patchData (ccode_patchData_iff.mpr hacc.1.2)
  refine ⟨_, fun x hx => ?_, (Outcome.eq_mk (xenlpApply4_of_accepted hacc)).2.2⟩
  rcases List.mem_append.mp hx with hx | hx
  · rcases List.mem_cons.mp hx with rfl | hx
    · exact True.intro
    · exact hplain x hx
  · rw [tagMessages] at hx
    split_ifs at hx
    · cases List.mem_singleton.mp hx
      exact True.intro
    · exact absurd hx List.not_mem_nil

/-- Its exchanges are covered when they fit. -/
theorem covered_apply_iff (hacc : Accepted env arg s) :
    Covered img mprotectOk [] (xenlpApply4 img env arg s).log ↔
      ∀ a ∈ writePlaces img arg, ExchangeFits img mprotectOk (writePlaces img arg) a := by
  obtain ⟨hplaces, htext⟩ := hvabs_patchData (ccode_patchData_iff.mpr hacc.1.2)
  obtain ⟨front, hplain, hlog⟩ := log_apply hacc
  rw [hlog]
  generalize (patchData img env arg s).writes = writes at hplaces
  have hexchange : ∀ a, .exchange a ∉ front ++ makeTextWriteable writes := by
    intro a ha
    rcases List.mem_append.mp ha with ha | ha
    · exact hplain _ ha
    · simp [makeTextWriteable] at ha
  have hpages : ∀ page, .protect page ∈ front ++ makeTextWriteable writes ↔
      page ∈ (writePlaces img arg).map (· &&& pageMask) := by
    intro page
    rw [protect_mem_iff hplain, hplaces]
  rw [covered_append_exchanges hexchange, List.nil_append, ← forall_byteCovered_iff hpages htext,
    ← hplaces, List.forall_mem_map]

/-- The undo exchanges the same bytes, in pages that are writable by then. -/
theorem covered_undo (hacc : Accepted env arg s)
    (h : ∀ a ∈ writePlaces img arg, ExchangeFits img mprotectOk (writePlaces img arg) a)
    {arg' : ℕ → Byte} {s' : Sandbox} {newer older : List AppliedPatch}
    (hundo : undoTarget arg' s' = some (newer, insertedPatch img env arg s, older)) :
    Covered img mprotectOk (xenlpApply4 img env arg s).log (xenlpUndo4 arg' s').log := by
  obtain ⟨hplaces, htext⟩ := hvabs_patchData (ccode_patchData_iff.mpr hacc.1.2)
  have hundone := (Outcome.eq_mk (xenlpUndo4_of_some hundo)).2.2
  obtain ⟨front, hplain, hlog⟩ := log_apply hacc
  have hsaved : (insertedPatch img env arg s).writes.map XenlpPatchWrite.hvabs =
      writePlaces img arg := by
    rw [insertedPatch, writes_newPatch, hvabs_swapTrampolines, hplaces]
  rw [hundone, hlog]
  generalize (insertedPatch img env arg s).writes = saved at hsaved
  generalize (patchData img env arg s).writes = writes at hplaces
  have hexchange : ∀ a, .exchange a ∉ [Access.message 0 sizeofXenlpHash] := by simp
  have hpages : ∀ page, .protect page ∈ front ++ makeTextWriteable writes ++ exchanges writes ++
      [.message 0 sizeofXenlpHash] ↔ page ∈ (writePlaces img arg).map (· &&& pageMask) := by
    intro page
    have hbehind : .protect page ∉ exchanges writes ++ [.message 0 sizeofXenlpHash] := by
      simp [exchanges]
    rw [List.append_assoc, List.mem_append, or_iff_left hbehind, protect_mem_iff hplain, hplaces]
  have hall := (forall_byteCovered_iff hpages htext).mpr h
  rw [← hsaved, List.forall_mem_map] at hall
  exact (covered_append_exchanges hexchange).mpr hall

/-- **The exchanges of an accepted message** are covered, when it is applied and when it is undone,
exactly when each of them fits. One with dependencies has none. -/
theorem exchangesCovered_iff (mprotectOk : Addr → Bool) (env : ApplyEnv img) (arg : ℕ → Byte)
    (s : Sandbox) (hcode : (xenlpApply4 img env arg s).ccode = sandboxOk) :
    ExchangesCovered img mprotectOk env arg s ↔ (XenlpApply4.load arg).numdeps ≠ 0 ∨
      ∀ a ∈ writePlaces img arg, ExchangeFits img mprotectOk (writePlaces img arg) a := by
  have hread := xenlpApply4_ccode_iff.mp hcode
  by_cases hdeps : (XenlpApply4.load arg).numdeps = 0
  · have hacc : Accepted env arg s := ⟨hread, hdeps⟩
    have hiff := @covered_apply_iff img env arg s mprotectOk hacc
    constructor
    · intro h
      exact .inr (hiff.mp h.1)
    · intro h
      have hfits := h.resolve_left (not_not.mpr hdeps)
      exact ⟨hiff.mpr hfits, fun _ _ _ _ _ => covered_undo hacc hfits⟩
  · refine iff_of_true ⟨covered_of_plain ?_, fun h => absurd h hdeps⟩ (.inl hdeps)
    have hlog := (Outcome.eq_mk (xenlpApply4_of_deps hread hdeps)).2.2
    have hplain := plain_log_patchData (ccode_patchData_iff.mpr hread.2)
    rw [hlog]
    exact List.forall_mem_cons.mpr ⟨True.intro, hplain⟩

/-- A message with one write, at the given place of a program that was not moved. -/
def placedMessage (a : Addr) : ℕ → Byte :=
  fromList (messageOf 0x400000 (List.replicate 8 1) [] { sampleWrite with hvabs := a }) fun _ => 0

theorem exchangesCovered_iff_inPage :
    let s := Sandbox.init (fun _ => 0) fun _ => 0
    (xenlpApply4 sampleImage sampleEnv (placedMessage 0x401ff8) s).ccode = sandboxOk ∧
      ExchangesCovered sampleImage (fun _ => true) sampleEnv (placedMessage 0x401ff8) s := by
  intro s
  have hcode : (xenlpApply4 sampleImage sampleEnv (placedMessage 0x401ff8) s).ccode = sandboxOk := by
    decide +kernel
  have hplaces : writePlaces sampleImage (placedMessage 0x401ff8) = [0x401ff8] := by decide +kernel
  refine ⟨hcode, (exchangesCovered_iff (fun _ => true) sampleEnv _ s hcode).mpr (.inr ?_)⟩
  rw [hplaces]
  exact List.forall_mem_singleton.mpr ⟨by decide, .inl (by decide), rfl⟩

/-- The exchange at `0x401ffc` goes on in a page that was not made writable, and the one at
`0x4ffffc` behind the program. -/
theorem exchange_not_covered :
    let s := Sandbox.init (fun _ => 0) fun _ => 0
    ((xenlpApply4 sampleImage sampleEnv (placedMessage 0x401ffc) s).ccode = sandboxOk ∧
        ¬ExchangesCovered sampleImage (fun _ => true) sampleEnv (placedMessage 0x401ffc) s) ∧
      (xenlpApply4 sampleImage sampleEnv (placedMessage 0x4ffffc) s).ccode = sandboxOk ∧
        ¬ExchangesCovered sampleImage (fun _ => true) sampleEnv (placedMessage 0x4ffffc) s := by
  intro s
  have hacc : Accepted sampleEnv (placedMessage 0x401ffc) s := by decide +kernel
  have hplaces : writePlaces sampleImage (placedMessage 0x401ffc) = [0x401ffc] := by decide +kernel
  have hacc' : Accepted sampleEnv (placedMessage 0x4ffffc) s := by decide +kernel
  have hplaces' : writePlaces sampleImage (placedMessage 0x4ffffc) = [0x4ffffc] := by
    decide +kernel
  refine ⟨⟨xenlpApply4_ccode_iff.mpr hacc.1, fun h => ?_⟩,
    xenlpApply4_ccode_iff.mpr hacc'.1, fun h => ?_⟩
  · have hfits := (covered_apply_iff hacc).mp h.1
    rw [hplaces, List.forall_mem_singleton] at hfits
    rcases hfits.page with hin | ⟨b, hb, hpage⟩
    · exact absurd hin (by decide)
    · rw [List.mem_singleton.mp hb] at hpage
      exact absurd hpage (by decide)
  · have hfits := (covered_apply_iff hacc').mp h.1
    rw [hplaces', List.forall_mem_singleton] at hfits
    exact absurd hfits.inside (by decide)

end Patchbox
