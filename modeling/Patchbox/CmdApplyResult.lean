import Patchbox.CmdApplyRules

/-!
# What `cmd_apply` has done when it returns 0

The server answers `SANDBOX_OK` to a message with dependencies and applies nothing, and it refuses
the older message of such a patch. So when both passes have succeeded, the first one has applied
the patch and the second one has found it.

## Main definitions

* `list_of_message4`, `deps_of_message3` — what the library does with the two messages.
* `Patch.Suits` — the checks of the command.
* `KeptByNew`, `FirstPass` — what is kept, and what the first pass leaves.
* `applied_of_cmdApply` — what a return of 0 means.
-/

namespace Patchbox
open Lib

variable {img : Image}

/-! ## What the library does with the messages -/

section Messages

variable {p : Patch} {deps : ListOf Dependency p.deps.1.length} {env : ApplyEnv img}
  {arg : ℕ → Byte} {beyond : ℕ → Byte} {s s' : Sandbox}

theorem deps_adjusted : (p.adjusted deps).deps.1 = deps.1 := rfl

@[simp] theorem length_blob_adjusted : (p.adjusted deps).blob.1.length = p.blob.1.length :=
  length_adjustBlob _ _ _

theorem deps_adjusted_eq_nil : (p.adjusted deps).deps.1 = [] ↔ p.deps.1 = [] := by
  rw [deps_adjusted, ← List.length_eq_zero_iff, deps.2, List.length_eq_zero_iff]

theorem length_patchWrites : (patchWrites p).length = p.funcs.1.length := List.length_map _

/-- A message of a patch that was loaded is shorter than 4 GiB. -/
theorem length_message_lt (hblob : p.blob.1.length < 2 ^ 31) :
    sandboxMsgHdrlen + (p.message fillPatchBuf4).length < 2 ^ 32 ∧
      sandboxMsgHdrlen + (p.message fillPatchBuf3).length < 2 ^ 32 := by
  have htags : (p.tags.1.take p.taglen).length ≤ 127 :=
    (List.length_take_le _ _).trans (taglen_le p)
  have hrelocs := p.relocs.2
  have hfuncs := p.funcs.2
  have hex := p.exctblents.2
  have hpre := p.preexctblents.2
  have hdeps := p.deps.2
  have hexct : ∀ e : ExctblEntry, e.store.length = 8 := fun e => by simp [ExctblEntry.store]
  have hhash : ∀ d : Dependency, (storeHash d.sha1).length = 24 := fun d => by simp [storeHash]
  simp only [Patch.message, fillPatchBuf4, fillPatchBuf3, Patch.sections, List.flatten_cons,
    List.flatten_nil, List.length_append, List.length_nil, XenlpApply4.length_store,
    XenlpApply3.length_store, length_flatMap_const length_storeReloc,
    length_flatMap_const XenlpPatchWrite.length_store, length_flatMap_const hexct,
    length_flatMap_const hhash, length_patchWrites, sandboxMsgHdrlen, sizeofXenlpApply4,
    sizeofXenlpApply3, sizeofXenlpPatchWrite]
  omega

theorem load_message4 :
    XenlpApply4.load (fromList (p.message fillPatchBuf4) beyond) = p.header (patchWrites p) :=
  load_fillPatchBuf4 p (patchWrites p) beyond

theorem load_message3 : ∃ behind, XenlpApply4.load (fromList (p.message fillPatchBuf3) beyond) =
    (p.header3 (patchWrites p)).asApply4 behind :=
  load_fillPatchBuf3 p (patchWrites p) beyond

theorem blob_lt_sent (hblob : p.blob.1.length < 2 ^ 31) (s : Sandbox) :
    (p.sent s).blob.1.length < 2 ^ 31 := by
  rw [Patch.sent, length_blob_adjusted]
  exact hblob

/-- Both messages carry the hash of the patch. -/
theorem sha1_load_message :
    (XenlpApply4.load (fromList (p.message fillPatchBuf4) beyond)).sha1 = p.sha1 ∧
      (XenlpApply4.load (fromList (p.message fillPatchBuf3) beyond)).sha1 = p.sha1 := by
  obtain ⟨behind, hload⟩ := @load_message3 p beyond
  rw [load_message4, hload]
  exact ⟨rfl, rfl⟩

/-- A message changes the list by one patch at most, which has its hash. -/
theorem list_of_apply (h : s' = (xenlpApply4 img env arg s).sandbox) :
    s'.lpPatchHead = s.lpPatchHead ∨ ∃ patch, patch.sha1 = (XenlpApply4.load arg).sha1 ∧
      s'.lpPatchHead = patch :: s.lpPatchHead := by
  by_cases hacc : Accepted env arg s
  · have hlist := Sandbox.list_eq (Outcome.eq_mk (xenlpApply4_of_accepted hacc)).2.1
    exact .inr ⟨insertedPatch img env arg s, by rw [insertedPatch, sha1_newPatch], h ▸ hlist⟩
  · obtain ⟨ccode, maps, log, heq⟩ := xenlpApply4_of_not_accepted hacc
    have hlist := Sandbox.list_eq (Outcome.eq_mk heq).2.1
    exact .inl (h ▸ hlist)

/-- **The newer message** is applied when it is answered `SANDBOX_OK` and has no dependencies. With
dependencies nothing is applied. -/
theorem list_of_message4
    (hcode : (xenlpApply4 img env (fromList (p.message fillPatchBuf4) beyond) s).ccode = sandboxOk)
    (hs' : s' = (xenlpApply4 img env (fromList (p.message fillPatchBuf4) beyond) s).sandbox) :
    (p.deps.1 = [] → Applied s' p.sha1) ∧ (p.deps.1 ≠ [] → s'.lpPatchHead = s.lpPatchHead) := by
  have hload := @load_message4 p beyond
  have hread := xenlpApply4_ccode_iff.mp hcode
  generalize fromList (p.message fillPatchBuf4) beyond = arg at *
  constructor
  · intro hdeps
    have hacc : Accepted env arg s := ⟨hread, by rw [hload]; exact numdeps_header_eq_zero.mpr hdeps⟩
    have hlist := Sandbox.list_eq (Outcome.eq_mk (xenlpApply4_of_accepted hacc)).2.1
    rw [← hs'] at hlist
    refine ⟨insertedPatch img env arg s, hlist ▸ List.mem_cons_self, ?_⟩
    rw [insertedPatch, sha1_newPatch, hload, Patch.header]
  · intro hdeps
    have hacc : ¬Accepted env arg s := fun hacc =>
      hdeps (numdeps_header_eq_zero.mp (hload ▸ hacc.2))
    obtain ⟨ccode, maps, log, heq⟩ := xenlpApply4_of_not_accepted hacc
    have hlist := Sandbox.list_eq (Outcome.eq_mk heq).2.1
    exact hs' ▸ hlist

/-- **The older message** is refused when the patch has dependencies: their number stands where
the server looks for that of the exception tables. -/
theorem deps_of_message3
    (hcode : (xenlpApply4 img env (fromList (p.message fillPatchBuf3) beyond) s).ccode = sandboxOk) :
    p.deps.1 = [] := by
  have hread := xenlpApply4_ccode_iff.mp hcode
  obtain ⟨behind, hload⟩ := @load_message3 p beyond
  obtain ⟨-, -, -, hpre⟩ := hread.1.1
  rw [hload] at hpre
  exact (@numdeps_header_eq_zero p (patchWrites p)).mp hpre

end Messages

/-! ## The whole command -/

section Whole

variable {info : List Byte} {ok : Sandbox → Prop}
  {inv : Sandbox → List (ClientRequest ⊕ ℕ) → Prop} {s : Sandbox} {l : Link}
  {tr : List (ClientRequest ⊕ ℕ)} {p : Patch}

/-- What the command checks before it goes on with a patch. -/
structure Patch.Suits (p : Patch) (strings : List (List Byte)) : Prop where
  version_ne : infoString strings infoVerIndex ≠ []
  date_ne : infoString strings infoDateIndex ≠ []
  version : StrncmpEq (infoString strings infoVerIndex) p.xenversion.toList infoExtractLen
  date : StrncmpEq (infoString strings infoDateIndex) p.xencompiledate.toList infoExtractLen
  crowbarabs : p.crowbarabs = 0
  checks : p.checks.count = 0
  tables : p.tables.count = 0

theorem safe_checkAndApply {strings : List (List Byte)}
    {post : Int → Sandbox → Link → List (ClientRequest ⊕ ℕ) → Prop}
    (herr : ∀ b s l tr, b ≠ 0 → post b s l tr)
    (hgo : p.Suits strings →
      (applyWithCaps (doLpCaps 0) p).Safe (sandboxService img info) ok inv post s l tr) :
    (checkAndApply p strings).Safe (sandboxService img info) ok inv post s l tr := by
  rw [checkAndApply]
  split_ifs with hempty hversion hcrowbar hchecks htables
  · exact herr _ _ _ _ (by decide)
  · exact herr _ _ _ _ (by decide)
  · exact herr _ _ _ _ (by decide)
  · exact herr _ _ _ _ (by decide)
  · exact herr _ _ _ _ (by decide)
  · obtain ⟨hver, hdate⟩ := not_or.mp hempty
    obtain ⟨hver', hdate'⟩ := not_or.mp hversion
    exact hgo ⟨hver, hdate, not_not.mp hver', not_not.mp hdate', not_not.mp hcrowbar,
      not_not.mp hchecks, not_not.mp htables⟩

/-- Both capabilities are set. -/
theorem applyWithCaps_eq (p : Patch) : applyWithCaps (doLpCaps 0) p =
    (cmdApply4 p).bind fun r => r.elim (.done (-1)) fun p' =>
      (cmdApply3 p').bind fun r => r.elim (.done (-1)) fun _ => .done 0 := by
  rw [applyWithCaps, if_pos (by decide)]
  congr
  funext r
  cases r with
  | none => rfl
  | some p' =>
      dsimp only
      rw [if_pos (by decide), Option.elim_some]
      congr
      funext r
      cases r <;> rfl

/-- **The two passes.** What the first one leaves is what the second one starts from. -/
theorem safe_applyWithCaps {mid : Patch → Sandbox → Link → List (ClientRequest ⊕ ℕ) → Prop}
    {post : Int → Sandbox → Link → List (ClientRequest ⊕ ℕ) → Prop}
    (herr : ∀ b s l tr, b ≠ 0 → post b s l tr)
    (hfirst : (cmdApply4 p).Safe (sandboxService img info) ok inv
      (fun r s l tr => ∀ p', r = some p' → mid p' s l tr) s l tr)
    (hsecond : ∀ p' s l tr, mid p' s l tr → (cmdApply3 p').Safe (sandboxService img info) ok inv
      (fun r s l tr => r ≠ none → post 0 s l tr) s l tr) :
    (applyWithCaps (doLpCaps 0) p).Safe (sandboxService img info) ok inv post s l tr := by
  rw [applyWithCaps_eq]
  refine hfirst.bind fun r s l tr hmid => ?_
  cases r with
  | none => exact herr _ _ _ _ (by decide)
  | some p' =>
      refine (hsecond p' s l tr (hmid p' rfl)).bind fun r s l tr hpost => ?_
      cases r with
      | none => exact herr _ _ _ _ (by decide)
      | some p'' => exact hpost (Option.some_ne_none _)

/-- The command on a file that is loaded. -/
theorem cmdApply_of_load {hash : List Byte → Bytes shaDigestLength} {filename f : List Byte}
    (hload : loadPatchFile hash filename f = some p) :
    cmdApply hash filename (some f) = (infoCheck []).bind fun strings =>
      (infoCheck strings).bind fun strings => checkAndApply p strings := by
  rw [cmdApply, Option.bind_some, hload]

/-- What it does there. -/
theorem safe_cmdApply {hash : List Byte → Bytes shaDigestLength} {filename f : List Byte}
    (hload : loadPatchFile hash filename f = some p)
    {post : Int → Sandbox → Link → List (ClientRequest ⊕ ℕ) → Prop} (hclean : l.Clean)
    (hinv : ∀ n, inv s (tr ++ builds n)) (herr : ∀ b s l tr, b ≠ 0 → post b s l tr)
    (hgo : ∀ l' n, l'.Clean → l'.left + 1 ≤ l.left →
      p.Suits (infoStrings (buildInfoBuffer info)) →
        (applyWithCaps (doLpCaps 0) p).Safe (sandboxService img info) ok inv post s l'
          (tr ++ builds n)) :
    (cmdApply hash filename (some f)).Safe (sandboxService img info) ok inv post s l tr := by
  rw [cmdApply_of_load hload]
  refine safe_infoChecks hclean hinv (fun l' tr' => ?_) fun l' n hclean' hleft => ?_
  · exact safe_checkAndApply herr fun hsuits => absurd rfl hsuits.version_ne
  · exact safe_checkAndApply herr (hgo l' n hclean' hleft)

/-- A property of the server that a patch with a new hash does not break. -/
structure KeptByNew (Q : Sandbox → Prop) : Prop where
  same : ∀ {s s'}, s'.lpPatchHead = s.lpPatchHead → Q s → Q s'
  new : ∀ {s s'} patch, s'.lpPatchHead = patch :: s.lpPatchHead → ¬Applied s patch.sha1 →
    Q s → Q s'

/-- What the first pass leaves: the same patch, which is live unless it has dependencies. -/
structure FirstPass (Q : Sandbox → Prop) (p p' : Patch) (s : Sandbox) (l : Link) : Prop where
  clean : l.Clean
  kept : Q s
  sha1_eq : p'.sha1 = p.sha1
  blob_lt : p'.blob.1.length < 2 ^ 31
  live : p'.deps.1 = [] → Applied s p.sha1

variable {Q : Sandbox → Prop}

/-- A message of a patch that is not live keeps the property. -/
theorem KeptByNew.apply (hQ : KeptByNew Q) {s s' : Sandbox} {buf : List Byte}
    {sha1 : Bytes shaDigestLength}
    (hsha1 : ∀ beyond, (XenlpApply4.load (fromList buf beyond)).sha1 = sha1)
    (hnew : ¬Applied s sha1) (hq : Q s)
    (h : s' = s ∨ ∃ env beyond, s' = (xenlpApply4 img env (fromList buf beyond) s).sandbox) :
    Q s' := by
  rcases h with rfl | ⟨env, beyond, hs'⟩
  · exact hq
  · rcases list_of_apply hs' with hlist | ⟨patch, hpatch, hlist⟩
    · exact hQ.same hlist hq
    · exact hQ.new patch hlist (by rwa [hpatch, hsha1]) hq

theorem safe_cmdApply4 (hQ : KeptByNew Q) (hq : Q s) (hclean : l.Clean)
    (hblob : p.blob.1.length < 2 ^ 31) :
    (cmdApply4 p).Safe (sandboxService img info) ok (fun s _ => Q s)
      (fun r s l _ => ∀ p', r = some p' → FirstPass Q p p' s l) s l tr := by
  have hlen := (length_message_lt (blob_lt_sent hblob s)).1
  have happly : Searched s p → ∀ s', (s' = s ∨ ∃ env beyond, s' =
      (xenlpApply4 img env (fromList ((p.sent s).message fillPatchBuf4) beyond) s).sandbox) →
        Q s' := fun hsearched s' =>
    hQ.apply (fun beyond => sha1_load_message.1) hsearched.new hq
  refine safe_applyPatch hclean rfl hlen (fun _ => hq) (fun _ _ _ _ _ => hq)
    (fun hsearched _ _ => happly hsearched) (fun _ _ _ _ h => by cases h)
    (fun l' hclean' _ happlied p' h => ?_)
    fun env beyond s' l' hsearched hcode hs' _ _ hclean' _ p' h => ?_
  · obtain rfl := Option.some.inj h
    exact ⟨hclean', hq, rfl, hblob, fun _ => happlied⟩
  · obtain rfl := Option.some.inj h
    exact ⟨hclean', happly hsearched s' (.inr ⟨env, beyond, hs'⟩), rfl, blob_lt_sent hblob s,
      (list_of_message4 hcode hs').1⟩

theorem safe_cmdApply3 (hQ : KeptByNew Q) {p' : Patch} (h : FirstPass Q p p' s l) :
    (cmdApply3 p').Safe (sandboxService img info) ok (fun s _ => Q s)
      (fun r s _ _ => r ≠ none → Applied s p.sha1) s l tr := by
  rw [cmdApply3]
  split_ifs with hexct
  · exact fun hr => absurd rfl hr
  · have hlen := (length_message_lt (blob_lt_sent h.blob_lt s)).2
    refine safe_applyPatch h.clean rfl hlen (fun _ => h.kept) (fun _ _ _ _ _ => h.kept)
      (fun hsearched _ _ s' => hQ.apply (fun beyond => sha1_load_message.2) hsearched.new h.kept)
      (fun _ _ _ hr => absurd rfl hr) (fun l' _ _ happlied _ => ?_)
      fun env beyond s' l' hsearched hcode _ _ _ _ _ _ => ?_
    · exact h.sha1_eq ▸ happlied
    · have hdeps := deps_adjusted_eq_nil.mp (deps_of_message3 hcode)
      exact absurd (h.sha1_eq ▸ h.live hdeps) hsearched.new

/-- **The command** keeps the property at each of its requests, and the patch is live when it
returns 0. -/
theorem safe_of_keptByNew (hQ : KeptByNew Q) (hq : Q s) (hclean : l.Clean)
    (hash : List Byte → Bytes shaDigestLength) (filename : List Byte) {f : List Byte}
    (hload : loadPatchFile hash filename f = some p) :
    (cmdApply hash filename (some f)).Safe (sandboxService img info) ok (fun s _ => Q s)
      (fun b s' _ _ => b = 0 → Applied s' p.sha1) s l [] := by
  have hblob := blob_lt_of_loadPatchFile hash hload
  refine safe_cmdApply hload hclean (fun _ => hq) (fun _ _ _ _ hb h => absurd h hb)
    fun l' n hclean' _ _ => ?_
  refine @safe_applyWithCaps img info _ _ _ _ _ _ (fun p' s l _ => FirstPass Q p p' s l) _
    (fun _ _ _ _ hb h => absurd h hb) (safe_cmdApply4 hQ hq hclean' hblob) fun p' s l tr hmid => ?_
  exact (safe_cmdApply3 hQ hmid).mono fun r s l tr hr hne _ => hr hne

/-- **When the command returns 0, the patch is live.** -/
theorem applied_of_cmdApply (hash : List Byte → Bytes shaDigestLength) (filename f : List Byte)
    (p : Patch) (hload : loadPatchFile hash filename f = some p) (info : List Byte)
    (env : ℕ → SystemEnv img info) (s s' : Sandbox) (l l' : Link) (hclean : l.Clean)
    (hret : ((cmdApply hash filename (some f)).run (sandboxService img info) env s l).2 =
      some (0, s', l')) : Applied s' p.sha1 := by
  have hQ : KeptByNew fun _ => True := ⟨fun _ _ => trivial, fun _ _ _ _ => trivial⟩
  have hsafe := @safe_of_keptByNew img info (fun _ => True) s l p (fun _ => True) hQ trivial hclean
    hash filename f hload
  exact (hsafe.run (fun _ => trivial) trivial env).2 0 s' l' hret rfl

/-- A build's five lines, the last of which are the date and the version of `storedPatch`. -/
def sampleInfo : List Byte :=
  [0x67, 0x0a, 0x63, 0x0a, 0x66, 0x0a] ++ List.replicate 32 0x32 ++ [0x0a] ++ List.replicate 32 0x31

/-- Nothing is refused. -/
def sampleSystemEnv : SystemEnv sampleImage sampleInfo :=
  ⟨⟨true, { sampleServeEnv with buildInfo := sampleInfo }, sampleServeEnv⟩, rfl⟩

theorem applied_of_cmdApply_storedPatch :
    let hash : List Byte → Bytes shaDigestLength := fun l _ => l.headD 0
    ∃ s' l', ((cmdApply hash [] (some (storedPatch.encode hash))).run
        (sandboxService sampleImage sampleInfo) (fun _ => sampleSystemEnv)
        (Sandbox.init (fun _ => 0) fun _ => 0) Link.fresh).2 = some (0, s', l') ∧
      Applied s' (storedPatch.loaded hash).sha1 := by
  intro hash
  have hload := @loadPatchFile_of_encode hash [] storedPatch (.inr (.inl rfl))
    ⟨by decide, by decide⟩
  have hcode : ((cmdApply hash [] (some (storedPatch.encode hash))).run
      (sandboxService sampleImage sampleInfo) (fun _ => sampleSystemEnv)
      (Sandbox.init (fun _ => 0) fun _ => 0) Link.fresh).2.map Prod.fst = some 0 := by
    rw [cmdApply_of_load hload]
    decide +kernel
  obtain ⟨⟨b, s', l'⟩, hrun, hb⟩ := Option.map_eq_some_iff.mp hcode
  obtain rfl : b = 0 := hb
  exact ⟨s', l', hrun,
    applied_of_cmdApply hash [] _ _ hload sampleInfo _ _ s' _ l' Link.clean_fresh hrun⟩

end Whole

end Patchbox
