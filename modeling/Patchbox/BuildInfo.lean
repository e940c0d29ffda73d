import Patchbox.Lib.Lines
import Patchbox.ListReply

/-!
# The strings of the build information

The server writes seven strings on a line each into a buffer of 512 bytes. The client takes the
lines apart again, and a line that is empty is none for it. What it takes for the version and for
the date of compilation stands at fixed places among those it has found.

## Main definitions

* `BuildStrings` — the strings that the server was built with, and their text.
* `getInfoStatus`, `stringsAfter` — what `get_info_strings` returns and leaves.
* `infoAgrees_iff` — when the client has the version and the date of the server, or an error.
-/

namespace Patchbox
open Lib

variable {img : Image}

/-! ## The strings -/

/-- A C string on one line. -/
abbrev InfoString := {s : List Byte // ∀ b ∈ s, b ≠ 0 ∧ b ≠ 0x0a}

/-- The strings that `dispatch_getbld` prints; `version` is the three numbers as printed. -/
structure BuildStrings where
  gitRevision : InfoString
  compiled : InfoString
  ccflags : InfoString
  compiledDate : InfoString
  version : InfoString
  comment : InfoString
  sha1 : InfoString

/-- The strings, in the order of their lines. -/
def BuildStrings.lines (b : BuildStrings) : List (List Byte) :=
  [b.gitRevision.1, b.compiled.1, b.ccflags.1, b.compiledDate.1, b.version.1, b.comment.1, b.sha1.1]

/-- What `dispatch_getbld` formats. -/
def BuildStrings.text (b : BuildStrings) : List Byte := unlines 0x0a b.lines

/-- What `get_info_strings` returns, given what `get_sandbox_build_info` returns. -/
def getInfoStatus (infoBuf : Option (List Byte)) : Int :=
  match infoBuf with
  | none => sandboxErrRw
  | some buf =>
    if (infoStrings buf).length < countInfoStrings - 1 then sandboxErrParse else sandboxOk

/-- `info_strings` behind it. -/
def stringsAfter (strings : List (List Byte)) (infoBuf : Option (List Byte)) : List (List Byte) :=
  match infoBuf with
  | none => strings
  | some buf => infoStrings buf ++ strings.drop (infoStrings buf).length

/-- `get_info_strings` on a connection: the status, and `info_strings`. -/
def getInfoStringsOn (e : ExchangeEnv img) (s : Sandbox) (l : Link) (strings : List (List Byte)) :
    Option (Int × List (List Byte)) :=
  (exchange e s l .getBld).2.2.map fun ans => (getInfoStatus ans.buf, stringsAfter strings ans.buf)

/-- The client has the version and the date of the server, as far as it looks at them. -/
def BuildStrings.AgreesWith (b : BuildStrings) (strings : List (List Byte)) : Prop :=
  StrncmpEq (infoString strings infoVerIndex) b.version.1 infoExtractLen ∧
    StrncmpEq (infoString strings infoDateIndex) b.compiledDate.1 infoExtractLen

/-! ## What the client finds -/

/-- The strings as far as the buffer has room for their text. -/
def BuildStrings.begun (b : BuildStrings) : List (List Byte) :=
  (cutLines (sandboxMsgBldBufsize - 1) b.lines).filter (· ≠ [])

theorem BuildStrings.of_mem_lines {b : BuildStrings} {l : List Byte} (h : l ∈ b.lines) :
    ∀ c ∈ l, c ≠ 0 ∧ c ≠ 0x0a := by
  simp only [lines, List.mem_cons, List.not_mem_nil, or_false] at h
  rcases h with rfl | rfl | rfl | rfl | rfl | rfl | rfl
  · exact b.gitRevision.2
  · exact b.compiled.2
  · exact b.ccflags.2
  · exact b.compiledDate.2
  · exact b.version.2
  · exact b.comment.2
  · exact b.sha1.2

theorem BuildStrings.ne_zero_of_mem_text {b : BuildStrings} {c : Byte} (h : c ∈ b.text) : c ≠ 0 := by
  rw [text, unlines, List.mem_flatMap] at h
  obtain ⟨l, hl, hc⟩ := h
  rcases List.mem_append.mp hc with hc | hc
  · exact (of_mem_lines hl c hc).1
  · rw [List.mem_singleton] at hc
    rw [hc]
    decide

/-- The client finds the strings that have begun and are not empty. -/
theorem infoStrings_text (b : BuildStrings) :
    infoStrings (buildInfoBuffer b.text) = b.begun.map (List.take infoStringLen) := by
  have hbuf : buildInfoBuffer b.text = b.text.take (sandboxMsgBldBufsize - 1) := by
    rw [buildInfoBuffer]
    exact congrArg _ (cstring_of_forall fun c hc => BuildStrings.ne_zero_of_mem_text hc)
  have hcstring : cstring (b.text.take (sandboxMsgBldBufsize - 1)) =
      b.text.take (sandboxMsgBldBufsize - 1) :=
    cstring_of_forall fun c hc => BuildStrings.ne_zero_of_mem_text (List.mem_of_mem_take hc)
  have htokens : strtok (b.text.take (sandboxMsgBldBufsize - 1)) = b.begun := by
    refine tokens_take_unlines (fun l hl hmem => ?_) _
    exact (BuildStrings.of_mem_lines hl _ hmem).2 rfl
  have hcount : b.begun.length ≤ countInfoStrings := by
    refine (List.length_filter_le _ _).trans ?_
    rw [length_cutLines]
    rfl
  rw [infoStrings, hbuf, hcstring, htokens, List.take_of_length_le hcount]

/-! ## Which strings stand where -/

/-- The five strings up to the version. -/
def BuildStrings.front (b : BuildStrings) : List (List Byte) :=
  [b.gitRevision.1, b.compiled.1, b.ccflags.1, b.compiledDate.1, b.version.1]

variable {b : BuildStrings} {old : List (List Byte)}

/-- With six strings found, the text goes beyond the first five. -/
theorem BuildStrings.begun_of_six_le (h : countInfoStrings - 1 ≤ b.begun.length) :
    ∃ m s, b.begun = (b.front ++ [m, s]).filter (· ≠ []) ∧ (s ≠ [] → m = b.comment.1) := by
  have hlines : b.lines = b.front ++ [b.comment.1, b.sha1.1] := rfl
  rcases Nat.le_total (linesLength b.front) (sandboxMsgBldBufsize - 1) with hle | hle
  · rw [begun, hlines, cutLines_append_of_le hle]
    refine ⟨_, _, rfl, fun hs => ?_⟩
    refine List.take_of_length_le (Nat.le_of_not_lt fun hlt => hs ?_)
    rw [Nat.sub_eq_zero_of_le (by omega), List.take_zero]
  · -- nothing is left for the last two
    have hnone : (cutLines 0 [b.comment.1, b.sha1.1]).filter (· ≠ []) = [] := by
      refine List.filter_eq_nil_iff.mpr fun l hl => ?_
      simp [eq_nil_of_mem_cutLines_zero hl]
    rw [begun, hlines, cutLines_append, Nat.sub_eq_zero_of_le hle, List.filter_append, hnone,
      List.append_nil] at h
    have hfive := h.trans (List.length_filter_le _ _)
    rw [length_cutLines] at hfive
    cases (by decide : ¬countInfoStrings - 1 ≤ 5) hfive

/-- All of them are found in their places when the first five are there. -/
theorem BuildStrings.begun_of_front (h : countInfoStrings - 1 ≤ b.begun.length)
    (hfront : ∀ s ∈ b.front, s ≠ []) : ∃ rest, b.begun = b.front ++ rest := by
  obtain ⟨m, s, hbegun, -⟩ := begun_of_six_le h
  rw [hbegun, List.filter_append, List.filter_eq_self.mpr fun s hs => decide_eq_true (hfront s hs)]
  exact ⟨_, rfl⟩

/-- One that is empty is passed over, and all others are there. -/
theorem BuildStrings.begun_of_missing (h : countInfoStrings - 1 ≤ b.begun.length)
    (ls ls' : List (List Byte)) (hfront : b.front = ls ++ [] :: ls') :
    ∃ s, b.begun = ls ++ (ls' ++ [b.comment.1, s]) ∧
      ∀ l ∈ ls ++ (ls' ++ [b.comment.1, s]), l ≠ [] := by
  obtain ⟨m, s, hbegun, hcomment⟩ := begun_of_six_le h
  have hfive : ls.length + (ls'.length + 1) = 5 := by
    have hlen := congrArg List.length hfront
    rw [List.length_append, List.length_cons] at hlen
    exact hlen.symm
  rw [hfront, List.append_assoc, List.cons_append] at hbegun
  have hsix : (ls ++ (ls' ++ [m, s])).length ≤ b.begun.length := by
    refine le_trans (le_of_eq ?_) h
    simp only [List.length_append, List.length_cons, List.length_nil, countInfoStrings]
    omega
  rw [hbegun] at hsix
  obtain ⟨hfilter, hall⟩ := filter_of_missing (by simp) hsix
  have hne : ∀ l ∈ ls ++ (ls' ++ [m, s]), l ≠ [] := fun l hl => by simpa using hall l hl
  obtain rfl := hcomment (hne s (by simp))
  exact ⟨s, hbegun.trans hfilter, hne⟩

/-- A string that was found stands at its place, cut off after 255 bytes. -/
theorem infoString_stringsAfter {i : ℕ} {s : List Byte} (h : b.begun[i]? = some s) :
    infoString (stringsAfter old (some (buildInfoBuffer b.text))) i = s.take infoStringLen := by
  obtain ⟨hlt, -⟩ := List.getElem?_eq_some_iff.mp h
  rw [infoString, stringsAfter, infoStrings_text, List.getD_eq_getElem?_getD,
    List.getElem?_append_left (by rw [List.length_map]; exact hlt), List.getElem?_map, h]
  rfl

/-- It is compared by its first 32 bytes. -/
theorem strncmpEq_take_iff {s t : List Byte} (hs : ∀ c ∈ s, c ≠ 0) (ht : ∀ c ∈ t, c ≠ 0) :
    StrncmpEq (s.take infoStringLen) t infoExtractLen ↔
      s.take infoExtractLen = t.take infoExtractLen := by
  rw [StrncmpEq, cstring_of_forall fun c hc => hs c (List.mem_of_mem_take hc), cstring_of_forall ht,
    List.take_take]
  rfl

/-! ## When they agree -/

/-- No string up to the version is empty. -/
def BuildStrings.Complete (b : BuildStrings) : Prop := ∀ s ∈ b.front, s ≠ []

/-- Date, version and comment begin alike. -/
def BuildStrings.Alike (b : BuildStrings) : Prop :=
  b.compiledDate.1.take infoExtractLen = b.version.1.take infoExtractLen ∧
    b.version.1.take infoExtractLen = b.comment.1.take infoExtractLen

/-- The strings at the two places decide. -/
theorem agreesWith_of_places {d v : InfoString} (hd : b.begun[infoDateIndex]? = some d.1)
    (hv : b.begun[infoVerIndex]? = some v.1) :
    b.AgreesWith (stringsAfter old (some (buildInfoBuffer b.text))) ↔
      v.1.take infoExtractLen = b.version.1.take infoExtractLen ∧
        d.1.take infoExtractLen = b.compiledDate.1.take infoExtractLen := by
  have hfree : ∀ s : InfoString, ∀ c ∈ s.1, c ≠ 0 := fun s c hc => (s.2 c hc).1
  rw [BuildStrings.AgreesWith, infoString_stringsAfter hv, infoString_stringsAfter hd,
    strncmpEq_take_iff (hfree v) (hfree b.version),
    strncmpEq_take_iff (hfree d) (hfree b.compiledDate)]

/-- With one of the first three missing, version and comment stand at the places. -/
theorem agreesWith_iff_of_shifted (hd : b.begun[infoDateIndex]? = some b.version.1)
    (hv : b.begun[infoVerIndex]? = some b.comment.1) :
    b.AgreesWith (stringsAfter old (some (buildInfoBuffer b.text))) ↔ b.Alike := by
  rw [agreesWith_of_places hd hv, BuildStrings.Alike, and_comm, eq_comm (a := b.compiledDate.1.take _),
    eq_comm (a := b.comment.1.take _)]

theorem agreesWith_iff (h : countInfoStrings - 1 ≤ b.begun.length) :
    b.AgreesWith (stringsAfter old (some (buildInfoBuffer b.text))) ↔ b.Complete ∨ b.Alike := by
  by_cases hcomplete : b.Complete
  · obtain ⟨rest, hbegun⟩ := BuildStrings.begun_of_front h hcomplete
    rw [agreesWith_of_places (d := b.compiledDate) (v := b.version) (by rw [hbegun]; rfl)
      (by rw [hbegun]; rfl)]
    exact iff_of_true ⟨rfl, rfl⟩ (.inl hcomplete)
  · rw [or_iff_right hcomplete]
    have hmem : [] ∈ b.front := by simpa [BuildStrings.Complete] using hcomplete
    obtain ⟨ls, ls', hfront⟩ := List.append_of_mem hmem
    obtain ⟨s, hbegun, hne⟩ := BuildStrings.begun_of_missing h ls ls' hfront
    have hfive : ls.length + (ls'.length + 1) = 5 := by
      have hlen := congrArg List.length hfront
      rw [List.length_append, List.length_cons] at hlen
      exact hlen.symm
    have hdate : b.front[infoDateIndex]? = some b.compiledDate.1 := rfl
    have hversion : b.front[infoVerIndex]? = some b.version.1 := rfl
    have hfour : (ls ++ ls').length = infoVerIndex := by
      rw [List.length_append]
      simp only [infoVerIndex]
      omega
    have hcomment : b.begun[infoVerIndex]? = some b.comment.1 := by
      rw [hbegun, ← List.append_assoc, List.getElem?_append_right hfour.le, hfour, Nat.sub_self]
      rfl
    simp only [infoDateIndex, infoVerIndex] at hdate hversion
    rcases Nat.lt_or_ge ls.length 4 with hlt | hge
    · refine agreesWith_iff_of_shifted ?_ hcomment
      rw [hfront, List.getElem?_append_right (by omega),
        show 4 - ls.length = 3 - ls.length + 1 by omega, List.getElem?_cons_succ] at hversion
      rw [hbegun, infoDateIndex, List.getElem?_append_right (by omega),
        List.getElem?_append_left (by omega), hversion]
    · -- the version is missing: the date stands at its place
      rw [hfront, List.getElem?_append_left (by omega)] at hdate
      rw [hfront, List.getElem?_append_right (by omega), show 4 - ls.length = 0 by omega] at hversion
      have hnil : b.version.1 = [] := (Option.some.inj hversion).symm
      have htake : b.comment.1.take infoExtractLen ≠ [] := by
        intro htake
        exact hne b.comment.1 (by simp) ((List.take_eq_nil_iff.mp htake).resolve_left (by decide))
      rw [agreesWith_of_places (d := b.compiledDate) (v := b.comment) (by
        rw [hbegun, infoDateIndex, List.getElem?_append_left (by omega), hdate]) hcomment,
        BuildStrings.Alike, hnil, List.take_nil]
      exact iff_of_false (fun h => htake h.1) fun h => htake h.2.symm

/-- A server that serves hands its text over. -/
theorem getInfoStringsOn_of_serving {e : ExchangeEnv img} {s : Sandbox} {l : Link} {left : ℕ}
    (hserving : l.Serving (left + 1)) (hsends : e.sends = true) (hwrites : e.server.writes = true)
    (hcalloc : e.client.calloc = true) (hinfo : e.server.buildInfo = b.text) :
    getInfoStringsOn e s l old =
      some (if b.begun.length < countInfoStrings - 1 then sandboxErrParse else sandboxOk,
        stringsAfter old (some (buildInfoBuffer b.text))) := by
  obtain ⟨l', hexchange, -⟩ :=
    (answered_getBld (s := s) hserving.clean hwrites hcalloc).exchange hserving hsends
  rw [getInfoStringsOn, hexchange, hinfo, Option.map_some, getInfoStatus, infoStrings_text,
    List.length_map]

/-- **When the client has the version and the date.** A server that was built with any seven
strings is asked for them, and nothing is refused. The client gets an error, or the version and the
date of the server as far as it looks at them, exactly when fewer than six of the strings are not
empty and begin within the buffer, or none up to the version is empty, or date, version and comment
begin alike. -/
theorem infoAgrees_iff (e : ExchangeEnv img) (s : Sandbox) (l : Link) (left : ℕ)
    (old : List (List Byte)) (b : BuildStrings) (hserving : l.Serving (left + 1))
    (hsends : e.sends = true) (hwrites : e.server.writes = true)
    (hcalloc : e.client.calloc = true) (hinfo : e.server.buildInfo = b.text) :
    (∃ r, getInfoStringsOn e s l old = some r ∧ (r.1 < 0 ∨ b.AgreesWith r.2)) ↔
      b.begun.length < countInfoStrings - 1 ∨ b.Complete ∨ b.Alike := by
  rw [getInfoStringsOn_of_serving hserving hsends hwrites hcalloc hinfo]
  simp only [Option.some.injEq, exists_eq_left']
  by_cases hfew : b.begun.length < countInfoStrings - 1
  · rw [if_pos hfew]
    exact iff_of_true (.inl (by decide)) (.inl hfew)
  · rw [if_neg hfew, or_iff_right (by decide), or_iff_right hfew]
    exact agreesWith_iff (Nat.le_of_not_lt hfew)

/-- The strings of a server, with any flags. -/
def sampleStrings (ccflags : InfoString) : BuildStrings where
  gitRevision := ⟨[0x72], by decide⟩
  compiled := ⟨[0x67], by decide⟩
  ccflags := ccflags
  compiledDate := ⟨[0x64], by decide⟩
  version := ⟨[0x32, 0x2e, 0x36, 0x30], by decide⟩
  comment := ⟨[0x63], by decide⟩
  sha1 := ⟨[0x61], by decide⟩

/-- A server that was built with these strings, and its client. -/
def infoEnv (b : BuildStrings) : ExchangeEnv sampleImage :=
  { listEnv with server := { sampleServeEnv with buildInfo := b.text } }

def debugFlags : InfoString := ⟨[0x2d, 0x67], by decide⟩

theorem infoAgrees_iff_debugFlags :
    ∃ r, getInfoStringsOn (infoEnv (sampleStrings debugFlags)) (listSandbox blankPatch) Link.fresh
        [] = some r ∧ (r.1 < 0 ∨ (sampleStrings debugFlags).AgreesWith r.2) :=
  (infoAgrees_iff (infoEnv (sampleStrings debugFlags)) (listSandbox blankPatch) Link.fresh 99 []
    (sampleStrings debugFlags) serving_fresh rfl rfl rfl rfl).mpr
    (.inr (.inl (by rw [BuildStrings.Complete]; decide)))

def noFlags : InfoString := ⟨[], by decide⟩

/-- Without flags the client takes the version for the date and the comment for the version. -/
theorem noFlags_shifted :
    ∃ r, getInfoStringsOn (infoEnv (sampleStrings noFlags)) (listSandbox blankPatch) Link.fresh
        [] = some r ∧ ¬(r.1 < 0 ∨ (sampleStrings noFlags).AgreesWith r.2) := by
  have hsix : ¬(sampleStrings noFlags).begun.length < countInfoStrings - 1 := by decide +kernel
  refine ⟨_, getInfoStringsOn_of_serving serving_fresh rfl rfl rfl rfl, ?_⟩
  rw [if_neg hsix, agreesWith_iff (Nat.le_of_not_lt hsix)]
  rintro (hneg | hcomplete | halike)
  · exact absurd hneg (by decide)
  · exact hcomplete [] (by decide) rfl
  · exact absurd halike.1 (by decide)

end Patchbox
