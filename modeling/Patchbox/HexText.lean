import Patchbox.Lib.Stores
import Patchbox.Sha1Text

/-!
# The text of bytes

`bin2hex` writes two digits for each byte while there is room for them and for the
terminator, and goes on over the rest of the bytes without writing. `string2sha1` reads the
text of a hash back.

## Main definitions

* `bin2hex` — the source function, as the stores it makes.
* `hexText` — the lower-case text of a byte string.
* `WritesHex` — where `bin2hex` writes and what it leaves.
* `bin2hex_string2sha1` — both hold at every length, and a hash comes back from its text.
-/

namespace Patchbox
open Lib

/-! ## The function -/

/-- `hexchars`. -/
def hexchars : List Byte :=
  [0x30, 0x31, 0x32, 0x33, 0x34, 0x35, 0x36, 0x37, 0x38, 0x39, 0x61, 0x62, 0x63, 0x64, 0x65, 0x66]

/-- The loop of `bin2hex` over the bytes that are left, and the terminator behind it: the stores
at `buf`, with `buflen` bytes of room. -/
def bin2hexFrom : List Byte → ℕ → ℕ → List (ℕ × List Byte)
  | [], buf, buflen => if buflen ≠ 0 then [(buf, [0])] else []
  | b :: bin, buf, buflen =>
    if 3 ≤ buflen then
      (buf, [hexchars.getD ((b >>> 4) &&& 0x0f).toNat 0]) ::
        (buf + 1, [hexchars.getD (b &&& 0x0f).toNat 0]) :: bin2hexFrom bin (buf + 2) (buflen - 2)
    else bin2hexFrom bin buf buflen

/-- `bin2hex`. -/
def bin2hex (bin : List Byte) (buflen : ℕ) : List (ℕ × List Byte) := bin2hexFrom bin 0 buflen

/-! ## The text -/

/-- The character of a digit. -/
def lowerHex (d : ℕ) : Byte := BitVec.ofNat 8 (if d < 10 then 0x30 + d else 0x61 + (d - 10))

/-- Two digits for each byte. -/
def hexText (bin : List Byte) : List Byte :=
  bin.flatMap fun b => [lowerHex (b.toNat / 16), lowerHex (b.toNat % 16)]

theorem hexchars_high : ∀ b : Byte,
    hexchars.getD ((b >>> 4) &&& 0x0f).toNat 0 = lowerHex (b.toNat / 16) := by
  decide +kernel

theorem hexchars_low : ∀ b : Byte,
    hexchars.getD (b &&& 0x0f).toNat 0 = lowerHex (b.toNat % 16) := by
  decide +kernel

/-- A digit is read back. -/
theorem hexDigit_lowerHex : ∀ d < 16, hexDigit (lowerHex d) = some (BitVec.ofNat 8 d) := by
  decide

@[simp] theorem hexText_nil : hexText [] = [] := rfl

theorem hexText_cons (b : Byte) (bin : List Byte) :
    hexText (b :: bin) = lowerHex (b.toNat / 16) :: lowerHex (b.toNat % 16) :: hexText bin := rfl

@[simp] theorem length_hexText (bin : List Byte) : (hexText bin).length = 2 * bin.length := by
  induction bin with
  | nil => rfl
  | cons b bin ih =>
      rw [hexText_cons, List.length_cons, List.length_cons, List.length_cons, ih]
      omega

/-- Every character of the text is a digit. -/
theorem hexDigit_of_mem_hexText {bin : List Byte} {c : Byte} (h : c ∈ hexText bin) :
    (hexDigit c).isSome := by
  obtain ⟨b, -, hc⟩ := List.mem_flatMap.mp h
  have hb := b.isLt
  rcases List.mem_pair.mp hc with rfl | rfl
  · rw [hexDigit_lowerHex _ (by omega)]
    rfl
  · rw [hexDigit_lowerHex _ (by omega)]
    rfl

theorem ne_zero_of_hexDigit {c : Byte} (h : (hexDigit c).isSome) : c ≠ 0 := by
  rintro rfl
  exact absurd h (by decide)

/-- There is no terminator in the text. -/
theorem cstring_hexText_append (bin rest : List Byte) :
    cstring (hexText bin ++ rest) = hexText bin ++ cstring rest := by
  rw [cstring, List.takeWhile_append_of_pos]
  · rfl
  · intro c hc
    exact decide_eq_true (ne_zero_of_hexDigit (hexDigit_of_mem_hexText hc))

theorem cstring_hexText (bin behind : List Byte) :
    cstring (hexText bin ++ 0 :: behind) = hexText bin := by
  rw [cstring_hexText_append, cstring, List.takeWhile_cons_of_neg (by simp), List.append_nil]

/-- The two digits of a byte. -/
theorem getD_hexText {bin : List Byte} {k : ℕ} (h : k < bin.length) :
    (hexText bin).getD (2 * k) 0 = lowerHex (bin[k].toNat / 16) ∧
      (hexText bin).getD (2 * k + 1) 0 = lowerHex (bin[k].toNat % 16) := by
  induction bin generalizing k with
  | nil => cases h
  | cons b bin ih =>
      cases k with
      | zero => exact ⟨rfl, rfl⟩
      | succ k => exact ih (Nat.lt_of_succ_lt_succ h)

/-! ## The stores -/

/-- The pieces that `bin2hex` stores: the characters of the text, then the terminator. -/
def hexPieces (bin : List Byte) : List (List Byte) := (hexText bin ++ [0]).map fun c => [c]

theorem flatten_hexPieces (bin : List Byte) : (hexPieces bin).flatten = hexText bin ++ [0] := by
  rw [hexPieces, ← List.flatMap_def, List.flatMap_singleton']

theorem hexPieces_cons (b : Byte) (bin : List Byte) :
    hexPieces (b :: bin) =
      [lowerHex (b.toNat / 16)] :: [lowerHex (b.toNat % 16)] :: hexPieces bin := rfl

/-- Without room for another byte only the terminator is stored. -/
theorem bin2hexFrom_of_lt (bin : List Byte) (buf : ℕ) {buflen : ℕ} (h : 0 < buflen)
    (hfull : buflen < 3) : bin2hexFrom bin buf buflen = [(buf, [0])] := by
  induction bin with
  | nil => rw [bin2hexFrom, if_pos h.ne']
  | cons b bin ih => rw [bin2hexFrom, if_neg (by omega), ih]

/-- **The run of `bin2hex`.** With room for one byte at least, the text of the first
`(buflen - 1) / 2` bytes is stored and a terminator behind it. -/
theorem bin2hexFrom_eq (bin : List Byte) (buf : ℕ) {buflen : ℕ} (h : 0 < buflen) :
    bin2hexFrom bin buf buflen = inARow buf (hexPieces (bin.take ((buflen - 1) / 2))) := by
  induction bin generalizing buf buflen with
  | nil =>
      rw [bin2hexFrom, if_pos h.ne', List.take_nil]
      rfl
  | cons b bin ih =>
      by_cases hroom : 3 ≤ buflen
      · -- a byte is written, and the room for one byte is gone
        have hhalf : (buflen - 1) / 2 = (buflen - 2 - 1) / 2 + 1 := by omega
        rw [bin2hexFrom, if_pos hroom, ih (buf + 2) (by omega), hhalf, List.take_succ_cons,
          hexPieces_cons, hexchars_high, hexchars_low]
        rfl
      · have hhalf : (buflen - 1) / 2 = 0 := by omega
        rw [bin2hexFrom_of_lt _ _ h (by omega), hhalf, List.take_zero]
        rfl

/-- Without a buffer nothing is stored. -/
theorem bin2hexFrom_zero (bin : List Byte) (buf : ℕ) : bin2hexFrom bin buf 0 = [] := by
  induction bin with
  | nil => rfl
  | cons b bin ih => rw [bin2hexFrom, if_neg (by decide), ih]

/-- The bytes whose text fits in the buffer. -/
def fitting (bin : List Byte) (buflen : ℕ) : List Byte :=
  bin.take (min bin.length ((buflen - 1) / 2))

theorem length_hexText_fitting_lt (bin : List Byte) {buflen : ℕ} (h : 0 < buflen) :
    (hexText (fitting bin buflen)).length < buflen := by
  rw [length_hexText, fitting, List.length_take]
  omega

theorem bin2hex_eq (bin : List Byte) {buflen : ℕ} (h : 0 < buflen) :
    bin2hex bin buflen = inARow 0 (hexPieces (fitting bin buflen)) := by
  rw [bin2hex, bin2hexFrom_eq bin 0 h, fitting, Nat.min_comm, ← List.take_eq_take_min]

/-- Where `bin2hex` writes, and what it leaves. -/
structure WritesHex (bin : List Byte) (buflen : ℕ) : Prop where
  within : ∀ st ∈ bin2hex bin buflen, st.2.length = 1 ∧ st.1 < buflen
  leaves : 0 < buflen → ∀ buf : ℕ → Byte,
    storeAll buf (bin2hex bin buflen) = fromList (hexText (fitting bin buflen) ++ [0]) buf
  string : 0 < buflen → ∀ buf : ℕ → Byte,
    (hexText (fitting bin buflen)).length < buflen ∧
      cstring ((List.range buflen).map (storeAll buf (bin2hex bin buflen))) =
        hexText (fitting bin buflen)

/-- Every store is of one byte. -/
theorem length_of_mem_bin2hexFrom {bin : List Byte} {buf buflen : ℕ} {st : ℕ × List Byte}
    (h : st ∈ bin2hexFrom bin buf buflen) : st.2.length = 1 := by
  induction bin generalizing buf buflen with
  | nil =>
      rw [bin2hexFrom] at h
      split_ifs at h
      · rw [List.mem_singleton.mp h]
        rfl
      · cases h
  | cons b bin ih =>
      rw [bin2hexFrom] at h
      split_ifs at h
      · rcases List.mem_cons.mp h with rfl | h
        · rfl
        · rcases List.mem_cons.mp h with rfl | h
          · rfl
          · exact ih h
      · exact ih h

theorem storeAll_bin2hex (bin : List Byte) {buflen : ℕ} (h : 0 < buflen) (buf : ℕ → Byte) :
    storeAll buf (bin2hex bin buflen) = fromList (hexText (fitting bin buflen) ++ [0]) buf := by
  rw [bin2hex_eq bin h, storeAll_inARow, flatten_hexPieces, store_zero_eq_fromList]

/-- What is read back from the buffer. -/
theorem map_range_bin2hex (bin : List Byte) {buflen : ℕ} (h : 0 < buflen) (buf : ℕ → Byte) :
    ∃ behind, (List.range buflen).map (storeAll buf (bin2hex bin buflen)) =
      hexText (fitting bin buflen) ++ 0 :: behind := by
  have hlt := length_hexText_fitting_lt bin h
  rw [storeAll_bin2hex bin h,
    map_range_fromList (by rw [List.length_append, List.length_singleton]; omega),
    List.append_assoc]
  exact ⟨_, rfl⟩

theorem bin2hex_writesHex (bin : List Byte) (buflen : ℕ) : WritesHex bin buflen where
  within st hst := by
    have hone := length_of_mem_bin2hexFrom hst
    refine ⟨hone, ?_⟩
    rcases Nat.eq_zero_or_pos buflen with rfl | hpos
    · rw [bin2hex, bin2hexFrom_zero] at hst
      cases hst
    · rw [bin2hex_eq bin hpos] at hst
      have hend := end_le_of_mem_inARow hst
      have hlt := length_hexText_fitting_lt bin hpos
      rw [flatten_hexPieces, List.length_append, List.length_singleton] at hend
      omega
  leaves hpos buf := storeAll_bin2hex bin hpos buf
  string hpos buf := by
    obtain ⟨behind, hread⟩ := map_range_bin2hex bin hpos buf
    rw [hread, cstring_hexText]
    exact ⟨length_hexText_fitting_lt bin hpos, rfl⟩

/-! ## A hash and its text -/

/-- `sizeof (hex)`, for the text of a hash. -/
abbrev sizeofHex : ℕ := shaDigestLength * 2 + 1

/-- The digits of a byte denote it. -/
theorem digits_denote (b : Byte) :
    BitVec.ofNat 8 (b.toNat / 16) * 16 + BitVec.ofNat 8 (b.toNat % 16) = b := by
  have hb := b.isLt
  refine BitVec.eq_of_toNat_eq ?_
  simp only [BitVec.ofNat_eq_ofNat, BitVec.toNat_add, BitVec.toNat_mul, BitVec.toNat_ofNat]
  omega

variable {bin rest : List Byte}

theorem fortyDigits_hexText (h : bin.length = shaDigestLength) :
    FortyDigits (hexText bin ++ rest) := by
  have hlen : (hexText bin).length = 40 := (length_hexText bin).trans (congrArg (2 * ·) h)
  rw [FortyDigits, cstring_hexText_append, List.take_left' hlen, List.length_append, hlen]
  exact ⟨Nat.le_add_right 40 _, fun c hc => hexDigit_of_mem_hexText hc⟩

theorem denoted_hexText {k : ℕ} (h : k < bin.length) :
    denoted (hexText bin ++ rest) k = bin[k] := by
  obtain ⟨hhigh, hlow⟩ := getD_hexText h
  have hlen := length_hexText bin
  have hb := bin[k].isLt
  rw [denoted, digitAt, digitAt, cstring_hexText_append, List.getD_append _ _ _ _ (by omega),
    List.getD_append _ _ _ _ (by omega), hhigh, hlow, hexDigit_lowerHex _ (by omega),
    hexDigit_lowerHex _ (by omega)]
  exact digits_denote bin[k]

/-- **A hash is read back** from a string that begins with its text. -/
theorem string2sha1Into_hexText (hash : Bytes shaDigestLength) (rest : List Byte)
    (sha1 : ℕ → Byte) :
    (string2sha1Into (hexText hash.toList ++ rest) sha1).1 = 0 ∧
      ∀ k : Fin shaDigestLength,
        (string2sha1Into (hexText hash.toList ++ rest) sha1).2 k = hash k := by
  rw [(fortyDigits_hexText (Bytes.length_toList hash)).string2sha1Into_eq]
  refine ⟨rfl, fun k => ?_⟩
  have hk : (k : ℕ) < hash.toList.length := (Bytes.length_toList hash).symm ▸ k.isLt
  refine (if_pos k.isLt).trans ?_
  rw [denoted_hexText hk, Bytes.getElem_toList]

/-- `string2sha1` gives the hash back from its text in `hex`. `buf` is what `hex` held, `behind`
what is behind it, and `sha1` the memory at the hash. -/
def ComesBack (hash : Bytes shaDigestLength) : Prop :=
  ∀ (buf : ℕ → Byte) (behind : List Byte) (sha1 : ℕ → Byte),
    let hex := (List.range sizeofHex).map (storeAll buf (bin2hex hash.toList sizeofHex))
    (string2sha1Into (hex ++ behind) sha1).1 = 0 ∧
      ∀ k : Fin shaDigestLength, (string2sha1Into (hex ++ behind) sha1).2 k = hash k

theorem fitting_toList (hash : Bytes shaDigestLength) :
    fitting hash.toList sizeofHex = hash.toList := by
  rw [fitting, Bytes.length_toList]
  exact List.take_of_length_le (Bytes.length_toList hash).le

theorem hash_comesBack (hash : Bytes shaDigestLength) : ComesBack hash := by
  intro buf behind sha1 hex
  obtain ⟨left, hread⟩ := map_range_bin2hex hash.toList (by decide : 0 < sizeofHex) buf
  have hhex : hex ++ behind = hexText hash.toList ++ 0 :: (left ++ behind) := by
    rw [show hex = _ from hread, fitting_toList, List.append_assoc, List.cons_append]
  rw [hhex]
  exact string2sha1Into_hexText hash _ sha1

/-- **The text of bytes, and the hash back from it.** For all bytes and every size of the buffer,
`bin2hex` stores below the end only, and leaves a string, unless the size is zero: the text of as
many of the first bytes as fit. For every hash, `string2sha1` gives it back from the text. -/
theorem bin2hex_string2sha1 :
    (∀ (bin : List Byte) (buflen : ℕ), WritesHex bin buflen) ∧
      ∀ hash : Bytes shaDigestLength, ComesBack hash :=
  ⟨bin2hex_writesHex, hash_comesBack⟩

/-! ## The name of a file -/

/-- The hash is found in the name of a file of version 2 that is called by its text. -/
theorem extractSha1FromFilename_hexText (hash : Bytes shaDigestLength) :
    extractSha1FromFilename (hexText hash.toList ++ raxlpxs) = some hash := by
  have hlen : (hexText hash.toList).length = 40 :=
    (length_hexText _).trans (congrArg (2 * ·) (Bytes.length_toList hash))
  have hfree : ∀ c ∈ hexText hash.toList ++ raxlpxs, c ≠ 0 := by
    intro c hc
    rcases List.mem_append.mp hc with hc | hc
    · exact ne_zero_of_hexDigit (hexDigit_of_mem_hexText hc)
    · rintro rfl
      exact absurd hc (by decide)
  obtain ⟨hret, hbytes⟩ := string2sha1Into_hexText hash (raxlpxs ++ 0 :: []) fun _ => 0
  rw [← List.append_assoc] at hret hbytes
  rw [extractSha1FromFilename, if_neg,
    string2sha1_eq (by rw [List.length_append, hlen]; decide) hfree [] fun _ => 0, if_pos hret]
  · exact congrArg some (funext hbytes)
  · rw [not_or, not_not, not_not, List.length_append, hlen]
    exact ⟨(List.suffix_append _ _).isInfix, rfl⟩

end Patchbox
