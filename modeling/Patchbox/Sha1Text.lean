import Patchbox.CmdApply

/-!
# The text of a hash

`string2sha1` reads a hash from twenty pairs of characters, each with a call of `sscanf` for `%02x`
that stores an `int` at the place of one byte. What is a number for `sscanf` need not be two digits,
and the last `int` goes beyond the hash.

## Main definitions

* `scanInt` — the number that `sscanf` finds, if any.
* `string2sha1Into` — `string2sha1`, with the memory at the hash.
* `HasNumber` — the texts that are a number for `sscanf`.
* `sha1Kept_iff` — when the function does what its comment says.
-/

namespace Patchbox
open Lib

/-! ## The function -/

/-- `isspace`. -/
def IsSpace (c : Byte) : Prop := c = 0x20 ∨ (0x09 ≤ c ∧ c ≤ 0x0d)

instance (c : Byte) : Decidable (IsSpace c) := inferInstanceAs (Decidable (_ ∨ _))

/-- The number that begins with `c`: two characters at most. `0x` alone is no number. -/
def scanNumber (c : Byte) (rest : List Byte) : Option (BitVec 32) :=
  if c = 0x2b then (rest.head?.bind hexDigit).map (BitVec.setWidth 32)
  else if c = 0x2d then (rest.head?.bind hexDigit).map fun d => -d.setWidth 32
  else if c = 0x30 ∧ (rest.head? = some 0x78 ∨ rest.head? = some 0x58) then none
  else
    match hexDigit c, rest.head?.bind hexDigit with
    | none, _ => none
    | some d, none => some (d.setWidth 32)
    | some d, some d' => some (d.setWidth 32 * 16 + d'.setWidth 32)

/-- What `sscanf` stores for `%02x`: it goes over white space first. -/
def scanInt (s : List Byte) : Option (BitVec 32) :=
  match s.dropWhile fun c => IsSpace c with
  | [] => none
  | c :: rest => scanNumber c rest

/-- An `int` is stored at offset `k`. -/
def storeInt (mem : ℕ → Byte) (k : ℕ) (v : BitVec 32) : ℕ → Byte :=
  fun j => if k ≤ j ∧ j < k + 4 then leByte v.toNat (j - k) else mem j

/-- The text that a call of `sscanf` looks at: from the `k`-th pair to the next terminator. -/
def pairText (string : List Byte) (k : ℕ) : List Byte := cstring (string.drop (2 * k))

/-- The loop of `string2sha1` from the `k`-th pair on, `n` more. -/
def string2sha1From (string : List Byte) : ℕ → ℕ → (ℕ → Byte) → Int × (ℕ → Byte)
  | 0, _, sha1 => (0, sha1)
  | n + 1, k, sha1 =>
    match scanInt (pairText string k) with
    | none => (-1, sha1)
    | some v => string2sha1From string n (k + 1) (storeInt sha1 k v)

/-- `string2sha1`. `string` is the memory at the text, with the terminator in it and whatever is
behind; `sha1` is the memory from the hash on. -/
def string2sha1Into (string : List Byte) (sha1 : ℕ → Byte) : Int × (ℕ → Byte) :=
  string2sha1From string shaDigestLength 0 sha1

/-! ## What is a number -/

/-- Two characters that begin with a digit, or a sign and a digit. -/
def BeginsNumber (c : Byte) (rest : List Byte) : Prop :=
  ((hexDigit c).isSome ∧ ¬(c = 0x30 ∧ (rest.head? = some 0x78 ∨ rest.head? = some 0x58))) ∨
    ((c = 0x2b ∨ c = 0x2d) ∧ ∃ d ∈ rest.head?, (hexDigit d).isSome)

/-- White space, then a number. -/
def HasNumber (s : List Byte) : Prop :=
  ∃ blanks c rest, s = blanks ++ c :: rest ∧ (∀ b ∈ blanks, IsSpace b) ∧ BeginsNumber c rest

theorem not_isSpace_of_hexDigit : ∀ c : Byte, (hexDigit c).isSome → ¬IsSpace c := by
  decide +kernel

theorem not_sign_of_hexDigit : ∀ c : Byte, (hexDigit c).isSome → c ≠ 0x2b ∧ c ≠ 0x2d := by
  decide +kernel

theorem ne_x_of_hexDigit : ∀ c : Byte, (hexDigit c).isSome → c ≠ 0x78 ∧ c ≠ 0x58 := by
  decide +kernel

theorem BeginsNumber.not_isSpace {c : Byte} {rest : List Byte} (h : BeginsNumber c rest) :
    ¬IsSpace c := by
  rcases h with ⟨hdigit, -⟩ | ⟨rfl | rfl, -⟩
  · exact not_isSpace_of_hexDigit c hdigit
  · decide
  · decide

/-- Behind a sign there is one digit. -/
theorem isSome_signed_iff {c : Byte} {rest : List Byte} (h : c = 0x2b ∨ c = 0x2d)
    (f : BitVec 8 → BitVec 32) :
    ((rest.head?.bind hexDigit).map f).isSome ↔ BeginsNumber c rest := by
  have hdigit : hexDigit c = none := by
    rcases h with rfl | rfl <;> decide
  rw [BeginsNumber, hdigit, or_iff_right (by simp), and_iff_right h]
  cases rest <;> simp

theorem scanNumber_isSome_iff (c : Byte) (rest : List Byte) :
    (scanNumber c rest).isSome ↔ BeginsNumber c rest := by
  rw [scanNumber]
  split_ifs with hplus hminus hx
  · exact isSome_signed_iff (.inl hplus) _
  · exact isSome_signed_iff (.inr hminus) _
  · refine iff_of_false (by simp) ?_
    rintro (⟨-, hnot⟩ | ⟨hsign, -⟩)
    · exact hnot hx
    · exact hsign.elim hplus hminus
  · rw [BeginsNumber, or_iff_left fun h => h.1.elim hplus hminus, and_iff_left hx]
    cases hexDigit c with
    | none => rfl
    | some d => cases rest.head?.bind hexDigit <;> simp

/-- `sscanf` finds a number exactly where there is one. -/
theorem scanInt_isSome_iff (s : List Byte) : (scanInt s).isSome ↔ HasNumber s := by
  constructor
  · intro h
    cases hdrop : s.dropWhile fun c => IsSpace c with
    | nil =>
      rw [scanInt, hdrop] at h
      cases h
    | cons c rest =>
      rw [scanInt, hdrop] at h
      refine ⟨s.takeWhile fun c => IsSpace c, c, rest, ?_, fun b hb => ?_,
        (scanNumber_isSome_iff c rest).mp h⟩
      · rw [← hdrop, List.takeWhile_append_dropWhile]
      · simpa using List.mem_takeWhile_imp hb
  · rintro ⟨blanks, c, rest, rfl, hblanks, hnumber⟩
    rw [scanInt, List.dropWhile_append_of_pos (by simpa using hblanks),
      List.dropWhile_cons_of_neg (by simpa using hnumber.not_isSpace)]
    exact (scanNumber_isSome_iff c rest).mpr hnumber

/-! ## The run -/

variable {string : List Byte}

/-- A pair without a number ends the loop. -/
theorem string2sha1From_of_none {n k j : ℕ} (hk : k ≤ j) (hj : j < k + n)
    (h : scanInt (pairText string j) = none) (sha1 : ℕ → Byte) :
    (string2sha1From string n k sha1).1 = -1 := by
  induction n generalizing k sha1 with
  | zero => omega
  | succ n ih =>
    rw [string2sha1From]
    cases hscan : scanInt (pairText string k) with
    | none => rfl
    | some v =>
      have hne : k ≠ j := by
        rintro rfl
        rw [h] at hscan
        cases hscan
      exact ih (by omega) (by omega) _

/-- **The memory behind the loop.** Each byte of the hash is the low byte of its number, and the
rest of the last number lies behind them. -/
theorem string2sha1From_of_some {n k : ℕ} {v : ℕ → BitVec 32}
    (h : ∀ j, k ≤ j → j < k + n → scanInt (pairText string j) = some (v j)) (sha1 : ℕ → Byte) :
    string2sha1From string n k sha1 = (0, fun j =>
      if k ≤ j ∧ j < k + n then leByte (v j).toNat 0
      else if 0 < n ∧ k + n ≤ j ∧ j < k + n + 3 then
        leByte (v (k + n - 1)).toNat (j - (k + n - 1))
      else sha1 j) := by
  induction n generalizing k sha1 with
  | zero =>
    rw [string2sha1From]
    congr 1
    funext j
    rw [if_neg (by omega), if_neg (by omega)]
  | succ n ih =>
    rw [string2sha1From, h k le_rfl (by omega)]
    simp only
    rw [ih fun j hk hj => h j (by omega) (by omega)]
    congr 1
    funext j
    -- the next number overwrites all but the low byte of this one
    rcases Nat.lt_trichotomy j k with hlt | rfl | hgt
    · rw [if_neg (by omega), if_neg (by omega), if_neg (by omega), if_neg (by omega), storeInt,
        if_neg (by omega)]
    · rw [if_neg (by omega), if_neg (by omega), if_pos (by omega), storeInt, if_pos (by omega),
        Nat.sub_self]
    · by_cases hin : j < k + (n + 1)
      · rw [if_pos (by omega), if_pos (by omega)]
      · rw [if_neg (show ¬(k + 1 ≤ j ∧ j < k + 1 + n) by omega),
          if_neg (show ¬(k ≤ j ∧ j < k + (n + 1)) by omega)]
        cases n with
        | zero =>
          rw [if_neg (show ¬(0 < 0 ∧ k + 1 + 0 ≤ j ∧ j < k + 1 + 0 + 3) by omega), storeInt]
          exact if_congr (by omega) rfl rfl
        | succ n =>
          have hlast : k + 1 + (n + 1) - 1 = k + (n + 1 + 1) - 1 := by omega
          rw [hlast]
          by_cases hbehind : j < k + (n + 1 + 1) + 3
          · rw [if_pos (by omega), if_pos (by omega)]
          · rw [if_neg (by omega), if_neg (show ¬(0 < n + 1 + 1 ∧ k + (n + 1 + 1) ≤ j ∧
              j < k + (n + 1 + 1) + 3) by omega), storeInt, if_neg (by omega)]

/-! ## The hash of a file's name -/

/-- The byte that is read from the name is the low one of the number. -/
theorem scanHex_eq (s : List Byte) : scanHex s = (scanInt s).map (BitVec.setWidth 8) := by
  have hwidth : ∀ d : BitVec 8, (d.setWidth 32).setWidth 8 = d := fun d => by
    rw [BitVec.setWidth_setWidth_of_le d (by decide), BitVec.setWidth_eq]
  have hneg : ∀ d : BitVec 8, (-d.setWidth 32).setWidth 8 = -d := fun d => by
    rw [BitVec.setWidth_neg_of_le (by decide), hwidth]
  have hpair : ∀ d d' : BitVec 8, (d.setWidth 32 * 16 + d'.setWidth 32).setWidth 8 = d * 16 + d' :=
    fun d d' => by
      rw [BitVec.setWidth_add _ _ (by decide), BitVec.setWidth_mul _ _ (by decide), hwidth, hwidth]
      rfl
  have hspace : (s.dropWhile fun c => c = 0x20 ∨ (0x09 ≤ c ∧ c ≤ 0x0d)) =
      s.dropWhile fun c => IsSpace c := rfl
  rw [scanHex, scanInt, hspace]
  cases s.dropWhile fun c => IsSpace c with
  | nil => rfl
  | cons c rest =>
    simp only [scanNumber]
    split_ifs
    · cases rest.head?.bind hexDigit with
      | none => rfl
      | some d => exact congrArg some (hwidth d).symm
    · cases rest.head?.bind hexDigit with
      | none => rfl
      | some d => exact congrArg some (hneg d).symm
    · rfl
    · cases hexDigit c with
      | none => rfl
      | some d =>
        cases rest.head?.bind hexDigit with
        | none => exact congrArg some (hwidth d).symm
        | some d' => exact congrArg some (hpair d d').symm

/-- The low byte that a stored number leaves. -/
theorem leByte_toNat_zero (v : BitVec 32) : leByte v.toNat 0 = v.setWidth 8 := by
  rw [leByte, pow_zero, Nat.div_one]
  rfl

/-- The hash that `string2sha1` makes of a file's name is what the loop leaves in twenty bytes. -/
theorem string2sha1_eq {string : List Byte} (hlen : 2 * shaDigestLength ≤ string.length)
    (hfree : ∀ c ∈ string, c ≠ 0) (behind : List Byte) (sha1 : ℕ → Byte) :
    string2sha1 string =
      if (string2sha1Into (string ++ 0 :: behind) sha1).1 = 0 then
        some fun i : Fin shaDigestLength => (string2sha1Into (string ++ 0 :: behind) sha1).2 i
      else none := by
  have htext : ∀ k < shaDigestLength, pairText (string ++ 0 :: behind) k = string.drop (2 * k) := by
    intro k hk
    rw [pairText, cstring, List.drop_append_of_le_length (by omega), List.takeWhile_append_of_pos]
    · simp
    · intro c hc
      exact decide_eq_true (hfree c (List.mem_of_mem_drop hc))
  by_cases hall : ∀ k < shaDigestLength, (scanInt (string.drop (2 * k))).isSome
  · have hrun := @string2sha1From_of_some (string ++ 0 :: behind) shaDigestLength 0
      (fun k => (scanInt (string.drop (2 * k))).getD 0) (fun k _ hk => by
        rw [Nat.zero_add] at hk
        obtain ⟨v, hv⟩ := Option.isSome_iff_exists.mp (hall k hk)
        rw [htext k hk, hv]
        rfl) sha1
    have hpairs : (List.ofFn fun i : Fin shaDigestLength => scanHex (string.drop (2 * i))).all
        Option.isSome = true := by
      rw [List.all_eq_true]
      intro o ho
      obtain ⟨i, rfl⟩ := List.mem_ofFn.mp ho
      rw [scanHex_eq, Option.isSome_map]
      exact hall i i.isLt
    simp only [string2sha1]
    rw [if_pos hpairs, string2sha1Into, hrun, if_pos rfl]
    congr 1
    funext i
    simp only [Nat.zero_add, Nat.zero_le, true_and]
    rw [if_pos i.isLt, leByte_toNat_zero, scanHex_eq]
    obtain ⟨v, hv⟩ := Option.isSome_iff_exists.mp (hall i i.isLt)
    rw [hv]
    rfl
  · push Not at hall
    obtain ⟨k, hk, hno⟩ := hall
    have hnone : scanInt (pairText (string ++ 0 :: behind) k) = none := by
      rw [htext k hk]
      simpa using hno
    have hret : (string2sha1Into (string ++ 0 :: behind) sha1).1 = -1 :=
      string2sha1From_of_none (Nat.zero_le k) (by omega) hnone sha1
    simp only [string2sha1]
    rw [if_neg, hret, if_neg (by decide)]
    intro hpairs
    refine hno ?_
    have hk' := List.all_eq_true.mp hpairs _ (List.mem_ofFn.mpr ⟨⟨k, hk⟩, rfl⟩)
    rwa [scanHex_eq, Option.isSome_map] at hk'

/-! ## Forty digits -/

/-- The first forty characters are hexadecimal digits. -/
def FortyDigits (string : List Byte) : Prop :=
  40 ≤ (cstring string).length ∧ ∀ c ∈ (cstring string).take 40, (hexDigit c).isSome

/-- The digit at a place of the text. -/
def digitAt (string : List Byte) (i : ℕ) : BitVec 8 := (hexDigit ((cstring string).getD i 0)).getD 0

/-- The `k`-th byte that the text denotes. -/
def denoted (string : List Byte) (k : ℕ) : Byte :=
  digitAt string (2 * k) * 16 + digitAt string (2 * k + 1)

theorem hexDigit_lt : ∀ c : Byte, ((hexDigit c).getD 0).toNat < 16 := by
  decide +kernel

theorem takeWhile_drop {α : Type} {p : α → Bool} {l : List α} {n : ℕ}
    (h : n ≤ (l.takeWhile p).length) : (l.drop n).takeWhile p = (l.takeWhile p).drop n := by
  induction l generalizing n with
  | nil => rw [List.drop_nil, List.takeWhile_nil, List.drop_nil]
  | cons a l ih =>
    cases n with
    | zero => rfl
    | succ n =>
      by_cases ha : p a
      · rw [List.takeWhile_cons_of_pos ha] at h ⊢
        exact ih (Nat.le_of_succ_le_succ h)
      · rw [List.takeWhile_cons_of_neg ha] at h
        cases h

/-- Two digits are the number they denote. -/
theorem FortyDigits.scanInt_eq (h : FortyDigits string) {k : ℕ} (hk : k < shaDigestLength) :
    scanInt (pairText string k) = some
      ((digitAt string (2 * k)).setWidth 32 * 16 + (digitAt string (2 * k + 1)).setWidth 32) := by
  obtain ⟨hlen, hdigits⟩ := h
  simp only [shaDigestLength] at hk
  have hdigit : ∀ i (hi : i < 40), ∃ d, hexDigit ((cstring string)[i]) = some d ∧
      digitAt string i = d := by
    intro i hi
    obtain ⟨d, hd⟩ := Option.isSome_iff_exists.mp
      (hdigits _ (List.mem_take_iff_getElem.mpr ⟨i, by omega, rfl⟩))
    refine ⟨d, hd, ?_⟩
    rw [digitAt, List.getD_eq_getElem _ _ (by omega), hd]
    rfl
  obtain ⟨d, hd, hfirst⟩ := hdigit (2 * k) (by omega)
  obtain ⟨d', hd', hsecond⟩ := hdigit (2 * k + 1) (by omega)
  have htext : pairText string k = (cstring string)[2 * k] :: (cstring string)[2 * k + 1] ::
      (cstring string).drop (2 * k + 1 + 1) := by
    rw [pairText, cstring, takeWhile_drop (by rw [← cstring]; omega), ← cstring,
      List.drop_eq_getElem_cons (by omega), List.drop_eq_getElem_cons (by omega)]
  have hsome := Option.isSome_iff_exists.mpr ⟨d, hd⟩
  have hx := ne_x_of_hexDigit _ (Option.isSome_iff_exists.mpr ⟨d', hd'⟩)
  rw [htext, scanInt, List.dropWhile_cons_of_neg (by simpa using not_isSpace_of_hexDigit _ hsome)]
  simp only [scanNumber, List.head?_cons, Option.bind_some, hd, hd', hfirst, hsecond]
  rw [if_neg (not_sign_of_hexDigit _ hsome).1, if_neg (not_sign_of_hexDigit _ hsome).2, if_neg]
  rintro ⟨-, hxx⟩
  rcases hxx with hxx | hxx
  · exact hx.1 (Option.some.inj hxx)
  · exact hx.2 (Option.some.inj hxx)

/-- The number fits in its byte. -/
theorem toNat_pair (string : List Byte) (k : ℕ) :
    ((digitAt string (2 * k)).setWidth 32 * 16 +
        (digitAt string (2 * k + 1)).setWidth 32 : BitVec 32).toNat =
      (denoted string k).toNat := by
  have hhigh : (digitAt string (2 * k)).toNat < 16 := hexDigit_lt _
  have hlow : (digitAt string (2 * k + 1)).toNat < 16 := hexDigit_lt _
  rw [denoted]
  generalize digitAt string (2 * k) = d at *
  generalize digitAt string (2 * k + 1) = d' at *
  simp only [BitVec.ofNat_eq_ofNat, BitVec.toNat_add, BitVec.toNat_mul, BitVec.toNat_setWidth,
    BitVec.toNat_ofNat]
  omega

/-- **The run over forty digits.** The bytes they denote are stored, and three more become zero. -/
theorem FortyDigits.string2sha1Into_eq (h : FortyDigits string) (sha1 : ℕ → Byte) :
    string2sha1Into string sha1 = (0, fun j =>
      if j < shaDigestLength then denoted string j
      else if j < shaDigestLength + 3 then 0 else sha1 j) := by
  rw [string2sha1Into, string2sha1From_of_some
    fun j _ hj => h.scanInt_eq (by rwa [Nat.zero_add] at hj)]
  congr 1
  funext j
  simp only [toNat_pair, Nat.zero_add, Nat.zero_le, true_and]
  by_cases hin : j < shaDigestLength
  · rw [if_pos hin, if_pos hin, leByte, pow_zero, Nat.div_one, BitVec.ofNat_toNat,
      BitVec.setWidth_eq]
  · rw [if_neg hin, if_neg hin]
    refine if_ctx_congr (by simp only [shaDigestLength] at *; omega) (fun hbehind => ?_)
      fun _ => rfl
    -- all but the low byte of the last number are zero
    have hbyte := (denoted string (shaDigestLength - 1)).isLt
    have hpos : 0 < j - (shaDigestLength - 1) := by
      simp only [shaDigestLength] at *
      omega
    rw [leByte, Nat.div_eq_of_lt (hbyte.trans_le (Nat.le_self_pow hpos.ne' 256))]
    rfl

/-! ## What the comment says -/

/-- `string2sha1` accepts forty digits and nothing else, stores what they denote, and changes
nothing behind it. -/
def Sha1Kept (string : List Byte) (sha1 : ℕ → Byte) : Prop :=
  ((string2sha1Into string sha1).1 = 0 ↔ FortyDigits string) ∧
    ((string2sha1Into string sha1).1 = 0 →
      (∀ k < shaDigestLength, (string2sha1Into string sha1).2 k = denoted string k) ∧
        ∀ j, shaDigestLength ≤ j → (string2sha1Into string sha1).2 j = sha1 j)

theorem sha1Kept_iff_of_fortyDigits (h : FortyDigits string) (sha1 : ℕ → Byte) :
    Sha1Kept string sha1 ↔ sha1 20 = 0 ∧ sha1 21 = 0 ∧ sha1 22 = 0 := by
  rw [Sha1Kept, h.string2sha1Into_eq]
  constructor
  · rintro ⟨-, hkept⟩
    obtain ⟨-, hbehind⟩ := hkept rfl
    exact ⟨(hbehind 20 (by decide)).symm, (hbehind 21 (by decide)).symm,
      (hbehind 22 (by decide)).symm⟩
  · rintro ⟨h20, h21, h22⟩
    refine ⟨iff_of_true rfl h, fun _ => ⟨fun k hk => if_pos hk, fun j hj => ?_⟩⟩
    simp only
    rw [if_neg (Nat.not_lt.mpr hj)]
    split_ifs with hlt
    · simp only [shaDigestLength] at hj hlt
      obtain rfl | rfl | rfl : j = 20 ∨ j = 21 ∨ j = 22 := by omega
      · exact h20.symm
      · exact h21.symm
      · exact h22.symm
    · rfl

/-- **When the hash is kept.** For every text and any bytes in the memory of the hash: the function
accepts forty digits only, stores the bytes they denote, and changes nothing behind them, exactly
when there are forty digits and the three bytes behind the hash are zero, or when there is no number
where one of the twenty pairs begins. -/
theorem sha1Kept_iff (string : List Byte) (sha1 : ℕ → Byte) :
    Sha1Kept string sha1 ↔
      (FortyDigits string ∧ sha1 20 = 0 ∧ sha1 21 = 0 ∧ sha1 22 = 0) ∨
        ∃ k < shaDigestLength, ¬HasNumber (pairText string k) := by
  by_cases hforty : FortyDigits string
  · have hall : ¬∃ k < shaDigestLength, ¬HasNumber (pairText string k) := by
      rintro ⟨k, hk, hno⟩
      rw [← scanInt_isSome_iff, hforty.scanInt_eq hk] at hno
      exact hno rfl
    rw [or_iff_left hall, sha1Kept_iff_of_fortyDigits hforty, and_iff_right hforty]
  · rw [or_iff_right fun h => hforty h.1]
    constructor
    · intro h
      by_contra hall
      push Not at hall
      -- every pair is a number, so the function returns 0
      have hscan : ∀ j, 0 ≤ j → j < 0 + shaDigestLength → scanInt (pairText string j) =
          some ((scanInt (pairText string j)).getD 0) := by
        intro j _ hj
        obtain ⟨v, hv⟩ := Option.isSome_iff_exists.mp
          ((scanInt_isSome_iff _).mpr (hall j (by omega)))
        rw [hv]
        rfl
      refine hforty (h.1.mp ?_)
      rw [string2sha1Into, string2sha1From_of_some hscan]
    · rintro ⟨k, hk, hno⟩
      have hnone : scanInt (pairText string k) = none := by
        rw [← scanInt_isSome_iff] at hno
        simpa using hno
      have hret : (string2sha1Into string sha1).1 = -1 :=
        string2sha1From_of_none (Nat.zero_le k) (by omega) hnone sha1
      have hne : (string2sha1Into string sha1).1 ≠ 0 := by
        rw [hret]
        decide
      exact ⟨iff_of_false hne hforty, fun h => absurd h hne⟩

/-- A text of `n` digits. -/
def digitText (n : ℕ) : List Byte := List.replicate n 0x61 ++ [0]

/-- Thirty-nine digits are accepted, and forty digits change a byte behind the hash. -/
theorem sha1_not_kept :
    ((string2sha1Into (digitText 39) fun _ => 0).1 = 0 ∧ ¬FortyDigits (digitText 39) ∧
        ¬Sha1Kept (digitText 39) fun _ => 0) ∧
      FortyDigits (digitText 40) ∧ ¬Sha1Kept (digitText 40) fun _ => 1 := by
  have hret : (string2sha1Into (digitText 39) fun _ => 0).1 = 0 := by decide +kernel
  have hfew : ¬FortyDigits (digitText 39) := by
    rw [FortyDigits]
    decide +kernel
  have hforty : FortyDigits (digitText 40) := by
    rw [FortyDigits]
    decide +kernel
  refine ⟨⟨hret, hfew, fun h => hfew (h.1.mp hret)⟩, hforty, fun h => ?_⟩
  have hzero := ((sha1Kept_iff_of_fortyDigits hforty _).mp h).1
  exact absurd hzero (by decide)

end Patchbox
