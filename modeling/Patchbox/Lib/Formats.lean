import Mathlib

/-!
# Readers and the formats they read

A reader runs over a file from an offset on, and returns a value or fails; where it
stands afterwards is known in both cases. A format relates values to strings. A
reader reads a format when it succeeds exactly where an encoding of its value
stands, and then moves past that encoding. The one statement holds both halves of
a round trip: what is encoded is read back, and what is read was encoded.

Formats compose as readers do. A reader that also succeeds at a short end of the
file reads its format loosely; followed by a reader that needs more, it is as good
as one that does not.

## Main definitions

* `Cursor`, `Reader` — a file from an offset on, and a reader over it.
* `Reads`, `ReadsLoosely` — the format of a reader.
* `Reads.field` — how the format of a record is put together.
* `readN` — a repeated reader.
* `Counted` — a list whose length fits in sixteen bits.
-/

namespace Lib

variable {τ α β : Type}

/-- A file, open at an offset. -/
structure Cursor (τ : Type) where
  file : List τ
  off : ℕ

/-- What is left to read. -/
def Cursor.rest (c : Cursor τ) : List τ := c.file.drop c.off

/-- The cursor `n` further on. -/
def Cursor.skip (c : Cursor τ) (n : ℕ) : Cursor τ := ⟨c.file, c.off + n⟩

@[simp] theorem Cursor.rest_skip (c : Cursor τ) (n : ℕ) : (c.skip n).rest = c.rest.drop n := by
  simp [Cursor.skip, Cursor.rest]

@[simp] theorem Cursor.skip_skip (c : Cursor τ) (m n : ℕ) : (c.skip m).skip n = c.skip (m + n) := by
  simp [Cursor.skip, Nat.add_assoc]

/-- A computation over a cursor that returns a value or fails. -/
def Reader (τ α : Type) := Cursor τ → Option α × Cursor τ

namespace Reader

instance : Monad (Reader τ) where
  pure a := fun c => (some a, c)
  bind m f := fun c =>
    match m c with
    | (some a, c) => f a c
    | (none, c) => (none, c)

theorem pure_apply (a : α) (c : Cursor τ) : (pure a : Reader τ α) c = (some a, c) := rfl

theorem bind_apply (m : Reader τ α) (f : α → Reader τ β) (c : Cursor τ) :
    (m >>= f) c = match m c with
      | (some a, c) => f a c
      | (none, c) => (none, c) := rfl

theorem bind_of_some {m : Reader τ α} {f : α → Reader τ β} {c c' : Cursor τ} {a : α}
    (h : m c = (some a, c')) : (m >>= f) c = f a c' := by
  rw [bind_apply, h]

/-- A sequence succeeds when both parts do. -/
theorem bind_eq_some {m : Reader τ α} {f : α → Reader τ β} {c c'' : Cursor τ} {b : β} :
    (m >>= f) c = (some b, c'') ↔ ∃ a c', m c = (some a, c') ∧ f a c' = (some b, c'') := by
  rw [bind_apply]
  constructor
  · intro h
    split at h
    · exact ⟨_, _, ‹_›, h⟩
    · cases h
  · rintro ⟨a, c', hm, hf⟩
    rw [hm]
    exact hf

end Reader

/-! ## Formats -/

/-- A relation between values and strings: `R a bs` says that `bs` encodes `a`. -/
abbrev Format (τ α : Type) := α → List τ → Prop

/-- The format of an encoding function, for the values that meet a condition. -/
def encodedIf (C : α → Prop) (enc : α → List τ) : Format τ α := fun a bs => C a ∧ bs = enc a

/-- The format of an encoding function. -/
abbrev encodedBy (enc : α → List τ) : Format τ α := encodedIf (fun _ => True) enc

/-- A value of the first format, then one of the second. -/
def Format.seq (R : Format τ α) (S : α → Format τ β) : Format τ β := fun b cs =>
  ∃ a bs bs', R a bs ∧ S a b bs' ∧ cs = bs ++ bs'

/-- The reader succeeds exactly where an encoding of its value stands, and moves past it. -/
def Reads (m : Reader τ α) (R : Format τ α) : Prop :=
  ∀ c a c', m c = (some a, c') ↔ ∃ bs, R a bs ∧ bs <+: c.rest ∧ c' = c.skip bs.length

/-- The same, but the reader may also succeed at the end of a file that is too short. -/
def ReadsLoosely (m : Reader τ α) (R : Format τ α) : Prop :=
  (∀ c a bs, R a bs → bs <+: c.rest → m c = (some a, c.skip bs.length)) ∧
    ∀ c a c', m c = (some a, c') →
      c'.rest = [] ∨ ∃ bs, R a bs ∧ bs <+: c.rest ∧ c' = c.skip bs.length

/-- The reader fails at the end of the file. -/
def NeedsMore (m : Reader τ α) : Prop := ∀ c, c.rest = [] → ∀ a c', m c ≠ (some a, c')

theorem append_prefix_iff {bs bs' l : List τ} :
    bs ++ bs' <+: l ↔ bs <+: l ∧ bs' <+: l.drop bs.length := by
  constructor
  · rintro ⟨t, rfl⟩
    refine ⟨⟨bs' ++ t, (List.append_assoc ..).symm⟩, t, ?_⟩
    rw [List.append_assoc, List.drop_left]
  · rintro ⟨⟨t, rfl⟩, ⟨t', h⟩⟩
    rw [List.drop_left] at h
    exact ⟨t', by rw [List.append_assoc, h]⟩

theorem Reads.loosely {m : Reader τ α} {R : Format τ α} (h : Reads m R) : ReadsLoosely m R :=
  ⟨fun c a bs ha hbs => (h c a _).mpr ⟨bs, ha, hbs, rfl⟩, fun c a c' hm => .inr ((h c a c').mp hm)⟩

/-- The format may be rewritten. -/
theorem Reads.of_iff {m : Reader τ α} {R S : Format τ α} (h : Reads m R)
    (hiff : ∀ a bs, R a bs ↔ S a bs) : Reads m S := by
  intro c a c'
  simp only [h c a c', hiff]

theorem reads_pure (a : α) : Reads (pure a : Reader τ α) fun x bs => x = a ∧ bs = [] := by
  intro c x c'
  rw [Reader.pure_apply]
  constructor
  · rintro ⟨rfl, rfl⟩
    exact ⟨[], ⟨rfl, rfl⟩, List.nil_prefix, rfl⟩
  · rintro ⟨bs, ⟨rfl, rfl⟩, -, rfl⟩
    rfl

/-- **A sequence reads the sequence of formats**, even when its first part is loose, as long as
the second needs more. -/
theorem ReadsLoosely.bind {m : Reader τ α} {f : α → Reader τ β} {R : Format τ α}
    {S : α → Format τ β} (hm : ReadsLoosely m R) (hf : ∀ a, Reads (f a) (S a))
    (hmore : ∀ a, NeedsMore (f a)) : Reads (m >>= f) (R.seq S) := by
  intro c b c''
  rw [Reader.bind_eq_some]
  constructor
  · rintro ⟨a, c', hma, hfb⟩
    rcases hm.2 c a c' hma with hend | ⟨bs, ha, hbs, rfl⟩
    · exact absurd hfb (hmore a c' hend b c'')
    · obtain ⟨bs', hb, hbs', rfl⟩ := (hf a _ b c'').mp hfb
      rw [Cursor.rest_skip] at hbs'
      exact ⟨bs ++ bs', ⟨a, bs, bs', ha, hb, rfl⟩, append_prefix_iff.mpr ⟨hbs, hbs'⟩, by simp⟩
  · rintro ⟨_, ⟨a, bs, bs', ha, hb, rfl⟩, hpre, rfl⟩
    obtain ⟨hbs, hbs'⟩ := append_prefix_iff.mp hpre
    refine ⟨a, c.skip bs.length, hm.1 c a bs ha hbs, (hf a _ b _).mpr ⟨bs', hb, ?_, by simp⟩⟩
    rwa [Cursor.rest_skip]

/-- A sequence reads the sequence of formats. -/
theorem Reads.bind {m : Reader τ α} {f : α → Reader τ β} {R : Format τ α}
    {S : α → Format τ β} (hm : Reads m R) (hf : ∀ a, Reads (f a) (S a)) :
    Reads (m >>= f) (R.seq S) := by
  intro c b c''
  rw [Reader.bind_eq_some]
  constructor
  · rintro ⟨a, c', hma, hfb⟩
    obtain ⟨bs, ha, hbs, rfl⟩ := (hm c a c').mp hma
    obtain ⟨bs', hb, hbs', rfl⟩ := (hf a _ b c'').mp hfb
    rw [Cursor.rest_skip] at hbs'
    exact ⟨bs ++ bs', ⟨a, bs, bs', ha, hb, rfl⟩, append_prefix_iff.mpr ⟨hbs, hbs'⟩, by simp⟩
  · rintro ⟨_, ⟨a, bs, bs', ha, hb, rfl⟩, hpre, rfl⟩
    obtain ⟨hbs, hbs'⟩ := append_prefix_iff.mp hpre
    refine ⟨a, c.skip bs.length, (hm c a _).mpr ⟨bs, ha, hbs, rfl⟩,
      (hf a _ b _).mpr ⟨bs', hb, ?_, by simp⟩⟩
    rwa [Cursor.rest_skip]

/-- A loose format may be rewritten, too. -/
theorem ReadsLoosely.of_iff {m : Reader τ α} {R S : Format τ α} (h : ReadsLoosely m R)
    (hiff : ∀ a bs, R a bs ↔ S a bs) : ReadsLoosely m S := by
  simp only [ReadsLoosely, ← hiff]
  exact h

/-- What succeeds at the end of a file leaves nothing behind. -/
theorem ReadsLoosely.rest_of_end {m : Reader τ α} {R : Format τ α} (h : ReadsLoosely m R)
    {c c' : Cursor τ} {a : α} (hc : c.rest = []) (hm : m c = (some a, c')) : c'.rest = [] := by
  rcases h.2 c a c' hm with hend | ⟨bs, -, -, rfl⟩
  · exact hend
  · rw [Cursor.rest_skip, hc, List.drop_nil]

/-- **A sequence of loose readers** reads the sequence of formats loosely. -/
theorem ReadsLoosely.bindLoosely {m : Reader τ α} {f : α → Reader τ β} {R : Format τ α}
    {S : α → Format τ β} (hm : ReadsLoosely m R) (hf : ∀ a, ReadsLoosely (f a) (S a)) :
    ReadsLoosely (m >>= f) (R.seq S) := by
  constructor
  · rintro c b _ ⟨a, bs, bs', ha, hb, rfl⟩ hpre
    obtain ⟨hbs, hbs'⟩ := append_prefix_iff.mp hpre
    rw [Reader.bind_of_some (hm.1 c a bs ha hbs),
      (hf a).1 _ b bs' hb (by rwa [Cursor.rest_skip])]
    simp
  · intro c b c'' h
    obtain ⟨a, c', hma, hfb⟩ := Reader.bind_eq_some.mp h
    rcases hm.2 c a c' hma with hend | ⟨bs, ha, hbs, rfl⟩
    · exact .inl ((hf a).rest_of_end hend hfb)
    · rcases (hf a).2 _ b c'' hfb with hend | ⟨bs', hb, hbs', rfl⟩
      · exact .inl hend
      · rw [Cursor.rest_skip] at hbs'
        exact .inr ⟨bs ++ bs', ⟨a, bs, bs', ha, hb, rfl⟩, append_prefix_iff.mpr ⟨hbs, hbs'⟩,
          by simp⟩

/-- Go on after the first part, or be done with another value when it fails. The value may depend
on what was left to read. -/
def Reader.bindOr (m : Reader τ α) (short : List τ → β) (f : α → Reader τ β) : Reader τ β :=
  fun c =>
    match m c with
    | (some a, c') => f a c'
    | (none, c') => (some (short c.rest), c')

/-- **A sequence that is cut short at the end of the file** is loose. -/
theorem Reads.bindOr {m : Reader τ α} {f : α → Reader τ β} {R : Format τ α}
    {S : α → Format τ β} (hm : Reads m R) (hend : ∀ c c', m c = (none, c') → c'.rest = [])
    (short : List τ → β) (hf : ∀ a, ReadsLoosely (f a) (S a)) :
    ReadsLoosely (m.bindOr short f) (R.seq S) := by
  have hseq := hm.loosely.bindLoosely hf
  constructor
  · rintro c b _ ⟨a, bs, bs', ha, hb, rfl⟩ hpre
    have hma := (hm c a _).mpr ⟨bs, ha, (append_prefix_iff.mp hpre).1, rfl⟩
    have hbind := hseq.1 c b _ ⟨a, bs, bs', ha, hb, rfl⟩ hpre
    rw [Reader.bind_of_some hma] at hbind
    rw [Reader.bindOr, hma]
    exact hbind
  · intro c b c'' h
    cases hma : m c with
    | mk a c' =>
        rw [Reader.bindOr, hma] at h
        cases a with
        | none =>
            obtain ⟨-, rfl⟩ := Prod.mk.inj h
            exact .inl (hend c c' hma)
        | some a =>
            refine hseq.2 c b c'' ?_
            rw [Reader.bind_of_some hma]
            exact h

/-- **A field in front.** When the value of the field can be had back from the result, the
encoding of the result is that of the field and the rest. The condition on the result includes
that on the field. -/
theorem Reads.fieldIf {m : Reader τ α} {f : α → Reader τ β} {C : α → Prop} {P : β → Prop}
    {enc : α → List τ} {tail : β → List τ} (get : β → α) (hm : Reads m (encodedIf C enc))
    (hC : ∀ b, P b → C (get b))
    (hf : ∀ a, C a → Reads (f a) (encodedIf (fun b => get b = a ∧ P b) tail)) :
    Reads (m >>= f) (encodedIf P fun b => enc (get b) ++ tail b) := by
  intro c b c''
  rw [Reader.bind_eq_some]
  constructor
  · rintro ⟨a, c', hma, hfb⟩
    obtain ⟨_, ⟨ha, rfl⟩, hbs, rfl⟩ := (hm c a c').mp hma
    obtain ⟨_, ⟨⟨rfl, hP⟩, rfl⟩, hbs', rfl⟩ := (hf a ha _ b c'').mp hfb
    rw [Cursor.rest_skip] at hbs'
    exact ⟨_, ⟨hP, rfl⟩, append_prefix_iff.mpr ⟨hbs, hbs'⟩, by simp⟩
  · rintro ⟨_, ⟨hP, rfl⟩, hpre, rfl⟩
    obtain ⟨hbs, hbs'⟩ := append_prefix_iff.mp hpre
    rw [← Cursor.rest_skip] at hbs'
    exact ⟨get b, _, (hm c _ _).mpr ⟨_, ⟨hC b hP, rfl⟩, hbs, rfl⟩,
      (hf _ (hC b hP) _ b _).mpr ⟨_, ⟨⟨rfl, hP⟩, rfl⟩, hbs', by simp⟩⟩

/-- A field in front, as a sequence of formats. -/
theorem Format.seq_field {P : β → Prop} {enc : α → List τ} {tail : β → List τ} (get : β → α)
    (b : β) (bs : List τ) :
    (encodedBy enc).seq (fun a => encodedIf (fun b => get b = a ∧ P b) tail) b bs ↔
      encodedIf P (fun b => enc (get b) ++ tail b) b bs := by
  simp only [Format.seq, encodedIf, true_and]
  constructor
  · rintro ⟨_, _, _, rfl, ⟨⟨rfl, hP⟩, rfl⟩, rfl⟩
    exact ⟨hP, rfl⟩
  · rintro ⟨hP, rfl⟩
    exact ⟨get b, _, _, rfl, ⟨⟨rfl, hP⟩, rfl⟩, rfl⟩

/-- A field in front of what is read loosely. -/
theorem ReadsLoosely.field {m : Reader τ α} {f : α → Reader τ β} {P : β → Prop}
    {enc : α → List τ} {tail : β → List τ} (get : β → α) (hm : ReadsLoosely m (encodedBy enc))
    (hf : ∀ a, ReadsLoosely (f a) (encodedIf (fun b => get b = a ∧ P b) tail)) :
    ReadsLoosely (m >>= f) (encodedIf P fun b => enc (get b) ++ tail b) :=
  (hm.bindLoosely hf).of_iff (Format.seq_field get)

/-- A loose field in front of a reader that needs more. -/
theorem ReadsLoosely.fieldThen {m : Reader τ α} {f : α → Reader τ β} {P : β → Prop}
    {enc : α → List τ} {tail : β → List τ} (get : β → α) (hm : ReadsLoosely m (encodedBy enc))
    (hf : ∀ a, Reads (f a) (encodedIf (fun b => get b = a ∧ P b) tail))
    (hmore : ∀ a, NeedsMore (f a)) :
    Reads (m >>= f) (encodedIf P fun b => enc (get b) ++ tail b) :=
  (hm.bind hf hmore).of_iff (Format.seq_field get)

/-- A field that meets no condition. -/
theorem Reads.field {m : Reader τ α} {f : α → Reader τ β} {P : β → Prop}
    {enc : α → List τ} {tail : β → List τ} (get : β → α) (hm : Reads m (encodedBy enc))
    (hf : ∀ a, Reads (f a) (encodedIf (fun b => get b = a ∧ P b) tail)) :
    Reads (m >>= f) (encodedIf P fun b => enc (get b) ++ tail b) :=
  hm.fieldIf get (fun _ _ => trivial) fun a _ => hf a

theorem ReadsLoosely.congr {m : Reader τ β} {P : β → Prop} {enc enc' : β → List τ}
    (h : ReadsLoosely m (encodedIf P enc)) (henc : ∀ b, enc b = enc' b) :
    ReadsLoosely m (encodedIf P enc') := by
  rwa [← funext henc]

/-- The encoding may be written in another way. -/
theorem Reads.congr {m : Reader τ β} {P : β → Prop} {enc enc' : β → List τ}
    (h : Reads m (encodedIf P enc)) (henc : ∀ b, P b → enc b = enc' b) :
    Reads m (encodedIf P enc') :=
  h.of_iff fun b bs => and_congr_right fun hP => by rw [henc b hP]

/-- The record that its fields make up. -/
theorem reads_record {b : β} {P : β → Prop} (h : ∀ x, x = b ↔ P x) :
    Reads (pure b : Reader τ β) (encodedIf P fun _ => []) :=
  (reads_pure b).of_iff fun x bs => by rw [encodedIf, h]

/-- A part that may be left out; it has a value all the same. -/
def Reader.optional (m : Reader τ α) (present : Bool) (a : α) : Reader τ α :=
  if present then m else pure a

theorem Reads.optional {m : Reader τ α} {C : α → Prop} {enc : α → List τ}
    (h : Reads m (encodedIf C enc)) (present : Bool) (a : α) :
    Reads (m.optional present a)
      (encodedIf (fun x => if present then C x else x = a)
        fun x => if present then enc x else []) := by
  cases present with
  | false => exact reads_record fun x => by simp
  | true => simpa [Reader.optional] using h

/-- A sequence needs more when its first part does. -/
theorem NeedsMore.bind {m : Reader τ α} (hm : NeedsMore m) (f : α → Reader τ β) :
    NeedsMore (m >>= f) := by
  intro c hc b c'' h
  obtain ⟨a, c', hma, -⟩ := Reader.bind_eq_some.mp h
  exact hm c hc a c' hma

/-- A reader of nonempty encodings needs more. -/
theorem Reads.needsMore {m : Reader τ α} {R : Format τ α} (h : Reads m R)
    (hne : ∀ a bs, R a bs → bs ≠ []) : NeedsMore m := by
  intro c hc a c' hm
  obtain ⟨bs, ha, hbs, -⟩ := (h c a c').mp hm
  rw [hc, List.prefix_nil] at hbs
  exact hne a bs ha hbs

/-! ## Repetition -/

/-- A list of length `n`. -/
abbrev ListOf (α : Type) (n : ℕ) := { l : List α // l.length = n }

/-- One more element in front. -/
def ListOf.cons {n : ℕ} (a : α) (l : ListOf α n) : ListOf α (n + 1) :=
  ⟨a :: l.1, by rw [List.length_cons, l.2]⟩

/-- `n` values, one after the other. -/
def readN (m : Reader τ α) : (n : ℕ) → Reader τ (ListOf α n)
  | 0 => pure ⟨[], rfl⟩
  | n + 1 => do
    let a ← m
    let l ← readN m n
    return l.cons a

theorem ListOf.eq_cons {n : ℕ} (l : ListOf α (n + 1)) : ∃ a l', l = ListOf.cons a l' := by
  obtain ⟨_ | ⟨a, l⟩, h⟩ := l
  · simp at h
  · exact ⟨a, ⟨l, by simpa using h⟩, rfl⟩

/-- The first element. -/
def ListOf.head {n : ℕ} (l : ListOf α (n + 1)) : α :=
  l.1.head (List.ne_nil_of_length_pos (by rw [l.2]; exact Nat.succ_pos n))

/-- The others. -/
def ListOf.tail {n : ℕ} (l : ListOf α (n + 1)) : ListOf α n :=
  ⟨l.1.tail, by rw [List.length_tail, l.2, Nat.add_sub_cancel]⟩

@[simp] theorem ListOf.head_cons {n : ℕ} (a : α) (l : ListOf α n) : (ListOf.cons a l).head = a :=
  rfl

@[simp] theorem ListOf.tail_cons {n : ℕ} (a : α) (l : ListOf α n) : (ListOf.cons a l).tail = l :=
  rfl

theorem ListOf.cons_inj {n : ℕ} {a a' : α} {l l' : ListOf α n} :
    ListOf.cons a l = ListOf.cons a' l' ↔ a = a' ∧ l = l' := by
  simp [ListOf.cons, Subtype.ext_iff]

/-- A repeated reader reads the encodings one after the other. -/
theorem Reads.readN {m : Reader τ α} {C : α → Prop} {enc : α → List τ}
    (h : Reads m (encodedIf C enc)) (n : ℕ) :
    Reads (readN m n) (encodedIf (fun l => ∀ a ∈ l.1, C a) fun l => l.1.flatMap enc) := by
  induction n with
  | zero =>
      refine (reads_pure _).of_iff fun l bs => ?_
      obtain ⟨l, hl⟩ := l
      obtain rfl := List.length_eq_zero_iff.mp hl
      simp [encodedIf]
  | succ n ih =>
      refine (h.bind fun a => ih.bind fun l => reads_pure _).of_iff fun l bs => ?_
      obtain ⟨a, l, rfl⟩ := l.eq_cons
      simp only [Format.seq, encodedIf, ListOf.cons_inj]
      simp only [ListOf.cons, List.forall_mem_cons, List.flatMap_cons]
      constructor
      · rintro ⟨_, _, _, ⟨ha, rfl⟩, ⟨_, _, _, ⟨hl, rfl⟩, ⟨⟨rfl, rfl⟩, rfl⟩, rfl⟩, rfl⟩
        exact ⟨⟨ha, hl⟩, by simp⟩
      · rintro ⟨⟨ha, hl⟩, rfl⟩
        exact ⟨a, _, _, ⟨ha, rfl⟩, ⟨l, _, [], ⟨hl, rfl⟩, ⟨⟨rfl, rfl⟩, rfl⟩, rfl⟩, by simp⟩

/-! ## Counted lists -/

/-- A list whose length fits in sixteen bits. -/
abbrev Counted (α : Type) := { l : List α // l.length < 2 ^ 16 }

/-- The length, as it is stored. -/
def Counted.count (l : Counted α) : BitVec 16 := BitVec.ofNat 16 l.1.length

@[simp] theorem Counted.toNat_count (l : Counted α) : l.count.toNat = l.1.length := by
  rw [Counted.count, BitVec.toNat_ofNat, Nat.mod_eq_of_lt l.2]

/-- The empty list. -/
def Counted.nil : Counted α := ⟨[], by simp⟩

@[simp] theorem Counted.val_nil : (Counted.nil : Counted α).1 = [] := rfl

/-- A list of one. -/
def Counted.single (a : α) : Counted α := ⟨[a], by simp⟩

/-- A list as long as a count says. -/
def ListOf.counted {n : BitVec 16} (l : ListOf α n.toNat) : Counted α :=
  ⟨l.1, by rw [l.2]; exact n.isLt⟩

theorem ListOf.count_counted {n : BitVec 16} (l : ListOf α n.toNat) : l.counted.count = n := by
  apply BitVec.eq_of_toNat_eq
  rw [Counted.toNat_count, ListOf.counted, l.2]

/-- A count, and as many values. -/
def readCounted (count : Reader τ (BitVec 16)) (m : Reader τ α) : Reader τ (Counted α) := do
  let n ← count
  let l ← readN m n.toNat
  return l.counted

/-- **A counted list** reads the encoded count and then the encodings. -/
theorem Reads.counted {count : Reader τ (BitVec 16)} {encCount : BitVec 16 → List τ}
    (hcount : Reads count (encodedBy encCount)) {m : Reader τ α} {C : α → Prop}
    {enc : α → List τ} (h : Reads m (encodedIf C enc)) :
    Reads (readCounted count m)
      (encodedIf (fun l => ∀ a ∈ l.1, C a) fun l => encCount l.count ++ l.1.flatMap enc) := by
  refine (hcount.bind fun n => (h.readN n.toNat).bind fun l => reads_pure _).of_iff fun l bs => ?_
  simp only [Format.seq, encodedIf, true_and]
  constructor
  · rintro ⟨n, _, _, rfl, ⟨l', _, _, ⟨hl, rfl⟩, ⟨rfl, rfl⟩, rfl⟩, rfl⟩
    rw [ListOf.count_counted, List.append_nil]
    exact ⟨hl, rfl⟩
  · rintro ⟨hl, rfl⟩
    exact ⟨l.count, _, _, rfl,
      ⟨⟨l.1, (Counted.toNat_count l).symm⟩, _, _, ⟨hl, rfl⟩, ⟨rfl, rfl⟩, rfl⟩, by simp⟩

end Lib
