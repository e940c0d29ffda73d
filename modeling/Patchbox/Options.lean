import Patchbox.CmdApply
import Patchbox.Lib.Registers

/-!
# The command line

`get_options` goes over all options before a command is run, as their order on the command line is
not defined. An option sets a flag and may copy its argument to one of three buffers. Two options
share the buffer of the hash; what else depends on the order is an option that is given twice.

## Main definitions

* `Getopt`, `Options` — what `getopt_long_only` finds, and the variables that are set.
* `getOptions` — `get_options`.
* `getOptions_perm_iff` — when the order of the options does not matter.
-/

namespace Patchbox
open Lib

/-! ## The function -/

/-- The entries of the table `long_options`. -/
inductive LongOption where
  | dummy
  | info
  | list
  | find
  | apply
  | remove
  | socket
  | debug
  | help
  deriving DecidableEq

/-- What one call of `getopt_long_only` finds, with its argument: an entry of the table, or a
character. The character is `?` for what is not known. -/
inductive Getopt where
  | long (i : LongOption) (optarg : List Byte)
  | short (c : Byte) (optarg : List Byte)
  deriving DecidableEq

/-- The argument. -/
def Getopt.optarg : Getopt → List Byte
  | long _ optarg => optarg
  | short _ optarg => optarg

/-- The variables that `get_options` sets. The buffers are given by the text in them. -/
structure Options where
  infoFlag : Bool
  listFlag : Bool
  findFlag : Bool
  applyFlag : Bool
  removeFlag : Bool
  sockFlag : Bool
  debug : Bool
  filepath : List Byte
  patchHash : List Byte
  sockname : List Byte
  deriving DecidableEq

/-- The static variables when the program starts. -/
def Options.start : Options :=
  ⟨false, false, false, false, false, false, false, [], [], []⟩

/-- `PATH_MAX`. -/
abbrev pathMax : ℕ := 4096

/-- The text that `strncpy` leaves in a buffer. -/
def strncpyText (s : List Byte) (n : ℕ) : List Byte := (cstring s).take n

/-- A path without the slashes at its end, which `basename` cuts off in place; a path that has
nothing else is left as it is. -/
def trimSlashes (path : List Byte) : List Byte :=
  let trimmed := path.rdropWhile (· = 0x2f)
  if trimmed = [] then path else trimmed

/-- What `basename` returns. -/
def basename (path : List Byte) : List Byte :=
  let trimmed := path.rdropWhile (· = 0x2f)
  if path = [] then [0x2e]
  else if trimmed = [] then [0x2f]
  else trimmed.rtakeWhile (· ≠ 0x2f)

/-- Set the flag of an option. -/
def Options.setFlag (o : Options) : LongOption → Options
  | .info => { o with infoFlag := true }
  | .list => { o with listFlag := true }
  | .find => { o with findFlag := true }
  | .apply => { o with applyFlag := true }
  | .remove => { o with removeFlag := true }
  | .socket => { o with sockFlag := true }
  | .dummy => o
  | .debug => o
  | .help => o

/-- The characters of the inner `switch`. -/
def shortOption (c : Byte) : Option LongOption :=
  if c = 0x69 then some .info
  else if c = 0x6c then some .list
  else if c = 0x66 then some .find
  else if c = 0x61 then some .apply
  else if c = 0x72 then some .remove
  else if c = 0x73 then some .socket
  else if c = 0x64 then some .debug
  else if c = 0x68 then some .help
  else none

/-- The flags that are set before the outer `switch`. `getopt_long_only` sets that of an entry of
the table; the inner `switch` sets the others, but for the one of the socket. -/
def Options.before (o : Options) : Getopt → Options
  | .long i _ => o.setFlag i
  | .short c _ =>
    match shortOption c with
    | none => o
    | some .socket => o
    | some i => o.setFlag i

/-- The case of the outer `switch`. A character that is not known falls through to the first. -/
def Getopt.option : Getopt → LongOption
  | long .dummy _ => .info
  | long i _ => i
  | short c _ => (shortOption c).getD .info

/-- The outer `switch`; `usage` exits. -/
def Options.select (o : Options) (optarg : List Byte) : LongOption → Option Options
  | .dummy => some { o with infoFlag := true }
  | .info => some { o with infoFlag := true }
  | .list => some { o with listFlag := true }
  | .find => some { o with
      findFlag := true
      patchHash := strncpyText optarg (2 * shaDigestLength + 1) }
  | .apply => some { o with filepath := trimSlashes (strncpyText optarg (pathMax - 1)) }
  | .remove => some { o with patchHash := strncpyText optarg (2 * shaDigestLength + 1) }
  | .socket => some { o with sockname := strncpyText optarg pathMax }
  | .debug => some { o with debug := true }
  | .help => none

/-- One round of the loop. -/
def Options.getOption (o : Options) (g : Getopt) : Option Options :=
  (o.before g).select g.optarg g.option

/-- `get_options`, for `argc` and what the calls of `getopt_long_only` find; nothing when the
program exits with `usage`. -/
def getOptions (argc : ℕ) (found : List Getopt) : Option Options :=
  if argc < 2 then none else found.foldlM Options.getOption .start

/-! ## Flags and buffers -/

/-- A flag, under the name of its option. -/
def Options.flag (o : Options) : LongOption → Bool
  | .info => o.infoFlag
  | .list => o.listFlag
  | .find => o.findFlag
  | .apply => o.applyFlag
  | .remove => o.removeFlag
  | .socket => o.sockFlag
  | .debug => o.debug
  | .dummy => false
  | .help => false

/-- The buffers for the arguments. -/
inductive ArgBuffer where
  | filepath
  | patchHash
  | sockname
  deriving DecidableEq

/-- The text in a buffer. -/
def Options.text (o : Options) : ArgBuffer → List Byte
  | .filepath => o.filepath
  | .patchHash => o.patchHash
  | .sockname => o.sockname

theorem Options.eq_of_flag_text {o o' : Options} (hflag : o.flag = o'.flag)
    (htext : o.text = o'.text) : o = o' := by
  obtain ⟨i, l, f, a, r, s, d, path, hash, sock⟩ := o
  obtain ⟨i', l', f', a', r', s', d', path', hash', sock'⟩ := o'
  obtain rfl : i = i' := congrFun hflag .info
  obtain rfl : l = l' := congrFun hflag .list
  obtain rfl : f = f' := congrFun hflag .find
  obtain rfl : a = a' := congrFun hflag .apply
  obtain rfl : r = r' := congrFun hflag .remove
  obtain rfl : s = s' := congrFun hflag .socket
  obtain rfl : d = d' := congrFun hflag .debug
  obtain rfl : path = path' := congrFun htext .filepath
  obtain rfl : hash = hash' := congrFun htext .patchHash
  obtain rfl : sock = sock' := congrFun htext .sockname
  rfl

/-- The flag that an option sets. -/
def Getopt.flagWrite (g : Getopt) : Option (LongOption × Bool) :=
  match g, g.option with
  | _, .help => none
  | short _ _, .socket => none
  | _, i => some (i, true)

/-- The buffer that it copies its argument to. -/
def Getopt.textWrite (g : Getopt) : Option (ArgBuffer × List Byte) :=
  match g.option with
  | .find => some (.patchHash, strncpyText g.optarg (2 * shaDigestLength + 1))
  | .remove => some (.patchHash, strncpyText g.optarg (2 * shaDigestLength + 1))
  | .apply => some (.filepath, trimSlashes (strncpyText g.optarg (pathMax - 1)))
  | .socket => some (.sockname, strncpyText g.optarg pathMax)
  | _ => none

/-- No character stands for the first entry of the table. -/
theorem shortOption_ne_dummy (c : Byte) : shortOption c ≠ some .dummy := by
  rw [shortOption]
  split_ifs
  all_goals simp

/-- **One round** sets the flag and copies the argument. -/
theorem Options.getOption_spec (o : Options) (g : Getopt) (hhelp : g.option ≠ .help) :
    ∃ o', o.getOption g = some o' ∧ o'.flag = write o.flag g.flagWrite ∧
      o'.text = write o.text g.textWrite := by
  cases g with
  | long i optarg =>
      cases i
      case help => exact absurd rfl hhelp
      all_goals
        refine ⟨_, rfl, ?_, ?_⟩
        · funext k
          cases k <;> rfl
        · funext b
          cases b <;> rfl
  | short c optarg =>
      simp only [getOption, before, Getopt.option, Getopt.flagWrite, Getopt.textWrite,
        Getopt.optarg] at hhelp ⊢
      have hdummy := shortOption_ne_dummy c
      generalize shortOption c = known at hhelp hdummy ⊢
      rcases known with _ | i
      · refine ⟨_, rfl, ?_, ?_⟩
        · funext k
          cases k <;> rfl
        · funext b
          cases b <;> rfl
      · cases i
        case dummy => exact absurd rfl hdummy
        case help => exact absurd rfl hhelp
        all_goals
          refine ⟨_, rfl, ?_, ?_⟩
          · funext k
            cases k <;> rfl
          · funext b
            cases b <;> rfl

theorem Options.getOption_help (o : Options) {g : Getopt} (hhelp : g.option = .help) :
    o.getOption g = none := by
  rw [getOption, hhelp]
  rfl

/-- **All rounds**: the flags and buffers are written one after the other, unless help is asked
for. -/
theorem Options.foldlM_getOption (o : Options) (found : List Getopt) :
    (∃ g ∈ found, g.option = .help) ∧ found.foldlM getOption o = none ∨
      (∀ g ∈ found, g.option ≠ .help) ∧ ∃ o', found.foldlM getOption o = some o' ∧
        o'.flag = writeAll Getopt.flagWrite o.flag found ∧
        o'.text = writeAll Getopt.textWrite o.text found := by
  induction found generalizing o with
  | nil => exact .inr ⟨by simp, o, rfl, rfl, rfl⟩
  | cons g found ih =>
      rw [List.foldlM_cons]
      by_cases hhelp : g.option = .help
      · rw [o.getOption_help hhelp]
        exact .inl ⟨⟨g, List.mem_cons_self, hhelp⟩, rfl⟩
      · obtain ⟨o₁, hget, hflag, htext⟩ := o.getOption_spec g hhelp
        rw [hget, Option.bind_eq_bind, Option.bind_some, writeAll_cons, writeAll_cons, ← hflag,
          ← htext]
        rcases ih o₁ with ⟨⟨g', hg', hhelp'⟩, hnone⟩ | ⟨hall, hsome⟩
        · exact .inl ⟨⟨g', List.mem_cons_of_mem g hg', hhelp'⟩, hnone⟩
        · exact .inr ⟨List.forall_mem_cons.mpr ⟨hhelp, hall⟩, hsome⟩

/-! ## The order of the options -/

/-- All flags that are set are set to 1. -/
theorem agree_flagWrite (found : List Getopt) : Agree Getopt.flagWrite found := by
  have hset : ∀ (g : Getopt) k v, g.flagWrite = some (k, v) → v = true := by
    intro g k v h
    unfold Getopt.flagWrite at h
    split at h
    · cases h
    · cases h
    · exact (Prod.mk.inj (Option.some.inj h)).2.symm
  intro a _ b _ k v v' hv hv'
  rw [hset a k v hv, hset b k v' hv']

/-- **When the order of the options does not matter**: no option, help, or options that agree
about the buffers that they share. -/
theorem getOptions_perm_iff (argc : ℕ) (found : List Getopt) :
    (∀ found', found'.Perm found → getOptions argc found' = getOptions argc found) ↔
      argc < 2 ∨ (∃ g ∈ found, g.option = .help) ∨ Agree Getopt.textWrite found := by
  by_cases hargc : argc < 2
  · refine iff_of_true (fun found' _ => ?_) (.inl hargc)
    rw [getOptions, getOptions, if_pos hargc, if_pos hargc]
  · have hget : ∀ l, getOptions argc l = l.foldlM Options.getOption .start := fun l =>
      if_neg hargc
    simp only [hget, hargc, false_or]
    rcases Options.start.foldlM_getOption found with ⟨hhelp, hnone⟩ | ⟨hall, o, hsome, hflag, htext⟩
    · refine iff_of_true (fun found' hperm => ?_) (.inl hhelp)
      obtain ⟨g, hg, hhelp⟩ := hhelp
      rcases Options.start.foldlM_getOption found' with ⟨-, hnone'⟩ | ⟨hall', -⟩
      · rw [hnone, hnone']
      · exact absurd hhelp (hall' g (hperm.mem_iff.mpr hg))
    · have hno : ¬∃ g ∈ found, g.option = .help := fun ⟨g, hg, hhelp⟩ => hall g hg hhelp
      -- the result for another order, by its registers
      have hother : ∀ found', found'.Perm found → ∃ o', found'.foldlM Options.getOption .start =
          some o' ∧ o'.flag = o.flag ∧
            o'.text = writeAll Getopt.textWrite Options.start.text found' := by
        intro found' hperm
        rcases Options.start.foldlM_getOption found' with
          ⟨⟨g, hg, hhelp⟩, -⟩ | ⟨-, o', hsome', hflag', htext'⟩
        · exact absurd hhelp (hall g (hperm.mem_iff.mp hg))
        · refine ⟨o', hsome', ?_, htext'⟩
          rw [hflag', hflag, (agree_flagWrite found).writeAll_perm hperm]
      rw [or_iff_right hno, ← @writeAll_perm_iff _ _ _ _ Getopt.textWrite found Options.start.text]
      refine forall_congr' fun found' => imp_congr_right fun hperm => ?_
      obtain ⟨o', hsome', hflag', htext'⟩ := hother found' hperm
      rw [hsome, hsome', ← htext, ← htext', Option.some.injEq]
      exact ⟨fun h => h ▸ rfl, Options.eq_of_flag_text hflag'⟩

end Patchbox
