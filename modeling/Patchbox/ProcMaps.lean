import Patchbox.Lib.Cells
import Patchbox.PatchMap
import Patchbox.Sha1Text

/-!
# The maps of the process

`pmparser_parse` reads `/proc/<pid>/maps` line by line into a linked list. It cuts each line at
fixed characters, into arrays of fixed sizes, and does not look for the end of the line before
the path. Its list of one line is a ring. `pmparser_next` goes through the list with a static
pointer, which nothing resets, and `find_sandbox_start` stops at the heap.

The file is a parameter, and so is what the buffer for a line holds before the first one.

## Main definitions

* `splitLine` — `_pmparser_split_line`.
* `pmparserParse`, `pmparserNext`, `pmparserFree` — the other functions of `pmparser.c`.
* `findSandboxStartBy` — `find_sandbox_start`, on the text of the file.
* `MapsLine` — a line as Linux writes it.
* `findSandboxStart_text` — it returns unless there is exactly one line, with what the text says.
-/

namespace Patchbox
open Lib

/-! ## The line -/

/-- `'\t'` and `' '`. -/
def blank (c : Byte) : Bool := c = 0x09 ∨ c = 0x20

/-- The index into the line goes on, and what it has not reached yet is the state. -/
abbrev Scan (α : Type) := StateT (List Byte) (Except Stuck) α

/-- A loop that stores characters in an array of `size` bytes, and the terminator behind them, up
to one that stops it. -/
def scanField (stop : Byte → Bool) (size : ℕ) : Scan (List Byte) := fun buf =>
  let field := buf.takeWhile fun c => !stop c
  let rest := buf.drop field.length
  if rest = [] ∨ size ≤ field.length then .error .undefined else .ok (field, rest)

/-- A loop over blanks. -/
def skipBlanks : Scan Unit := fun buf =>
  let rest := buf.dropWhile blank
  if rest = [] then .error .undefined else .ok ((), rest)

/-- A field that ends at a blank, and the blanks behind it. -/
def scanWord (size : ℕ) : Scan (List Byte) := do
  let field ← scanField blank size
  skipBlanks
  return field

/-- The arrays that a line is split into. -/
structure SplitLine where
  addr1 : List Byte
  addr2 : List Byte
  perm : List Byte
  offset : List Byte
  dev : List Byte
  inode : List Byte
  pathname : List Byte

/-- `_pmparser_split_line`. -/
def splitLine : Scan SplitLine := do
  let addr1 ← scanField (fun c => c = 0x2d) 20
  modify fun buf => buf.drop 1
  let addr2 ← scanWord 20
  let perm ← scanWord 8
  let offset ← scanWord 20
  let dev ← scanWord 10
  let inode ← scanWord 30
  let pathname ← scanField (fun c => blank c ∨ c = 0x0a) 600
  return { addr1, addr2, perm, offset, dev, inode, pathname }

/-! ## Numbers -/

/-- `isspace`. -/
def isspace (c : Byte) : Bool := c = 0x20 ∨ (0x09 ≤ c ∧ c ≤ 0x0d)

/-- What hexadecimal digits denote. -/
def hexNum (s : List Byte) : ℕ := s.foldl (fun n c => 16 * n + ((hexDigit c).getD 0).toNat) 0

/-- White space and a sign in front of a number, which is negative or not. -/
def scanSign (s : List Byte) : Bool × List Byte :=
  let s := s.dropWhile isspace
  if s.head? = some 0x2d then (true, s.tail)
  else if s.head? = some 0x2b then (false, s.tail)
  else (false, s)

/-- What `sscanf` stores for `%lx`, if anything. -/
def scanLx (s : List Byte) : Option (BitVec 64) :=
  let (negative, s) := scanSign s
  let s := if s.head? = some 0x30 ∧ (s.tail.head? = some 0x78 ∨ s.tail.head? = some 0x58) then
    s.drop 2 else s
  let digits := s.takeWhile fun c => (hexDigit c).isSome
  if digits = [] then none
  else if 2 ^ 64 ≤ hexNum digits then some (-1)
  else if negative then some (-BitVec.ofNat 64 (hexNum digits))
  else some (BitVec.ofNat 64 (hexNum digits))

/-- `atoi`: the low half of what `strtol` returns. -/
def atoi (s : List Byte) : BitVec 32 :=
  let (negative, s) := scanSign s
  let digits := s.takeWhile fun c => 0x30 ≤ c ∧ c ≤ 0x39
  let n := digits.foldl (fun n c => 10 * n + (c.toNat - 0x30)) 0
  if negative then -BitVec.ofNat 32 (min n (2 ^ 63)) else BitVec.ofNat 32 (min n (2 ^ 63 - 1))

/-! ## The parser -/

/-- A `procmaps_struct` without its pointer. -/
structure ProcmapsStruct where
  addrStart : Addr
  addrEnd : Addr
  length : BitVec 64
  perm : List Byte
  isR : Bool
  isW : Bool
  isX : Bool
  isP : Bool
  offset : BitVec 64
  dev : List Byte
  inode : BitVec 32
  pathname : List Byte

/-- The node is filled. A number that is not there leaves its field as `malloc` gave it, a short
`perm` the flags as the line before had them; a long one does not fit in its five bytes. -/
def fillNode (l : SplitLine) : Except Stuck ProcmapsStruct :=
  match scanLx (cstring l.addr1), scanLx (cstring l.addr2), scanLx (cstring l.offset) with
  | some addrStart, some addrEnd, some offset =>
    if l.perm.length < 3 ∨ 4 < (cstring l.perm).length then .error .undefined
    else .ok {
      addrStart, addrEnd
      length := addrEnd - addrStart
      perm := cstring l.perm
      isR := l.perm.getD 0 0 = 0x72
      isW := l.perm.getD 1 0 = 0x77
      isX := l.perm.getD 2 0 = 0x78
      isP := l.perm.getD 3 0 = 0x70
      offset
      dev := cstring l.dev
      inode := atoi (cstring l.inode)
      pathname := cstring l.pathname }
  | _, _, _ => .error .undefined

/-- The line that `fgets` stores, of at most `n` characters, and what is left of the file. -/
def fgets : ℕ → List Byte → List Byte × List Byte
  | 0, file => ([], file)
  | _ + 1, [] => ([], [])
  | n + 1, c :: file =>
    if c = 0x0a then ([c], file)
    else
      let (line, rest) := fgets n file
      (c :: line, rest)

theorem length_fgets_le (n : ℕ) (file : List Byte) : (fgets n file).2.length ≤ file.length := by
  induction file generalizing n with
  | nil => cases n <;> exact le_rfl
  | cons c file ih =>
      cases n with
      | zero => exact le_rfl
      | succ n =>
          rw [fgets]
          split_ifs
          · exact Nat.le_succ _
          · exact (ih n).trans (Nat.le_succ _)

/-- The local variables of `pmparser_parse` and the nodes. `currentNode` is not read before the
first node sets it. -/
structure Parsing where
  ind : ℕ
  listMaps : Option ℕ
  currentNode : ℕ
  nodes : Cells ProcmapsStruct

/-- A node is attached. Of the first one this makes a ring, until the second one is there. -/
def attach (l : Parsing) (tmp : ProcmapsStruct) : Except Stuck Parsing := do
  let p := l.nodes.fresh
  let listMaps := if l.ind = 0 then some p else l.listMaps
  let currentNode := if l.ind = 0 then p else l.currentNode
  let nodes ← (l.nodes.malloc tmp).setNext currentNode (some p)
  return { ind := l.ind + 1, listMaps, currentNode := p, nodes }

/-- The loop of `pmparser_parse`. The character `'\xff'` is taken for the end of the file, and
where `fgets` finds nothing the buffer stays as it was. -/
def parseLoop (buf : List Byte) : List Byte → Parsing → Except Stuck Parsing
  | [], l => .ok l
  | c :: file, l =>
    if c = 0xff then .ok l
    else do
      let line := (fgets 258 file).1
      let buf := if line = [] then c :: buf.drop 1
        else c :: line ++ 0 :: buf.drop (line.length + 2)
      let (fields, _) ← splitLine buf
      let tmp ← fillNode fields
      let l ← attach l tmp
      parseLoop buf (fgets 258 file).2 l
termination_by file => file.length
decreasing_by exact Nat.lt_succ_of_le (length_fgets_le 258 file)

/-- The static variables of `pmparser.c` and the nodes. -/
structure Parser where
  nodes : Cells ProcmapsStruct
  gLastHead : Option ℕ
  gCurrent : Option ℕ

/-- Nothing is parsed yet. -/
def Parser.init : Parser := ⟨.empty, none, none⟩

/-- `pmparser_parse`, without a file when it cannot be opened. -/
def pmparserParse (file : Option (List Byte)) (buf : List Byte) (s : Parser) :
    Except Stuck (Option ℕ × Parser) :=
  match file with
  | none => .ok (none, s)
  | some text => do
    let l ← parseLoop buf text { ind := 0, listMaps := none, currentNode := 0, nodes := s.nodes }
    return (l.listMaps, { s with nodes := l.nodes, gLastHead := l.listMaps })

/-- `pmparser_next`. -/
def pmparserNext (s : Parser) : Except Stuck (Option ℕ × Parser) :=
  match s.gLastHead, s.gCurrent with
  | none, _ => .ok (none, s)
  | some head, none => .ok (some head, { s with gCurrent := some head })
  | some _, some p => do
    let node ← s.nodes.read p
    return (node.next, { s with gCurrent := node.next })

/-- The loop of `pmparser_free`, for `fuel` rounds at most. -/
def freeLoop : ℕ → Option ℕ → Option ℕ → Cells ProcmapsStruct →
    Except Stuck (Cells ProcmapsStruct)
  | 0, _, _, _ => .error .goesOn
  | _ + 1, none, _, nodes => .ok nodes
  | fuel + 1, some act, none, nodes => do
    let nodes ← nodes.free act
    freeLoop fuel none none nodes
  | fuel + 1, some act, some nxt, nodes => do
    let nodes ← nodes.free act
    let node ← nodes.read nxt
    freeLoop fuel (some nxt) node.next nodes

/-- `pmparser_free`. -/
def pmparserFree (fuel : ℕ) (mapsList : ℕ) (nodes : Cells ProcmapsStruct) :
    Except Stuck (Cells ProcmapsStruct) := do
  let act ← nodes.read mapsList
  freeLoop fuel (some mapsList) act.next nodes

/-- "[heap]" -/
def heapBytes : List Byte := [0x5b, 0x68, 0x65, 0x61, 0x70, 0x5d]

/-- The loop of `find_sandbox_start`, for `fuel` rounds at most. -/
def searchLoop : ℕ → Parser → Except Stuck (Addr × Parser)
  | 0, _ => .error .goesOn
  | fuel + 1, s => do
    let (iter, s) ← pmparserNext s
    match iter with
    | none => return (0, s)
    | some p =>
      let node ← s.nodes.read p
      if heapBytes <:+: node.val.pathname then return (node.val.addrEnd + 0x100000, s)
      else searchLoop fuel s

/-- `find_sandbox_start`. -/
def findSandboxStartBy (fuel : ℕ) (file : Option (List Byte)) (buf : List Byte) (s : Parser) :
    Except Stuck (Addr × Parser) := do
  let (maps, s) ← pmparserParse file buf s
  match maps with
  | none => return (0, s)
  | some maps =>
    let (sandboxStart, s) ← searchLoop fuel s
    let nodes ← pmparserFree fuel maps s.nodes
    return (sandboxStart, { s with nodes })

/-! ## A line as Linux writes it -/

/-- The parts of a line. Behind the inode there are blanks, and a path if there is one. -/
structure LineText where
  start : List Byte
  stop : List Byte
  perm : List Byte
  offset : List Byte
  dev : List Byte
  inode : List Byte
  tail : List Byte

namespace LineText

/-- The line without the newline. -/
def body (l : LineText) : List Byte :=
  l.start ++ 0x2d :: (l.stop ++ 0x20 :: (l.perm ++ 0x20 :: (l.offset ++ 0x20 ::
    (l.dev ++ 0x20 :: (l.inode ++ 0x20 :: l.tail)))))

def text (l : LineText) : List Byte := l.body ++ [0x0a]

/-- The path, up to a blank in it. -/
def pathname (l : LineText) : List Byte :=
  (l.tail.dropWhile blank).takeWhile fun c => !blank c

/-- The first address behind the mapping. -/
def addrEnd (l : LineText) : Addr := BitVec.ofNat 64 (hexNum l.stop)

/-- What is made of the line. -/
def entry (l : LineText) : ProcmapsStruct where
  addrStart := BitVec.ofNat 64 (hexNum l.start)
  addrEnd := l.addrEnd
  length := l.addrEnd - BitVec.ofNat 64 (hexNum l.start)
  perm := l.perm
  isR := l.perm.getD 0 0 = 0x72
  isW := l.perm.getD 1 0 = 0x77
  isX := l.perm.getD 2 0 = 0x78
  isP := l.perm.getD 3 0 = 0x70
  offset := BitVec.ofNat 64 (hexNum l.offset)
  dev := l.dev
  inode := atoi l.inode
  pathname := l.pathname

end LineText

/-- A field that is no longer than `n`. -/
structure IsWord (n : ℕ) (s : List Byte) : Prop where
  nonempty : s ≠ []
  length_le : s.length ≤ n
  chars : ∀ c ∈ s, blank c = false ∧ c ≠ 0x0a ∧ c ≠ 0

/-- A hexadecimal number of at most 64 bits. -/
structure IsNumber (s : List Byte) : Prop where
  nonempty : s ≠ []
  length_le : s.length ≤ 16
  digits : ∀ c ∈ s, (hexDigit c).isSome

/-- The fields of a line, which has no more characters than are read at once. -/
structure LineText.Proper (l : LineText) : Prop where
  start : IsNumber l.start
  stop : IsNumber l.stop
  perm : IsWord 4 l.perm
  perm_length : l.perm.length = 4
  offset : IsNumber l.offset
  dev : IsWord 9 l.dev
  inode : IsWord 29 l.inode
  tail : ∀ c ∈ l.tail, c ≠ 0x0a ∧ c ≠ 0
  length_le : l.text.length ≤ 259

/-- The characters of numbers. -/
theorem hexDigit_chars : ∀ c : Byte, (hexDigit c).isSome → blank c = false ∧ isspace c = false ∧
    c ≠ 0x0a ∧ c ≠ 0 ∧ c ≠ 0x2b ∧ c ≠ 0x2d ∧ c ≠ 0x58 ∧ c ≠ 0x78 ∧ c ≠ 0xff := by
  decide +kernel

theorem IsNumber.isWord {s : List Byte} (h : IsNumber s) : IsWord 16 s where
  nonempty := h.nonempty
  length_le := h.length_le
  chars c hc := by
    obtain ⟨hblank, -, hnl, hzero, -⟩ := hexDigit_chars c (h.digits c hc)
    exact ⟨hblank, hnl, hzero⟩

/-! ## Its fields are found -/

theorem Scan.bind_of_ok {α β : Type} {m : Scan α} {f : α → Scan β} {buf rest : List Byte} {a : α}
    (h : m buf = .ok (a, rest)) : (m >>= f) buf = f a rest := by
  change (m buf >>= fun p => f p.1 p.2) = f a rest
  rw [h]
  rfl

theorem scanField_append {stop : Byte → Bool} {size : ℕ} {w : List Byte} {d : Byte}
    (hw : ∀ c ∈ w, stop c = false) (hd : stop d = true) (hlen : w.length < size) (s : List Byte) :
    scanField stop size (w ++ d :: s) = .ok (w, d :: s) := by
  have hfield : (w ++ d :: s).takeWhile (fun c => !stop c) = w := by
    rw [List.takeWhile_append_of_pos (by simpa using hw), List.takeWhile_cons_of_neg (by simp [hd]),
      List.append_nil]
  simp only [scanField, hfield, List.drop_left, reduceCtorEq, false_or,
    if_neg (Nat.not_le.mpr hlen)]

theorem scanWord_append {size : ℕ} {w t : List Byte} (hw : IsWord (size - 1) w)
    (hsize : 0 < size) (ht : t.dropWhile blank ≠ []) :
    scanWord size (w ++ 0x20 :: t) = .ok (w, t.dropWhile blank) := by
  have hlen := hw.length_le
  have hfield := scanField_append (fun c hc => (hw.chars c hc).1)
    (by decide : blank 0x20 = true) (by omega : w.length < size) t
  have hskip : skipBlanks (0x20 :: t) = .ok ((), t.dropWhile blank) := by
    rw [skipBlanks, List.dropWhile_cons_of_pos (by decide)]
    exact if_neg ht
  rw [scanWord, Scan.bind_of_ok hfield, Scan.bind_of_ok hskip]
  rfl

/-- Where another field follows. -/
theorem IsWord.dropWhile_append {n : ℕ} {w : List Byte} (h : IsWord n w) (s : List Byte) :
    (w ++ s).dropWhile blank = w ++ s := by
  obtain ⟨c, w, rfl⟩ := List.exists_cons_of_ne_nil h.nonempty
  have hc := (h.chars c List.mem_cons_self).1
  rw [List.cons_append, List.dropWhile_cons_of_neg (by rw [hc]; decide)]

theorem scanWord_append_word {size n : ℕ} {w w' : List Byte} (hw : IsWord (size - 1) w)
    (hsize : 0 < size) (hw' : IsWord n w') (s : List Byte) :
    scanWord size (w ++ 0x20 :: (w' ++ s)) = .ok (w, w' ++ s) := by
  have hne : w' ++ s ≠ [] := List.append_ne_nil_of_left_ne_nil hw'.nonempty s
  rw [scanWord_append hw hsize (by rwa [hw'.dropWhile_append]), hw'.dropWhile_append]

theorem IsWord.mono {n n' : ℕ} {w : List Byte} (h : IsWord n w) (hle : n ≤ n') : IsWord n' w :=
  ⟨h.nonempty, h.length_le.trans hle, h.chars⟩

variable {l : LineText}

/-- The path ends at a blank or at the end of the line. -/
theorem scanField_path (h : l.Proper) (behind : List Byte) : ∃ rest,
    scanField (fun c => blank c ∨ c = 0x0a) 600 (l.tail.dropWhile blank ++ 0x0a :: behind) =
      .ok (l.pathname, rest) := by
  have hlen : l.pathname.length < 600 := by
    have htail : l.tail.length ≤ l.text.length := by
      simp only [LineText.text, LineText.body, List.length_append, List.length_cons]
      omega
    have hpath : l.pathname.length ≤ l.tail.length :=
      (List.takeWhile_sublist _).length_le.trans (List.dropWhile_sublist _).length_le
    have htext := h.length_le
    omega
  have hmem : ∀ c ∈ l.tail.dropWhile blank, c ≠ 0x0a := fun c hc =>
    (h.tail c (List.dropWhile_subset _ hc)).1
  have hchars : ∀ c ∈ l.pathname, decide (blank c ∨ c = 0x0a) = false := by
    intro c hc
    have hblank := List.mem_takeWhile_imp hc
    have hnl := hmem c (List.takeWhile_subset _ hc)
    rw [Bool.not_eq_true'] at hblank
    exact decide_eq_false (not_or.mpr ⟨ne_true_of_eq_false hblank, hnl⟩)
  obtain ⟨d, rest, hrest, hd⟩ : ∃ d rest,
      (l.tail.dropWhile blank).dropWhile (fun c => !blank c) ++ 0x0a :: behind = d :: rest ∧
        decide (blank d ∨ d = 0x0a) = true := by
    cases hdrop : (l.tail.dropWhile blank).dropWhile fun c => !blank c with
    | nil => exact ⟨0x0a, behind, rfl, by decide⟩
    | cons d rest =>
        have hne : (l.tail.dropWhile blank).dropWhile (fun c => !blank c) ≠ [] := by
          rw [hdrop]
          exact List.cons_ne_nil _ _
        have hd := List.head_dropWhile_not _ hne
        simp only [hdrop, List.head_cons, Bool.not_eq_false'] at hd
        exact ⟨d, rest ++ 0x0a :: behind, rfl, decide_eq_true (.inl hd)⟩
  refine ⟨d :: rest, ?_⟩
  have hsplit : l.tail.dropWhile blank ++ 0x0a :: behind = l.pathname ++ d :: rest := by
    rw [← hrest, ← List.append_assoc, LineText.pathname, List.takeWhile_append_dropWhile]
  rw [hsplit]
  exact scanField_append hchars hd hlen rest

/-- **A line is split** into its fields, whatever is behind it. -/
theorem splitLine_text (h : l.Proper) (behind : List Byte) : ∃ rest,
    splitLine (l.text ++ behind) = .ok (⟨l.start, l.stop, l.perm, l.offset, l.dev, l.inode,
      l.pathname⟩, rest) := by
  obtain ⟨rest, hpath⟩ := scanField_path h behind
  have hstart := h.start.isWord
  have hfirst : ∀ c ∈ l.start, decide (c = 0x2d) = false := by
    intro c hc
    have hne := (hexDigit_chars c (h.start.digits c hc)).2.2.2.2.2.1
    exact decide_eq_false hne
  have htext : l.text ++ behind = l.start ++ 0x2d :: (l.stop ++ 0x20 :: (l.perm ++ 0x20 ::
      (l.offset ++ 0x20 :: (l.dev ++ 0x20 :: (l.inode ++ 0x20 :: (l.tail ++ 0x0a :: behind)))))) := by
    simp [LineText.text, LineText.body]
  have hblanks : (l.tail ++ 0x0a :: behind).dropWhile blank =
      l.tail.dropWhile blank ++ 0x0a :: behind := by
    rw [List.dropWhile_append, List.dropWhile_cons_of_neg (by decide)]
    split_ifs with hnil
    · rw [List.isEmpty_iff.mp hnil, List.nil_append]
    · rfl
  obtain ⟨t, ht⟩ : ∃ t, t = l.stop ++ 0x20 :: (l.perm ++ 0x20 :: (l.offset ++ 0x20 ::
    (l.dev ++ 0x20 :: (l.inode ++ 0x20 :: (l.tail ++ 0x0a :: behind))))) := ⟨_, rfl⟩
  have hdash := scanField_append hfirst (decide_eq_true rfl : decide ((0x2d : Byte) = 0x2d) = true)
    (by have := hstart.length_le; omega : l.start.length < 20) t
  have hmodify : (modify fun buf => buf.drop 1 : Scan PUnit) (0x2d :: t) = .ok (⟨⟩, t) := rfl
  have hinode := scanWord_append h.inode (by decide : 0 < 30)
    (by rw [hblanks]; exact List.append_ne_nil_of_right_ne_nil _ (List.cons_ne_nil _ _))
  refine ⟨rest, ?_⟩
  rw [htext, splitLine, ← ht, Scan.bind_of_ok hdash, Scan.bind_of_ok hmodify, ht,
    Scan.bind_of_ok (scanWord_append_word (h.stop.isWord.mono (by decide)) (by decide) h.perm _),
    Scan.bind_of_ok (scanWord_append_word (h.perm.mono (by decide)) (by decide) h.offset.isWord _),
    Scan.bind_of_ok (scanWord_append_word (h.offset.isWord.mono (by decide)) (by decide) h.dev _),
    Scan.bind_of_ok (scanWord_append_word h.dev (by decide) h.inode _),
    Scan.bind_of_ok hinode, hblanks, Scan.bind_of_ok hpath]
  rfl

/-! ## A node is filled -/

theorem hexNum_append (s : List Byte) (c : Byte) :
    hexNum (s ++ [c]) = 16 * hexNum s + ((hexDigit c).getD 0).toNat := by
  rw [hexNum, List.foldl_append]
  rfl

theorem hexNum_lt (s : List Byte) : hexNum s < 16 ^ s.length := by
  induction s using List.reverseRecOn with
  | nil => exact Nat.one_pos
  | append_singleton s c ih =>
      have hc := hexDigit_lt c
      rw [hexNum_append, List.length_append, List.length_singleton, Nat.pow_succ]
      omega

theorem scanLx_of_isNumber {s : List Byte} (h : IsNumber s) :
    scanLx s = some (BitVec.ofNat 64 (hexNum s)) := by
  have hlt : hexNum s < 2 ^ 64 := (hexNum_lt s).trans_le
    ((Nat.pow_le_pow_right (by decide) h.length_le).trans (by norm_num))
  have hdigits : s.takeWhile (fun c => (hexDigit c).isSome) = s :=
    List.takeWhile_eq_self_iff.mpr h.digits
  obtain ⟨c, t, rfl⟩ := List.exists_cons_of_ne_nil h.nonempty
  obtain ⟨-, hspace, -, -, hplus, hminus, -⟩ := hexDigit_chars c (h.digits c List.mem_cons_self)
  have hsign : scanSign (c :: t) = (false, c :: t) := by
    have hdrop : (c :: t).dropWhile isspace = c :: t :=
      List.dropWhile_cons_of_neg (by rw [hspace]; decide)
    simp only [scanSign, hdrop, List.head?_cons, Option.some.injEq, if_neg hminus, if_neg hplus]
  have hx : ∀ d, t.head? = some d → d ≠ 0x78 ∧ d ≠ 0x58 := by
    intro d hd
    have hmem : d ∈ c :: t := List.mem_cons_of_mem c (List.mem_of_mem_head? hd)
    obtain ⟨-, -, -, -, -, -, hX, hx, -⟩ := hexDigit_chars d (h.digits d hmem)
    exact ⟨hx, hX⟩
  have hno : ¬((c :: t).head? = some 0x30 ∧
      ((c :: t).tail.head? = some 0x78 ∨ (c :: t).tail.head? = some 0x58)) := by
    rintro ⟨-, hd | hd⟩
    · exact (hx _ hd).1 rfl
    · exact (hx _ hd).2 rfl
  simp only [scanLx, hsign, if_neg hno, hdigits, List.cons_ne_nil, if_false,
    if_neg (Nat.not_le.mpr hlt), Bool.false_eq_true]

theorem IsWord.cstring_eq {n : ℕ} {s : List Byte} (h : IsWord n s) : cstring s = s :=
  cstring_of_forall fun c hc => (h.chars c hc).2.2

theorem fillNode_text (h : l.Proper) : fillNode ⟨l.start, l.stop, l.perm, l.offset, l.dev, l.inode,
    l.pathname⟩ = .ok l.entry := by
  have hpath : cstring l.pathname = l.pathname := cstring_of_forall fun c hc =>
    (h.tail c (List.dropWhile_subset _ (List.takeWhile_subset _ hc))).2
  have hperm : ¬(l.perm.length < 3 ∨ 4 < l.perm.length) := by
    rw [h.perm_length]
    decide
  simp only [fillNode, h.start.isWord.cstring_eq, h.stop.isWord.cstring_eq,
    h.offset.isWord.cstring_eq, h.perm.cstring_eq, h.dev.cstring_eq, h.inode.cstring_eq, hpath,
    scanLx_of_isNumber h.start, scanLx_of_isNumber h.stop, scanLx_of_isNumber h.offset,
    if_neg hperm]
  rfl

/-! ## The lines are read -/

/-- A line that is short enough is read as a whole. -/
theorem fgets_append {n : ℕ} {w : List Byte} (hw : ∀ c ∈ w, c ≠ 0x0a) (hlen : w.length < n)
    (file : List Byte) : fgets n (w ++ 0x0a :: file) = (w ++ [0x0a], file) := by
  induction w generalizing n with
  | nil =>
      obtain ⟨n, rfl⟩ := Nat.exists_eq_succ_of_ne_zero (Nat.ne_of_gt hlen)
      rw [List.nil_append, fgets, if_pos rfl]
      rfl
  | cons c w ih =>
      obtain ⟨hc, hw⟩ := List.forall_mem_cons.mp hw
      obtain ⟨n, rfl⟩ := Nat.exists_eq_succ_of_ne_zero (Nat.ne_of_gt (Nat.zero_lt_of_lt hlen))
      rw [List.cons_append, fgets, if_neg hc, ih hw (Nat.lt_of_succ_lt_succ hlen)]
      rfl

/-- The first character of a line, and the others. -/
theorem LineText.Proper.exists_body (h : l.Proper) :
    ∃ c w, l.body = c :: w ∧ c ≠ 0xff ∧ (∀ d ∈ w, d ≠ 0x0a) ∧ w.length < 258 := by
  obtain ⟨c, w, hstart⟩ := List.exists_cons_of_ne_nil h.start.nonempty
  have hchars : ∀ d ∈ l.body, d ≠ 0x0a := by
    intro d hd
    have hblank : (0x20 : Byte) ≠ 0x0a ∧ (0x2d : Byte) ≠ 0x0a := by decide
    simp only [LineText.body, List.mem_append, List.mem_cons] at hd
    rcases hd with hd | rfl | hd | rfl | hd | rfl | hd | rfl | hd | rfl | hd | rfl | hd
    · exact (h.start.isWord.chars d hd).2.1
    · exact hblank.2
    · exact (h.stop.isWord.chars d hd).2.1
    · exact hblank.1
    · exact (h.perm.chars d hd).2.1
    · exact hblank.1
    · exact (h.offset.isWord.chars d hd).2.1
    · exact hblank.1
    · exact (h.dev.chars d hd).2.1
    · exact hblank.1
    · exact (h.inode.chars d hd).2.1
    · exact hblank.1
    · exact (h.tail d hd).1
  have hlen := h.length_le
  rw [LineText.text, List.length_append, List.length_singleton] at hlen
  obtain ⟨w', hbody⟩ : ∃ w', l.body = c :: w' := by
    rw [LineText.body, hstart]
    exact ⟨_, rfl⟩
  rw [hbody] at hchars hlen
  have hc := hexDigit_chars c (h.start.digits c (hstart ▸ List.mem_cons_self))
  exact ⟨c, w', hbody, hc.2.2.2.2.2.2.2.2, fun d hd => hchars d (List.mem_cons_of_mem c hd),
    Nat.lt_of_succ_le (Nat.le_of_succ_le_succ hlen)⟩

/-- **Every line is a node**, in their order, whatever the buffer held. -/
theorem parseLoop_text {ls : List LineText} (h : ∀ l ∈ ls, l.Proper) (buf : List Byte)
    (p : Parsing) :
    parseLoop buf (ls.flatMap LineText.text) p = (ls.map LineText.entry).foldlM attach p := by
  induction ls generalizing buf p with
  | nil =>
      rw [List.flatMap_nil, parseLoop]
      rfl
  | cons l ls ih =>
      obtain ⟨hl, hls⟩ := List.forall_mem_cons.mp h
      obtain ⟨c, w, hbody, hc, hw, hlen⟩ := hl.exists_body
      have hline : l.text = c :: (w ++ [0x0a]) := by rw [LineText.text, hbody, List.cons_append]
      have hgets := fgets_append hw hlen (ls.flatMap LineText.text)
      have hfile : (l :: ls).flatMap LineText.text =
          c :: (w ++ 0x0a :: ls.flatMap LineText.text) := by
        rw [List.flatMap_cons, hline]
        simp
      have hne : w ++ [0x0a] ≠ [] := List.append_ne_nil_of_right_ne_nil _ (List.cons_ne_nil _ _)
      obtain ⟨rest, hsplit⟩ := splitLine_text hl (0 :: buf.drop ((w ++ [0x0a]).length + 2))
      rw [hline, List.cons_append] at hsplit
      rw [hfile, parseLoop, if_neg hc]
      simp only [hgets, if_neg hne, List.cons_append]
      rw [bind_of_ok hsplit, bind_of_ok (fillNode_text hl), List.map_cons, List.foldlM_cons]
      exact congrArg (attach p l.entry >>= ·) (funext fun p => ih hls _ p)

/-! ## The list -/

/-- Where the last of `n` nodes points: to itself when it is alone. -/
def lastNext (base n : ℕ) : Option ℕ := if n = 1 then some base else none

/-- The nodes of `xs` are attached, behind those that were there before. -/
structure Attached (before : Cells ProcmapsStruct) (xs : List ProcmapsStruct) (p : Parsing) :
    Prop where
  ind : p.ind = xs.length
  fresh : p.nodes.fresh = before.fresh + xs.length
  listMaps : p.listMaps = if xs.length = 0 then none else some before.fresh
  currentNode : ∀ n, xs.length = n + 1 → p.currentNode = before.fresh + n
  row : p.nodes.Row before.fresh xs (lastNext before.fresh xs.length)
  others : ∀ q, q < before.fresh ∨ before.fresh + xs.length ≤ q →
    p.nodes.live q = before.live q

variable {before : Cells ProcmapsStruct} {xs : List ProcmapsStruct} {p : Parsing}

/-- Another node is attached. -/
theorem Attached.attach (h : Attached before xs p) (x : ProcmapsStruct) :
    ∃ p', Patchbox.attach p x = .ok p' ∧ Attached before (xs ++ [x]) p' := by
  have hfresh := h.fresh
  have hlen : (xs ++ [x]).length = xs.length + 1 := List.length_append
  rcases Nat.eq_zero_or_pos xs.length with hzero | hpos
  · -- the first node
    obtain rfl := List.length_eq_zero_iff.mp hzero
    obtain ⟨nodes, hset, hfresh', hrow, hothers⟩ := Cells.exists_setNext_self p.nodes x
    have hind : p.ind = 0 := h.ind
    rw [List.length_nil, Nat.add_zero] at hfresh
    refine ⟨⟨p.ind + 1, some p.nodes.fresh, p.nodes.fresh, nodes⟩, ?_, ?_⟩
    · rw [Patchbox.attach]
      simp only [hind, if_true]
      rw [bind_of_ok hset]
      rfl
    · rw [hfresh] at hrow hothers hfresh' ⊢
      refine ⟨congrArg (· + 1) hind, hfresh', rfl, ?_, hrow, ?_⟩
      · intro n hn
        obtain rfl : n = 0 := (Nat.succ.inj hn).symm
        rfl
      · intro q hq
        rw [hlen] at hq
        exact (hothers q (by simp at hq; omega)).trans (h.others q (by simp; omega))
  · obtain ⟨n, hn⟩ := Nat.exists_eq_add_of_lt hpos
    rw [Nat.zero_add] at hn
    have hind : p.ind ≠ 0 := by
      rw [h.ind]
      exact hpos.ne'
    obtain ⟨nodes, hset, hfresh', hrow, hothers⟩ := h.row.snoc hfresh hn x
    refine ⟨⟨p.ind + 1, p.listMaps, p.nodes.fresh, nodes⟩, ?_, ?_⟩
    · rw [Patchbox.attach]
      simp only [if_neg hind, h.currentNode n hn]
      rw [bind_of_ok hset]
      rfl
    · have hlast : lastNext before.fresh (xs ++ [x]).length = none := by
        rw [hlen]
        exact if_neg (by omega)
      have hlist : p.listMaps = some before.fresh := h.listMaps.trans (if_neg hpos.ne')
      refine ⟨?_, ?_, ?_, ?_, hlast ▸ hrow, ?_⟩
      · rw [hlen, ← h.ind]
      · rw [hlen, hfresh', hfresh, Nat.add_assoc]
      · rw [hlen]
        exact hlist.trans (if_neg (Nat.succ_ne_zero _)).symm
      · intro n hn
        rw [hlen] at hn
        exact hfresh.trans (congrArg (before.fresh + ·) (Nat.succ.inj hn))
      · intro q hq
        rw [hlen] at hq
        exact (hothers q (by omega)).trans (h.others q (by omega))

/-- **The list that the parser makes.** -/
theorem exists_attached (before : Cells ProcmapsStruct) (xs : List ProcmapsStruct) :
    ∃ p, xs.foldlM attach ⟨0, none, 0, before⟩ = .ok p ∧ Attached before xs p := by
  induction xs using List.reverseRecOn with
  | nil =>
      refine ⟨_, rfl, rfl, rfl, rfl, ?_, Cells.row_nil, fun _ _ => rfl⟩
      intro n hn
      exact absurd hn.symm (Nat.succ_ne_zero n)
  | append_singleton xs x ih =>
      obtain ⟨p, hp, hattached⟩ := ih
      obtain ⟨p', hp', hattached'⟩ := hattached.attach x
      refine ⟨p', ?_, hattached'⟩
      rw [List.foldlM_append, bind_of_ok hp, List.foldlM_cons, bind_of_ok hp']
      rfl

/-! ## The heap is looked for -/

/-- The pointer to node `i` of `n`, null behind the last one. -/
def nodeAt (base n i : ℕ) : Option ℕ := if i < n then some (base + i) else none

theorem nodeAt_of_lt {base n i : ℕ} (h : i < n) : nodeAt base n i = some (base + i) := if_pos h

theorem nodeAt_of_le {base n i : ℕ} (h : n ≤ i) : nodeAt base n i = none :=
  if_neg (Nat.not_lt.mpr h)

/-- The entry of the heap. -/
def isHeap (x : ProcmapsStruct) : Bool := decide (heapBytes <:+: x.pathname)

/-- What `find_sandbox_start` makes of the entries. -/
def startOf (xs : List ProcmapsStruct) : Addr :=
  match xs.find? isHeap with
  | some x => x.addrEnd + 0x100000
  | none => 0

variable {s : Parser} {base : ℕ}

theorem pmparserNext_first (hhead : s.gLastHead = some base) (hcurrent : s.gCurrent = none) :
    pmparserNext s = .ok (some base, { s with gCurrent := some base }) := by
  rw [pmparserNext, hhead, hcurrent]

theorem pmparserNext_of_read {head q : ℕ} {node : Cell ProcmapsStruct}
    (hhead : s.gLastHead = some head) (hcurrent : s.gCurrent = some q)
    (hread : s.nodes.read q = .ok node) :
    pmparserNext s = .ok (node.next, { s with gCurrent := node.next }) := by
  rw [pmparserNext, hhead, hcurrent]
  exact bind_of_ok hread

/-- **The loop goes through the list**, up to the heap. At its end the static pointer is null. -/
theorem searchLoop_of_row {head fuel i : ℕ} (hhead : s.gLastHead = some head)
    (hrow : s.nodes.Row base xs none) (hi : i ≤ xs.length) (hfuel : xs.length - i < fuel)
    (hnext : pmparserNext s = .ok (nodeAt base xs.length i,
      { s with gCurrent := nodeAt base xs.length i })) :
    ∃ c, searchLoop fuel s = .ok (startOf (xs.drop i), { s with gCurrent := c }) ∧
      ((xs.drop i).find? isHeap = none → c = none) := by
  induction fuel generalizing i s with
  | zero => exact absurd hfuel (Nat.not_lt_zero _)
  | succ fuel ih =>
      rw [searchLoop, bind_of_ok hnext]
      rcases Nat.lt_or_eq_of_le hi with hlt | rfl
      · have hread := Cells.read_eq (hrow i hlt)
        have hdrop : xs.drop i = xs[i] :: xs.drop (i + 1) := List.drop_eq_getElem_cons hlt
        rw [nodeAt_of_lt hlt]
        dsimp only
        rw [bind_of_ok hread, hdrop]
        by_cases hheap : heapBytes <:+: xs[i].pathname
        · have hfind : (xs[i] :: xs.drop (i + 1)).find? isHeap = some xs[i] :=
            List.find?_cons_of_pos (decide_eq_true hheap)
          refine ⟨some (base + i), ?_, ?_⟩
          · rw [startOf, hfind]
            exact if_pos hheap
          · rw [hfind]
            exact nofun
        · have hfind : (xs[i] :: xs.drop (i + 1)).find? isHeap = (xs.drop (i + 1)).find? isHeap :=
            List.find?_cons_of_neg (by rw [isHeap, decide_eq_true_iff]; exact hheap)
          obtain ⟨c, hloop, hc⟩ := @ih { s with gCurrent := some (base + i) } (i + 1) hhead hrow hlt
            (by omega) (@pmparserNext_of_read { s with gCurrent := some (base + i) } _ _ _ hhead rfl
              hread)
          refine ⟨c, ?_, hfind ▸ hc⟩
          rw [startOf, hfind, ← startOf]
          exact (if_neg hheap).trans hloop
      · rw [nodeAt_of_le le_rfl, List.drop_length]
        exact ⟨none, rfl, fun _ => rfl⟩

/-- A ring without the heap is gone around for ever. -/
theorem searchLoop_of_ring {x : ProcmapsStruct} (hrow : s.nodes.Row base [x] (some base))
    (hhead : s.gLastHead = some base) (hcurrent : s.gCurrent = none ∨ s.gCurrent = some base)
    (hheap : ¬heapBytes <:+: x.pathname) (fuel : ℕ) : searchLoop fuel s = .error .goesOn := by
  induction fuel generalizing s with
  | zero => rfl
  | succ fuel ih =>
      have hread := Cells.read_eq hrow.live_singleton
      have hnext : pmparserNext s = .ok (some base, { s with gCurrent := some base }) := by
        rcases hcurrent with hnone | hsome
        · exact pmparserNext_first hhead hnone
        · exact pmparserNext_of_read hhead hsome hread
      rw [searchLoop, bind_of_ok hnext]
      dsimp only
      rw [bind_of_ok hread]
      exact (if_neg hheap).trans
        (@ih { s with gCurrent := some base } hrow hhead (.inr rfl))

/-! ## The list is freed -/

/-- **The nodes are freed**, each of them once. -/
theorem freeLoop_of_row {nodes : Cells ProcmapsStruct} {fuel i : ℕ}
    (hrow : ∀ (k : ℕ) (h : k < xs.length), i ≤ k →
      nodes.live (base + k) = some ⟨xs[k], nodeAt base xs.length (k + 1)⟩)
    (hi : i ≤ xs.length) (hfuel : xs.length - i < fuel) :
    ∃ nodes', freeLoop fuel (nodeAt base xs.length i) (nodeAt base xs.length (i + 1)) nodes =
        .ok nodes' ∧ nodes'.fresh = nodes.fresh ∧
      ∀ q, nodes'.live q = if base + i ≤ q ∧ q < base + xs.length then none else nodes.live q := by
  induction fuel generalizing i nodes with
  | zero => exact absurd hfuel (Nat.not_lt_zero _)
  | succ fuel ih =>
      rcases Nat.lt_or_eq_of_le hi with hlt | rfl
      · have hfree := Cells.free_eq (hrow i hlt le_rfl)
        obtain ⟨freed, hfreed⟩ : ∃ freed : Cells ProcmapsStruct, freed =
            { nodes with live := Function.update nodes.live (base + i) none } := ⟨_, rfl⟩
        rw [← hfreed] at hfree
        have hother : ∀ q, q ≠ base + i → freed.live q = nodes.live q := by
          intro q hq
          rw [hfreed]
          exact Function.update_of_ne hq _ _
        have hself : freed.live (base + i) = none := by
          rw [hfreed]
          exact Function.update_self _ _ _
        have hrest : ∀ (k : ℕ) (h : k < xs.length), i + 1 ≤ k →
            freed.live (base + k) = some ⟨xs[k], nodeAt base xs.length (k + 1)⟩ :=
          fun k hk hik => (hother _ (by omega)).trans (hrow k hk (Nat.le_of_succ_le hik))
        obtain ⟨nodes', hloop, hfresh, hlive⟩ := ih hrest hlt (by omega)
        refine ⟨nodes', ?_, hfresh.trans (by rw [hfreed]), fun q => ?_⟩
        · rw [nodeAt_of_lt hlt]
          by_cases hnext : i + 1 < xs.length
          · have hread := Cells.read_eq (hrest (i + 1) hnext le_rfl)
            rw [nodeAt_of_lt hnext] at hloop ⊢
            rw [freeLoop, bind_of_ok hfree, bind_of_ok hread]
            exact hloop
          · rw [nodeAt_of_le (Nat.le_of_not_lt hnext)] at hloop ⊢
            rw [nodeAt_of_le (by omega)] at hloop
            rw [freeLoop, bind_of_ok hfree]
            exact hloop
        · rw [hlive]
          rcases eq_or_ne q (base + i) with rfl | hq
          · rw [if_neg (by omega), if_pos (by omega), hself]
          · rw [hother q hq]
            exact if_congr (by omega) rfl rfl
      · rw [nodeAt_of_le le_rfl, freeLoop]
        exact ⟨nodes, rfl, rfl, fun q => (if_neg (by omega)).symm⟩

theorem pmparserFree_of_row {nodes : Cells ProcmapsStruct} {fuel : ℕ}
    (hrow : nodes.Row base xs none) (hpos : 0 < xs.length) (hfuel : xs.length < fuel) :
    ∃ nodes', pmparserFree fuel base nodes = .ok nodes' ∧ nodes'.fresh = nodes.fresh ∧
      ∀ q, nodes'.live q = if base ≤ q ∧ q < base + xs.length then none else nodes.live q := by
  have hread := Cells.read_eq (hrow 0 hpos)
  rw [Nat.add_zero] at hread
  obtain ⟨nodes', hloop, hfresh, hlive⟩ := @freeLoop_of_row xs base nodes fuel 0
    (fun k hk _ => hrow k hk) (Nat.zero_le _) hfuel
  refine ⟨nodes', ?_, hfresh, hlive⟩
  rw [nodeAt_of_lt hpos] at hloop
  rw [pmparserFree, bind_of_ok hread]
  exact hloop

/-- The node of a ring is freed twice, or read in between. -/
theorem pmparserFree_of_ring {nodes nodes' : Cells ProcmapsStruct} {x : ProcmapsStruct}
    (hrow : nodes.Row base [x] (some base)) (fuel : ℕ) :
    pmparserFree fuel base nodes ≠ .ok nodes' := by
  rw [pmparserFree, bind_of_ok (Cells.read_eq hrow.live_singleton)]
  cases fuel with
  | zero => exact nofun
  | succ fuel =>
      have hgone : Cells.read { nodes with live := Function.update nodes.live base none } base =
          .error .undefined := Cells.read_eq_undefined (Function.update_self base none nodes.live)
      rw [freeLoop, bind_of_ok (Cells.free_eq hrow.live_singleton), bind_of_error hgone]
      exact nofun

/-! ## The start of the sandbox -/

/-- Nothing is left of an earlier search: the static pointer is null, and what was never given
out does not live. -/
structure Parser.Ready (s : Parser) : Prop where
  gCurrent : s.gCurrent = none
  unused : ∀ q, s.nodes.fresh ≤ q → s.nodes.live q = none

theorem Parser.ready_init : Parser.init.Ready := ⟨rfl, fun _ _ => rfl⟩

/-- The text of a file. -/
def mapsText (ls : List LineText) : List Byte := ls.flatMap LineText.text

/-- What `find_sandbox_start` makes of the lines. -/
def startOfLines (ls : List LineText) : Addr := startOf (ls.map LineText.entry)

variable {ls : List LineText}

/-- The list is made. -/
theorem pmparserParse_text (h : ∀ l ∈ ls, l.Proper) (buf : List Byte) (s : Parser) :
    ∃ p, pmparserParse (some (mapsText ls)) buf s =
        .ok (p.listMaps, { s with nodes := p.nodes, gLastHead := p.listMaps }) ∧
      Attached s.nodes (ls.map LineText.entry) p := by
  obtain ⟨p, hp, hattached⟩ := exists_attached s.nodes (ls.map LineText.entry)
  refine ⟨p, ?_, hattached⟩
  rw [pmparserParse, mapsText, bind_of_ok ((parseLoop_text h buf _).trans hp)]
  rfl

/-- What a search leaves when it returns: the nodes that were there before, and nothing of this
search unless the heap was found. -/
structure AfterSearch (ls : List LineText) (s s' : Parser) : Prop where
  live : s'.nodes.live = s.nodes.live
  ready : (ls.map LineText.entry).find? isHeap = none → s'.Ready

/-- **The search ends** when there are several lines, or none. -/
theorem findSandboxStartBy_text (h : ∀ l ∈ ls, l.Proper) (hone : ls.length ≠ 1) {fuel : ℕ}
    (hfuel : ls.length < fuel) (buf : List Byte) (hs : s.Ready) :
    ∃ s', findSandboxStartBy fuel (some (mapsText ls)) buf s = .ok (startOfLines ls, s') ∧
      AfterSearch ls s s' := by
  obtain ⟨p, hparse, hattached⟩ := pmparserParse_text h buf s
  have hlist := hattached.listMaps
  have hothers := hattached.others
  have hfresh := hattached.fresh
  have hrow := hattached.row
  rw [findSandboxStartBy, bind_of_ok hparse]
  generalize hxs : ls.map LineText.entry = xs at *
  have hlen : xs.length = ls.length := by rw [← hxs, List.length_map]
  rcases Nat.eq_zero_or_pos xs.length with hzero | hpos
  · have hlive : p.nodes.live = s.nodes.live := by
      funext q
      exact hothers q (by omega)
    rw [if_pos hzero] at hlist
    rw [hlist, startOfLines, hxs, List.length_eq_zero_iff.mp hzero]
    refine ⟨_, rfl, hlive, fun _ => ⟨hs.gCurrent, fun q hq => ?_⟩⟩
    have hge : s.nodes.fresh ≤ q := le_trans (by omega) (show p.nodes.fresh ≤ q from hq)
    exact (congrFun hlive q).trans (hs.unused q hge)
  · rw [if_neg hpos.ne'] at hlist
    rw [lastNext, if_neg (hlen ▸ hone)] at hrow
    have hnext : pmparserNext { s with nodes := p.nodes, gLastHead := p.listMaps } =
        .ok (nodeAt s.nodes.fresh xs.length 0, { s with
          nodes := p.nodes, gLastHead := p.listMaps
          gCurrent := nodeAt s.nodes.fresh xs.length 0 }) := by
      rw [nodeAt_of_lt hpos]
      exact pmparserNext_first hlist hs.gCurrent
    obtain ⟨c, hsearch, hc⟩ := @searchLoop_of_row xs
      { s with nodes := p.nodes, gLastHead := p.listMaps } _ _ fuel 0 hlist hrow (Nat.zero_le _)
      (by omega) hnext
    obtain ⟨nodes, hfree, hfresh', hlive⟩ := pmparserFree_of_row hrow hpos (hlen ▸ hfuel)
    have hsame : nodes.live = s.nodes.live := by
      funext q
      rw [hlive]
      split_ifs with hq
      · exact (hs.unused q hq.1).symm
      · exact hothers q (by omega)
    rw [List.drop_zero] at hsearch hc
    rw [hlist] at hsearch ⊢
    dsimp only
    rw [bind_of_ok hsearch, bind_of_ok hfree, startOfLines, hxs]
    refine ⟨_, rfl, hsame, fun hnone => ⟨hc (hxs ▸ hnone), fun q hq => ?_⟩⟩
    have hge : s.nodes.fresh ≤ q := le_trans (by omega) (show nodes.fresh ≤ q from hq)
    exact (congrFun hsame q).trans (hs.unused q hge)

/-- **A single line is a ring**: the search goes on for ever, or the node is used once freed. -/
theorem findSandboxStartBy_ring {l : LineText} (h : l.Proper) (fuel : ℕ) (buf : List Byte)
    (hs : s.Ready) (r : Addr × Parser) :
    findSandboxStartBy fuel (some (mapsText [l])) buf s ≠ .ok r := by
  obtain ⟨p, hparse, hattached⟩ := pmparserParse_text (List.forall_mem_singleton.mpr h) buf s
  have hlist : p.listMaps = some s.nodes.fresh := hattached.listMaps
  have hrow : p.nodes.Row s.nodes.fresh [l.entry] (some s.nodes.fresh) := hattached.row
  rw [findSandboxStartBy, bind_of_ok hparse, hlist]
  dsimp only
  by_cases hheap : heapBytes <:+: l.entry.pathname
  · cases fuel with
    | zero => exact nofun
    | succ fuel =>
        have hnext := @pmparserNext_first
          { s with nodes := p.nodes, gLastHead := some s.nodes.fresh } s.nodes.fresh rfl hs.gCurrent
        have hsearch : searchLoop (fuel + 1)
            { s with nodes := p.nodes, gLastHead := some s.nodes.fresh } =
              .ok (l.entry.addrEnd + 0x100000, { s with
                nodes := p.nodes, gLastHead := some s.nodes.fresh
                gCurrent := some s.nodes.fresh }) := by
          rw [searchLoop, bind_of_ok hnext]
          dsimp only
          rw [bind_of_ok (Cells.read_eq hrow.live_singleton)]
          exact if_pos hheap
        rw [bind_of_ok hsearch]
        dsimp only
        cases hfree : pmparserFree (fuel + 1) s.nodes.fresh p.nodes with
        | ok nodes => exact absurd hfree (pmparserFree_of_ring hrow _)
        | error e => exact nofun
  · have hsearch := @searchLoop_of_ring
      { s with nodes := p.nodes, gLastHead := some s.nodes.fresh } _ _ hrow rfl (.inl hs.gCurrent)
      hheap fuel
    rw [bind_of_error hsearch]
    exact nofun

/-- **When the heap can be looked for.** Take a text of lines as Linux writes them, each of at most
259 bytes (what `fgets` reads at once), and a search before which no other one has found the heap,
whatever the buffer held. Unless there is exactly one line, `find_sandbox_start` returns the end of
the first mapping whose path contains `[heap]` and the hole behind it, or zero, and it has freed
each node that it made; if there is exactly one line, it never returns without undefined
behaviour. -/
theorem findSandboxStart_text (h : ∀ l ∈ ls, l.Proper) (buf : List Byte) (hs : s.Ready) :
    (ls.length ≠ 1 → ∀ fuel, ls.length < fuel → ∃ s',
        findSandboxStartBy fuel (some (mapsText ls)) buf s = .ok (startOfLines ls, s') ∧
          AfterSearch ls s s') ∧
      (ls.length = 1 → ∀ fuel r, findSandboxStartBy fuel (some (mapsText ls)) buf s ≠ .ok r) := by
  constructor
  · intro hone fuel hfuel
    exact findSandboxStartBy_text h hone hfuel buf hs
  · intro hone fuel r
    obtain ⟨l, rfl⟩ := List.length_eq_one_iff.mp hone
    exact findSandboxStartBy_ring (h l (List.mem_singleton_self l)) fuel buf hs r

/-- `1000-2000 r-xp 0 8:2 7 /bin/sh` -/
def programLine : LineText where
  start := [0x31, 0x30, 0x30, 0x30]
  stop := [0x32, 0x30, 0x30, 0x30]
  perm := [0x72, 0x2d, 0x78, 0x70]
  offset := [0x30]
  dev := [0x38, 0x3a, 0x32]
  inode := [0x37]
  tail := [0x2f, 0x62, 0x69, 0x6e, 0x2f, 0x73, 0x68]

/-- `520000-600000 rw-p 0 0:0 0  [heap]` -/
def heapLine : LineText where
  start := [0x35, 0x32, 0x30, 0x30, 0x30, 0x30]
  stop := [0x36, 0x30, 0x30, 0x30, 0x30, 0x30]
  perm := [0x72, 0x77, 0x2d, 0x70]
  offset := [0x30]
  dev := [0x30, 0x3a, 0x30]
  inode := [0x30]
  tail := 0x20 :: heapBytes

theorem programLine_proper : programLine.Proper where
  start := ⟨by decide, by decide, by decide⟩
  stop := ⟨by decide, by decide, by decide⟩
  perm := ⟨by decide, by decide, by decide⟩
  perm_length := rfl
  offset := ⟨by decide, by decide, by decide⟩
  dev := ⟨by decide, by decide, by decide⟩
  inode := ⟨by decide, by decide, by decide⟩
  tail := by decide
  length_le := by decide

theorem heapLine_proper : heapLine.Proper where
  start := ⟨by decide, by decide, by decide⟩
  stop := ⟨by decide, by decide, by decide⟩
  perm := ⟨by decide, by decide, by decide⟩
  perm_length := rfl
  offset := ⟨by decide, by decide, by decide⟩
  dev := ⟨by decide, by decide, by decide⟩
  inode := ⟨by decide, by decide, by decide⟩
  tail := by decide
  length_le := by decide

theorem findSandboxStart_text_twoLines :
    (∃ s', findSandboxStartBy 3 (some (mapsText [programLine, heapLine])) [] Parser.init =
        .ok (0x700000, s') ∧ s'.nodes.live = fun _ => none) ∧
      ∀ fuel r, findSandboxStartBy fuel (some (mapsText [programLine])) [] Parser.init ≠ .ok r := by
  have hproper : ∀ l ∈ [programLine, heapLine], l.Proper :=
    List.forall_mem_cons.mpr ⟨programLine_proper, List.forall_mem_singleton.mpr heapLine_proper⟩
  have hsingle := List.forall_mem_singleton.mpr programLine_proper
  obtain ⟨s', hstart, hsearched⟩ := (findSandboxStart_text hproper [] Parser.ready_init).1
    (by decide) 3 (by decide)
  exact ⟨⟨s', hstart, hsearched.live⟩, (findSandboxStart_text hsingle [] Parser.ready_init).2 rfl⟩

end Patchbox
