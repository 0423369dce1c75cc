import SolarBill.Yaml.Spot

/-!
# Scalar texts

Plain, quoted and block scalars are cut off the front of a laid out text.

Plain and quoted scalars may run over several lines.  The gap between two words is folded
(`foldGap`): a single line break becomes a space, and of several line breaks the first one is
dropped; blanks around line breaks do not count.  A literal block keeps its line breaks, a folded
block folds those between lines that start with a visible character.
-/

namespace SolarBill.Yaml.Scalar

open Spot

/-- Text of a gap between two words. -/
def foldGap (gap : List Char) : List Char :=
  match gap.filter isBreak with
  | [] => gap
  | ['\n'] => [' ']
  | '\n' :: more => more
  | breaks => breaks

/-! ### Plain scalars -/

/-- A plain scalar, whether a line break was passed behind it, and what follows. -/
structure Plain where
  text : List Char
  passedBreak : Bool
  rest : List Spot

/-- Does a character end a plain scalar, given the character behind it? -/
def endsPlain (flow : Bool) (c next : Char) : Bool :=
  (c == ':' && isGap next) || (flow && [',', '[', ']', '\x7b', '\x7d'].contains c)

/-- May a word go on or begin here?  Behind a gap, a comment, a marker or a lesser indentation ends
the scalar. -/
def endsBehindGap (flow : Bool) (minColumn : Nat) (s : List Spot) : Bool :=
  charAt s 0 == '#' || atDocumentMarker s || (!flow && columnOf s < minColumn)

/-- Read a plain scalar.  `gap` is the gap just passed and `text` what stands before it, both
backwards.  A tabulator must not stand in for indentation, and in a flow collection a colon must
not touch the sign behind it. -/
def plainFrom (flow : Bool) (minColumn : Nat) (gap : List Spot) (text : List Char) :
    List Spot → Option Plain
  | [] => some ⟨text.reverse, (chars gap).any isBreak, []⟩
  | s :: rest =>
    let next := charAt rest 0
    if isBlank s.char || isBreak s.char then
      if s.char == '\t' && (chars gap).any isBreak && s.column < minColumn then none
      else plainFrom flow minColumn (s :: gap) text rest
    else if s.char == endMark || endsPlain flow s.char next ||
        (!gap.isEmpty && endsBehindGap flow minColumn (s :: rest)) then
      some ⟨text.reverse, (chars gap).any isBreak, s :: rest⟩
    else if flow && s.char == ':' && [',', '?', '[', ']', '\x7b', '\x7d'].contains next then
      none
    else
      plainFrom flow minColumn []
        (s.char :: (foldGap (chars gap).reverse).reverse ++ text) rest

/-- Read a plain scalar from its first character on. -/
def plain? (flow : Bool) (minColumn : Nat) (s : List Spot) : Option Plain :=
  plainFrom flow minColumn [] [] s

/-! ### Quoted scalars -/

/-- Value of a hexadecimal digit. -/
def hexDigit? (c : Char) : Option Nat :=
  if '0' ≤ c ∧ c ≤ '9' then some (c.toNat - '0'.toNat)
  else if 'a' ≤ c ∧ c ≤ 'f' then some (c.toNat - 'a'.toNat + 10)
  else if 'A' ≤ c ∧ c ≤ 'F' then some (c.toNat - 'A'.toNat + 10)
  else none

/-- The number that hexadecimal digits write. -/
def hexValue? (cs : List Char) : Option Nat :=
  cs.foldl (fun acc c => acc.bind fun v => (hexDigit? c).map (16 * v + ·)) (some 0)

/-- The character with a code, unless the code is a surrogate or too large. -/
def charOfCode? (n : Nat) : Option Char :=
  if n < 0xD800 ∨ (0xDFFF < n ∧ n < 0x110000) then some (Char.ofNat n) else none

/-- The character that an escape sequence stands for, and the number of characters of the sequence
behind the backslash. -/
def escape? (s : List Spot) : Option (Char × Nat) :=
  let code (digits : Nat) : Option (Char × Nat) :=
    if digits < s.length then
      ((hexValue? (chars ((s.drop 1).take digits))).bind charOfCode?).map (·, digits + 1)
    else none
  match charAt s 0 with
  | '0' => some ('\x00', 1)
  | 'a' => some ('\x07', 1)
  | 'b' => some ('\x08', 1)
  | 't' | '\t' => some ('\t', 1)
  | 'n' => some ('\n', 1)
  | 'v' => some ('\x0b', 1)
  | 'f' => some ('\x0c', 1)
  | 'r' => some ('\r', 1)
  | 'e' => some ('\x1b', 1)
  | ' ' => some (' ', 1)
  | '"' => some ('"', 1)
  | '/' => some ('/', 1)
  | '\\' => some ('\\', 1)
  | 'N' => some ('\x85', 1)
  | '_' => some ('\xa0', 1)
  | 'L' => some ('\u2028', 1)
  | 'P' => some ('\u2029', 1)
  | 'x' => code 2
  | 'u' => code 4
  | 'U' => code 8
  | _ => none

/-- Where the reading of a quoted scalar stands: the text and the gap behind it, both backwards,
whether an escaped line break began the gap, and the number of characters to skip. -/
structure Quoting where
  text : List Char := []
  gap : List Char := []
  escapedBreak : Bool := false
  skip : Nat := 0

/-- The text with its gap.  An escaped line break leaves only the breaks behind it. -/
def Quoting.joined (q : Quoting) : List Char :=
  let gap := q.gap.reverse
  (if q.escapedBreak then gap.filter isBreak else foldGap gap).reverse ++ q.text

/-- Read a quoted scalar behind its opening quote. -/
def quotedFrom (quote : Char) (q : Quoting) : List Spot → Option (List Char × List Spot)
  | [] => none
  | s :: rest =>
    let next := charAt rest 0
    if 0 < q.skip then
      quotedFrom quote { q with skip := q.skip - 1 } rest
    else if isBlank s.char || isBreak s.char then
      quotedFrom quote { q with gap := s.char :: q.gap } rest
    else if s.char == endMark || atDocumentMarker (s :: rest) then
      none
    else if s.char == quote then
      if quote == '\'' && next == quote then
        quotedFrom quote { text := quote :: q.joined, skip := 1 } rest
      else
        some (q.joined.reverse, rest)
    else if quote == '"' && s.char == '\\' then
      if isBreak next then
        quotedFrom quote { text := q.joined, escapedBreak := true, skip := 1 } rest
      else
        match escape? rest with
        | none => none
        | some (c, length) => quotedFrom quote { text := c :: q.joined, skip := length } rest
    else
      quotedFrom quote { text := s.char :: q.joined } rest

/-- Read a quoted scalar from its opening quote on. -/
def quoted? (s : List Spot) : Option (List Char × List Spot) :=
  quotedFrom (charAt s 0) {} (s.drop 1)

/-! ### Block scalars -/

/-- What happens to the line breaks at the end of a block. -/
inductive Chomping where
  | strip
  | clip
  | keep
  deriving DecidableEq, Repr

/-- Head of a block scalar: chomping and the given indentation, if any, and what follows. -/
def blockHead? (s : List Spot) : Option (Chomping × Option Nat × List Spot) :=
  let chomping? (c : Char) : Option Chomping :=
    if c == '+' then some .keep else if c == '-' then some .strip else none
  let digit? (c : Char) : Option Nat :=
    if '0' ≤ c ∧ c ≤ '9' then some (c.toNat - '0'.toNat) else none
  let first := charAt s 0
  let second := charAt s 1
  let head : Chomping × Option Nat × Nat :=
    match chomping? first, digit? first with
    | some chomping, _ =>
      match digit? second with
      | some n => (chomping, some n, 2)
      | none => (chomping, none, 1)
    | none, some n =>
      match chomping? second with
      | some chomping => (chomping, some n, 2)
      | none => (.clip, some n, 1)
    | none, none => (.clip, none, 0)
  if head.2.1 = some 0 then none
  else (dropLineRest? (s.drop head.2.2)).map fun rest => (head.1, head.2.1, rest)

/-- Widest run of spaces in front of a line break or of the first other character; a tabulator must
not stand among them. -/
def leadingSpaces? (widest : Nat) : List Spot → Option Nat
  | [] => some widest
  | s :: rest =>
    if s.char == ' ' then leadingSpaces? widest rest
    else if s.char == '\t' then none
    else if isBreak s.char then leadingSpaces? (max widest s.column) rest
    else some (max widest s.column)

/-- Where the reading of a block scalar stands: the text, the line break behind its last line and
the breaks of the empty lines after that, text and breaks backwards. -/
structure Block where
  text : List Char := []
  lineBreak : Option Char := none
  breaks : List Char := []
  inLine : Bool := false
  /-- Did the last line start with a blank? -/
  indented : Bool := false

/-- The block at the start of a line whose first character is `c`. -/
def Block.startLine (folded : Bool) (b : Block) (c : Char) : Block :=
  let folds := folded && b.lineBreak == some '\n' && !b.indented && !isBlank c
  let joint := if folds then (if b.breaks.isEmpty then [' '] else []) else b.lineBreak.toList
  { text := c :: (b.breaks ++ joint ++ b.text), inLine := true, indented := isBlank c }

/-- Read the lines of a block scalar, which all start at the column `indent`. -/
def blockFrom (folded : Bool) (indent : Nat) (b : Block) : List Spot → Option (Block × List Spot)
  | [] => some (b, [])
  | s :: rest =>
    if b.inLine then
      if isBreak s.char then
        blockFrom folded indent { b with inLine := false, lineBreak := some s.char } rest
      else if s.char == endMark then
        some (b, s :: rest)
      else
        blockFrom folded indent { b with text := s.char :: b.text } rest
    else if s.column < indent && s.char == ' ' then
      blockFrom folded indent b rest
    else if s.column < indent && s.char == '\t' then
      none
    else if isBreak s.char then
      blockFrom folded indent { b with breaks := s.char :: b.breaks } rest
    else if s.column == indent && s.char != endMark then
      blockFrom folded indent (b.startLine folded s.char) rest
    else
      some (b, s :: rest)

/-- Read a block scalar behind its sign.  The indentation is counted from `minColumn`, the least
column of the block's content, when it is given, and else found from the first lines. -/
def block? (folded : Bool) (minColumn : Nat) (s : List Spot) : Option (List Char × List Spot) := do
  let (chomping, given, rest) ← blockHead? s
  let indent ← match given with
    | some n => some (minColumn - 1 + n)
    | none => (leadingSpaces? 0 rest).map fun n => max n (max minColumn 1)
  let (b, rest) ← blockFrom folded indent {} rest
  let tail := match chomping with
    | .strip => []
    | .clip => b.lineBreak.toList
    | .keep => b.lineBreak.toList ++ b.breaks.reverse
  return (b.text.reverse ++ tail, rest)

end SolarBill.Yaml.Scalar
