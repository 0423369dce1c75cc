/-!
# Characters in place

YAML is read by lines and columns: indentation carries structure, and a key must fit on one line.
A text is therefore laid out first, each character with its line and its column, both from zero.
Carriage return, line feed, the pair of them and the next-line control are one line break each and
become a line feed; the two Unicode separators are line breaks that stay as they are.

A null character stands behind the last one.  It cannot occur inside a readable text, so scanning
never has to ask for the end separately.
-/

namespace SolarBill.Yaml

/-- A character with its line and column. -/
structure Spot where
  char : Char
  line : Nat
  column : Nat
  deriving DecidableEq, Repr

/-- What stands behind the last character. -/
def endMark : Char := '\x00'

/-- Space or tabulator. -/
def isBlank (c : Char) : Bool :=
  c == ' ' || c == '\t'

/-- A line break of a laid out text. -/
def isBreak (c : Char) : Bool :=
  c == '\n' || c == '\u2028' || c == '\u2029'

/-- A line break or the end. -/
def isLineEnd (c : Char) : Bool :=
  isBreak c || c == endMark

/-- A blank, a line break or the end. -/
def isGap (c : Char) : Bool :=
  isBlank c || isLineEnd c

/-- An ASCII letter or digit, a hyphen or an underscore. -/
def isWord (c : Char) : Bool :=
  c.isAlphanum || c == '-' || c == '_'

/-- May the character stand in a YAML text?  Control characters may not, other than the tabulator
and the line breaks. -/
def isReadable (c : Char) : Bool :=
  let n := c.toNat
  n == 0x9 || n == 0xA || n == 0xD || (0x20 ≤ n && n ≤ 0x7E) || n == 0x85 ||
    (0xA0 ≤ n && n ≤ 0xFFFD) || 0x10000 ≤ n

namespace Spot

/-- Lay out characters from a line and column on. -/
def layoutFrom (line column : Nat) : List Char → List Spot
  | [] => [⟨endMark, line, column⟩]
  | '\r' :: '\n' :: rest => ⟨'\n', line, column⟩ :: layoutFrom (line + 1) 0 rest
  | c :: rest =>
    if c == '\r' || c == '\x85' || c == '\n' then
      ⟨'\n', line, column⟩ :: layoutFrom (line + 1) 0 rest
    else if isBreak c then
      ⟨c, line, column⟩ :: layoutFrom (line + 1) 0 rest
    else
      ⟨c, line, column⟩ :: layoutFrom line (column + 1) rest

/-- Lay out a text. -/
def layout (text : String) : List Spot :=
  layoutFrom 0 0 text.toList

/-- The characters of a row of spots. -/
def chars (s : List Spot) : List Char :=
  s.map Spot.char

/-- The character `n` places ahead. -/
def charAt (s : List Spot) (n : Nat) : Char :=
  (s[n]?.map Spot.char).getD endMark

/-- Line of the next character. -/
def lineOf (s : List Spot) : Nat :=
  (s.head?.map Spot.line).getD 0

/-- Column of the next character. -/
def columnOf (s : List Spot) : Nat :=
  (s.head?.map Spot.column).getD 0

/-- Three equal marks at the start of a line and a gap behind them: the start or the end of a
document. -/
def atMarker (mark : Char) (s : List Spot) : Bool :=
  columnOf s == 0 && charAt s 0 == mark && charAt s 1 == mark && charAt s 2 == mark &&
    isGap (charAt s 3)

/-- The start or the end of a document. -/
def atDocumentMarker (s : List Spot) : Bool :=
  atMarker '-' s || atMarker '.' s

/-- Take the spots at the front whose characters satisfy a condition. -/
def span (p : Char → Bool) (s : List Spot) : List Spot × List Spot :=
  (s.takeWhile fun x => p x.char, s.dropWhile fun x => p x.char)

/-- Drop blanks at the front. -/
def dropBlanks (s : List Spot) : List Spot :=
  (span isBlank s).2

/-- Drop blanks and a comment; what follows must be the end of the line. -/
def dropLineRest? (s : List Spot) : Option (List Spot) :=
  let s := dropBlanks s
  let s := if charAt s 0 == '#' then (span (fun c => !isLineEnd c) s).2 else s
  if isBreak (charAt s 0) then some (s.drop 1)
  else if charAt s 0 == endMark then some s
  else none

end Spot

end SolarBill.Yaml
