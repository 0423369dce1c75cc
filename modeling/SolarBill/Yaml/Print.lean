import SolarBill.Data.Tree
import SolarBill.Number.Shortest
import SolarBill.Yaml.Meaning
import SolarBill.Yaml.Spot

/-!
# Writing documents

Lists and records are written in block style, two columns further in for every record; the items of
a list stand under the name of the list.  What is empty is written as brackets or braces.

A text is written plain if it is read back as the same text.  It is quoted with apostrophes if it
would be read as something else, written as a literal block if it has line breaks, and quoted with
escapes if it has characters that no other style can hold.  A name of a field that has line breaks
or more than 128 bytes is announced with a question mark.
-/

namespace SolarBill.Yaml

namespace Print

/-- White space of the given width. -/
def pad (indent : Nat) : String :=
  String.ofList (List.replicate indent ' ')

/-! ### Characters of a text -/

/-- May the character be written as it is?  Control characters, tabulators among them, the byte
order mark and the last two codes of the basic plane may not. -/
def isPrintable (c : Char) : Bool :=
  let n := c.toNat
  n == 0xA || (0x20 ≤ n && n ≤ 0x7E) ||
    (0xA0 ≤ n && n != 0xFEFF && n != 0xFFFE && n != 0xFFFF)

/-- A character that ends a line for the reader of a document. -/
def endsLine (c : Char) : Bool :=
  isBreak c || c == '\r' || c == '\x85'

/-- A blank, a line end or the end of the text. -/
def isOpen (c : Option Char) : Bool :=
  c.all fun c => isBlank c || endsLine c || c == '\x00'

/-- A space or a line end. -/
def isEdge (c : Char) : Bool :=
  c == ' ' || endsLine c

/-- Does a sign at the start of a plain text have a meaning of its own? -/
def startsSpecially : List Char → Bool
  | '-' :: '-' :: '-' :: _ | '.' :: '.' :: '.' :: _ => true
  | c :: rest =>
    [',', '[', ']', '\x7b', '\x7d', '#', '&', '*', '!', '|', '>', '\'', '"', '%', '@',
      '\x60'].contains c ||
      (['?', ':', '-'].contains c && isOpen rest.head?)
  | [] => false

/-- Does a plain text hold a colon in front of a gap, or a number sign behind one? -/
def holdsSpecial : List Char → Bool
  | c :: d :: rest =>
    (d == ':' && isOpen rest.head?) || (d == '#' && isOpen (some c)) || holdsSpecial (d :: rest)
  | _ => false

/-- Does a pair of neighbouring characters satisfy a condition? -/
def anyPair (p : Char → Char → Bool) : List Char → Bool
  | c :: d :: rest => p c d || anyPair p (d :: rest)
  | _ => false

/-- A space in front of a line end: it would get lost in every style but the escaped one. -/
def hasSpaceBeforeBreak (cs : List Char) : Bool :=
  anyPair (fun c d => c == ' ' && endsLine d) cs

/-- A space behind a line end. -/
def hasSpaceAfterBreak (cs : List Char) : Bool :=
  anyPair (fun c d => endsLine c && d == ' ') cs

/-- Can the text be written without quotes, apart from what it would mean? -/
def plainAllowed (cs : List Char) : Bool :=
  cs.all isPrintable && !cs.any endsLine && !cs.head?.any isEdge && !cs.getLast?.any isEdge &&
    !startsSpecially cs && !holdsSpecial cs

/-- Can the text be quoted with apostrophes? -/
def singleQuotedAllowed (cs : List Char) : Bool :=
  cs.all isPrintable && !hasSpaceBeforeBreak cs && !hasSpaceAfterBreak cs

/-- Can the text be written as a literal block? -/
def literalAllowed (cs : List Char) : Bool :=
  cs.all isPrintable && !hasSpaceBeforeBreak cs && cs.getLast? != some ' '

/-! ### Scalars -/

/-- Put the indentation in front of every line that is not empty; `lineStart` holds at the start of
a line. -/
def indentLines (indent : Nat) (lineStart : Bool) : List Char → List Char
  | [] => []
  | c :: rest =>
    if endsLine c then c :: indentLines indent true rest
    else (if lineStart then List.replicate indent ' ' else []) ++ c :: indentLines indent false rest

/-- Quote with apostrophes, each of which is doubled inside. -/
def singleQuoted (indent : Nat) (cs : List Char) : String :=
  let body := indentLines indent false (cs.flatMap fun c => if c == '\'' then [c, c] else [c])
  let last := if cs.getLast?.any endsLine then pad indent else ""
  "'" ++ String.ofList body ++ last ++ "'"

/-- Hexadecimal digits in upper case, as many as given. -/
def hexDigits (count n : Nat) : List Char :=
  (List.range count).reverse.map fun i => (Nat.digitChar (n / Nat.pow 16 i % 16)).toUpper

/-- The escape sequence of a character. -/
def escape (c : Char) : List Char :=
  match c with
  | '\x00' => ['\\', '0']
  | '\x07' => ['\\', 'a']
  | '\x08' => ['\\', 'b']
  | '\t' => ['\\', 't']
  | '\n' => ['\\', 'n']
  | '\x0b' => ['\\', 'v']
  | '\x0c' => ['\\', 'f']
  | '\r' => ['\\', 'r']
  | '\x1b' => ['\\', 'e']
  | '"' => ['\\', '"']
  | '\\' => ['\\', '\\']
  | '\x85' => ['\\', 'N']
  | '\xa0' => ['\\', '_']
  | '\u2028' => ['\\', 'L']
  | '\u2029' => ['\\', 'P']
  | _ =>
    let n := c.toNat
    if n ≤ 0xFF then '\\' :: 'x' :: hexDigits 2 n
    else if n ≤ 0xFFFF then '\\' :: 'u' :: hexDigits 4 n
    else '\\' :: 'U' :: hexDigits 8 n

/-- Quote with escapes. -/
def doubleQuoted (cs : List Char) : String :=
  let plain (c : Char) : Bool := isPrintable c && !endsLine c && c != '"' && c != '\\'
  "\"" ++ String.ofList (cs.flatMap fun c => if plain c then [c] else escape c) ++ "\""

/-- Write as a literal block.  The head says how wide the indentation is if the text itself starts
with a space or a line break, and what happens to the line breaks at the end. -/
def literal (indent : Nat) (cs : List Char) : String :=
  let width := if cs.head?.any isEdge then "2" else ""
  let chomping := match cs.reverse with
    | [] => "-"
    | [c] => if endsLine c then "+" else "-"
    | c :: d :: _ => if !endsLine c then "-" else if endsLine d then "+" else ""
  "|" ++ width ++ chomping ++ "\n" ++ String.ofList (indentLines indent true cs)

/-- Write a text at an indentation. -/
def text (indent : Nat) (s : String) : String :=
  let cs := s.toList
  if cs.contains '\n' then
    if literalAllowed cs then literal indent cs else doubleQuoted cs
  else if readsAsText s && plainAllowed cs then s
  else if singleQuotedAllowed cs then singleQuoted indent cs
  else doubleQuoted cs

/-- Write a scalar at an indentation. -/
def scalar (indent : Nat) : Datum → String
  | .null => "null"
  | .flag b => if b then "true" else "false"
  | .whole n => toString n
  | .real x => Double.compact x
  | .text s => text indent s
  | .list _ => "[]"
  | .record _ => "\x7b\x7d"

/-- End a line, unless a block has ended it. -/
def endLine (s : String) : String :=
  if s.toList.getLast?.any endsLine then s else s ++ "\n"

/-! ### Lists and records -/

/-- Can a field with this name be written on one line? -/
def isSimpleName (name : String) : Bool :=
  !name.toList.any endsLine && name.utf8ByteSize ≤ 128

/-- The name of a field up to its colon. -/
def name (indent : Nat) (name : String) : String :=
  if isSimpleName name then text (indent + 2) name ++ ":"
  else "? " ++ endLine (text (indent + 2) name) ++ pad indent ++ ":"

/-- Entries below each other, each with the indentation in front. -/
def below (indent : Nat) (parts : List String) : String :=
  String.join (parts.map (pad indent ++ ·))

/-- Entries below each other, the first one on a line that is begun already. -/
def onward (indent : Nat) (parts : List String) : String :=
  (pad indent).intercalate parts

mutual

/-- What stands behind the colon of a field. -/
def value (indent : Nat) : Datum → String
  | .record (field :: rest) => "\n" ++ below (indent + 2) (fields (indent + 2) (field :: rest))
  | .list (item :: rest) => "\n" ++ below indent (items indent (item :: rest))
  | d => " " ++ endLine (scalar (indent + 2) d)

/-- The fields of a record. -/
def fields (indent : Nat) : List (String × Datum) → List String
  | [] => []
  | (n, d) :: rest => (name indent n ++ value indent d) :: fields indent rest

/-- What stands behind the hyphen of an item. -/
def item (indent : Nat) : Datum → String
  | .record (field :: rest) => onward (indent + 2) (fields (indent + 2) (field :: rest))
  | .list (first :: rest) => onward (indent + 2) (items (indent + 2) (first :: rest))
  | d => endLine (scalar (indent + 2) d)

/-- The items of a list. -/
def items (indent : Nat) : List Datum → List String
  | [] => []
  | d :: rest => ("- " ++ item indent d) :: items indent rest

end

end Print

/-- Write a document. -/
def render : Datum → String
  | .record (field :: rest) => Print.below 0 (Print.fields 0 (field :: rest))
  | .list (item :: rest) => Print.below 0 (Print.items 0 (item :: rest))
  | d => Print.endLine (Print.scalar 2 d)

end SolarBill.Yaml
