import SolarBill.Yaml.Token
import SolarBill.Yaml.Token.Scalar

/-!
# Names, tags and directives

Anchors and aliases name a node, a tag says what kind of node it is, and directives stand in front
of a document.  A tag is a handle with a suffix; handles are shorthands that the directives of the
document define.
-/

namespace SolarBill.Yaml.Property

open Spot

/-- Read the name of an anchor or alias behind its sign. -/
def name? (s : List Spot) : Option (String × List Spot) :=
  let (name, rest) := span isWord s
  let next := charAt rest 0
  if !name.isEmpty && (isGap next || ['?', ':', ',', ']', '\x7d', '%', '@', '\x60'].contains next) then
    some (.ofList (chars name), rest)
  else none

/-- A character that may stand in a tag as it is; brackets and commas only inside a verbatim tag. -/
def isTagChar (verbatim : Bool) (c : Char) : Bool :=
  isWord c ||
    [';', '/', '?', ':', '@', '&', '=', '+', '$', '.', '!', '~', '*', '\'', '(', ')'].contains c ||
    (verbatim && [',', '[', ']'].contains c)

/-- Read the bytes of a tag; a percent sign and two hexadecimal digits are one byte. -/
def tagBytes? (verbatim : Bool) (skip : Nat) (bytes : List UInt8) :
    List Spot → Option (List UInt8 × List Spot)
  | [] => some (bytes, [])
  | s :: rest =>
    if 0 < skip then tagBytes? verbatim (skip - 1) bytes rest
    else if s.char == '%' then
      match Scalar.hexDigit? (charAt rest 0), Scalar.hexDigit? (charAt rest 1) with
      | some high, some low => tagBytes? verbatim 2 (bytes ++ [.ofNat (16 * high + low)]) rest
      | _, _ => none
    else if isTagChar verbatim s.char then
      tagBytes? verbatim 0 (bytes ++ (String.singleton s.char).toUTF8.toList) rest
    else some (bytes, s :: rest)

/-- Read the characters of a tag. -/
def tagText? (verbatim : Bool) (s : List Spot) : Option (String × List Spot) := do
  let (bytes, rest) ← tagBytes? verbatim 0 [] s
  let text ← String.fromUTF8? ⟨bytes.toArray⟩
  return (text, rest)

/-- Read characters of a tag, at least one. -/
def tagSuffix? (verbatim : Bool) (s : List Spot) : Option (String × List Spot) :=
  (tagText? verbatim s).filter fun t => !t.1.isEmpty

/-- Read a handle: an exclamation mark, a name and a second exclamation mark.  The name may be
missing. -/
def handle? (s : List Spot) : Option (String × List Spot) :=
  let (name, rest) := span isWord (s.drop 1)
  if charAt s 0 == '!' && charAt rest 0 == '!' then
    some ("!" ++ .ofList (chars name) ++ "!", rest.drop 1)
  else none

/-- Read a tag.  A verbatim tag has no handle; a lone exclamation mark is a tag of its own. -/
def tag? (flow : Bool) (s : List Spot) : Option (Token × List Spot) := do
  let (token, rest) ←
    if charAt s 1 == '<' then do
      let (suffix, rest) ← tagSuffix? true (s.drop 2)
      if charAt rest 0 == '>' then some (Token.tag "" suffix, rest.drop 1) else none
    else
      match handle? s with
      | some (handle, rest) => do
        let (suffix, rest) ← tagSuffix? false rest
        some (.tag handle suffix, rest)
      | none => do
        let (suffix, rest) ← tagText? false (s.drop 1)
        some (if suffix.isEmpty then .tag "" "!" else .tag "!" suffix, rest)
  let next := charAt rest 0
  if isGap next || (flow && next == ',') then some (token, rest) else none

/-- Read a number of at most nine digits. -/
def versionNumber? (s : List Spot) : Option (Nat × List Spot) :=
  let (digits, rest) := span Char.isDigit s
  if digits.isEmpty || 9 < digits.length then none
  else some (((chars digits).foldl (fun n c => 10 * n + (c.toNat - '0'.toNat)) 0), rest)

/-- Read a directive from its percent sign to the end of the line. -/
def directive? (s : List Spot) : Option (Token × List Spot) := do
  let (name, rest) := span isWord (s.drop 1)
  if !isGap (charAt rest 0) then none
  else
    let rest := dropBlanks rest
    let (token, rest) ← match String.ofList (chars name) with
      | "YAML" => do
        let (major, rest) ← versionNumber? rest
        if charAt rest 0 != '.' then none
        else
          let (minor, rest) ← versionNumber? (rest.drop 1)
          some (Token.version major minor, rest)
      | "TAG" => do
        let single := charAt rest 0 == '!' && isBlank (charAt rest 1)
        let (handle, rest) ← if single then some ("!", rest.drop 1) else handle? rest
        if !isBlank (charAt rest 0) then none
        else
          let (leading, rest) ← tagSuffix? true (dropBlanks rest)
          if isGap (charAt rest 0) then some (.tagHandle handle leading, rest) else none
      | _ => none
    return (token, ← dropLineRest? rest)

end SolarBill.Yaml.Property
