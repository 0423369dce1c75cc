import SolarBill.Yaml.Token.Property

/-!
# From characters to tokens

The lexer keeps the columns of the open block collections and, for every open flow collection and
for the block around them, the place where a key may have started.  Whether a scalar is a key shows
only at the colon behind it; the token that announces the key is then inserted at its place.  A key
that is not announced with a question mark must fit on one line and in 1024 characters, and where a
block mapping goes on, the next node must turn out to be a key.
-/

namespace SolarBill.Yaml

open Spot

/-- A node that may turn out to be a key. -/
structure Candidate where
  /-- Number of tokens before it. -/
  place : Nat
  line : Nat
  column : Nat
  /-- Must it turn out to be a key? -/
  required : Bool

/-- State of the lexer. -/
structure Lexer where
  rest : List Spot
  tokens : Array Token := #[]
  /-- Columns of the open block collections, the innermost one first. -/
  indents : List Nat := []
  /-- Possible keys of the open flow collections and of the block around them, the innermost one
  first. -/
  candidates : List (Option Candidate) := [none]
  /-- May a key start here? -/
  keyAllowed : Bool := true

namespace Lexer

/-- Inside a flow collection. -/
def inFlow (l : Lexer) : Bool :=
  1 < l.candidates.length

/-- The next character. -/
def char (l : Lexer) (n : Nat) : Char :=
  charAt l.rest n

/-- Column of the next character. -/
def column (l : Lexer) : Nat :=
  columnOf l.rest

/-- Least column of the content of the innermost block collection. -/
def minColumn (l : Lexer) : Nat :=
  match l.indents with
  | [] => 0
  | i :: _ => i + 1

/-- Append a token and drop the characters it is made of. -/
def emit (t : Token) (length : Nat) (l : Lexer) : Lexer :=
  { l with tokens := l.tokens.push t, rest := l.rest.drop length }

/-- Append a token and go on behind it. -/
def emitTo (t : Token) (rest : List Spot) (l : Lexer) : Lexer :=
  { l with tokens := l.tokens.push t, rest := rest }

/-- Allow or forbid a key at the next character. -/
def allowKey (allowed : Bool) (l : Lexer) : Lexer :=
  { l with keyAllowed := allowed }

/-- Open a block collection at a column further in; its token is inserted at a place. -/
def openAt (column place : Nat) (t : Token) (l : Lexer) : Lexer :=
  if l.inFlow || column < l.minColumn then l
  else { l with tokens := l.tokens.insertIdxIfInBounds place t, indents := column :: l.indents }

/-- Close block collections from the innermost one on, as long as their columns satisfy a
condition. -/
def closeWhile (p : Nat → Bool) (l : Lexer) : Lexer :=
  if l.inFlow then l
  else
    let closed := (l.indents.takeWhile p).length
    { l with
      tokens := l.tokens ++ Array.replicate closed .blockEnd
      indents := l.indents.drop closed }

/-- Close the block collections that a column lies outside of. -/
def closeTo (column : Nat) (l : Lexer) : Lexer :=
  l.closeWhile (column < ·)

/-- Close all block collections. -/
def closeAll (l : Lexer) : Lexer :=
  l.closeWhile fun _ => true

/-- Replace the innermost candidate. -/
def setCandidate (c : Option Candidate) (l : Lexer) : Lexer :=
  { l with candidates := c :: l.candidates.drop 1 }

/-- The innermost candidate. -/
def candidate? (l : Lexer) : Option Candidate :=
  l.candidates.head?.join

/-- Forget the innermost candidate, unless it had to be a key. -/
def dropCandidate? (l : Lexer) : Option Lexer :=
  if l.candidate?.any Candidate.required then none else some (l.setCandidate none)

/-- Remember that a key may start here. -/
def saveCandidate? (l : Lexer) : Option Lexer :=
  if l.keyAllowed then
    l.dropCandidate?.map fun l =>
      l.setCandidate <| some
        { place := l.tokens.size
          line := lineOf l.rest
          column := l.column
          required := !l.inFlow && l.indents.head? == some l.column }
  else some l

/-- Is it too late for a candidate to be a key? -/
def isStale (l : Lexer) (c : Candidate) : Bool :=
  c.line < lineOf l.rest || c.column + 1024 < l.column

/-- Forget the candidates that can no longer be keys, unless one of them had to be. -/
def dropStale? (l : Lexer) : Option Lexer :=
  let stale (c : Option Candidate) : Bool := c.any l.isStale
  if l.candidates.any fun c => stale c && c.any Candidate.required then none
  else some { l with candidates := l.candidates.map fun c => if stale c then none else c }

/-- Skip blanks, comments and line breaks.  A tabulator may stand between tokens but not where a
key may start, unless in a flow collection; behind a line break a key may start in a block. -/
def skipGap (flow keyAllowed inComment : Bool) : List Spot → Bool × List Spot
  | [] => (keyAllowed, [])
  | s :: rest =>
    if isBreak s.char then skipGap flow (keyAllowed || !flow) false rest
    else if s.char == endMark then (keyAllowed, s :: rest)
    else if inComment || s.char == ' ' || (s.char == '\ufeff' && s.column == 0) ||
        (s.char == '\t' && (flow || !keyAllowed)) then
      skipGap flow keyAllowed inComment rest
    else if s.char == '#' then skipGap flow keyAllowed true rest
    else (keyAllowed, s :: rest)

/-- Go to the next token: forget stale candidates and close what the column lies outside of. -/
def advance? (l : Lexer) : Option Lexer :=
  let (keyAllowed, rest) := skipGap l.inFlow l.keyAllowed false l.rest
  (dropStale? { l with rest := rest, keyAllowed := keyAllowed }).map fun l => l.closeTo l.column

/-- Start a flow collection. -/
def openFlow? (t : Token) (l : Lexer) : Option Lexer :=
  l.saveCandidate?.map fun l =>
    (emit t 1 { l with candidates := none :: l.candidates }).allowKey true

/-- End a flow collection. -/
def closeFlow? (t : Token) (l : Lexer) : Option Lexer :=
  l.dropCandidate?.map fun l =>
    let l := if l.inFlow then { l with candidates := l.candidates.drop 1 } else l
    (l.emit t 1).allowKey false

/-- A comma between entries. -/
def comma? (l : Lexer) : Option Lexer :=
  l.dropCandidate?.map fun l => (l.emit .comma 1).allowKey true

/-- The hyphen of a block sequence. -/
def entry? (l : Lexer) : Option Lexer :=
  if !l.inFlow && !l.keyAllowed then none
  else
    (l.openAt l.column l.tokens.size .sequenceStart).dropCandidate?.map fun l =>
      (l.emit .entry 1).allowKey true

/-- The question mark in front of a key. -/
def key? (l : Lexer) : Option Lexer :=
  if !l.inFlow && !l.keyAllowed then none
  else
    (l.openAt l.column l.tokens.size .mappingStart).dropCandidate?.map fun l =>
      (l.emit .key 1).allowKey (!l.inFlow)

/-- The colon in front of a value; what stands before it may turn out to be a key. -/
def value? (l : Lexer) : Option Lexer :=
  match l.candidate? with
  | some c =>
    let announced := { l with tokens := l.tokens.insertIdxIfInBounds c.place .key }
    let opened := (announced.openAt c.column c.place .mappingStart).setCandidate none
    some ((opened.emit .value 1).allowKey false)
  | none =>
    if l.inFlow then some ((l.emit .value 1).allowKey false)
    else if l.keyAllowed then
      some (((l.openAt l.column l.tokens.size .mappingStart).emit .value 1).allowKey true)
    else none

/-- A marker or directive between documents. -/
def between? (l : Lexer) : Option Lexer :=
  l.closeAll.dropCandidate?.map (allowKey false)

/-- A token that may be the start of a key. -/
def node? (l : Lexer) (t : Option (Token × List Spot)) : Option Lexer := do
  let l ← l.saveCandidate?
  let (t, rest) ← t
  return (l.emitTo t rest).allowKey false

/-- A quoted scalar. -/
def quoted? (style : Style) (l : Lexer) : Option Lexer :=
  l.node? <| (Scalar.quoted? l.rest).map fun (text, rest) => (.scalar style (.ofList text), rest)

/-- A block scalar. -/
def block? (style : Style) (l : Lexer) : Option Lexer := do
  let l ← l.dropCandidate?
  let (text, rest) ← Scalar.block? (style = .folded) l.minColumn (l.rest.drop 1)
  return (l.emitTo (.scalar style (.ofList text)) rest).allowKey true

/-- A plain scalar. -/
def plain? (l : Lexer) : Option Lexer := do
  let l ← l.saveCandidate?
  let p ← Scalar.plain? l.inFlow l.minColumn l.rest
  return (l.emitTo (.scalar .plain (.ofList p.text)) p.rest).allowKey p.passedBreak

/-- May a plain scalar start with the next character? -/
def startsPlain (l : Lexer) : Bool :=
  let c := l.char 0
  let next := l.char 1
  !(isGap c || ['-', '?', ':', ',', '[', ']', '\x7b', '\x7d', '#', '&', '*', '!', '|', '>', '\'',
      '"', '%', '@', '\x60'].contains c) ||
    (c == '-' && !isBlank next) ||
    (!l.inFlow && (c == '?' || c == ':') && !isGap next)

/-- Read the next token, which starts at the next character. -/
def token? (l : Lexer) : Option Lexer :=
  let c := l.char 0
  let flow := l.inFlow
  let beforeGap := isGap (l.char 1)
  if l.column == 0 && c == '%' then do
    let l ← l.between?
    let (t, rest) ← Property.directive? l.rest
    return l.emitTo t rest
  else if atMarker '-' l.rest then l.between?.map (emit .documentStart 3)
  else if atMarker '.' l.rest then l.between?.map (emit .documentEnd 3)
  else if c == '[' then l.openFlow? .flowSequenceStart
  else if c == '\x7b' then l.openFlow? .flowMappingStart
  else if c == ']' then l.closeFlow? .flowSequenceEnd
  else if c == '\x7d' then l.closeFlow? .flowMappingEnd
  else if c == ',' then l.comma?
  else if c == '-' && beforeGap then l.entry?
  else if c == '?' && (flow || beforeGap) then l.key?
  else if c == ':' && (flow || beforeGap) then l.value?
  else if c == '*' then
    l.node? ((Property.name? (l.rest.drop 1)).map fun (name, rest) => (.aliasOf name, rest))
  else if c == '&' then
    l.node? ((Property.name? (l.rest.drop 1)).map fun (name, rest) => (.anchor name, rest))
  else if c == '!' then l.node? (Property.tag? flow l.rest)
  else if c == '|' && !flow then l.block? .literal
  else if c == '>' && !flow then l.block? .folded
  else if c == '\'' then l.quoted? .singleQuoted
  else if c == '"' then l.quoted? .doubleQuoted
  else if l.startsPlain then l.plain?
  else none

/-- Read all tokens.  Every token drops at least one character, so as many steps as there are
characters are enough. -/
def run : Nat → Lexer → Option (Array Token)
  | 0, _ => none
  | steps + 1, l => do
    let l ← l.advance?
    if l.char 0 == endMark then
      let l ← l.closeAll.dropCandidate?
      return l.tokens
    else
      run steps (← l.token?)

end Lexer

/-- The tokens of a text. -/
def Token.ofText? (text : String) : Option (List Token) :=
  let spots := Spot.layout text
  (Lexer.run (spots.length + 1) { rest := spots }).map Array.toList

end SolarBill.Yaml
