import SolarBill.Yaml.Token.Lexer

/-!
# Nodes

A YAML document is a tree of scalars, sequences and mappings.  The tree is read off the tokens by
recursion on the grammar; a missing node is an empty plain scalar.  Tags are given in full and
aliases are replaced by the nodes they name.  Only an alias inside the very node that it names
cannot be replaced, and is kept as a loop.

Scalars keep their text as it is written: what a text means is left to the reader.
-/

namespace SolarBill.Yaml

/-- A node of a document. -/
inductive Node where
  | scalar (tag : Option String) (style : Style) (text : String)
  | sequence (tag : Option String) (items : List Node)
  | mapping (tag : Option String) (entries : List (Node × Node))
  /-- An alias inside the node that it names. -/
  | loop
  deriving Inhabited

/-- The node that stands where none is written. -/
def Node.missing (tag : Option String) : Node :=
  .scalar tag .plain ""

/-- What reading nodes depends on: the tokens to come, the tag shorthands of the document, and its
anchors.  An anchor whose node is still being read has none yet. -/
structure Reading where
  tokens : List Token
  handles : List (String × String) := []
  anchors : Array (String × Option Node) := #[]

/-- A step that reads from the tokens, or finds them malformed. -/
abbrev Read := StateT Reading Option

namespace Read

/-- The next token. -/
def peek : Read (Option Token) :=
  fun r => some (r.tokens.head?, r)

/-- Drop the next token. -/
def skip : Read Unit :=
  fun r => some ((), { r with tokens := r.tokens.drop 1 })

/-- Drop the next token, which must be the given one. -/
def expect (t : Token) : Read Unit := do
  if (← peek) = some t then skip else failure

/-- Is the next token one of these? -/
def at? (ts : List Token) : Read Bool :=
  fun r => some (r.tokens.head?.any ts.contains, r)

/-- A tag in full. -/
def resolveTag (handle suffix : String) : Read String := do
  if handle.isEmpty then return suffix
  else
    match (← get).handles.lookup handle with
    | some leading => return leading ++ suffix
    | none => failure

/-- Read anchor and tag in front of a node, in either order. -/
def properties : Read (Option String × Option String) := do
  let anchor? : Read (Option String) := do
    if let some (.anchor name) ← peek then skip; return some name
    else return none
  let tag? : Read (Option (String × String)) := do
    if let some (.tag handle suffix) ← peek then skip; return some (handle, suffix)
    else return none
  let first ← anchor?
  let tag ← tag?
  let anchor ← if first.isNone && tag.isSome then anchor? else pure first
  return (anchor, ← tag.mapM fun t => resolveTag t.1 t.2)

/-- Open an anchor; the answer is its place. -/
def openAnchor (name : String) : Read Nat :=
  fun r => some (r.anchors.size, { r with anchors := r.anchors.push (name, none) })

/-- Give an anchor its node. -/
def closeAnchor (place : Nat) (n : Node) : Read Unit :=
  modify fun r =>
    { r with anchors := r.anchors.modify place fun a => (a.1, some n) }

/-- The node of the latest anchor with a name. -/
def resolveAlias (name : String) : Read Node := do
  match (← get).anchors.findRev? (·.1 == name) with
  | some (_, node) => return node.getD .loop
  | none => failure

/-- Read a node, or a missing one if the next token is one of these. -/
def orMissing (ends : List Token) (read : Read Node) : Read Node := do
  if ← at? ends then return .missing none else read

mutual

/-- Read a node.  A block collection may stand where `block` holds, and a sequence whose entries
are not indented where `indentless` holds. -/
def node : Nat → (block indentless : Bool) → Read Node
  | 0, _, _ => failure
  | depth + 1, block, indentless => do
    if let some (.aliasOf name) ← peek then
      skip
      resolveAlias name
    else
      let (anchor, tag) ← properties
      let place ← anchor.mapM openAnchor
      let n ← content depth block indentless (anchor.isSome || tag.isSome) tag
      if let some place := place then closeAnchor place n
      return n

/-- Read a node behind its properties; behind some it may be missing. -/
def content : Nat → (block indentless mayMiss : Bool) → (tag : Option String) → Read Node
  | 0, _, _, _, _ => failure
  | depth + 1, block, indentless, mayMiss, tag => do
    match ← peek, block, indentless with
    | some .entry, _, true => return .sequence tag (← indentlessItems depth)
    | some (.scalar style text), _, _ => skip; return .scalar tag style text
    | some .flowSequenceStart, _, _ => skip; return .sequence tag (← flowItems depth true)
    | some .flowMappingStart, _, _ => skip; return .mapping tag (← flowEntries depth true)
    | some .sequenceStart, true, _ => skip; return .sequence tag (← blockItems depth)
    | some .mappingStart, true, _ => skip; return .mapping tag (← blockEntries depth)
    | _, _, _ => if mayMiss then return .missing tag else failure

/-- Read the items of a block sequence. -/
def blockItems : Nat → Read (List Node)
  | 0 => failure
  | depth + 1 => do
    if ← at? [.blockEnd] then skip; return []
    else
      expect .entry
      let item ← orMissing [.entry, .blockEnd] (node depth true false)
      return item :: (← blockItems depth)

/-- Read the items of a sequence at the indentation of the mapping around it. -/
def indentlessItems : Nat → Read (List Node)
  | 0 => failure
  | depth + 1 => do
    if ← at? [.entry] then
      skip
      let item ← orMissing [.entry, .key, .value, .blockEnd] (node depth true false)
      return item :: (← indentlessItems depth)
    else return []

/-- Read the entries of a block mapping. -/
def blockEntries : Nat → Read (List (Node × Node))
  | 0 => failure
  | depth + 1 => do
    let part : Read Node := do
      skip
      orMissing [.key, .value, .blockEnd] (node depth true true)
    if ← at? [.blockEnd] then skip; return []
    else
      if !(← at? [.key]) then failure
      let key ← part
      let value ← if ← at? [.value] then part else pure (.missing none)
      return (key, value) :: (← blockEntries depth)

/-- Read the items of a flow sequence; `first` holds before the first one.  An item with a key is a
mapping with one entry. -/
def flowItems : Nat → (first : Bool) → Read (List Node)
  | 0, _ => failure
  | depth + 1, first => do
    if ← at? [.flowSequenceEnd] then skip; return []
    else
      if !first then expect .comma
      if ← at? [.flowSequenceEnd] then skip; return []
      else if ← at? [.key] then
        skip
        let key ← if ← at? [.value, .comma, .flowSequenceEnd] then
            skip; pure (.missing none)
          else node depth false false
        let value ← flowValue depth [.comma, .flowSequenceEnd]
        return .mapping none [(key, value)] :: (← flowItems depth false)
      else
        let item ← node depth false false
        return item :: (← flowItems depth false)

/-- Read the entries of a flow mapping; `first` holds before the first one. -/
def flowEntries : Nat → (first : Bool) → Read (List (Node × Node))
  | 0, _ => failure
  | depth + 1, first => do
    if ← at? [.flowMappingEnd] then skip; return []
    else
      if !first then expect .comma
      if ← at? [.flowMappingEnd] then skip; return []
      else if ← at? [.key] then
        skip
        let key ← orMissing [.value, .comma, .flowMappingEnd] (node depth false false)
        let value ← flowValue depth [.comma, .flowMappingEnd]
        return (key, value) :: (← flowEntries depth false)
      else
        let key ← node depth false false
        return (key, .missing none) :: (← flowEntries depth false)

/-- Read the value of an entry of a flow collection, if there is one. -/
def flowValue : Nat → (ends : List Token) → Read Node
  | 0, _ => failure
  | depth + 1, ends => do
    if ← at? [.value] then
      skip
      orMissing ends (node depth false false)
    else return .missing none

end

/-- Read the directives in front of a document: at most one version, which must be 1.1 or 1.2, and
at most one shorthand for each handle. -/
def directives (versionSeen : Bool) (handles : List (String × String)) :
    List Token → Option (List (String × String) × List Token)
  | .version major minor :: rest =>
    if versionSeen || major ≠ 1 || (minor ≠ 1 && minor ≠ 2) then none
    else directives true handles rest
  | .tagHandle handle leading :: rest =>
    if (handles.lookup handle).isSome then none
    else directives versionSeen (handles ++ [(handle, leading)]) rest
  | rest => some (handles, rest)

/-- The shorthands that every document knows. -/
def standardHandles : List (String × String) :=
  [("!", "!"), ("!!", "tag:yaml.org,2002:")]

/-- Is the next token the start of a document, or a directive in front of one? -/
def atDocumentStart : Read Bool := do
  match ← peek with
  | some (.version _ _) | some (.tagHandle _ _) | some .documentStart => return true
  | _ => return false

/-- Read the documents of a text.  Only the first one may do without a start marker. -/
def documents : Nat → (first : Bool) → Read (List Node)
  | 0, _ => failure
  | steps + 1, first => do
    if !first then
      modify fun r => { r with tokens := r.tokens.dropWhile (· = .documentEnd) }
    if (← peek).isNone then return []
    else
      let marked ← atDocumentStart
      if !marked && !first then failure
      let r ← get
      let (own, tokens) ← (directives false [] r.tokens : Option _)
      set { r with tokens := tokens, handles := own ++ standardHandles, anchors := #[] }
      let root ← if marked then do
          expect .documentStart
          if (← peek).isNone || (← at? [.documentEnd]) || (← atDocumentStart) then
            pure (.missing none)
          else node (3 * tokens.length + 3) true false
        else node (3 * tokens.length + 3) true false
      if ← at? [.documentEnd] then skip
      return root :: (← documents steps false)

end Read

/-- The documents of a text, or none if the text is malformed. -/
def documents? (text : String) : Option (List Node) := do
  let tokens ← Token.ofText? text
  let (nodes, _) ← Read.documents (tokens.length + 1) true { tokens := tokens }
  return nodes

end SolarBill.Yaml
