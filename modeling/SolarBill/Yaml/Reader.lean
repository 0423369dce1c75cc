import SolarBill.Data.Reader
import SolarBill.Yaml.Meaning
import SolarBill.Yaml.Node

/-!
# Reading records from a document

Where a text is expected, a scalar is taken as it is written, whatever it means.  A number is read
from a plain scalar.  An optional value is absent when a plain scalar is empty or a word for
nothing.  An empty plain scalar is also an empty list and a record without fields.  A record must
not give one of its fields twice; of two entries under one name the later one counts.

A text with no document at all reads like an empty scalar, and a text with two is refused.
-/

namespace SolarBill.Yaml

namespace Node

/-- The tags of the plain kinds of scalars. -/
def standardTag (kind : String) : String :=
  "tag:yaml.org,2002:" ++ kind

/-- The text of a scalar. -/
def text? : Node → Option String
  | .scalar _ _ s => some s
  | _ => none

/-- The text of a scalar that is plain, or a literal block tagged as the given kind. -/
def plain? (kind : String) : Node → Option String
  | .scalar tag style s =>
    if style = .plain || (style = .literal && tag = some (standardTag kind)) then some s else none
  | _ => none

/-- Is a plain scalar empty? -/
def isEmptyPlain : Node → Bool
  | .scalar _ .plain s => s.isEmpty
  | _ => false

/-- Does the node stand for an absent value? -/
def isAbsent : Node → Bool
  | .scalar none .plain s => s.isEmpty || isNullWord s
  | .scalar (some tag) .plain s => tag == standardTag "null" && isNullWord s
  | _ => false

/-- A tag of a document's own, without its exclamation mark. -/
def localTag? (tag : Option String) : Option String :=
  match tag.map String.toList with
  | some ('!' :: name) => some (.ofList name)
  | _ => none

/-- An integer that fits a word, with or without a sign. -/
def word? (s : String) : Option Int :=
  (integer? s).filter fun n => -0x8000000000000000 ≤ n && n ≤ 0xFFFFFFFFFFFFFFFF

/-- The flag, number or text that a plain text means. -/
def ofMeaning? (s : String) : Option AttributeValue :=
  match Meaning.of s with
  | .null => none
  | .flag b => some (.flag b)
  | .integer _ => (word? s).map fun n => .number (Datum.wholeToFloat n)
  | .float x => some (.number x)
  | .text => some (.text s)

/-- A flag, number or text; a tag says which one it is. -/
def attribute? : Node → Option AttributeValue
  | .scalar none .plain s => ofMeaning? s
  | .scalar none _ s => some (.text s)
  | .scalar (some tag) _ s =>
    if (localTag? (some tag)).isSome || tag == standardTag "null" then none
    else if tag == standardTag "bool" then (flagWord? s).map .flag
    else if tag == standardTag "int" then (word? s).map fun n => .number (Datum.wholeToFloat n)
    else if tag == standardTag "float" then (float? s).map .number
    else some (.text s)
  | _ => none

/-- One of the given names, as a text or as a tag of a scalar without content. -/
def choice? (names : List String) : Node → Option String
  | .scalar tag style s =>
    match localTag? tag with
    | some name =>
      if names.contains name && style = .plain && (s.isEmpty || isNullWord s) then some name
      else none
    | none => if names.contains s then some s else none
  | _ => none

/-- Entries of a mapping by name. -/
def named? : Node → Option (List (String × Node))
  | .mapping _ entries => entries.mapM fun e => e.1.text?.map (·, e.2)
  | n => if n.isEmptyPlain then some [] else none

/-- Is no field given twice? -/
def eachOnce (names : List String) (fields : List (String × Node)) : Bool :=
  names.all fun name => (fields.filter fun f => f.1 == name).length ≤ 1

/-- Nodes as a source of records. -/
def reader : Reader Node where
  isAbsent := isAbsent
  text? := text?
  flag? n := (n.plain? "bool").bind flagWord?
  real? n := (n.plain? "float").bind float?
  count? n := ((n.plain? "int").bind word?).bind Datum.wholeToCount?
  scalar? := attribute?
  choice? := choice?
  items?
    | .sequence _ items => some items
    | n => if n.isEmptyPlain then some [] else none
  entries? n := n.named?.map Reader.distinctEntries
  fields? names n := n.named?.filter (eachOnce names)

end Node

/-- The only document of a readable text; an empty scalar when there is none. -/
def document? (text : String) : Option Node := do
  if !text.toList.all isReadable then none
  else
    match ← documents? text with
    | [] => some (.missing none)
    | [root] => some root
    | _ => none

/-- Read a value from a text. -/
def read? {α : Type} (decode : Reader Node → Node → Option α) (text : String) : Option α :=
  (document? text).bind (decode Node.reader)

end SolarBill.Yaml
