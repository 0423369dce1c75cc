/-!
# Tokens

What a YAML text consists of between its characters and its nodes.  Indentation has become explicit
here: block collections have a start and an end, as flow collections have, and every key is
announced before it.
-/

namespace SolarBill.Yaml

/-- How a scalar is written. -/
inductive Style where
  | plain
  | singleQuoted
  | doubleQuoted
  | literal
  | folded
  deriving DecidableEq, Repr, Inhabited

/-- A token. -/
inductive Token where
  /-- Version of the format, in front of a document. -/
  | version (major minor : Nat)
  /-- A shorthand for the beginning of tags, in front of a document. -/
  | tagHandle (handle leading : String)
  | documentStart
  | documentEnd
  | sequenceStart
  | mappingStart
  /-- End of a block sequence or mapping. -/
  | blockEnd
  | flowSequenceStart
  | flowSequenceEnd
  | flowMappingStart
  | flowMappingEnd
  /-- Entry of a block sequence. -/
  | entry
  /-- Comma between the entries of a flow collection. -/
  | comma
  | key
  | value
  | aliasOf (name : String)
  | anchor (name : String)
  | tag (handle suffix : String)
  | scalar (style : Style) (text : String)
  deriving DecidableEq, Repr

end SolarBill.Yaml
