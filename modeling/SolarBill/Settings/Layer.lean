import SolarBill.Settings.Path
import SolarBill.Text.Digit
import SolarBill.Yaml.Node
import SolarBill.Number.Decimal

/-!
# Layers of settings

Settings come in layers: a YAML document, and on top of it the environment.  A layer is a list of
named values; each name is a path (`PathStep.ofName`).

* The document must be one mapping, without a key that is given twice.  A plain scalar is an
  integer of 64 bits if it can be, else a decimal number, else a text; `.inf` and `.nan` make a
  document unreadable.
* A variable of the environment counts when its name begins with the prefix of the application;
  upper and lower case are the same, and two underscores stand for a point.  Its text is a flag, an
  integer or a number if it can be read as one.
-/

namespace SolarBill

/-- Named values that are put on top of each other. -/
abbrev SettingsLayer := List (String × Datum)

namespace SettingsLayer

/-- Read an integer of 64 bits. -/
def integer? (base : Nat) (s : String) : Option Int :=
  (readInt? base s).filter fun n => -0x8000000000000000 ≤ n && n ≤ 0x7FFFFFFFFFFFFFFF

/-- Words for infinity and not-a-number. -/
def isLimitWord (s : String) : Bool :=
  [".inf", ".Inf", ".INF", "+.inf", "+.Inf", "+.INF", "-.inf", "-.Inf", "-.INF",
    ".nan", ".NaN", ".NAN"].contains s

/-- A number with at least one digit. -/
def number? (s : String) : Option Float :=
  if s.toList.any Char.isDigit then readFloat? s else none

/-- An integer written in base 16 or 8, or with a plus sign. -/
def markedInteger? (s : String) : Option Int :=
  match s.toList with
  | '0' :: 'x' :: digits => integer? 16 (.ofList digits)
  | '0' :: 'o' :: digits => integer? 8 (.ofList digits)
  | '+' :: digits => integer? 10 (.ofList digits)
  | _ => none

/-- The value of a plain scalar, if it has one. -/
def ofPlain? (s : String) : Option Datum :=
  if ["", "~", "null"].contains s then some .null
  else if s == "true" then some (.flag true)
  else if s == "false" then some (.flag false)
  else if isLimitWord s then none
  else
    match (markedInteger? s).orElse fun _ => integer? 10 s, number? s with
    | some n, _ => some (.whole n)
    | none, some x => some (.real x)
    | none, none => some (.text s)

/-- The value of a plain scalar with a tag; what does not fit the tag is nothing. -/
def ofTagged? (tag s : String) : Option Datum :=
  match tag with
  | "tag:yaml.org,2002:bool" =>
    some (if s == "true" then .flag true else if s == "false" then .flag false else .null)
  | "tag:yaml.org,2002:int" => some (((integer? 10 s).map Datum.whole).getD .null)
  | "tag:yaml.org,2002:float" =>
    if isLimitWord s then none else some (((number? s).map Datum.real).getD .null)
  | "tag:yaml.org,2002:null" => some .null
  | _ => some (.text s)

/-- The value of a scalar. -/
def ofScalar? (tag : Option String) (style : Yaml.Style) (s : String) : Option Datum :=
  if style ≠ .plain then some (.text s)
  else
    match tag with
    | none => ofPlain? s
    | some tag => ofTagged? tag s

/-- The name that a key stands for, and whether it is a text; two keys are the same when both
agree. -/
def keyName? : Yaml.Node → Option (Bool × String)
  | .scalar tag style s =>
    match ofScalar? tag style s with
    | some (.text s) => some (true, s)
    | some (.whole n) => some (false, toString n)
    | some (.real _) | some (.flag _) => some (false, s)
    | _ => none
  | _ => none

mutual

/-- The value of a node. -/
def ofNode? : Yaml.Node → Option Datum
  | .scalar tag style s => ofScalar? tag style s
  | .sequence _ items => (ofItems? items).map .list
  | .mapping _ entries =>
    (ofEntries? [] entries).map fun fields => .record (Reader.distinctEntries fields)
  | .loop => some .null

/-- The values of the items of a sequence. -/
def ofItems? : List Yaml.Node → Option (List Datum)
  | [] => some []
  | n :: rest => do
    let v ← ofNode? n
    return v :: (← ofItems? rest)

/-- The named values of the entries of a mapping, given the keys before them. -/
def ofEntries? (keys : List (Bool × String)) :
    List (Yaml.Node × Yaml.Node) → Option (List (String × Datum))
  | [] => some []
  | (k, n) :: rest => do
    let key ← keyName? k
    if keys.contains key then none
    else
      let v ← ofNode? n
      return (key.2, v) :: (← ofEntries? (key :: keys) rest)

end

/-- The layer of a YAML document, if it is readable; no document at all is an empty layer.  A byte
order mark in front is left out. -/
def ofDocument? (text : String) : Option SettingsLayer := do
  let body := match text.toList with
    | '\ufeff' :: rest => String.ofList rest
    | _ => text
  match ← Yaml.documents? body with
  | [] => some []
  | [root] =>
    match ← ofNode? root with
    | .record fields => some fields
    | _ => none
  | _ => none

/-- A letter in lower case: an ASCII letter or the Kelvin sign.  No other letter turns into one
that a known setting has. -/
def lowerLetter (c : Char) : Char :=
  if c == '\u212a' then 'k' else c.toLower

/-- Replace two underscores by a point. -/
def pointed : List Char → List Char
  | '_' :: '_' :: rest => '.' :: pointed rest
  | c :: rest => c :: pointed rest
  | [] => []

/-- Name of the setting that a variable of the environment stands for, if it begins with the given
characters. -/
def variableName? (start : String) (entry : String) : Option String :=
  let cs := entry.toList.map lowerLetter
  if start.toList.isPrefixOf cs then some (.ofList (pointed (cs.drop start.length))) else none

/-- The value of a variable of the environment. -/
def ofVariable (s : String) : Datum :=
  match Text.lowerAscii s with
  | "true" => .flag true
  | "false" => .flag false
  | _ =>
    match integer? 10 s, readFloat? s with
    | some n, _ => .whole n
    | none, some x => .real x
    | none, none => .text s

/-- The layer of an environment: the variables that begin with the given characters, which are in
lower case. -/
def ofEnvironment (start : String) (environment : List (String × String)) : SettingsLayer :=
  environment.filterMap fun v => (variableName? start v.1).map fun name => (name, ofVariable v.2)

end SettingsLayer

/-- The settings of layers that are put on top of each other. -/
def settingsOf (layers : List SettingsLayer) : Datum :=
  layers.flatten.foldl (fun d s => Datum.put s.2 (PathStep.ofName s.1) d) (.record [])

end SolarBill
