import SolarBill.Number.Decimal

/-!
# What a plain text means

A scalar without quotes may mean nothing, a flag, a number or a text.  The words are fixed;
everything that is none of them is a text.

* Integers may carry a sign and may be written in base 2, 8, 10 or 16; they have at most 128 bits.
  Digits behind a leading zero are no number (`isZeroPadded`), so that `007` stays a text.
* Other numbers are finite decimal numerals, or the words for infinity and not-a-number.
-/

namespace SolarBill.Yaml

/-- A word for nothing. -/
def isNullWord (s : String) : Bool :=
  ["null", "Null", "NULL", "~"].contains s

/-- A word for a flag. -/
def flagWord? (s : String) : Option Bool :=
  if ["true", "True", "TRUE"].contains s then some true
  else if ["false", "False", "FALSE"].contains s then some false
  else none

/-- Digits behind a leading zero, with or without a sign. -/
def isZeroPadded (s : String) : Bool :=
  match (Numeral.takeSign s.toList).2 with
  | '0' :: c :: rest => (c :: rest).all Char.isDigit
  | _ => false

/-- Read digits in the base that their beginning names, or in base ten. -/
def naturalOfChars? : List Char → Option Nat
  | '0' :: 'x' :: ds => natural? 16 ds
  | '0' :: 'o' :: ds => natural? 8 ds
  | '0' :: 'b' :: ds => natural? 2 ds
  | ds => natural? 10 ds
where
  /-- Read digits in a base. -/
  natural? (base : Nat) (ds : List Char) : Option Nat :=
    match ds with
    | '+' :: _ | '-' :: _ => none
    | ds => (readInt? base (.ofList ds)).map Int.toNat

/-- Has an integer at most 128 bits, with or without a sign? -/
def fitsInteger (n : Int) : Bool :=
  -0x80000000000000000000000000000000 ≤ n && n ≤ 0xFFFFFFFFFFFFFFFFFFFFFFFFFFFFFFFF

/-- Read an integer. -/
def integer? (s : String) : Option Int :=
  if isZeroPadded s then none
  else
    let (negative, ds) := Numeral.takeSign s.toList
    ((naturalOfChars? ds).map fun n => if negative then -(n : Int) else n).filter fitsInteger

/-- Read a number as a double. -/
def float? (s : String) : Option Float :=
  let unsigned := match s.toList with
    | '+' :: rest => rest
    | rest => rest
  if [".inf", ".Inf", ".INF"].contains (String.ofList unsigned) then some (1.0 / 0.0)
  else if ["-.inf", "-.Inf", "-.INF"].contains s then some (-1.0 / 0.0)
  else if [".nan", ".NaN", ".NAN"].contains s then some (0.0 / 0.0)
  else if s.startsWith "++" || s.startsWith "+-" then none
  else (readFloat? (.ofList unsigned)).filter Float.isFinite

/-- What a plain text means. -/
inductive Meaning where
  | null
  | flag (value : Bool)
  | integer (value : Int)
  | float (value : Float)
  | text

/-- The meaning of a plain text. -/
def Meaning.of (s : String) : Meaning :=
  if s.isEmpty || isNullWord s then .null
  else
    match flagWord? s, integer? s with
    | some b, _ => .flag b
    | none, some n => .integer n
    | none, none =>
      if isZeroPadded s then .text
      else
        match float? s with
        | some x => .float x
        | none => .text

/-- Would the text, written without quotes, be read as a text? -/
def readsAsText (s : String) : Bool :=
  match Meaning.of s with
  | .text => !isZeroPadded s
  | _ => false

end SolarBill.Yaml
