import SolarBill.Text.Blank
import SolarBill.Number.Decimal

/-!
# Numbers as data sheets write them

Attribute values are typed by people who write a comma before the decimals and a point between
groups of three digits, and who add a unit or a remark.  The number is the numeral at the front.

* A comma anywhere makes every point a group mark and every comma a decimal point.
* Without a comma, points are group marks only where they cut the whole part into groups of three
  (`isGrouped`): `6.000` is six thousand, `16.5 A` and `1.7222` have decimals.
* The value is the double nearest to the numeral; what is not finite is no number.
-/

namespace SolarBill.Locale

open Text

/-- Groups of three digits with a point between them, up to the end of the number. -/
def groups : List Char → Bool
  | [a, b, c] => isDigit a && isDigit b && isDigit c
  | a :: b :: c :: '.' :: r => isDigit a && isDigit b && isDigit c && groups r
  | a :: b :: c :: d :: _ => isDigit a && isDigit b && isDigit c && !isDigit d && d != ','
  | _ => false

/-- One to three digits and then groups of three: points here mark thousands. -/
def isGrouped (cs : List Char) : Bool :=
  match Numeral.takeDigits (Numeral.takeSign cs).2 with
  | (whole, '.' :: r) => 1 ≤ whole.length && whole.length ≤ 3 && groups r
  | _ => false

/-- Write the number with a decimal point and no group marks. -/
def normalise (cs : List Char) : List Char :=
  if cs.contains ',' then
    (cs.filter (· != '.')).map fun c => if c == ',' then '.' else c
  else if isGrouped cs then
    cs.filter (· != '.')
  else
    cs

/-- The exact value of the number at the front of a text. -/
def decimal? (text : String) : Option Decimal := do
  let (numeral, _) ← Numeral.leading? (normalise (trimChars text.toList))
  numeral.toDecimal?

/-- The number at the front of a text, as a finite double. -/
def number? (text : String) : Option Float :=
  ((decimal? text).map Decimal.toFloat).filter Float.isFinite

end SolarBill.Locale
