import SolarBill.Bill.Consolidate
import SolarBill.Bill.Rules

/-!
# Compiling a plan

The bill of a plan is what the rules derive, consolidated.  Compiling never fails: what the
catalogue does not know degrades to zero quantities and skipped lines.
-/

namespace SolarBill

/-- The bill of a plan. -/
def compile (plan : Plan) (catalog : Catalog) (coefficients : Coefficients) : Bill :=
  let draft := Rules.draft plan catalog coefficients
  { lines := Bill.consolidate draft.lines, warnings := draft.warnings }

end SolarBill
