/-!
# Stages of the wizard

The plan is entered in six stages, one after the other; the last one is the review.
-/

namespace SolarBill

/-- A stage of the wizard. -/
inductive Stage where
  | moduleAndRoof
  | mounting
  | inverters
  | optionalComponents
  | electricalComponents
  | review
  deriving DecidableEq, Repr

namespace Stage

/-- The stages in order. -/
def all : List Stage :=
  [.moduleAndRoof, .mounting, .inverters, .optionalComponents, .electricalComponents, .review]

/-- Place of a stage, from zero. -/
def index : Stage → Nat
  | .moduleAndRoof => 0
  | .mounting => 1
  | .inverters => 2
  | .optionalComponents => 3
  | .electricalComponents => 4
  | .review => 5

/-- The stage after this one. -/
def next? (s : Stage) : Option Stage :=
  all[s.index + 1]?

/-- The stage before this one. -/
def previous? : Stage → Option Stage
  | .moduleAndRoof => none
  | s => all[s.index - 1]?

/-- The stages before this one, in order. -/
def before (s : Stage) : List Stage :=
  all.filter fun t => t.index < s.index

/-- Name of a stage in data. -/
def name : Stage → String
  | .moduleAndRoof => "module_and_roof"
  | .mounting => "mounting"
  | .inverters => "inverters"
  | .optionalComponents => "optional_components"
  | .electricalComponents => "electrical_components"
  | .review => "review"

/-- Name of a stage in running text. -/
def label : Stage → String
  | .moduleAndRoof => "module and roof"
  | .mounting => "mounting"
  | .inverters => "inverters"
  | .optionalComponents => "optional components"
  | .electricalComponents => "electrical components"
  | .review => "review"

end Stage

end SolarBill
