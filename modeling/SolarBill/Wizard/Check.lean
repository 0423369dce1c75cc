import SolarBill.Plan
import SolarBill.Wizard

/-!
# Checking a plan stage by stage

A stage is left forwards only when the plan has no issue of that stage.  An issue names the field
by its path in the plan and says what is required of it.  `issues` lists the issues of one stage,
`issuesBefore` those of all stages before a stage.
-/

namespace SolarBill

open Text

/-- A missing or wrong field. -/
structure Issue where
  field : String
  message : String
  deriving DecidableEq, Repr

namespace Stage

/-- One issue if a condition fails. -/
def require (ok : Bool) (field message : String) : List Issue :=
  if ok then [] else [⟨field, message⟩]

/-- Path of an element of a list. -/
def at_ (list : String) (index : Nat) : String :=
  list ++ "[" ++ toString index ++ "]"

/-- Names something. -/
def isNamed (id : Option String) : Bool :=
  (nonBlank? id).isSome

/-- Every row holds a module. -/
def rowIssues (name : String) (rows : List UInt32) : List Issue :=
  rows.zipIdx.flatMap fun (count, index) =>
    require (0 < count) (at_ ("layout." ++ name) index ++ ".module_count")
      "row must contain at least one module"

/-- Issues of the module, the roof and the layout. -/
def moduleAndRoofIssues (p : Plan) : List Issue :=
  require (isNamed p.module) "module" "required" ++
    require p.roof.isSome "roof" "required" ++
    rowIssues "portrait" p.layout.portrait ++
    rowIssues "landscape" p.layout.landscape ++
    require (0 < p.totalModules) "layout" "at least one module row is required"

/-- Issues of the mounting hardware. -/
def mountingIssues (p : Plan) : List Issue :=
  let m := p.mounting
  require (isNamed m.system) "mounting.system" "required" ++
    require (isNamed m.endClamp) "mounting.end_clamp" "required" ++
    require (isNamed m.midClamp) "mounting.mid_clamp" "required" ++
    require (!isNamed m.profileConnector || isNamed m.profile) "mounting.profile"
      "a profile connector needs a profile"

/-- Issues of one inverter entry. -/
def inverterEntryIssues (index : Nat) (v : Inverter) : List Issue :=
  let path := at_ "inverters" index
  require (!isBlank v.materialId) (path ++ ".material_id") "required" ++
    require (0 < v.quantity) (path ++ ".quantity") "quantity must be at least 1" ++
    require (!v.strings.isEmpty) (path ++ ".strings") "at least one string is required" ++
    v.strings.zipIdx.flatMap fun (s, j) =>
      require (0 < s.moduleCount) (at_ (path ++ ".strings") j ++ ".module_count")
        "string must contain at least one module"

/-- Issues of the inverters and their string plans. -/
def inverterIssues (p : Plan) : List Issue :=
  if p.inverters.isEmpty then
    [⟨"inverters", "at least one inverter is required"⟩]
  else
    (p.inverters.zipIdx.flatMap fun (v, index) => inverterEntryIssues index v) ++
      require (p.stringModules == p.totalModules) "inverters.strings"
        ("strings wire " ++ toString p.stringModules ++ " modules but the layout has " ++
          toString p.totalModules)

/-- A selection names both a material and a quantity, or is left out. -/
def selectionIssues (group : String) (named : String × Option Selection) : List Issue :=
  match named.2 with
  | none => []
  | some s =>
    let path := group ++ "." ++ named.1
    require (!isBlank s.materialId) (path ++ ".material_id")
        "a quantity was entered without a material" ++
      require (0 < s.quantity) (path ++ ".quantity") "a material was selected without a quantity"

/-- Issues that keep a plan from leaving a stage forwards. -/
def issues (s : Stage) (p : Plan) : List Issue :=
  match s with
  | .moduleAndRoof => moduleAndRoofIssues p
  | .mounting => mountingIssues p
  | .inverters => inverterIssues p
  | .optionalComponents => p.options.named.flatMap (selectionIssues "options")
  | .electricalComponents => p.electrical.named.flatMap (selectionIssues "electrical")
  | .review => []

/-- Issues of every stage before this one, in stage order. -/
def issuesBefore (s : Stage) (p : Plan) : List Issue :=
  s.before.flatMap fun t => t.issues p

end Stage

end SolarBill
