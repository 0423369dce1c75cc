import SolarBill.Coefficients.Builtin
import SolarBill.Coefficients.Check
import SolarBill.Data.Catalog
import SolarBill.Data.Coefficients
import SolarBill.Files
import SolarBill.Settings.Layer
import SolarBill.Settings.Reader
import SolarBill.Yaml.Print
import SolarBill.Yaml.Reader

/-!
# The data directory

Three files hold what a bill is made of: the coefficients, the catalogue and the plan.  Each of
them may be missing: then the built-in coefficients are used and written out for editing, the
catalogue is empty, and the plan has the preset selections.

The coefficients are read as settings, with the environment on top of the file, and are checked.
The environment does not count while there is no file.  Catalogue and plan are read as they are.
-/

namespace SolarBill

/-- The files of a data directory. -/
inductive DataFile where
  | coefficients
  | catalog
  | plan
  deriving DecidableEq, Repr

namespace DataFile

/-- What the file holds, in running text. -/
def label : DataFile → String
  | .coefficients => "coefficients"
  | .catalog => "catalog"
  | .plan => "configuration"

/-- Name of the file. -/
def fileName (f : DataFile) : String :=
  f.label ++ ".yaml"

end DataFile

/-- Why data could not be loaded or saved. -/
inductive DataError where
  | createDirectory (path : String)
  | read (file : DataFile) (path : String)
  | parse (file : DataFile) (path : String)
  | write (file : DataFile) (path : String)
  | unusable (path : String) (fault : CoefficientFault)
  deriving DecidableEq, Repr

namespace DataError

/-- The reason in words. -/
def message : DataError → String
  | .createDirectory path => "Failed to create data directory: " ++ path
  | .read file path => "Failed to read " ++ file.label ++ ": " ++ path
  | .parse file path => "Failed to parse " ++ file.label ++ ": " ++ path
  | .write file path => "Failed to write " ++ file.label ++ ": " ++ path
  | .unusable path _ => "Invalid coefficients in " ++ path

/-- The fault of the coefficients that is behind it. -/
def fault? : DataError → Option CoefficientFault
  | .unusable _ fault => some fault
  | _ => none

end DataError

/-- A directory with data files. -/
structure DataDirectory where
  path : String
  deriving DecidableEq, Repr

/-- The variables of the environment, by name. -/
abbrev Environment := List (String × String)

namespace DataDirectory

variable {m : Type → Type} [Monad m]

/-- An operation on files that may fail. -/
abbrev Op (m : Type → Type) := ExceptT DataError m

/-- Path of a file. -/
def pathOf (d : DataDirectory) (f : DataFile) : String :=
  Files.join d.path f.fileName

/-- Fail unless a condition holds. -/
def ensure (ok : Bool) (e : DataError) : Op m Unit :=
  if ok then pure () else throw e

/-- The value, or a failure. -/
def orFail {α : Type} (a : Option α) (e : DataError) : Op m α :=
  match a with
  | some a => pure a
  | none => throw e

/-- Open a directory; create it if it is not there. -/
def openAt (files : Files m) (path : String) : Op m DataDirectory := do
  let ok : Bool ← liftM (files.ensureDirectory path)
  ensure ok (.createDirectory path)
  return ⟨path⟩

/-- Write a value into a file. -/
def save (files : Files m) (d : DataDirectory) (f : DataFile) (value : Datum) : Op m Unit := do
  let path := d.pathOf f
  ensure (← files.write path (Yaml.render value)) (.write f path)

/-- Save coefficients. -/
def saveCoefficients (files : Files m) (d : DataDirectory) (c : Coefficients) : Op m Unit :=
  save files d .coefficients c.encode

/-- Save a catalogue. -/
def saveCatalog (files : Files m) (d : DataDirectory) (c : Catalog) : Op m Unit :=
  save files d .catalog c.encode

/-- Save a plan. -/
def savePlan (files : Files m) (d : DataDirectory) (p : Plan) : Op m Unit :=
  save files d .plan p.encode

/-- Beginning of the variables of the environment that are settings, in lower case. -/
def variableStart : String := "pvbom_"

/-- Where settings are read from: the path itself if it is a file, else the path with an ending. -/
def settingsFile? (files : Files m) (path : String) : m (Option String) :=
  [path, path ++ ".yaml", path ++ ".yml"].findM? fun p => files.isFile p

/-- Read the settings of a file. -/
def settingsOfFile? (files : Files m) (path : String) : m (Option SettingsLayer) := do
  let some file ← settingsFile? files path | return none
  return (← files.read? file).bind SettingsLayer.ofDocument?

/-- Load the coefficients of a file that is there. -/
def readCoefficients (files : Files m) (d : DataDirectory) (env : Environment) :
    Op m Coefficients := do
  let path := d.pathOf .coefficients
  let layer : Option SettingsLayer ← liftM (settingsOfFile? files path)
  let layer ← orFail layer (.read .coefficients path)
  let settings := settingsOf [layer, .ofEnvironment variableStart env]
  let c ← orFail (Coefficients.decode Settings.reader settings) (.parse .coefficients path)
  match c.checked with
  | .ok c => return c
  | .error fault => throw (.unusable path fault)

/-- Load the coefficients.  The built-in ones are written where there are none; it does no harm if
that fails. -/
def loadCoefficients (files : Files m) (d : DataDirectory) (env : Environment) :
    Op m Coefficients := do
  if ← files.pathExists (d.pathOf .coefficients) then
    readCoefficients files d env
  else
    tryCatch (saveCoefficients files d .builtin) fun _ => pure ()
    return .builtin

/-- Load a file, or give the value that stands for a missing one. -/
def loadFile {α : Type} (files : Files m) (d : DataDirectory) (f : DataFile) (missing : α)
    (decode : Reader Yaml.Node → Yaml.Node → Option α) : Op m α := do
  let path := d.pathOf f
  if ← files.pathExists path then
    let text ← orFail (← files.read? path) (.read f path)
    orFail (Yaml.read? decode text) (.parse f path)
  else
    return missing

/-- Load the catalogue. -/
def loadCatalog (files : Files m) (d : DataDirectory) : Op m Catalog :=
  loadFile files d .catalog .empty Catalog.decode

/-- Load the plan. -/
def loadPlan (files : Files m) (d : DataDirectory) (c : Coefficients) : Op m Plan :=
  loadFile files d .plan (.preset c) Plan.decode

end DataDirectory

end SolarBill
