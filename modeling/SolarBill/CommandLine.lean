import SolarBill.Data.Bill
import SolarBill.DataDirectory
import SolarBill.Session

/-!
# The command line

The program compiles the plan of one data directory and prints the bill.  The directory is the
first argument that does not begin with two hyphens.  Log files have a directory of their own,
which is created before anything else happens.
-/

namespace SolarBill.CommandLine

variable {m : Type → Type} [Monad m]

/-- Directory of the log files. -/
def logDirectory : String := "logs"

/-- Data directory when no argument names one. -/
def standardDirectory : String := "pvbom-data"

/-- The data directory that the arguments name. -/
def directoryOf (arguments : List String) : String :=
  (arguments.find? fun a => !a.startsWith "--").getD standardDirectory

/-- The bill of a data directory. -/
def billOf (files : Files m) (env : Environment) (path : String) : DataDirectory.Op m Bill := do
  let directory ← DataDirectory.openAt files path
  let coefficients ← directory.loadCoefficients files env
  let catalog ← directory.loadCatalog files
  let plan ← directory.loadPlan files coefficients
  return (((Session.start catalog coefficients).updatePlan fun _ => plan).1).workspace.bill

/-- Print a bill, once there is a directory for the log files: the text, or what went wrong. -/
def printing (files : Files m) (bill : DataDirectory.Op m Bill) : m (Except String String) := do
  if ← files.ensureDirectory logDirectory then
    match ← bill.run with
    | .ok bill => return .ok (Yaml.render bill.encode)
    | .error e => return .error e.message
  else
    return .error ("Failed to create log directory: " ++ logDirectory)

/-- Run the program. -/
def run (files : Files m) (env : Environment) (arguments : List String) :
    m (Except String String) :=
  printing files (billOf files env (directoryOf arguments))

end SolarBill.CommandLine
