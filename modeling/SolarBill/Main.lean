import SolarBill.CommandLine

/-!
# The program

Files, environment and arguments of the machine, and nothing else: what the program does is
`SolarBill.CommandLine.run`.
-/

namespace SolarBill

/-- Does an action succeed, and with a positive answer? -/
def succeeds (act : IO Bool) : IO Bool := do
  try act catch _ => return false

/-- The files of the machine. -/
def machineFiles : Files IO where
  pathExists path := succeeds do
    (← IO.FS.realPath path).pathExists
  isFile path := succeeds do
    return (← (← IO.FS.realPath path).metadata).type == .file
  read? path := do
    try
      return some (← IO.FS.readFile path)
    catch _ =>
      return none
  write path text := succeeds do
    IO.FS.writeFile path text
    return true
  makeDirectory path := succeeds do
    if path.isEmpty then
      return true
    else
      IO.FS.createDirAll path
      return true

/-- The variables of the environment that a process was started with. -/
def machineEnvironment : IO Environment := do
  let text ← try IO.FS.readFile "/proc/self/environ" catch _ => pure ""
  return (text.splitOn "\x00").filterMap fun entry =>
    match entry.splitOn "=" with
    | name :: value => if name.isEmpty then none else some (name, "=".intercalate value)
    | [] => none

end SolarBill

/-- Print the bill of a data directory. -/
def main (arguments : List String) : IO UInt32 := do
  let env ← SolarBill.machineEnvironment
  match ← SolarBill.CommandLine.run SolarBill.machineFiles env arguments with
  | .ok text =>
    IO.print text
    return 0
  | .error message =>
    IO.eprintln ("Error: " ++ message)
    return 1
