/-!
# Files

What the library asks of a place where files are kept.  The operations run in some monad: in `IO`
the files are those of the machine, and a file tree in memory serves them as well
(`FileTree.files`).  Paths are texts with slashes; an operation that cannot be carried out changes
nothing but directories on the way, and says so.
-/

namespace SolarBill

/-- A place where files are kept. -/
structure Files (m : Type → Type) where
  /-- Is there a file or a directory? -/
  pathExists : String → m Bool
  /-- Is there a file? -/
  isFile : String → m Bool
  /-- The text of a file, if it can be read. -/
  read? : String → m (Option String)
  /-- Write a file; the answer tells whether it worked. -/
  write : String → String → m Bool
  /-- Create a directory and those around it; the answer tells whether there is one now. -/
  makeDirectory : String → m Bool

namespace Files

variable {m : Type → Type} [Monad m]

/-- Make sure that there is something at a path: where there is nothing, create a directory. -/
def ensureDirectory (files : Files m) (path : String) : m Bool := do
  if ← files.pathExists path then return true else files.makeDirectory path

/-- Path of a file in a directory. -/
def join (directory file : String) : String :=
  if directory.isEmpty || directory.endsWith "/" then directory ++ file
  else directory ++ "/" ++ file

end Files

end SolarBill
