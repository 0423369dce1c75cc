import SolarBill.Files

/-!
# File trees

Files in memory: a set of paths below one root directory, each with the text of a file or with the
mark of a directory.  Every path is the row of its names, the innermost one first, so that its tail
is the directory that it lies in.

Paths are followed name by name.  A point stands for the directory itself and two points for the
one around it; both, and every further name, need a directory to stand in.
-/

namespace SolarBill

/-- Names from the innermost one to the root. -/
abbrev FilePlace := List String

/-- Files and directories below the root; `none` marks a directory. -/
structure FileTree where
  entries : List (FilePlace × Option String) := []
  deriving DecidableEq, Repr, Inhabited

namespace FileTree

/-- Is there a directory? -/
def hasDirectory (t : FileTree) (p : FilePlace) : Bool :=
  p.isEmpty || t.entries.lookup p == some none

/-- The text of a file. -/
def text? (t : FileTree) (p : FilePlace) : Option String :=
  (t.entries.lookup p).join

/-- Is there a file or a directory? -/
def has (t : FileTree) (p : FilePlace) : Bool :=
  p.isEmpty || (t.entries.lookup p).isSome

/-- Put an entry in the place of the one with its path, or at the end. -/
def put (p : FilePlace) (entry : Option String) (t : FileTree) : FileTree :=
  ⟨(t.entries.filter fun e => e.1 != p) ++ [(p, entry)]⟩

/-- Names of a path. -/
def names (path : String) : List String :=
  path.splitOn "/"

/-- Follow names from a place.  The last one need not be there. -/
def follow? (t : FileTree) (place : FilePlace) : List String → Option FilePlace
  | [] => some place
  | name :: rest =>
    if !t.hasDirectory place then none
    else if name == "" || name == "." then follow? t place rest
    else if name == ".." then follow? t place.tail rest
    else follow? t (name :: place) rest

/-- The place of a path.  The empty path leads nowhere. -/
def place? (t : FileTree) (path : String) : Option FilePlace :=
  if path.isEmpty then none else t.follow? [] (names path)

/-- Follow names from a place and create the directories that are missing. -/
def makeFrom (place : FilePlace) : List String → FileTree → Bool × FileTree
  | [], t => (t.hasDirectory place, t)
  | name :: rest, t =>
    if !t.hasDirectory place then (false, t)
    else if name == "" || name == "." then makeFrom place rest t
    else if name == ".." then makeFrom place.tail rest t
    else
      let next := name :: place
      makeFrom next rest (if t.has next then t else t.put next none)

/-- Create a directory and those around it. -/
def makeDirectory (path : String) (t : FileTree) : Bool × FileTree :=
  makeFrom [] (names path) t

/-- Write a file into a directory that is there. -/
def write (path text : String) (t : FileTree) : Bool × FileTree :=
  match t.place? path with
  | some p =>
    if t.hasDirectory p || !t.hasDirectory p.tail then (false, t) else (true, t.put p (some text))
  | none => (false, t)

/-- The path of a place. -/
def pathOf (p : FilePlace) : String :=
  "/".intercalate p.reverse

/-- The paths of all files. -/
def filePaths (t : FileTree) : List String :=
  (t.entries.filter fun e => e.2.isSome).map fun e => pathOf e.1

/-- A tree as a place where files are kept. -/
def files : Files (StateM FileTree) where
  pathExists path := fun t => ((t.place? path).any t.has, t)
  isFile path := fun t => (((t.place? path).bind t.text?).isSome, t)
  read? path := fun t => ((t.place? path).bind t.text?, t)
  write path text := write path text
  makeDirectory path := makeDirectory path

end FileTree

end SolarBill
