import Stencil.Path
import Stencil.Path.Components

/-!
The files that the command line works on: a tree of directories below the one it starts in. Only
files are kept; a directory exists if a file is in it. Files are kept in the order in which a walk
through the tree meets them, the entries of each directory by name, so that `Files.found` only
picks those below a directory.
-/

namespace Stencil.Cli

/-- Files with their paths, in the order of a walk. -/
structure Files where
  entries : List (List Path.Segment × String)

namespace Files

/-- Puts a file in its place, instead of a former one at the same path. -/
def insertEntry (path : List Path.Segment) (text : String) :
    List (List Path.Segment × String) → List (List Path.Segment × String)
  | [] => [(path, text)]
  | e :: rest =>
    if path < e.1 then (path, text) :: e :: rest
    else if path = e.1 then (path, text) :: rest
    else e :: insertEntry path text rest

/-- The tree of files with the given paths and texts. -/
def ofList (files : List (String × String)) : Files :=
  ⟨files.foldl (fun es f => insertEntry (Path.walk [] f.1) f.2 es) []⟩

/-- The text of the file at a place in the tree. -/
def text? (f : Files) (place : List Path.Segment) : Option String :=
  f.entries.lookup place

/-- Whether there is a directory at a place in the tree. -/
def isDirectory (f : Files) (place : List Path.Segment) : Bool :=
  place.isEmpty || f.entries.any fun e => place.isPrefixOf e.1 && place != e.1

/-- Whether there is anything at a place in the tree. -/
def has (f : Files) (place : List Path.Segment) : Bool :=
  (f.text? place).isSome || f.isDirectory place

/-- Follows the pieces of a path. Only from a directory does it go on, and nowhere above the one
at the top. -/
def follow (f : Files) (place : List Path.Segment) : List Path.Segment → Option (List Path.Segment)
  | [] => some place
  | s :: rest =>
    if !f.isDirectory place then none
    else if s = [] ∨ s = ['.'] then f.follow place rest
    else if s = ['.', '.'] then
      if place.isEmpty then none else f.follow place.dropLast rest
    else if f.has (place ++ [s]) then f.follow (place ++ [s]) rest
    else none

/-- The place that a path leads to. -/
def locate? (f : Files) (path : String) : Option (List Path.Segment) :=
  if path.isEmpty || Path.isRooted path then none
  else f.follow [] (Text.fields '/' path.toList)

/-- The text of the file that a path leads to. -/
def read? (f : Files) (path : String) : Option String :=
  (f.locate? path).bind f.text?

/-- The paths of the file that `path` leads to, or of all files below that directory. -/
def found (f : Files) (path : String) : List String :=
  match f.locate? path with
  | none => []
  | some place =>
    if (f.text? place).isSome then [path]
    else
      (f.entries.filter fun e => place.isPrefixOf e.1).map fun e =>
        Path.inside path (String.ofList (Text.joinFields '/' (e.1.drop place.length)))

end Files

end Stencil.Cli
