import Stencil.Text.Fields

/-!
Names of template files. A name consists of segments between slashes, and starts with a slash if
it is rooted. `Path.join` gives the name of a file as an importing file refers to it: relative to
the directory of the importing file, with the segments `.` and `..` of the reference resolved.
-/

namespace Stencil.Path

/-- A piece of a path between slashes. -/
abbrev Segment := List Char

/-- The segments of the directory a file is in. -/
def directory (file : String) : List Segment :=
  (Text.fields '/' file.toList).dropLast.filter fun s => !s.isEmpty

/-- Goes one segment further: nowhere for an empty one or a dot, and up for two dots. -/
def step (parts : List Segment) (s : Segment) : List Segment :=
  if s = [] ∨ s = ['.'] then parts
  else if s = ['.', '.'] then parts.dropLast
  else parts ++ [s]

/-- Goes along all segments of a path. -/
def walk (parts : List Segment) (path : String) : List Segment :=
  (Text.fields '/' path.toList).foldl step parts

/-- Whether the path starts at the root. -/
def isRooted (path : String) : Bool :=
  path.toList.head? == some '/'

/-- The name made of segments. -/
def ofSegments (rooted : Bool) (parts : List Segment) : String :=
  String.ofList ((if rooted then ['/'] else []) ++ Text.joinFields '/' parts)

/-- The name of the file that `path` refers to in the file called `importer`, if there is one. -/
def join (importer : Option String) (path : String) : String :=
  let parts := if isRooted path then [] else (importer.map directory).getD []
  ofSegments (isRooted path || importer.any isRooted) (walk parts path)

/-- The name of a file that is referred to from nowhere. -/
def normalize (path : String) : String :=
  join none path

end Stencil.Path
