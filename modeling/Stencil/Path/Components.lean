import Stencil.Text.Fields

/-!
Paths of the file system. What counts of a path are its **components**: whether it starts at the
root, and the names between the slashes, of which empty ones and dots mean nothing except for a
dot in front. Unlike in names of templates, two dots are kept, since they depend on the
directories that exist.
-/

namespace Stencil.Path

/-- A component of a path. -/
inductive Component where
  | root
  /-- The directory itself, which only counts at the front. -/
  | here
  /-- The directory above. -/
  | up
  | name (s : List Char)
  deriving DecidableEq, Repr

/-- The component that a piece between slashes stands for. -/
def component (s : List Char) : Component :=
  if s = ['.'] then .here else if s = ['.', '.'] then .up else .name s

/-- The components of a path. -/
def components (path : String) : List Component :=
  let pieces := Text.fields '/' path.toList
  let rooted := path.toList.head? == some '/'
  let front :=
    if rooted then [.root] else if pieces.head? == some ['.'] then [.here] else []
  front ++ (pieces.filter fun s => s ≠ [] ∧ s ≠ ['.']).map component

/-- The text of a component. -/
def Component.text : Component → List Char
  | root => ['/']
  | here => ['.']
  | up => ['.', '.']
  | name s => s

/-- The components with slashes between them. -/
def showComponents (cs : List Component) : String :=
  String.ofList (Text.joinFields '/' (cs.map Component.text))

/-- The path `path` seen from the directory `dir`. -/
def inside (dir path : String) : String :=
  if path.toList.head? == some '/' || dir.isEmpty then path
  else if dir.toList.getLast? == some '/' then dir ++ path
  else dir ++ "/" ++ path

/-- What remains of the components behind `front`, if they start with it. -/
def stripFront? : (front cs : List Component) → Option (List Component)
  | [], cs => some cs
  | _ :: _, [] => none
  | a :: front, b :: cs => if a = b then stripFront? front cs else none

/-- The directory that the last component of a path stands in. -/
def parent (path : String) : String :=
  let cs := (components path).dropLast
  if cs.head? == some .root then
    String.ofList ('/' :: Text.joinFields '/' (cs.tail.map Component.text))
  else showComponents cs

/-- The extension of a file: what stands behind the last dot of its name, if something stands
before that dot. -/
def extension? (path : String) : Option String :=
  match (components path).getLast? with
  | some (.name s) =>
    let pieces := Text.fields '.' s
    if Text.joinFields '.' pieces.dropLast = [] then none
    else pieces.getLast?.map String.ofList
  | _ => none

end Stencil.Path
