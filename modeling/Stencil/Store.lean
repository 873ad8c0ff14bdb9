import Stencil.Compile
import Stencil.Dict

/-!
Template files held in memory, under their normalized names.
-/

namespace Stencil

/-- Template files by name. -/
structure Store where
  files : Dict String

namespace Store

/-- No files. -/
def empty : Store := ⟨.empty⟩

/-- The store with a file, instead of a former one of the same name. -/
def insert (s : Store) (name text : String) : Store :=
  ⟨s.files.insert (Path.normalize name) text⟩

/-- The store of some files, the later ones winning. -/
def ofList (files : List (String × String)) : Store :=
  files.foldl (fun s f => s.insert f.1 f.2) empty

/-- The files as a source of templates. -/
def library (s : Store) : Library :=
  ⟨s.files.get?, fun _ => none⟩

/-- The means to compile templates that import files of the store. -/
def compiler (s : Store) (tags : TagSet) (maxDepth : Nat) : Compiler :=
  ⟨tags, s.library, maxDepth⟩

end Store

end Stencil
