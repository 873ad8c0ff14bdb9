import Stencil.Path.Components

/-!
Settings: the directory the templates are in, the extensions of template files, and the limit on
chains of imports.
-/

namespace Stencil

/-- The settings of the command line. -/
structure Settings where
  /-- The directory that names of templates are relative to. -/
  root : String := "."
  /-- The extensions of the files that are templates. -/
  extensions : List String := ["html", "tpl"]
  /-- How many files a chain of imports may have. -/
  maxDepth : Nat := 64
  deriving DecidableEq, Repr

namespace Settings

/-- Whether a path has one of the extensions of template files. -/
def isTemplate (s : Settings) (path : String) : Bool :=
  (Path.extension? path).any s.extensions.contains

/-- Whether the settings amount to those that hold if nothing is said. -/
def isDefault (s : Settings) : Bool :=
  let d : Settings := {}
  Path.components s.root == Path.components d.root && s.extensions == d.extensions
    && s.maxDepth == d.maxDepth

end Settings

end Stencil
