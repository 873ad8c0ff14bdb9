/-!
Where a template stands among those that enclose it.
-/

namespace Stencil

/-- The names of the enclosing templates and of the block being filled. -/
structure Frame where
  parents : List String
  block : Option String
  deriving DecidableEq, Repr

/-- The same block with nothing around it, which is where imported macros stand. -/
def Frame.detached (f : Frame) : Frame :=
  { f with parents := [] }

end Stencil
