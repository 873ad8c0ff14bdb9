import Stencil.Frame
import Stencil.Main
import Stencil.Proofs.Run
import Stencil.Proofs.Snapshot
import Stencil.Proofs.Balance
import Stencil.Proofs.Relation.Code
import Stencil.Proofs.Correspondence
import Stencil.Proofs.Reach
import Stencil.Proofs.TopLevel
import Stencil.Proofs.Identity
import Stencil.Proofs.Transparency
import Stencil.Proofs.Reading
import Stencil.Proofs.Macros
import Stencil.Proofs.Relocation
import Stencil.Proofs.Linking
import Stencil.Proofs.Parameters
import Stencil.Proofs.Translation
import Stencil.Proofs.Lookup
import Stencil.Proofs.References
import Stencil.Proofs.Course
import Stencil.Proofs.Hygiene
import Stencil.Proofs.Qualification
import Stencil.Proofs.Renaming
import Stencil.Proofs.Alias
import Stencil.Proofs.Effect
import Stencil.Proofs.Privacy
import Stencil.Proofs.Termination
import Stencil.Proofs.ImportGraph
import Stencil.Proofs.Recording
import Stencil.Proofs.Reselection
import Stencil.Proofs.Phases
import Stencil.Proofs.Arguments
import Stencil.Proofs.Defaults
import Stencil.Proofs.Display
import Stencil.Proofs.Abstraction.Template
import Stencil.Proofs.Lexing.Tiling
import Stencil.Proofs.Relinking
import Stencil.Proofs.Locality
import Stencil.Proofs.Escaping
import Stencil.Proofs.Attribution
import Stencil.Proofs.Naming
import Stencil.Proofs.Script.Identifier
import Stencil.Proofs.Script.Injectivity
import Stencil.Proofs.Lexing.Keyword
import Stencil.Proofs.Grammar.Header
import Stencil.Proofs.Interchange
