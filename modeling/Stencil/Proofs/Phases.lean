import Stencil.Cli
import Stencil.Proofs.Stopping

/-!
Errors and phases. Every error says in which phase it arises (`Error.kind`), and each phase fails
with errors of its own only: reading a file, compiling what has been read, and rendering what has
been compiled (`errors_in_phase`).

Two errors are internal: a tag of an unknown kind, and a tag with the arguments of another kind. The
trees that are compiled cannot contain such tags at any depth, since they have been read with the
same tags (`Compiler.legible_of_nodes`); so compiling a **legible** node stops only at an import or
at a macro that is not there (`FileScope.stops_of_nodes`), and imports fail by finding, reading or
compiling a file (`Compiler.fails_of_fragments`).
-/

namespace Stencil

/-- The phases whose errors compiling a template may come to: those of its own, and those of finding
and reading the files that it imports. -/
def ErrorKind.OfCompiling (kind : ErrorKind) : Prop :=
  kind = .malformed ∨ kind = .resolving ∨ kind = .compiling

/-- What nodes stop at is a failure of compiling, if their imports fail in this way. -/
lemma FileScope.Stops.ofCompiling {u : FileScope} {ns : List Node} {e : Error} (h : u.Stops ns e)
    (himported : ∀ path e, u.imported path = .error e → e.kind.OfCompiling) :
    e.kind.OfCompiling := by
  cases h with
  | imported _ he => exact himported _ _ he
  | undefined => exact .inr (.inr rfl)

namespace Compiler

variable {c : Compiler} {e : Error}

/-- A file that cannot be read is malformed. -/
lemma kind_of_nodes_error {file : SourceFile} (he : c.nodes file = .error e) :
    e.kind = .malformed := by
  rw [nodes] at he
  cases hread : Node.ofSource c.tags file.text <;> rw [hread] at he <;> cases he
  rfl

lemma kind_of_load_error {importer : Option String} {path : String}
    (he : c.load importer path = .error e) : e.kind = .resolving := by
  rw [load] at he
  split at he <;> cases he
  rfl

/-- An import fails by finding, reading or compiling a file, at whatever depth. -/
lemma fails_of_fragments (room : Nat) : ∀ {chain : List String} {path : String} {e : Error},
    c.fragments room chain path = .error e → e.kind.OfCompiling := by
  induction room with
  | zero =>
    intro chain path e he
    rw [fragments] at he
    obtain he | ⟨_, _, he⟩ := error_of_bind he
    · exact .inr (.inl (kind_of_load_error he))
    · dsimp only at he
      split at he <;> cases he <;> exact .inr (.inl rfl)
  | succ room ih =>
    intro chain path e he
    rw [fragments] at he
    obtain he | ⟨file, _, he⟩ := error_of_bind he
    · exact .inr (.inl (kind_of_load_error he))
    · dsimp only at he
      split at he
      · cases he
        exact .inr (.inl rfl)
      · obtain he | ⟨ns, hns, he⟩ := error_of_bind he
        · exact .inl (kind_of_nodes_error he)
        · obtain he | ⟨_, _, he⟩ := error_of_bind he
          · have hstops := FileScope.stops_of_fragments (legible_of_nodes hns) _ he
            exact hstops.ofCompiling fun _ _ h => ih h
          · cases he

/-- What has been read compiles, or fails as compiling does. -/
lemma fails_of_program {entry : SourceFile} {ns : List Node} (hns : c.nodes entry = .ok ns)
    (he : c.program entry ns = .error e) : e.kind.OfCompiling := by
  rw [program] at he
  obtain he | ⟨_, _, he⟩ := error_of_bind he
  · have hstops := FileScope.stops_of_nodes (legible_of_nodes hns) [] _ he
    exact hstops.ofCompiling fun _ _ h => fails_of_fragments _ h
  · cases he

lemma fails_of_compile {entry : SourceFile} (he : c.compile entry = .error e) :
    e.kind.OfCompiling := by
  rw [compile] at he
  obtain he | ⟨ns, hns, he⟩ := error_of_bind he
  · exact .inl (kind_of_nodes_error he)
  · exact fails_of_program hns he

lemma fails_of_compileEntry {name : String} {text : Option String}
    (he : c.compileEntry name text = .error e) : e.kind.OfCompiling := by
  cases text with
  | some text => exact fails_of_compile he
  | none =>
    obtain he | ⟨_, _, he⟩ := error_of_bind (x := c.load none name) he
    · exact .inr (.inl (kind_of_load_error he))
    · exact fails_of_compile he

end Compiler

lemma Context.kind_of_ofJson_error {data : Json} {e : Error} (he : ofJson data = .error e) :
    e.kind = .rendering := by
  rw [ofJson] at he
  split at he <;> cases he
  rfl

lemma Cli.kind_of_renderWith_error {context : Context} {p : Program} {e : Error}
    (he : renderWith context p = .error e) : e.kind = .rendering := by
  rw [renderWith] at he
  split at he <;> cases he
  rfl

/-- **Errors stay in their phase.** Reading a file fails only as a malformed one; compiling what has
been read, through all files that it imports, fails only by finding, reading or compiling one of
them; taking data and rendering fail only in rendering. So no template with no data comes to an
internal error on its way to the output. -/
theorem errors_in_phase (c : Compiler) :
    (∀ file e, c.nodes file = .error e → e.kind = .malformed) ∧
    (∀ entry ns e, c.nodes entry = .ok ns → c.program entry ns = .error e →
      e.kind = .malformed ∨ e.kind = .resolving ∨ e.kind = .compiling) ∧
    (∀ data e, Context.ofJson data = .error e → e.kind = .rendering) ∧
    (∀ context p e, Cli.renderWith context p = .error e → e.kind = .rendering) ∧
    ∀ data name text e, (do
        let context ← Context.ofJson data
        let p ← c.compileEntry name text
        Cli.renderWith context p) = .error e → e.kind ≠ .internal := by
  refine ⟨fun _ _ => Compiler.kind_of_nodes_error, fun _ _ _ => Compiler.fails_of_program,
    fun _ _ => Context.kind_of_ofJson_error, fun _ _ _ => Cli.kind_of_renderWith_error,
    fun data name text e he hinternal => ?_⟩
  obtain he | ⟨context, _, he⟩ := error_of_bind he
  · exact absurd ((Context.kind_of_ofJson_error he).symm.trans hinternal) (by decide)
  · obtain he | ⟨p, _, he⟩ := error_of_bind he
    · obtain h | h | h := Compiler.fails_of_compileEntry he <;>
        exact absurd (h.symm.trans hinternal) (by decide)
    · exact absurd ((Cli.kind_of_renderWith_error he).symm.trans hinternal) (by decide)

end Stencil
