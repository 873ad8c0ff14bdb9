import Stencil.Proofs.Macros
import Stencil.Proofs.Translation

/-!
Places determined beforehand. Compiling determines for every variable whether it is a parameter of
an enclosing macro or an entry of the context. `Program.unresolve` takes this back: each variable is
looked up when it is evaluated, first among the parameters in scope and then in the context.

For a template that imports nothing (`Node.SelfContained`) both ways come to the same
(`lookup_agrees`): wherever code runs, the parameters in scope are exactly those of the macros
around it in the template (`Translation.dynamic`), however the code has got there.
-/

namespace Stencil

/-! ### Undetermined places -/

/-- The variable that a parameter or an entry of the context has been. -/
def Expr.toVar? : Expr → Option Expr
  | .param name => some (.var name)
  | .context name => some (.var name)
  | _ => none

/-- The program with the places of all names left open. -/
def Program.unresolve (p : Program) : Program :=
  { p with instrs := replaceAll Expr.toVar? p.instrs }

/-- A reference inside macros with the given parameters, and itself. -/
inductive Expr.Placed (params : List String) : Expr → Expr → Prop
  | param {name : String} : name ∈ params → Placed params (.param name) (.param name)
  | context {name : String} : name ∉ params → Placed params (.context name) (.context name)

/-- A reference inside macros with the given parameters, and the variable it has been. -/
inductive Expr.Unplaced (params : List String) : Expr → Expr → Prop
  | param {name : String} : name ∈ params → Unplaced params (.param name) (.var name)
  | context {name : String} : name ∉ params → Unplaced params (.context name) (.var name)

section Expr

variable {params : List String}

lemma Expr.resolves_placed (name : String) :
    Resolves (Expr.Placed params) params.contains name := by
  rw [Resolves]
  split
  next h => exact .param (List.contains_iff_mem.1 h)
  next h => exact .context (mt List.contains_iff_mem.2 h)

lemma Expr.relinks_toVar : Relinks (Expr.Placed params) (Expr.Unplaced params) toVar? where
  reference := by
    rintro e _ (hn | hn)
    · exact .reference (.param hn)
    · exact .reference (.context hn)
  other := by
    intro e he
    cases e with
    | param name => exact absurd (.param name) he
    | context name => exact absurd (.context name) he
    | _ => rfl

/-- An expression of a template, with its places determined and left open. -/
lemma Expr.rel_unplaced {e : Expr} (he : e.IsSource) : Expr.Rel (Expr.Unplaced params)
    (FileScope.resolve params e) ((FileScope.resolve params e).replace toVar?) :=
  (Expr.rel_resolve he fun x _ => Expr.resolves_placed x).replace Expr.relinks_toVar

/-- Messages do not tell where a name has been found. -/
lemma Expr.Unplaced.describe_eq {c c' : Expr} (h : Expr.Unplaced params c c') :
    c.describe = c'.describe := by
  cases h <;> rfl

end Expr

/-! ### The translation -/

/-- Names are looked up when they are evaluated. A place is described by the parameters of the
macros around it. -/
def Translation.dynamic : Translation where
  Env := List String
  enter params m := m.params.map (·.name) ++ params
  inSpace params := params
  fits params scope := ∀ name, (scope.get? name).isSome ↔ name ∈ params
  ref := Expr.Unplaced
  name := Equiv.refl String
  error := Eq

lemma Translation.dynamic_lawful : dynamic.Lawful where
  caller := rfl
  kwargs := rfl
  inSpace h := h
  enter := by
    intro params scope m d hfits hd name
    rw [Scope.get?_cons, Option.isSome_or, Bool.or_eq_true, hd.isSome_iff]
    exact (or_congr_right (hfits name)).trans List.mem_append.symm
  reference := by
    intro params e e' scope scope' s s' he hfits hscope hs
    cases he with
    | @param name hn =>
      -- the scope has the name, so that the context does not matter
      have hget := hscope.get? name
      obtain ⟨v, hv⟩ := Option.isSome_iff_exists.1 ((hfits name).2 hn)
      rw [hv] at hget
      generalize hv' : scope'.get? name = o at hget
      obtain @⟨_, w, hvw⟩ := hget
      refine ⟨v, w, hvw, fun _ _ => ⟨?_, ?_⟩⟩
      · rw [eval, hv]
        rfl
      · rw [eval, Run.get_bind, hv']
        rfl
    | @context name hn =>
      have hget := hscope.get? name
      have hnone := Option.not_isSome_iff_eq_none.1 (mt (hfits name).1 hn)
      rw [hnone] at hget
      generalize hnone' : scope'.get? name = o at hget
      cases hget
      refine ⟨_, _, Value.Rel.getD (hs.context name), fun _ _ => ⟨rfl, ?_⟩⟩
      rw [eval, Run.get_bind, hnone']
      rfl
  notCallable type hc :=
    congrArg (RenderError.notCallable type) (hc.describe_eq fun _ _ => Expr.Unplaced.describe_eq)
  callDepth hc :=
    congrArg RenderError.callDepth (hc.describe_eq fun _ _ => Expr.Unplaced.describe_eq)
  error_refl _ := rfl

/-! ### Templates that import nothing -/

/-- No tag in the node imports anything. -/
inductive Node.SelfContained : Node → Prop
  | text (s : String) : SelfContained (.text s)
  | output (o : Output) : SelfContained (.output o)
  | tag {head : TagHead} {content : List Node} : head.name ≠ TagKind.importAll.name →
      head.name ≠ TagKind.importNames.name → (∀ n ∈ content, SelfContained n) →
      SelfContained (.tag head content)

/-- No tag in the file, if it can be read, imports anything. -/
def Compiler.SelfContained (c : Compiler) (file : SourceFile) : Prop :=
  ∀ ns, c.nodes file = .ok ns → ∀ n ∈ ns, n.SelfContained

lemma TagSet.name_of_find? {tags : TagSet} {name : String} {kind : TagKind}
    (h : tags.find? name = some kind) : name = kind.name := by
  have hname := List.find?_some h
  exact (beq_iff_eq.1 hname).symm

/-- The code of nodes that import nothing, with places determined and left open. -/
lemma FileScope.Compiles.unresolved {u : FileScope} {params : List String} {ns : List Node}
    {is : List Instr} (h : u.Compiles params ns is) (hns : ∀ n ∈ ns, n.SelfContained) :
    Translation.dynamic.Code params is (replaceAll Expr.toVar? is) := by
  induction h with
  | nil params => exact Translation.Code.nil (T := .dynamic) params
  | text s _ ih => exact .text s (ih fun n hn => hns n (List.mem_cons_of_mem _ hn))
  | output ho _ ih =>
    exact .output (Expr.rel_unplaced ho) (ih fun n hn => hns n (List.mem_cons_of_mem _ hn))
  | @definition params _ _ _ body _ sig _ _ hsig _ _ ihbody ih =>
    rw [List.forall_mem_cons] at hns
    cases hns.1 with
    | tag _ _ hcontent =>
      let inner := sig.params.map (·.name) ++ params
      have hinner : Translation.dynamic.enter params
          ⟨sig.name, FileScope.params inner sig, body, u.file.name⟩ = inner := by
        show ((sig.params.map _).map _) ++ params = inner
        rw [List.map_map]
        rfl
      refine .define (.context sig.name) ?_ (fun _ _ => rfl) (hinner ▸ ihbody hcontent) (ih hns.2)
      rw [hinner]
      refine List.forall₂_map_right_iff.2 (List.forall₂_map_left_iff.2
        (List.forall₂_map_right_iff.2 (List.forall₂_same.2 fun p hp => ⟨rfl, ?_⟩)))
      show Option.Rel _ (p.default.map _) ((p.default.map _).map _)
      cases hd : p.default with
      | none => exact .none
      | some d => exact .some (Expr.rel_unplaced (hsig p hp d hd))
  | @callBlock _ _ _ _ _ _ _ source _ _ he _ _ ihbody ih =>
    rw [List.forall_mem_cons] at hns
    cases hns.1 with
    | tag _ _ hcontent =>
      exact .callBlock source source (ihbody hcontent) (Expr.rel_unplaced he) (ih hns.2)
  | importAll hkind =>
    cases (List.forall_mem_cons.1 hns).1 with
    | tag hall _ _ => exact absurd (TagSet.name_of_find? hkind) hall
  | importNames hkind =>
    cases (List.forall_mem_cons.1 hns).1 with
    | tag _ hnames _ => exact absurd (TagSet.name_of_find? hkind) hnames

/-- A program that imports nothing, with places determined and left open. -/
lemma Compiler.unresolved_of_compile {c : Compiler} {entry : SourceFile} {p : Program}
    (hentry : c.SelfContained entry) (hp : c.compile entry = .ok p) :
    Translation.dynamic.Code [] p.instrs p.unresolve.instrs := by
  obtain ⟨ns, hns, hcompiles⟩ := compiles_of_compile hp
  exact hcompiles.unresolved (hentry ns hns)

/-- **Determining places beforehand agrees with looking names up.** A program that imports nothing
comes to the same output or to the same error, and leaves the same names in the context, if every
name is looked up in scope and then in the context when it is evaluated. -/
theorem lookup_agrees {c : Compiler} {entry : SourceFile} {p : Program} {data : Json}
    {context : Context} (hentry : c.SelfContained entry) (hp : c.compile entry = .ok p)
    (hdata : Context.ofJson data = .ok context) (fresh : Nat) :
    let s := Renderer.start context fresh
    (Renderer.render p).outcome s = (Renderer.render p.unresolve).outcome s ∧
      ((Renderer.render p).final s).context.keys =
        ((Renderer.render p.unresolve).final s).context.keys := by
  intro s
  have hs : Translation.dynamic.Agree s s := .start hdata (fun _ _ => rfl) fresh
  have hroot : Translation.dynamic.fits [] [] := fun name => by simp [Scope.get?]
  have hmatches := Translation.dynamic_lawful.render_sim hroot
    (Compiler.unresolved_of_compile hentry hp) s s hs
  exact ⟨hmatches.same_outcome, Context.keys_eq hmatches.final.context.isSome_iff⟩

open Greeting in
/-- The page that defines the macros itself: a default that calls a macro with a parameter. -/
theorem greeting_looked_up : ∃ p, compiler.compile ⟨"page", inline⟩ = .ok p ∧
    (Renderer.render p).outcome (.start context 0) = .ok "Hi <Ada>" ∧
    (Renderer.render p).outcome (.start context 0) =
      (Renderer.render p.unresolve).outcome (.start context 0) ∧
    ((Renderer.render p).final (.start context 0)).context.keys =
      ((Renderer.render p.unresolve).final (.start context 0)).context.keys := by
  have hcompile := Compiler.compile_of_nodes inline_read (FileScope.nodes_append
    (nodes_definitions (u := compiler.scope ⟨"page", inline⟩) rfl) (FileScope.nodes_output _ _))
  have hcontained : compiler.SelfContained ⟨"page", inline⟩ := by
    rintro ns hns
    rw [inline_read] at hns
    cases hns
    have hall : "macro" ≠ TagKind.importAll.name := by decide
    have hnames : "macro" ≠ TagKind.importNames.name := by decide
    have hmacro {args : TagArgs} {line : Nat} {span : Text.Span} {content : List Node}
        (h : ∀ n ∈ content, n.SelfContained) :
        Node.SelfContained (.tag ⟨"macro", args, line, span⟩ content) := .tag hall hnames h
    simp [definitions, call, hmacro, Node.SelfContained.text, Node.SelfContained.output]
  exact ⟨_, hcompile, rfl, lookup_agrees hcontained hcompile data_read 0⟩

end Stencil
