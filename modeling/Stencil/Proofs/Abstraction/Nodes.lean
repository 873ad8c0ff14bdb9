import Stencil.Proofs.ImportGraph
import Stencil.Proofs.TopLevel

/-!
Abstraction in the node tree. A piece of a page, that is a list of nodes without definitions
(`Node.Plain`), may become the content of a call block of a macro that puts out what it is called
with, in any number of places at once and one inside of the other (`Node.Handed`). A piece at the
top level may become the body of a macro that is called in its place. Both are **abstractions**
(`Node.Abstracted`). What makes a name fresh is that no node mentions it, neither as a variable nor
as the name that a tag gives to something (`Node.names`).
-/

namespace Stencil

/-! ### Tags -/

/-- A tag that is known goes by its name. -/
lemma TagSet.find?_name {tags : TagSet} {kind : TagKind} (h : tags.has kind = true) :
    tags.find? kind.name = some kind := by
  have hmem : kind ∈ tags.toList := List.mem_filter.2 ⟨by cases kind <;> decide, h⟩
  cases hfind : tags.find? kind.name with
  | none => simpa using List.find?_eq_none.1 hfind kind hmem
  | some found =>
    have hname := List.find?_some hfind
    cases found <;> cases kind <;> simp [TagKind.name] at hname ⊢

/-! ### Names -/

/-- The names that a tag gives to something. -/
def TagArgs.bound : TagArgs → List String
  | .definition sig => sig.name :: sig.params.map (·.name)
  | .callBlock _ _ => []
  | .importAll h => [h.handle]
  | .importNames h => h.names

namespace Node

mutual

/-- The names that a node mentions: those of variables, and those it gives to something. -/
def names : Node → List String
  | .text _ => []
  | .output o => o.expr.vars
  | .tag head content => head.args.bound ++ head.args.vars ++ allNames content

/-- The names that nodes mention. -/
def allNames : List Node → List String
  | [] => []
  | n :: rest => n.names ++ allNames rest

end

lemma allNames_append (ns ms : List Node) : allNames (ns ++ ms) = allNames ns ++ allNames ms := by
  induction ns with
  | nil => rfl
  | cons n rest ih => rw [List.cons_append, allNames, allNames, ih, List.append_assoc]

/-! ### Abstractions -/

/-- The call block `{% call name() %}` with a content. -/
def handed (name source : String) (line : Nat) (span : Text.Span) (content : List Node) : Node :=
  .tag ⟨TagKind.callBlock.name, .callBlock (.call (.var name) [] []) source, line, span⟩ content

/-- The macro `{% macro name() %}` with a content. -/
def defined (name : String) (line : Nat) (span : Text.Span) (content : List Node) : Node :=
  .tag ⟨TagKind.definition.name, .definition ⟨name, []⟩, line, span⟩ content

/-- The output `{{ name() }}`. -/
def called (name source : String) (line : Nat) (span : Text.Span) : Node :=
  .output ⟨.call (.var name) [] [], source, line, span⟩

/-- Nodes in which pieces without definitions have become the content of call blocks of certain
macros, anywhere. -/
inductive Handed (passing : String → Prop) : List Node → List Node → Prop
  | nil : Handed passing [] []
  | text (s : String) {ns ns' : List Node} : Handed passing ns ns' →
      Handed passing (.text s :: ns) (.text s :: ns')
  | output (o : Output) {ns ns' : List Node} : Handed passing ns ns' →
      Handed passing (.output o :: ns) (.output o :: ns')
  | tag (head : TagHead) {content content' ns ns' : List Node} :
      Handed passing content content' → Handed passing ns ns' →
      Handed passing (.tag head content :: ns) (.tag head content' :: ns')
  | piece {name : String} (source : String) (line : Nat) (span : Text.Span)
      {piece piece' ns ns' : List Node} : passing name → (∀ n ∈ piece, n.Plain) →
      Handed passing piece piece' → Handed passing ns ns' →
      Handed passing (piece ++ ns) (handed name source line span piece' :: ns')

mutual

/-- Nothing needs to have changed. -/
lemma Handed.cons_self {passing : String → Prop} : ∀ n : Node, ∀ {ns ns' : List Node},
    Handed passing ns ns' → Handed passing (n :: ns) (n :: ns')
  | .text s, _, _, h => .text s h
  | .output o, _, _, h => .output o h
  | .tag head content, _, _, h => .tag head (Handed.refl content) h

lemma Handed.refl {passing : String → Prop} : ∀ ns : List Node, Handed passing ns ns
  | [] => .nil
  | n :: rest => Handed.cons_self n (Handed.refl rest)

end

/-- **The abstractions.** Pieces of a page have become the content of call blocks of a macro defined
first, which puts out the content it is called with; or a piece at the top level has become the
body of a macro without parameters and been replaced by its call. -/
inductive Abstracted (name : String) : List Node → List Node → Prop
  | handed (source : String) (line line' : Nat) (span span' : Text.Span) {ns ns' : List Node} :
      Handed (· = name) ns ns' → Abstracted name ns
        (defined name line span [called callerName source line' span'] :: ns')
  | extracted (source : String) (line line' : Nat) (span span' : Text.Span)
      (before after : List Node) {piece : List Node} : (∀ n ∈ piece, n.Plain) →
      Abstracted name (before ++ piece ++ after)
        (before ++ [defined name line span piece, called name source line' span'] ++ after)

end Node

end Stencil
