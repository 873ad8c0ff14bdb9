import Stencil.Compile
import Stencil.Script
import Stencil.Proofs.Grammar.Signature
import Stencil.Proofs.Lexing.Part
import Mathlib.Data.List.Nodup

/-!
Identifiers in the script. `Script.localName` puts an underscore before reserved words, and before
all names that start with one already; what has been put there can be taken away again
(`strip_localName`), so that no two names are made equal.

The names that the script uses itself start with underscores as well. Those with a single one are
never met, but those with two of them are, by the names with one (`localName_mem_helpers_iff`).
`parameters_apart` says what follows for the parameters of a macro.
-/

namespace Stencil

/-- The identifiers of the language, which are identifiers of the script as well. -/
def IsIdentifier (name : String) : Prop :=
  ∃ c cs, name.toList = c :: cs ∧ Token.isNameStart c = true ∧ ∀ d ∈ cs, Token.isNamePart d = true

lemma IsIdentifier.forall_isNamePart {name : String} (h : IsIdentifier name) :
    ∀ c ∈ name.toList, Token.isNamePart c = true := by
  obtain ⟨c, cs, hname, hc, hcs⟩ := h
  rw [hname]
  exact List.forall_mem_cons.2 ⟨(Token.of_isNameStart hc).1, hcs⟩

namespace Script

/-! ### Local names -/

section LocalName

variable {name : String}

/-- The names that get an underscore. -/
def Marked (name : String) : Prop :=
  name ∈ reserved ∨ name.toList.head? = some '_'

lemma localName_of_marked (h : Marked name) : localName name = "_" ++ name := by
  rw [localName, if_pos]
  simpa [Marked] using h

lemma localName_of_not_marked (h : ¬ Marked name) : localName name = name := by
  rw [localName, if_neg]
  simpa [Marked] using h

lemma toList_underscore (name : String) : ("_" ++ name).toList = '_' :: name.toList :=
  String.toList_append

/-- The name without an underscore at its front. -/
def strip (name : String) : String :=
  if name.toList.head? = some '_' then String.ofList name.toList.tail else name

/-- Only what has got an underscore starts with one. -/
lemma strip_localName (name : String) : strip (localName name) = name := by
  by_cases h : Marked name
  · rw [localName_of_marked h, strip, toList_underscore, List.head?_cons, if_pos rfl,
      List.tail_cons, String.ofList_toList]
  · rw [localName_of_not_marked h, strip, if_neg fun hhead => h (.inr hhead)]

lemma localName_injective : Function.Injective localName :=
  Function.LeftInverse.injective strip_localName

lemma localName_notMem_reserved (name : String) : localName name ∉ reserved := by
  by_cases h : Marked name
  · have hreserved : ∀ w ∈ reserved, w.toList.head? ≠ some '_' := by decide
    intro hmem
    refine hreserved _ hmem ?_
    rw [localName_of_marked h, toList_underscore, List.head?_cons]
  · rw [localName_of_not_marked h]
    exact fun hmem => h (.inl hmem)

/-- The local name of an identifier is one. -/
lemma isIdentifier_localName (h : IsIdentifier name) : IsIdentifier (localName name) := by
  by_cases hmarked : Marked name
  · rw [localName_of_marked hmarked]
    exact ⟨'_', name.toList, toList_underscore name, by decide, h.forall_isNamePart⟩
  · rwa [localName_of_not_marked hmarked]

end LocalName

/-! ### Names that the script uses -/

/-- What the function of a macro declares, or uses around the body of the macro and around call
blocks in it. -/
def helpers : List String :=
  ["_ctx", "__ctx", "_output", "_utils", "_symbols", "__caller", "__outer", "__inner"]

/-- The names that an underscore turns into ones of `helpers`. -/
def capturing : List String :=
  ["_ctx", "_caller", "_outer", "_inner"]

/-- **Which parameters meet the script's own names.** What a single underscore is put before has
one already or is a reserved word, so that names with one underscore are not met. -/
lemma localName_mem_helpers_iff {name : String} : localName name ∈ helpers ↔ name ∈ capturing := by
  constructor
  · intro h
    have hmarked : Marked name := by
      have hhead : ∀ w ∈ helpers, w.toList.head? = some '_' := by decide
      by_contra hmarked
      have hname := hhead _ h
      rw [localName_of_not_marked hmarked] at hname
      exact hmarked (.inr hname)
    have hstripped : ∀ w ∈ helpers, strip w ∈ capturing ∨
        strip w ∉ reserved ∧ (strip w).toList.head? ≠ some '_' := by
      decide
    have hname := hstripped _ h
    rw [strip_localName] at hname
    exact hname.resolve_right fun hplain => hmarked.elim hplain.1 hplain.2
  · intro h
    have hcaptured : ∀ w ∈ capturing, localName w ∈ helpers := by decide
    exact hcaptured _ h

/-! ### Parameters -/

/-- What the parameters of a macro are called in the script. -/
def identifiers (params : List Param) : List String :=
  params.map fun p => localName p.name

/-- The parameters of an accepted signature have different names. -/
lemma nodup_of_ofTokens {place : Place} {ts : List Token} {sig : Signature}
    (h : Signature.ofTokens place ts = .ok sig) : (sig.params.map (·.name)).Nodup := by
  have hwritten := Signature.written_of_ofTokens h
  generalize Token.significant ts = us at hwritten
  cases hwritten with
  | empty => exact List.nodup_nil
  | call _ _ _ _ hnodup => exact hnodup

lemma identifiers_params (scope : List String) (sig : Signature) :
    identifiers (FileScope.params scope sig) = (sig.params.map (·.name)).map localName := by
  simp [identifiers, FileScope.params]

/-- **What the parameters of a macro meet.** For every signature that is accepted, the identifiers
of the parameters are different from each other and none of them is a reserved word. A parameter
gets a name that the script uses itself exactly if it is called `_ctx`, `_caller`, `_outer` or
`_inner`. -/
theorem parameters_apart {place : Place} {ts : List Token} {sig : Signature}
    (h : Signature.ofTokens place ts = .ok sig) (scope : List String) :
    (identifiers (FileScope.params scope sig)).Nodup ∧
    (∀ name ∈ identifiers (FileScope.params scope sig), name ∉ reserved) ∧
    ∀ p ∈ FileScope.params scope sig, localName p.name ∈ helpers ↔ p.name ∈ capturing := by
  refine ⟨?_, ?_, fun _ _ => localName_mem_helpers_iff⟩
  · rw [identifiers_params]
    exact List.Nodup.map localName_injective (nodup_of_ofTokens h)
  · rw [identifiers_params]
    intro name hname
    obtain ⟨p, _, rfl⟩ := List.mem_map.1 hname
    exact localName_notMem_reserved p

/-- The tokens of `m(class, _class)`. -/
def underscored : List Token :=
  [⟨.call, "m", ⟨0, 2⟩, 1⟩, ⟨.path, "class", ⟨2, 7⟩, 1⟩, ⟨.comma, ",", ⟨7, 8⟩, 1⟩,
    ⟨.path, "_class", ⟨8, 14⟩, 1⟩, ⟨.parenClose, ")", ⟨14, 15⟩, 1⟩]

/-- A reserved word and the name that it would be moved to. -/
theorem class_parameters_apart :
    ∃ sig, Signature.ofTokens ⟨1, ⟨0, 15⟩⟩ underscored = .ok sig ∧
      identifiers (FileScope.params [] sig) = ["_class", "__class"] ∧
      (identifiers (FileScope.params [] sig)).Nodup ∧
      ∀ name ∈ identifiers (FileScope.params [] sig), name ∉ reserved := by
  have hread : Signature.ofTokens ⟨1, ⟨0, 15⟩⟩ underscored =
      .ok ⟨"m", [⟨"class", none⟩, ⟨"_class", none⟩]⟩ := rfl
  obtain ⟨hnodup, hreserved, _⟩ := parameters_apart hread []
  exact ⟨_, hread, by decide, hnodup, hreserved⟩

/-- A parameter `_ctx` gets the name of the copy that is taken of the context. -/
theorem ctx_parameter_captured : ∃ ts sig, Token.tokenize "m(_ctx)".toList 0 1 = .ok ts ∧
    Signature.ofTokens ⟨1, ⟨0, 7⟩⟩ ts = .ok sig ∧
    (definition 0 "_ctx.m" ⟨"m", FileScope.params ["_ctx"] sig, [], "page"⟩).take 3 =
      ["_ctx.m = function (__ctx) \x7b", "  var _output = \"\",",
        "    __ctx = _utils.extend(\x7b\x7d, _ctx);"] ∧
    ¬ ∀ name ∈ identifiers (FileScope.params ["_ctx"] sig), name ∉ helpers :=
  ⟨[⟨.call, "m", ⟨0, 2⟩, 1⟩, ⟨.path, "_ctx", ⟨2, 6⟩, 1⟩, ⟨.parenClose, ")", ⟨6, 7⟩, 1⟩],
    ⟨"m", [⟨"_ctx", none⟩]⟩, by decide +kernel, rfl, by decide, by decide⟩

end Script

end Stencil
