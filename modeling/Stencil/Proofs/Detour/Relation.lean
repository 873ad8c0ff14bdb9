import Mathlib.Data.List.Nodup
import Stencil.Proofs.Reach
import Stencil.Proofs.Relocation
import Stencil.Proofs.Simulation
import Stencil.Proofs.Translation

/-!
Renderers that disagree in places. A `Detour` names the entries of the context and the places of the
private table that are **avoided**: two renderers may have anything there. Code that the two have in
common neither binds nor refers to what is avoided (`Detour.Code`), except by **routes**: pairs of
such places at which there are corresponding values.

Renderers **agree** if all that is not avoided corresponds, and so does what the routes lead to
(`Detour.Agree`); there may be more invocations under way in the second one. A renderer is **kept**
if what is avoided is as it was (`Detour.Kept`). The two notions need each other where a snapshot is
restored: it wins if it is the larger one, and what is avoided may count differently on the two
sides, but counts the same before and after (`Context.size_le_iff`).
-/

namespace Stencil

/-! ### Sizes of contexts -/

namespace Context

/-- Contexts with entries for the same names, among those with a property, have equally many. -/
lemma countP_keys_eq {c d : Context} {p : String → Prop} [DecidablePred p]
    (h : ∀ k, p k → ((c.get? k).isSome ↔ (d.get? k).isSome)) :
    c.keys.countP (p ·) = d.keys.countP (p ·) := by
  rw [List.countP_eq_length_filter, List.countP_eq_length_filter]
  refine List.Perm.length_eq ?_
  refine (List.perm_ext_iff_of_nodup (c.keys_nodup.filter _) (d.keys_nodup.filter _)).2 fun k => ?_
  rw [List.mem_filter, List.mem_filter, mem_keys, mem_keys, decide_eq_true_eq]
  exact and_congr_left (h k)

open Classical in
/-- Let two pairs of contexts correspond except for the names with a property, and let these be the
same within each pair. Then the one pair is ordered by size like the other. -/
lemma size_le_iff {c d c' d' : Context} {p : String → Prop}
    (hc : ∀ k, ¬ p k → ((c.get? k).isSome ↔ (c'.get? k).isSome))
    (hd : ∀ k, ¬ p k → ((d.get? k).isSome ↔ (d'.get? k).isSome))
    (h : ∀ k, p k → c.get? k = d.get? k) (h' : ∀ k, p k → c'.get? k = d'.get? k) :
    c.size ≤ d.size ↔ c'.size ≤ d'.size := by
  have hsize (x : Context) : x.size = x.keys.countP (p ·) + x.keys.countP (¬ p ·) := by
    have hlength := List.length_eq_countP_add_countP (fun k => decide (p k)) (l := x.keys)
    simp only [decide_eq_true_eq] at hlength
    rw [← hlength, keys, Dict.keys, List.length_map]
    rfl
  have hcount : c.keys.countP (p ·) = d.keys.countP (p ·) :=
    countP_keys_eq fun k hk => by rw [h k hk]
  have hcount' : c'.keys.countP (p ·) = d'.keys.countP (p ·) :=
    countP_keys_eq fun k hk => by rw [h' k hk]
  have hrest : c.keys.countP (¬ p ·) = c'.keys.countP (¬ p ·) := countP_keys_eq hc
  have hrest' : d.keys.countP (¬ p ·) = d'.keys.countP (¬ p ·) := countP_keys_eq hd
  rw [hsize c, hsize d, hsize c', hsize d', hcount, hcount', hrest, hrest',
    Nat.add_le_add_iff_left, Nat.add_le_add_iff_left]

end Context

/-! ### Detours -/

/-- What is avoided in two programs, and how it is reached all the same. -/
structure Detour where
  /-- The entries of the context that are avoided. -/
  avoids : String → Prop
  /-- The places of the private table that are avoided. -/
  avoidsKey : Symbol → Prop
  /-- Two of them, one for each side, with corresponding values. -/
  route : Binding → Binding → Prop

namespace Detour

/-- A definition goes to a place that is not avoided. -/
def Allows (D : Detour) : Binding → Prop
  | .context name => ¬ D.avoids name
  | .member handle _ => ¬ D.avoids handle
  | .hidden key => ¬ D.avoidsKey key

/-- A reference to what is not avoided, and itself, or a route. -/
inductive Ref (D : Detour) : Expr → Expr → Prop
  | param (name : String) : Ref D (.param name) (.param name)
  | context {name : String} : ¬ D.avoids name → Ref D (.context name) (.context name)
  | symbol {key : Symbol} : ¬ D.avoidsKey key → Ref D (.symbol key) (.symbol key)
  | route {b b' : Binding} : D.route b b' → Ref D b.ref b'.ref

/-- Code that says the same on both sides and avoids what is to be avoided. -/
inductive Code (D : Detour) : List Instr → List Instr → Prop
  | nil : Code D [] []
  | text (s : String) {is is' : List Instr} : Code D is is' →
      Code D (.text s :: is) (.text s :: is')
  | output {e e' : Expr} {is is' : List Instr} : Expr.Rel D.Ref e e' → Code D is is' →
      Code D (.output e :: is) (.output e' :: is')
  | define {target : Binding} {m m' : Macro} {is is' : List Instr} : D.Allows target →
      List.Forall₂ (Param.Rel D.Ref) m.params m'.params → (∀ p ∈ m.params, ¬ D.avoids p.name) →
      Code D m.body m'.body → Code D is is' →
      Code D (.define target m :: is) (.define target m' :: is')
  | callBlock {body body' : List Instr} {e e' : Expr} (source source' : String)
      {is is' : List Instr} : Code D body body' → Expr.Rel D.Ref e e' → Code D is is' →
      Code D (.callBlock body e source :: is) (.callBlock body' e' source' :: is')
  | bindSpace {handle : String} {members members' markup markup' is is' : List Instr} :
      ¬ D.avoids handle → Code D members members' → Code D markup markup' → Code D is is' →
      Code D (.bindSpace handle members markup :: is) (.bindSpace handle members' markup' :: is')

/-- Macros that say the same on both sides and avoid what is to be avoided. -/
structure Macros (D : Detour) (m m' : Macro) : Prop where
  params : List.Forall₂ (Param.Rel D.Ref) m.params m'.params
  free : ∀ p ∈ m.params, ¬ D.avoids p.name
  body : D.Code m.body m'.body

/-- The code that corresponds, whatever it is closed over. -/
def code (D : Detour) : CodeRel :=
  ⟨fun _ => D.Macros, fun _ => D.Code, fun _ => D.Code⟩

/-- The values that correspond. -/
abbrev value (D : Detour) : Value → Value → Prop :=
  Value.Rel D.code

end Detour

namespace Detour

variable {D : Detour}

lemma Code.append {is is' js js' : List Instr} (h : D.Code is is') (hj : D.Code js js') :
    D.Code (is ++ js) (is' ++ js') := by
  induction h with
  | nil => exact hj
  | text s _ ih => exact .text s ih
  | output he _ ih => exact .output he ih
  | define htarget hparams hfree hbody _ _ ih => exact .define htarget hparams hfree hbody ih
  | callBlock source source' hbody he _ _ ih => exact .callBlock source source' hbody he ih
  | bindSpace hhandle hmembers hmarkup _ _ _ ih => exact .bindSpace hhandle hmembers hmarkup ih

/-- An entry or a private place that is avoided, other than the entries that calls set. -/
inductive Reached (D : Detour) : Binding → Prop
  | context {name : String} : D.avoids name → name ≠ callerName → name ≠ kwargsName →
      Reached D (.context name)
  | hidden {key : Symbol} : D.avoidsKey key → Reached D (.hidden key)

/-- Routes lead to what is avoided, and messages call both of their ends alike. -/
structure Lawful (D : Detour) : Prop where
  left : ∀ {b b'}, D.route b b' → D.Reached b
  right : ∀ {b b'}, D.route b b' → D.Reached b'
  describe : ∀ {b b'}, D.route b b' → b.ref.describe = b'.ref.describe

/-- Messages do not tell corresponding expressions apart. -/
lemma Lawful.describe_eq (hD : D.Lawful) {e e' : Expr} (h : Expr.Rel D.Ref e e') :
    e.describe = e'.describe := by
  refine h.describe_eq fun r r' hr => ?_
  cases hr with
  | route hroute => exact hD.describe hroute
  | _ => rfl

/-- The entry may be set while what routes lead to stays. -/
def Settable (D : Detour) (name : String) : Prop :=
  D.avoids name → name = callerName ∨ name = kwargsName

lemma Reached.root?_ne {b : Binding} {name : String} (h : D.Reached b) (hname : D.Settable name) :
    b.root? ≠ some name := by
  cases h with
  | hidden _ => exact Option.some_ne_none name |>.symm
  | context havoids hcaller hkwargs =>
    intro heq
    cases heq
    exact (hname havoids).elim hcaller hkwargs

/-! ### Renderers -/

/-- What is avoided in a renderer is as it was, and so is the number of invocations under way. -/
structure Kept (D : Detour) (s t : Renderer) : Prop where
  context : ∀ name, D.avoids name → t.context.get? name = s.context.get? name
  symbols : ∀ key, D.avoidsKey key → t.symbols.get? key = s.symbols.get? key
  depth : t.depth = s.depth

/-- Renderers in which all that is not avoided corresponds, and all that routes lead to. In the
second one, so many more invocations are under way. -/
structure Agree (D : Detour) (more : Nat) (s s' : Renderer) : Prop where
  context : ∀ name, ¬ D.avoids name →
    Option.Rel D.value (s.context.get? name) (s'.context.get? name)
  symbols : ∀ key, ¬ D.avoidsKey key →
    Option.Rel D.value (s.symbols.get? key) (s'.symbols.get? key)
  routes : ∀ {b b'}, D.route b b' → D.value (s.read b) (s'.read b')
  depth : s'.depth = s.depth + more

/-- Nothing has changed except what is avoided. -/
structure Strays (D : Detour) (s t : Renderer) : Prop where
  context : ∀ name, ¬ D.avoids name → t.context.get? name = s.context.get? name
  symbols : ∀ key, ¬ D.avoidsKey key → t.symbols.get? key = s.symbols.get? key
  depth : t.depth = s.depth

namespace Strays

variable {s t u : Renderer}

lemma refl (s : Renderer) : D.Strays s s :=
  ⟨fun _ _ => rfl, fun _ _ => rfl, rfl⟩

lemma trans (h : D.Strays s t) (h' : D.Strays t u) : D.Strays s u :=
  ⟨fun name hname => (h'.context name hname).trans (h.context name hname),
    fun key hkey => (h'.symbols key hkey).trans (h.symbols key hkey), h'.depth.trans h.depth⟩

/-- Avoided entries may be set. -/
lemma set {name : String} (hname : D.avoids name) (s : Renderer) (o : Option Value) :
    D.Strays s (s.mapContext (·.set name o)) := by
  refine ⟨fun x hx => ?_, fun _ _ => rfl, rfl⟩
  show (s.context.set name o).get? x = s.context.get? x
  rw [Context.get?_set, if_neg fun heq : name = x => hx (heq ▸ hname)]

/-- Macros may be put into avoided entries. -/
lemma bind {target : Binding} {name : String} (htarget : target.root? = some name)
    (hname : D.avoids name) (s : Renderer) (n : Nat) (v : Value) :
    D.Strays s ({ s with fresh := n }.bind target v) := by
  cases target with
  | context x =>
    cases htarget
    exact ⟨(set hname s (some v)).context, fun _ _ => rfl, rfl⟩
  | member handle x =>
    cases htarget
    exact ⟨(set hname s (some _)).context, fun _ _ => rfl, rfl⟩
  | hidden key => cases htarget

end Strays

namespace Kept

variable {s t u : Renderer}

lemma refl (s : Renderer) : D.Kept s s :=
  ⟨fun _ _ => rfl, fun _ _ => rfl, rfl⟩

lemma trans (h : D.Kept s t) (h' : D.Kept t u) : D.Kept s u :=
  ⟨fun name hname => (h'.context name hname).trans (h.context name hname),
    fun key hkey => (h'.symbols key hkey).trans (h.symbols key hkey), h'.depth.trans h.depth⟩

/-- What a route leads to is kept. -/
lemma read (h : D.Kept s t) {b : Binding} (hb : D.Reached b) : t.read b = s.read b := by
  cases hb with
  | context hname _ _ => rw [Renderer.read, Renderer.read, h.context _ hname]
  | hidden hkey => rw [Renderer.read, Renderer.read, h.symbols _ hkey]

/-- Entries that are not avoided may be set. -/
lemma set {name : String} (hname : ¬ D.avoids name) (s : Renderer) (o : Option Value) :
    D.Kept s (s.mapContext (·.set name o)) := by
  refine ⟨fun x hx => ?_, fun _ _ => rfl, rfl⟩
  show (s.context.set name o).get? x = s.context.get? x
  rw [Context.get?_set, if_neg fun heq : name = x => hname (heq ▸ hx)]

lemma eraseAll {names : List String} (hnames : ∀ k ∈ names, ¬ D.avoids k) (s : Renderer) :
    D.Kept s (s.mapContext (·.eraseAll names)) := by
  refine ⟨fun x hx => ?_, fun _ _ => rfl, rfl⟩
  show (s.context.eraseAll names).get? x = s.context.get? x
  rw [Context.get?_eraseAll, if_neg fun hmem => hnames x hmem hx]

lemma bind {target : Binding} (htarget : D.Allows target) (s : Renderer) (v : Value) :
    D.Kept s (s.bind target v) := by
  cases target with
  | context name => exact set htarget s (some v)
  | member handle name => exact set htarget s (some _)
  | hidden key =>
    refine ⟨fun _ _ => rfl, fun x hx => ?_, rfl⟩
    show (s.symbols.insert key v).get? x = s.symbols.get? x
    rw [SymbolTable.get?_insert, if_neg fun heq : key = x => htarget (heq ▸ hx)]

/-- What has been set for a while is put back. -/
lemma set_back {name : String} {o : Option Value} (h : D.Kept (s.mapContext (·.set name o)) t) :
    D.Kept s (t.mapContext (·.set name (s.context.get? name))) := by
  refine ⟨fun x hx => ?_, h.symbols, h.depth⟩
  show (t.context.set name (s.context.get? name)).get? x = s.context.get? x
  rw [Context.get?_set]
  split
  next heq => rw [heq]
  next hne =>
    rw [h.context x hx]
    show (s.context.set name o).get? x = s.context.get? x
    rw [Context.get?_set, if_neg hne]

/-- An invocation is no longer counted when it is over. -/
lemma of_deeper (h : D.Kept s.deeper t) : D.Kept s { t with depth := t.depth - 1 } :=
  ⟨h.context, h.symbols, congrArg (· - 1) h.depth⟩

/-- Restoring a snapshot puts nothing in the place of what is avoided. -/
lemma restore (h : D.Kept s t) : D.Kept s (t.mapContext (·.restore s.context)) := by
  refine ⟨fun x hx => ?_, h.symbols, h.depth⟩
  show (t.context.restore s.context).get? x = s.context.get? x
  by_cases hle : t.context.size ≤ s.context.size
  · rw [Context.get?_restore_of_le hle, h.context x hx, Option.or_self]
  · rw [Context.get?_restore_of_lt (Nat.not_le.1 hle), h.context x hx, Option.or_self]

end Kept

namespace Agree

variable {more : Nat} {s s' t t' : Renderer}

/-- Names that are not avoided have entries on both sides or on none. -/
lemma isSome_iff (h : D.Agree more s s') (k : String) (hk : ¬ D.avoids k) :
    (s.context.get? k).isSome ↔ (s'.context.get? k).isSome := by
  have hget := h.context k hk
  generalize s.context.get? k = o at hget ⊢
  generalize s'.context.get? k = o' at hget ⊢
  cases hget <;> rfl

/-- Identities do not matter. -/
lemma renew (h : D.Agree more s s') (n n' : Nat) :
    D.Agree more { s with fresh := n } { s' with fresh := n' } := by
  refine ⟨h.context, h.symbols, fun {b b'} hroute => ?_, h.depth⟩
  have hread := h.routes hroute
  cases b <;> cases b' <;> exact hread

/-- What is avoided may change on either side, as long as what routes lead to corresponds. -/
lemma stray (h : D.Agree more s s') (ht : D.Strays s t) (ht' : D.Strays s' t')
    (hroutes : ∀ {b b'}, D.route b b' → D.value (t.read b) (t'.read b')) : D.Agree more t t' := by
  refine ⟨fun name hname => ?_, fun key hkey => ?_, hroutes, ?_⟩
  · rw [ht.context name hname, ht'.context name hname]
    exact h.context name hname
  · rw [ht.symbols key hkey, ht'.symbols key hkey]
    exact h.symbols key hkey
  · rw [ht.depth, ht'.depth]
    exact h.depth

/-- Both count one more invocation. -/
lemma deeper (h : D.Agree more s s') : D.Agree more s.deeper s'.deeper := by
  refine ⟨h.context, h.symbols, fun {b b'} hroute => ?_, ?_⟩
  · have hread := h.routes hroute
    cases b <;> cases b' <;> exact hread
  · show s'.depth + 1 = s.depth + 1 + more
    rw [h.depth, Nat.add_right_comm]

/-- The second one counts one more invocation. -/
lemma deeper_right (h : D.Agree more s s') : D.Agree (more + 1) s s'.deeper := by
  refine ⟨h.context, h.symbols, fun {b b'} hroute => ?_, congrArg (· + 1) h.depth⟩
  have hread := h.routes hroute
  cases b <;> cases b' <;> exact hread

/-- Both count one invocation less, if that has been counted. -/
lemma of_deeper (h : D.Agree more t t') (ht : D.Kept s.deeper t) (hs : D.Agree more s s')
    (ht' : D.Kept s'.deeper t') :
    D.Agree more { t with depth := t.depth - 1 } { t' with depth := t'.depth - 1 } := by
  refine ⟨h.context, h.symbols, fun {b b'} hroute => ?_, ?_⟩
  · have hread := h.routes hroute
    cases b <;> cases b' <;> exact hread
  · show t'.depth - 1 = t.depth - 1 + more
    rw [ht.depth, ht'.depth]
    exact hs.depth

variable (hD : D.Lawful)

include hD

/-- What routes lead to corresponds as before, as long as it is kept. -/
lemma routes_of_kept (h : D.Agree more s s') (ht : D.Kept s t) (ht' : D.Kept s' t')
    {b b' : Binding} (hroute : D.route b b') : D.value (t.read b) (t'.read b') := by
  rw [ht.read (hD.left hroute), ht'.read (hD.right hroute)]
  exact h.routes hroute

/-- An entry may be set to corresponding values, and to any if it is avoided. -/
lemma set (h : D.Agree more s s') {name : String} (hname : D.Settable name)
    {o o' : Option Value} (ho : ¬ D.avoids name → Option.Rel D.value o o') :
    D.Agree more (s.mapContext (·.set name o)) (s'.mapContext (·.set name o')) := by
  refine ⟨fun x hx => ?_, h.symbols, fun {b b'} hroute => ?_, h.depth⟩
  · show Option.Rel D.value ((s.context.set name o).get? x) ((s'.context.set name o').get? x)
    rw [Context.get?_set, Context.get?_set]
    split
    next heq => exact ho (heq ▸ hx)
    next => exact h.context x hx
  · rw [Renderer.read_set ((hD.left hroute).root?_ne hname),
      Renderer.read_set ((hD.right hroute).root?_ne hname)]
    exact h.routes hroute

/-- Names that are not avoided may be removed. -/
lemma eraseAll (h : D.Agree more s s') {names : List String} (hnames : ∀ k ∈ names, ¬ D.avoids k) :
    D.Agree more (s.mapContext (·.eraseAll names)) (s'.mapContext (·.eraseAll names)) := by
  refine ⟨fun x hx => ?_, h.symbols, h.routes_of_kept hD (.eraseAll hnames s) (.eraseAll hnames s'),
    h.depth⟩
  show Option.Rel D.value ((s.context.eraseAll names).get? x) ((s'.context.eraseAll names).get? x)
  rw [Context.get?_eraseAll, Context.get?_eraseAll]
  split
  · exact .none
  · exact h.context x hx

/-- Corresponding values may be put where a binding says. -/
lemma bind (h : D.Agree more s s') {target : Binding} (htarget : D.Allows target) {v v' : Value}
    (hv : D.value v v') : D.Agree more (s.bind target v) (s'.bind target v') := by
  cases target with
  | context name => exact h.set hD (absurd · htarget) fun _ => .some hv
  | member handle name =>
    obtain ⟨hmembers, hspace⟩ := Context.space_rel (h.context handle htarget)
    exact h.set hD (absurd · htarget) fun _ => .some (hspace (hmembers.insert name hv))
  | hidden key =>
    refine ⟨h.context, fun k hk => ?_,
      h.routes_of_kept hD (.bind (show D.Allows (.hidden key) from htarget) s v)
        (.bind (show D.Allows (.hidden key) from htarget) s' v'), h.depth⟩
    show Option.Rel D.value ((s.symbols.insert key v).get? k) ((s'.symbols.insert key v').get? k)
    rw [SymbolTable.get?_insert, SymbolTable.get?_insert]
    split
    · exact .some hv
    · exact h.symbols k hk

lemma openSpace (h : D.Agree more s s') {handle : String} (hhandle : ¬ D.avoids handle) :
    D.Agree more (s.mapContext (·.openSpace handle)) (s'.mapContext (·.openSpace handle)) := by
  obtain ⟨hmembers, hspace⟩ := Context.space_rel (h.context handle hhandle)
  exact h.set hD (absurd · hhandle) fun _ => .some (hspace hmembers)

lemma closeSpace (h : D.Agree more s s') {handle : String} (hhandle : ¬ D.avoids handle)
    {body body' : List Instr} (hbody : D.Code body body') {scope scope' : Scope}
    (hscope : Scope.Rel D.code scope scope') :
    D.Agree more (s.mapContext (·.closeSpace handle body scope))
      (s'.mapContext (·.closeSpace handle body' scope')) := by
  obtain ⟨hmembers, _⟩ := Context.space_rel (h.context handle hhandle)
  exact h.set hD (absurd · hhandle) fun _ => .some (.shown hmembers hbody hscope)

/-- The same of the two contexts wins on both sides. -/
lemma restore (hs : D.Agree more s s') (ht : D.Agree more t t') (hkept : D.Kept s t)
    (hkept' : D.Kept s' t') :
    D.Agree more (t.mapContext (·.restore s.context)) (t'.mapContext (·.restore s'.context)) := by
  have hsize := Context.size_le_iff ht.isSome_iff hs.isSome_iff hkept.context hkept'.context
  refine ⟨fun x hx => ?_, ht.symbols, hs.routes_of_kept hD hkept.restore hkept'.restore, ht.depth⟩
  show Option.Rel D.value ((t.context.restore s.context).get? x)
    ((t'.context.restore s'.context).get? x)
  by_cases hle : t.context.size ≤ s.context.size
  · rw [Context.get?_restore_of_le hle, Context.get?_restore_of_le (hsize.1 hle)]
    exact Value.Rel.or (hs.context x hx) (ht.context x hx)
  · rw [Context.get?_restore_of_lt (Nat.not_le.1 hle),
      Context.get?_restore_of_lt (Nat.not_le.1 (mt hsize.2 hle))]
    exact Value.Rel.or (ht.context x hx) (hs.context x hx)

end Agree

end Detour

end Stencil
