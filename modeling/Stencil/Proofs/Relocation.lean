import Stencil.Proofs.Correspondence
import Stencil.Proofs.Resolution

/-!
Macros in other places. A macro that one program puts into the context under its own name may be put
elsewhere by another program: into a namespace or into the private table. A `Relocation` says where,
and what the two programs must not touch otherwise. Code that refers to the macros by their names
corresponds to code that refers to their places (`Relocation.correspondence`), and defining the
macros one after the other brings about that the places have corresponding macros
(`Relocation.exec_definitions`).
-/

namespace Stencil

/-! ### Places -/

namespace Binding

/-- The expression that refers to what has been put there. -/
def ref : Binding → Expr
  | .context name => .context name
  | .member handle name => .member (.context handle) name
  | .hidden key => .symbol key

/-- The entry of the context that is concerned. -/
def root? : Binding → Option String
  | .context name => some name
  | .member handle _ => some handle
  | .hidden _ => none

/-- What is put at the first does not concern what is at the second. -/
inductive Apart : Binding → Binding → Prop
  | contexts {n k : String} : n ≠ k → Apart (.context n) (.context k)
  | members {h n k : String} : n ≠ k → Apart (.member h n) (.member h k)
  | hidden {i j : Symbol} : i ≠ j → Apart (.hidden i) (.hidden j)
  | contextHidden (n : String) (j : Symbol) : Apart (.context n) (.hidden j)
  | hiddenContext (i : Symbol) (n : String) : Apart (.hidden i) (.context n)

end Binding

lemma Context.space_of {c : Context} {handle : String} {members : Dict Value}
    {markup : Option (List Instr × Scope)} (h : c.get? handle = some (.space members markup)) :
    c.space handle = (members, markup) := by
  rw [space]
  rw [h]

lemma Context.get?_openSpace (c : Context) (handle : String) :
    (c.openSpace handle).get? handle =
      some (.space (c.space handle).1 (c.space handle).2) :=
  get?_insert_self c handle _

namespace Renderer

variable {s t : Renderer} {b d : Binding} {v : Value}

/-- What is at a place. -/
def read (s : Renderer) : Binding → Value
  | .context name => (s.context.get? name).getD .undefined
  | .member handle name => ((s.context.get? handle).getD .undefined).member name
  | .hidden key => (s.symbols.get? key).getD .undefined

/-- If the place is in a namespace, there is such a namespace. -/
def Opened (s : Renderer) : Binding → Prop
  | .member handle _ => ∃ members markup, s.context.get? handle = some (.space members markup)
  | .context _ => True
  | .hidden _ => True

lemma eval_ref (invoker : Invoker) (scope : Scope) (b : Binding) (s : Renderer) :
    eval invoker scope b.ref s = .ok (s.read b) s := by
  cases b <;> rfl

lemma read_of_same (h : s.Same t) (b : Binding) : t.read b = s.read b := by
  cases b with
  | context name => rw [read, read, h.context]
  | member handle name => rw [read, read, h.context]
  | hidden key => rw [read, read, h.symbols]

lemma opened_of_same (h : s.Same t) (hb : s.Opened b) : t.Opened b := by
  cases b with
  | context name => trivial
  | member handle name =>
    rw [Opened, h.context]
    exact hb
  | hidden key => trivial

/-- Entries other than that of a place do not matter to it. -/
lemma read_set {name : String} (h : b.root? ≠ some name) (o : Option Value) :
    (s.mapContext (·.set name o)).read b = s.read b := by
  have hget {k : String} (hk : some k ≠ some name) :
      (s.mapContext (·.set name o)).context.get? k = s.context.get? k := by
    show (s.context.set name o).get? k = _
    rw [Context.get?_set, if_neg fun hname => hk (by rw [hname])]
  cases b with
  | context n => rw [read, read, hget h]
  | member handle n => rw [read, read, hget h]
  | hidden key => rfl

lemma get?_bind {name : String} (h : b.root? ≠ some name) (v : Value) :
    (s.bind b v).context.get? name = s.context.get? name := by
  have hget {k : String} (hk : some k ≠ some name) (w : Value) :
      (s.context.insert k w).get? name = s.context.get? name := by
    rw [Context.get?_insert, if_neg fun hname => hk (by rw [hname])]
  cases b with
  | context n => exact hget h v
  | member handle n => exact hget h _
  | hidden key => rfl

/-- A namespace with another member. -/
lemma get?_bind_member (s : Renderer) (handle name : String) (v : Value) :
    (s.bind (.member handle name) v).context.get? handle =
      some (.space ((s.context.space handle).1.insert name v) (s.context.space handle).2) :=
  Context.get?_insert_self s.context handle _

/-- What has been put at a place is there. -/
lemma read_bind_self (s : Renderer) (b : Binding) (v : Value) : (s.bind b v).read b = v := by
  cases b with
  | context name =>
    show ((s.context.insert name v).get? name).getD .undefined = v
    rw [Context.get?_insert_self, Option.getD_some]
  | member handle name =>
    rw [read, get?_bind_member, Option.getD_some]
    show ((Dict.insert _ name v).get? name).getD .undefined = v
    rw [Dict.get?_insert_self, Option.getD_some]
  | hidden key =>
    show ((s.symbols.insert key v).get? key).getD .undefined = v
    rw [SymbolTable.get?_insert, if_pos rfl, Option.getD_some]

/-- What has been put at a place does not concern those apart from it. -/
lemma read_bind_of_apart (h : b.Apart d) (hd : s.Opened d) (v : Value) :
    (s.bind b v).read d = s.read d := by
  cases h with
  | contexts hne =>
    show ((s.context.insert _ v).get? _).getD .undefined = _
    rw [Context.get?_insert, if_neg hne]
    rfl
  | @members handle n k hne =>
    obtain ⟨members, markup, hspace⟩ := hd
    rw [read, read, get?_bind_member, hspace, Option.getD_some, Option.getD_some,
      Context.space_of hspace]
    show ((members.insert n v).get? k).getD .undefined = (members.get? k).getD .undefined
    rw [Dict.get?_insert, if_neg hne]
  | hidden hne =>
    show ((s.symbols.insert _ v).get? _).getD .undefined = _
    rw [SymbolTable.get?_insert, if_neg hne]
    rfl
  | contextHidden n j => rfl
  | hiddenContext i n => rfl

/-- Namespaces stay open. -/
lemma opened_bind (h : b.Apart d ∨ b = d) (hd : s.Opened d) (v : Value) :
    (s.bind b v).Opened d := by
  cases d with
  | context name => trivial
  | hidden key => trivial
  | member handle name =>
    have hb : ∃ n, b = .member handle n := by
      obtain h | h := h
      · cases h with
        | members hne => exact ⟨_, rfl⟩
      · exact ⟨name, h⟩
    obtain ⟨n, rfl⟩ := hb
    exact ⟨_, _, get?_bind_member s handle n v⟩

end Renderer

/-! ### Relocations -/

/-- Where the macros of a file are in a program that does not define them itself. -/
structure Relocation where
  /-- The names of the macros. -/
  names : List String
  /-- The entries of the context that code must not touch otherwise. -/
  reserved : List String
  place : String → Binding

namespace Relocation

/-- A macro is referred to by its place, and what is not reserved by its name. -/
inductive Ref (L : Relocation) : Expr → Expr → Prop
  | param (name : String) : Ref L (.param name) (.param name)
  | kept {name : String} : name ∉ L.reserved → Ref L (.context name) (.context name)
  | moved {name : String} : name ∈ L.names → Ref L (.context name) (L.place name).ref

/-- The values that correspond. -/
abbrev value (L : Relocation) : Value → Value → Prop :=
  Value.Rel (.flat L.Ref (· ∉ L.reserved))

/-- What is not reserved is related, and so is each known macro to what is at its place. -/
structure Partly (L : Relocation) (known : String → Prop) (s s' : Renderer) : Prop where
  kept : ∀ k, k ∉ L.reserved → Option.Rel L.value (s.context.get? k) (s'.context.get? k)
  moved : ∀ n ∈ L.names, known n → L.value (s.read (.context n)) (s'.read (L.place n))
  depth : s.depth = s'.depth

/-- All macros count as known. -/
def correspondence (L : Relocation) : Correspondence where
  ref := L.Ref
  free := (· ∉ L.reserved)
  agree := L.Partly fun _ => True
  error _ _ := True

/-- The places of different macros are apart, and what they touch is reserved. -/
structure Lawful (L : Relocation) : Prop where
  names : ∀ n ∈ L.names, n ∈ L.reserved
  caller : callerName ∉ L.reserved
  kwargs : kwargsName ∉ L.reserved
  entry : ∀ n ∈ L.names, ∀ k, (L.place n).root? = some k → k ∈ L.reserved
  apart : ∀ n ∈ L.names, ∀ k ∈ L.names, n ≠ k → (L.place n).Apart (L.place k)

variable {L : Relocation} {known : String → Prop} {s s' : Renderer}

lemma Partly.mono (h : L.Partly known s s') {known' : String → Prop}
    (hknown : ∀ n ∈ L.names, known' n → known n) : L.Partly known' s s' :=
  ⟨h.kept, fun n hn hk => h.moved n hn (hknown n hn hk), h.depth⟩

lemma Partly.of_same (h : L.Partly known s s') {t t' : Renderer} (ht : Pinned s s' t t') :
    L.Partly known t t' := by
  refine ⟨fun k hk => ?_, fun n hn hk => ?_, ?_⟩
  · rw [ht.1.context, ht.2.context]
    exact h.kept k hk
  · rw [Renderer.read_of_same ht.1, Renderer.read_of_same ht.2]
    exact h.moved n hn hk
  · rw [ht.1.depth, ht.2.depth]
    exact h.depth

namespace Lawful

variable (hL : L.Lawful)

include hL

lemma entry_ne {n k : String} (hn : n ∈ L.names) (hk : k ∉ L.reserved) :
    (L.place n).root? ≠ some k :=
  fun h => hk (hL.entry n hn k h)

/-- An entry that is not reserved may be set on both sides. -/
lemma partly_set (hs : L.Partly known s s') {k : String} (hk : k ∉ L.reserved)
    {o o' : Option Value} (ho : Option.Rel L.value o o') :
    L.Partly known (s.mapContext (·.set k o)) (s'.mapContext (·.set k o')) := by
  refine ⟨fun x hx => ?_, fun n hn hknown => ?_, hs.depth⟩
  · show Option.Rel L.value ((s.context.set k o).get? x) ((s'.context.set k o').get? x)
    rw [Context.get?_set, Context.get?_set]
    split
    · exact ho
    · exact hs.kept x hx
  · have hne : (Binding.context n).root? ≠ some k := by
      rintro ⟨⟩
      exact hk (hL.names _ hn)
    rw [Renderer.read_set hne, Renderer.read_set (hL.entry_ne hn hk)]
    exact hs.moved n hn hknown

/-- Code that refers to macros by their names corresponds to code that refers to their places. -/
lemma correspondence_lawful : L.correspondence.Lawful where
  free_caller := hL.caller
  free_kwargs := hL.kwargs
  depth_eq hs := hs.depth
  same hs ht := hs.of_same ht
  deeper hs := ⟨hs.kept, hs.moved, congrArg (· + 1) hs.depth⟩
  get? hs hk := hs.kept _ hk
  set hs hk hv := hL.partly_set hs hk hv
  reference := by
    rintro s s' e e' scope scope' hs he hscope
    cases he with
    | param name => exact ⟨_, _, .getD (hscope.get? name), fun _ _ => ⟨rfl, rfl⟩⟩
    | kept hk => exact ⟨_, _, .getD (hs.kept _ hk), fun _ _ => ⟨rfl, rfl⟩⟩
    | moved hn =>
      exact ⟨_, _, hs.moved _ hn trivial, fun _ _ => ⟨rfl, Renderer.eval_ref _ _ _ _⟩⟩
  notCallable _ _ := trivial
  callDepth _ := trivial
  error_refl _ := trivial

/-- A macro that is put into the context on one side and at its place on the other is known
afterwards. -/
lemma partly_bind (hs : L.Partly known s s') {n : String} (hn : n ∈ L.names)
    (hopened : ∀ k ∈ L.names, s'.Opened (L.place k)) {v v' : Value} (hv : L.value v v') :
    L.Partly (fun k => k = n ∨ known k) (s.bind (.context n) v) (s'.bind (L.place n) v') := by
  have hreserved {k : String} (hk : k ∉ L.reserved) : (Binding.context n).root? ≠ some k := by
    rintro ⟨⟩
    exact hk (hL.names _ hn)
  refine ⟨fun k hk => ?_, fun k hk hknown => ?_, ?_⟩
  · rw [Renderer.get?_bind (hreserved hk), Renderer.get?_bind (hL.entry_ne hn hk)]
    exact hs.kept k hk
  · by_cases hkn : k = n
    · rw [hkn, Renderer.read_bind_self, Renderer.read_bind_self]
      exact hv
    · have hapart := hL.apart n hn k hk (Ne.symm hkn)
      rw [Renderer.read_bind_of_apart (.contexts (Ne.symm hkn)) trivial,
        Renderer.read_bind_of_apart hapart (hopened k hk)]
      exact hs.moved k hk (hknown.resolve_left hkn)
  · cases hp : L.place n <;> exact hs.depth

/-- Binding a macro at its place leaves all places open. -/
lemma opened_places {n : String} (hn : n ∈ L.names)
    (hopened : ∀ k ∈ L.names, s'.Opened (L.place k)) (v : Value) :
    ∀ k ∈ L.names, (s'.bind (L.place n) v).Opened (L.place k) := by
  intro k hk
  refine Renderer.opened_bind ?_ (hopened k hk) v
  by_cases hkn : n = k
  · exact .inr (by rw [hkn])
  · exact .inl (hL.apart n hn k hk hkn)

end Lawful

/-! ### Definitions -/

section Definitions

variable {invoker : Invoker} {scope : Scope} {is rest : List Instr}

/-- An empty output in front does not show. -/
lemma bind_append_empty (act : Run String) :
    (act >>= fun more => (pure ("" ++ more) : Run String)) = act := by
  funext s
  cases h : act s with
  | ok out t => rw [Run.bind_of_ok h, String.empty_append]; rfl
  | error e t => rw [Run.bind_of_error h]

/-- A definition puts the macro where it says and goes on. -/
lemma exec_define (target : Binding) (m : Macro) (s : Renderer) :
    exec invoker scope (.define target m :: rest) s =
      exec invoker scope rest
        ({ s with fresh := s.fresh + 1 }.bind target (.closure s.fresh m scope)) := by
  show (exec invoker scope rest >>= fun more => (pure ("" ++ more) : Run String)) _ = _
  rw [bind_append_empty]

/-- A namespace whose members put out nothing is there for what follows. -/
lemma exec_bindSpace {handle : String} {members markup : List Instr} {s t : Renderer}
    (h : exec invoker scope members (s.mapContext (·.openSpace handle)) = .ok "" t) :
    exec invoker scope (.bindSpace handle members markup :: rest) s =
      exec invoker scope rest (t.mapContext (·.closeSpace handle markup scope)) := by
  have hinstr : execInstr invoker scope (.bindSpace handle members markup) s =
      .ok "" (t.mapContext (·.closeSpace handle markup scope)) := by
    rw [execInstr, Run.modify_bind, Run.bind_of_ok h]
    rfl
  rw [exec, Run.bind_of_ok hinstr, bind_append_empty]

/-- **Definitions one after the other** make their macros known, if the macros that are put into the
context correspond to those that are put at the places. -/
lemma exec_definitions (hL : L.Lawful) {ms : List Macro} {f g : Macro → Macro}
    (hnames : ∀ m ∈ ms, m.name ∈ L.names)
    (hms : ∀ m ∈ ms, Macro.Rel L.Ref (· ∉ L.reserved) (f m) (g m))
    (hs : L.Partly known s s') (hopened : ∀ k ∈ L.names, s'.Opened (L.place k)) :
    ∃ t t', L.Partly (fun n => n ∈ ms.map (·.name) ∨ known n) t t' ∧
      (∀ k ∈ L.names, t'.Opened (L.place k)) ∧
      (∀ rest, exec invoker [] (ms.map (fun m => .define (.context m.name) (f m)) ++ rest) s =
        exec invoker [] rest t) ∧
      ∀ rest, exec invoker [] (ms.map (fun m => .define (L.place m.name) (g m)) ++ rest) s' =
        exec invoker [] rest t' := by
  induction ms generalizing s s' known with
  | nil =>
    have hnil := hs.mono fun n _ (hn : n ∈ [] ∨ known n) => hn.resolve_left List.not_mem_nil
    exact ⟨s, s', hnil, hopened, fun _ => rfl, fun _ => rfl⟩
  | cons m ms ih =>
    rw [List.forall_mem_cons] at hnames hms
    -- Both sides number the macro before they bind it.
    have hfresh : Pinned s s' { s with fresh := s.fresh + 1 } { s' with fresh := s'.fresh + 1 } :=
      ⟨⟨rfl, rfl, rfl⟩, ⟨rfl, rfl, rfl⟩⟩
    have hopened' : ∀ k ∈ L.names,
        Renderer.Opened { s' with fresh := s'.fresh + 1 } (L.place k) :=
      fun k hk => Renderer.opened_of_same hfresh.2 (hopened k hk)
    have hbound := hL.partly_bind (hs.of_same hfresh) hnames.1 hopened'
      (.closure s.fresh s'.fresh hms.1 .nil)
    obtain ⟨t, t', ht, hopenedt, hexec, hexec'⟩ :=
      ih hnames.2 hms.2 hbound (hL.opened_places hnames.1 hopened' _)
    refine ⟨t, t', ht.mono fun n _ hn => ?_, hopenedt, fun rest => ?_, fun rest => ?_⟩
    · simpa [or_assoc, or_comm, or_left_comm] using hn
    · rw [List.map_cons, List.cons_append, exec_define]
      exact hexec rest
    · rw [List.map_cons, List.cons_append, exec_define]
      exact hexec' rest

end Definitions

end Relocation

/-! ### Code one after the other -/

section Append

variable {invoker : Invoker} {scope : Scope} {is js : List Instr} {s t u : Renderer} {a : String}

/-- Instructions one after the other are those of the first list and then those of the second. -/
lemma exec_append (invoker : Invoker) (scope : Scope) (is js : List Instr) :
    exec invoker scope (is ++ js) =
      exec invoker scope is >>= fun out => exec invoker scope js >>= fun more =>
        pure (out ++ more) := by
  induction is with
  | nil =>
    rw [List.nil_append, exec, pure_bind]
    exact (Relocation.bind_append_empty _).symm
  | cons i rest ih =>
    rw [List.cons_append, exec, exec, ih]
    simp only [bind_assoc, pure_bind, String.append_assoc]

lemma exec_singleton (invoker : Invoker) (scope : Scope) (i : Instr) :
    exec invoker scope [i] = execInstr invoker scope i := by
  rw [exec, exec]
  simp only [pure_bind, String.append_empty, bind_pure]

/-- What the rest puts out comes after what has been put out. -/
lemma outcome_exec_append (h : exec invoker scope is s = .ok a t) (js : List Instr) :
    (exec invoker scope (is ++ js)).outcome s =
      ((exec invoker scope js).outcome t).map (a ++ ·) := by
  rw [exec_append, ← Run.outcome_bind_pure, Run.outcome, Run.bind_of_ok h]
  rfl

/-- If the whole succeeds, so does each part. -/
lemma ok_of_exec_append {out : String} (h : exec invoker scope (is ++ js) s = .ok out u) :
    ∃ a t b, exec invoker scope is s = .ok a t ∧ exec invoker scope js t = .ok b u ∧
      out = a ++ b := by
  rw [exec_append] at h
  cases hfirst : exec invoker scope is s with
  | error e t =>
    rw [Run.bind_of_error hfirst] at h
    cases h
  | ok a t =>
    rw [Run.bind_of_ok hfirst] at h
    cases hrest : exec invoker scope js t with
    | error e t' =>
      rw [Run.bind_of_error hrest] at h
      cases h
    | ok b t' =>
      rw [Run.bind_of_ok hrest] at h
      cases h
      exact ⟨a, t, b, rfl, hrest, rfl⟩

/-- Code that puts out nothing leads to where the rest starts. -/
lemma exec_append_of_silent (h : exec invoker scope is s = .ok "" t) :
    exec invoker scope (is ++ js) s = exec invoker scope js t := by
  rw [exec_append, Run.bind_of_ok h, Relocation.bind_append_empty]

end Append

end Stencil
