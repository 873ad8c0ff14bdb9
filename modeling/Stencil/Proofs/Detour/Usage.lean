import Stencil.Proofs.Detour.Relation
import Stencil.Proofs.Renaming

/-!
What code uses. `allWrites` lists the places at which code puts macros and the names that it takes
away as those of parameters, `allReferences` the references in it that replacing reaches, and
`allSealed` those that replacing does not reach, which are inside of namespaces. Code **binds** or
**reads** a name of the context, and **touches** a place of the private table, according to these
lists (`Code.Binds`, `Code.Reads`, `Code.Touches`).

Code with references replaced in two ways says the same on both sides of a detour if what it writes
is not avoided and what the references become corresponds (`Detour.code_replaceAll`). In particular,
compiled code corresponds to itself if it uses nothing that is avoided (`Detour.code_self`).
-/

namespace Stencil

/-! ### Places and references in code -/

mutual

/-- The places at which an instruction puts macros, and the names of parameters. -/
def Instr.writes : Instr → List Binding
  | .text _ => []
  | .output _ => []
  | .define target m => target :: m.writes
  | .callBlock body _ _ => allWrites body
  | .bindSpace handle members markup =>
    .context handle :: (allWrites members ++ allWrites markup)

/-- The places at which a macro puts macros, and the names of parameters. -/
def Macro.writes : Macro → List Binding
  | ⟨_, params, body, _⟩ => params.map (fun p => .context p.name) ++ allWrites body

/-- The places at which instructions put macros, and the names of parameters. -/
def allWrites : List Instr → List Binding
  | [] => []
  | i :: rest => i.writes ++ allWrites rest

end

mutual

/-- The references in an instruction that replacing does not reach: those inside of namespaces. -/
def Instr.sealed : Instr → List Expr
  | .text _ => []
  | .output _ => []
  | .define _ m => m.sealed
  | .callBlock body _ _ => allSealed body
  | .bindSpace _ members markup =>
    allReferences members ++ allSealed members ++ (allReferences markup ++ allSealed markup)

/-- The references in a macro that replacing does not reach. -/
def Macro.sealed : Macro → List Expr
  | ⟨_, _, body, _⟩ => allSealed body

/-- The references in instructions that replacing does not reach. -/
def allSealed : List Instr → List Expr
  | [] => []
  | i :: rest => i.sealed ++ allSealed rest

end

namespace Code

/-- The code puts something under the name into the context, or has a parameter of that name. -/
def Binds (is : List Instr) (name : String) : Prop :=
  ∃ b ∈ allWrites is, b.root? = some name

/-- The code refers to the entry of the context. -/
def Reads (is : List Instr) (name : String) : Prop :=
  .context name ∈ allReferences is ++ allSealed is

/-- The code puts something at the place of the private table, or refers to it. -/
def Touches (is : List Instr) (key : Symbol) : Prop :=
  .hidden key ∈ allWrites is ∨ .symbol key ∈ allReferences is ++ allSealed is

instance (is : List Instr) (name : String) : Decidable (Binds is name) :=
  inferInstanceAs (Decidable (∃ b ∈ allWrites is, b.root? = some name))

instance (is : List Instr) (name : String) : Decidable (Reads is name) :=
  decidable_of_iff _ mem_entriesRead

end Code

section Known

variable {file : String} {params : List String} {is : List Instr}

lemma mem_allSealed {r : Expr} : r ∈ allSealed is ↔ ∃ i ∈ is, r ∈ i.sealed := by
  induction is with
  | nil => simp [allSealed]
  | cons i rest ih => simp [allSealed, ih]

/-- Compiled code has no variables whose places have not been determined, in namespaces either. -/
lemma Instr.Scoped.sealed_known {i : Instr} (h : i.Scoped file params) :
    ∀ r ∈ i.sealed, ∃ params, r.Known params := by
  have all {is : List Instr} (h : ∀ i ∈ is, ∀ r ∈ i.sealed, ∃ params, r.Known params) :
      ∀ r ∈ allSealed is, ∃ params, r.Known params := by
    intro r hr
    obtain ⟨i, hi, hr⟩ := mem_allSealed.1 hr
    exact h i hi r hr
  have references {is : List Instr} {file : String} (h : ∀ i ∈ is, i.Scoped file []) :
      ∀ r ∈ allReferences is, ∃ params, r.Known params := by
    intro r hr
    obtain ⟨i, hi, hr⟩ := mem_allReferences.1 hr
    exact (h i hi).known r hr
  induction h with
  | text s => exact fun _ hr => nomatch hr
  | output _ => exact fun _ hr => nomatch hr
  | @define _ _ m _ _ _ ih =>
    obtain ⟨name, ps, body, written⟩ := m
    exact all ih
  | callBlock _ _ _ ih => exact all ih
  | bindSpace handle hmembers hmarkup ihmembers ihmarkup =>
    exact List.forall_mem_append.2
      ⟨List.forall_mem_append.2 ⟨references hmembers, all ihmembers⟩,
        List.forall_mem_append.2 ⟨references hmarkup, all ihmarkup⟩⟩

lemma Instr.Scoped.all_known (h : ∀ i ∈ is, i.Scoped file params) :
    ∀ r ∈ allReferences is ++ allSealed is, ∃ params, r.Known params := by
  intro r hr
  obtain hr | hr := List.mem_append.1 hr
  · obtain ⟨i, hi, hr⟩ := mem_allReferences.1 hr
    exact (h i hi).known r hr
  · obtain ⟨i, hi, hr⟩ := mem_allSealed.1 hr
    exact (h i hi).sealed_known r hr

end Known

/-! ### Code that corresponds -/

namespace Detour

variable {D : Detour}

lemma replaceAll_none (is : List Instr) : replaceAll (fun _ => none) is = is :=
  (replaceAll_eq_self_iff Expr.changes_none is).2 fun _ _ => rfl

/-- What references become when nothing is replaced. -/
lemma rel_replace_none {rs : List Expr} (h : ∀ r ∈ rs, D.Ref r r) :
    ∀ r ∈ rs, Expr.Rel D.Ref (r.replace fun _ => none) (r.replace fun _ => none) := by
  intro r hr
  rw [Expr.replace_none]
  exact .reference (h r hr)

mutual

lemma code_replace : ∀ {f g : Expr → Option Expr}, Expr.Relinked f → Expr.Relinked g →
    ∀ i : Instr, (∀ b ∈ i.writes, D.Allows b) → (∀ r ∈ i.sealed, D.Ref r r) →
      (∀ r ∈ i.references, Expr.Rel D.Ref (r.replace f) (r.replace g)) →
      D.Code [i.replace f] [i.replace g]
  | _, _, _, _, .text s, _, _, _ => .text s .nil
  | _, _, hf, hg, .output _, _, _, href =>
    .output (Expr.rel_replaceBoth_of_references hf hg href) .nil
  | _, _, hf, hg, .define _ ⟨_, _, body, _⟩, hwrites, hsealed, href => by
    rw [Instr.writes, Macro.writes, List.forall_mem_cons, List.forall_mem_append,
      List.forall_mem_map] at hwrites
    rw [Instr.references, Macro.references, List.forall_mem_append] at href
    exact .define hwrites.1 (Param.rel_replaceBoth hf hg href.1)
      (List.forall_mem_map.2 hwrites.2.1)
      (code_replaceAll hf hg body hwrites.2.2 hsealed href.2) .nil
  | _, _, hf, hg, .callBlock body _ source, hwrites, hsealed, href => by
    rw [Instr.references, List.forall_mem_append] at href
    exact .callBlock source source (code_replaceAll hf hg body hwrites hsealed href.1)
      (Expr.rel_replaceBoth_of_references hf hg href.2) .nil
  | _, _, _, _, .bindSpace _ members markup, hwrites, hsealed, _ => by
    rw [Instr.writes, List.forall_mem_cons, List.forall_mem_append] at hwrites
    rw [Instr.sealed, List.forall_mem_append, List.forall_mem_append, List.forall_mem_append]
      at hsealed
    have hmembers := code_replaceAll (fun _ => rfl) (fun _ => rfl) members hwrites.2.1
      hsealed.1.2 (rel_replace_none hsealed.1.1)
    have hmarkup := code_replaceAll (fun _ => rfl) (fun _ => rfl) markup hwrites.2.2
      hsealed.2.2 (rel_replace_none hsealed.2.1)
    rw [replaceAll_none] at hmembers hmarkup
    exact .bindSpace hwrites.1 hmembers hmarkup .nil

/-- Replacing references in two ways gives code that says the same, if what they become does. -/
lemma code_replaceAll : ∀ {f g : Expr → Option Expr}, Expr.Relinked f → Expr.Relinked g →
    ∀ is : List Instr, (∀ b ∈ allWrites is, D.Allows b) → (∀ r ∈ allSealed is, D.Ref r r) →
      (∀ r ∈ allReferences is, Expr.Rel D.Ref (r.replace f) (r.replace g)) →
      D.Code (replaceAll f is) (replaceAll g is)
  | _, _, _, _, [], _, _, _ => .nil
  | _, _, hf, hg, i :: rest, hwrites, hsealed, href => by
    rw [allWrites, List.forall_mem_append] at hwrites
    rw [allSealed, List.forall_mem_append] at hsealed
    rw [allReferences, List.forall_mem_append] at href
    exact (code_replace hf hg i hwrites.1 hsealed.1 href.1).append
      (code_replaceAll hf hg rest hwrites.2 hsealed.2 href.2)

end

/-- Replacing references in a macro in two ways gives macros that say the same. -/
lemma macros_replace {f g : Expr → Option Expr} (hf : Expr.Relinked f) (hg : Expr.Relinked g)
    {m : Macro} (hwrites : ∀ b ∈ m.writes, D.Allows b) (hsealed : ∀ r ∈ m.sealed, D.Ref r r)
    (href : ∀ r ∈ m.references, Expr.Rel D.Ref (r.replace f) (r.replace g)) :
    D.Macros (m.replace f) (m.replace g) := by
  obtain ⟨name, params, body, file⟩ := m
  rw [Macro.writes, List.forall_mem_append, List.forall_mem_map] at hwrites
  rw [Macro.references, List.forall_mem_append] at href
  exact ⟨Param.rel_replaceBoth hf hg href.1, List.forall_mem_map.2 hwrites.1,
    code_replaceAll hf hg body hwrites.2 hsealed href.2⟩

section Mono

variable {D' : Detour}

/-- The second detour avoids less and has more routes. -/
structure Le (D D' : Detour) : Prop where
  avoids : ∀ {name}, D'.avoids name → D.avoids name
  avoidsKey : ∀ {key}, D'.avoidsKey key → D.avoidsKey key
  route : ∀ {b b'}, D.route b b' → D'.route b b'

variable (h : D.Le D')

include h

lemma Ref.mono {r r' : Expr} (hr : D.Ref r r') : D'.Ref r r' := by
  cases hr with
  | param name => exact .param name
  | context hname => exact .context fun h' => hname (h.avoids h')
  | symbol hkey => exact .symbol fun h' => hkey (h.avoidsKey h')
  | route hroute => exact .route (h.route hroute)

lemma Allows.mono {b : Binding} (hb : D.Allows b) : D'.Allows b := by
  cases b with
  | hidden key => exact fun h' => hb (h.avoidsKey h')
  | _ => exact fun h' => hb (h.avoids h')

/-- Code that corresponds for the one detour does so for the other. -/
lemma Code.mono {is is' : List Instr} (hcode : D.Code is is') : D'.Code is is' := by
  have href {r r' : Expr} (hr : D.Ref r r') : D'.Ref r r' := hr.mono h
  induction hcode with
  | nil => exact .nil
  | text s _ ih => exact .text s ih
  | output he _ ih => exact .output (he.mono href) ih
  | define htarget hparams hfree _ _ ihbody ih =>
    exact .define (htarget.mono h) (hparams.imp fun _ _ hp => hp.mono href)
      (fun p hp h' => hfree p hp (h.avoids h')) ihbody ih
  | callBlock source source' _ he _ ihbody ih =>
    exact .callBlock source source' ihbody (he.mono href) ih
  | bindSpace hhandle _ _ _ ihmembers ihmarkup ih =>
    exact .bindSpace (fun h' => hhandle (h.avoids h')) ihmembers ihmarkup ih

/-- So do macros and values. -/
lemma Macros.mono {m m' : Macro} (hm : D.Macros m m') : D'.Macros m m' :=
  ⟨hm.params.imp fun _ _ hp => hp.mono (Ref.mono h), fun p hp h' => hm.free p hp (h.avoids h'),
    hm.body.mono h⟩

lemma value_mono {v v' : Value} (hv : D.value v v') : D'.value v v' :=
  have hle : D.code.Le D'.code := ⟨Macros.mono h, Code.mono h, Code.mono h⟩
  hv.mono hle

lemma contents_mono {o o' : Option Value} (ho : Option.Rel D.value o o') :
    Option.Rel D'.value o o' := by
  cases ho with
  | none => exact .none
  | some hv => exact .some (value_mono h hv)

end Mono

/-- Compiled code that binds nothing that is avoided, and reads and touches nothing of it either
except by routes, corresponds to itself. -/
lemma code_self {is : List Instr} {file : String} {params : List String}
    (hscoped : ∀ i ∈ is, i.Scoped file params)
    (hbinds : ∀ name, D.avoids name → ¬ Code.Binds is name)
    (hreads : ∀ name, Code.Reads is name → D.Ref (.context name) (.context name))
    (htouches : ∀ key, D.avoidsKey key → ¬ Code.Touches is key) : D.Code is is := by
  have href : ∀ r ∈ allReferences is ++ allSealed is, D.Ref r r := by
    intro r hr
    obtain ⟨_, hknown⟩ := Instr.Scoped.all_known hscoped r hr
    cases hknown with
    | param _ => exact .param _
    | context name => exact hreads name hr
    | symbol key => exact .symbol fun hkey => htouches key hkey (.inr hr)
  rw [List.forall_mem_append] at href
  have hcode := code_replaceAll (D := D) (fun _ => rfl) (fun _ => rfl) is (fun b hb => ?_) href.2
    (rel_replace_none href.1)
  · rwa [replaceAll_none] at hcode
  · cases b with
    | context name => exact fun hname => hbinds name hname ⟨_, hb, rfl⟩
    | member handle name => exact fun hname => hbinds handle hname ⟨_, hb, rfl⟩
    | hidden key => exact fun hkey => htouches key hkey (.inl hb)

end Detour

end Stencil
