import Stencil.Proofs.Compiling
import Stencil.Proofs.Grammar.Template

/-!
What compiling the nodes of a file stops at (`FileScope.Stops`): an import that fails, or a macro
that a from tag asks for in vain. Nodes that have been read are legible (`Node.Legible`), so that
nothing else can be wrong with them (`FileScope.stops_of_nodes`).

The imports of a file are the **paths** of its tags (`allPaths`), at whatever depth they stand.
-/

namespace Stencil

/-! ### Paths -/

mutual

/-- The paths of all tags in the node that import a file. -/
def Node.paths : Node → List String
  | .text _ => []
  | .output _ => []
  | .tag head content => head.args.path?.toList ++ allPaths content

/-- The paths of all tags in the nodes that import a file. -/
def allPaths : List Node → List String
  | [] => []
  | n :: rest => n.paths ++ allPaths rest

end

lemma allPaths_append (ns ms : List Node) : allPaths (ns ++ ms) = allPaths ns ++ allPaths ms := by
  induction ns with
  | nil => rfl
  | cons n rest ih => rw [List.cons_append, allPaths, allPaths, ih, List.append_assoc]

lemma mem_allPaths {path : String} {ns : List Node} :
    path ∈ allPaths ns ↔ ∃ n ∈ ns, path ∈ n.paths := by
  induction ns with
  | nil => simp [allPaths]
  | cons n rest ih => simp [allPaths, ih]

/-! ### Stops -/

namespace FileScope

variable {u : FileScope} {n : Node} {ns ms : List Node} {e : Error}

/-- **What compiling nodes stops at.** -/
inductive Stops (u : FileScope) (ns : List Node) : Error → Prop
  | imported {path : String} {e : Error} : path ∈ allPaths ns → u.imported path = .error e →
      Stops u ns e
  | undefined {head : TagHead} {header : ImportNames} {content : List Node} {missing : String}
      (source : String) (defined : List String) : Node.Within (.tag head content) ns →
      head.args = .importNames header → missing ∈ header.names →
      Stops u ns (.undefinedMacro u.file head.span head.line missing source defined)

lemma Stops.mono (h : u.Stops ns e) (hns : ns ⊆ ms) : u.Stops ms e := by
  cases h with
  | imported hpath he =>
    obtain ⟨n, hn, hpath⟩ := mem_allPaths.1 hpath
    exact .imported (mem_allPaths.2 ⟨n, hns hn, hpath⟩) he
  | undefined source defined hn hargs hmissing =>
    exact .undefined source defined (hn.mono hns) hargs hmissing

lemma Stops.content {head : TagHead} (h : u.Stops ns e) : u.Stops [.tag head ns] e := by
  cases h with
  | imported hpath he =>
    refine .imported (mem_allPaths.2 ⟨_, List.mem_singleton_self _, ?_⟩) he
    rw [Node.paths]
    exact List.mem_append_right _ hpath
  | undefined source defined hn hargs hmissing =>
    exact .undefined source defined (.inside (List.mem_singleton_self _) hn) hargs hmissing

lemma stops_of_path {head : TagHead} {content : List Node} {path : String}
    (hpath : head.args.path? = some path) :
    FailsWith (u.Stops [.tag head content]) (u.imported path) := by
  refine fun e he => .imported (mem_allPaths.2 ⟨_, List.mem_singleton_self _, ?_⟩) he
  rw [Node.paths, hpath]
  exact List.mem_append_left _ (List.mem_singleton_self path)

/-- Nodes stop where one of them does. -/
lemma stops_of_each {params : List String}
    (h : ∀ n ∈ ns, FailsWith (u.Stops [n]) (u.node params n)) :
    FailsWith (u.Stops ns) (u.nodes params ns) := by
  induction ns with
  | nil => exact .ok _
  | cons n rest ih =>
    rw [List.forall_mem_cons] at h
    rw [nodes]
    refine FailsWith.bind (.mono h.1 fun e he => he.mono (by simp)) fun _ _ => ?_
    exact FailsWith.bind (.mono (ih h.2) fun e he => he.mono (by simp)) fun _ _ => .ok _

/-- A legible node stops at what is in it: its tag is known and has arguments of its kind. -/
lemma stops_of_node (hlegible : n.Legible u.tags) (params : List String) :
    FailsWith (u.Stops [n]) (u.node params n) := by
  induction hlegible generalizing params with
  | text s => exact .ok _
  | output _ => exact .ok _
  | @tag head content hhead _ ih =>
    obtain ⟨word, args, line, span⟩ := head
    obtain ⟨kind, hkind, hsays⟩ := hhead
    have hcontent (params : List String) :
        FailsWith (u.Stops [.tag ⟨word, args, line, span⟩ content]) (u.nodes params content) :=
      (stops_of_each fun n hn => ih n hn params).mono fun e he => he.content
    rw [node, hkind]
    cases hsays with
    | definition _ => exact (hcontent _).bind fun _ _ => .ok _
    | callBlock source _ => exact (hcontent _).bind fun _ _ => .ok _
    | importAll h => exact (stops_of_path rfl).bind fun _ _ => .ok _
    | importNames h =>
      refine (stops_of_path rfl).bind fun r _ => ?_
      dsimp only
      split
      next missing hmissing =>
        exact .error (.undefined _ _ (.here (List.mem_singleton_self _)) rfl
          (List.mem_of_find?_eq_some hmissing))
      next => exact .ok _

/-- **Legible nodes stop at an import or at a macro that is not there.** -/
lemma stops_of_nodes (hlegible : ∀ n ∈ ns, n.Legible u.tags) (params : List String) :
    FailsWith (u.Stops ns) (u.nodes params ns) :=
  stops_of_each fun n hn => stops_of_node (hlegible n hn) params

/-- So do their fragments. -/
lemma stops_of_fragments (hlegible : ∀ n ∈ ns, n.Legible u.tags) :
    FailsWith (u.Stops ns) (u.fragments ns) := by
  induction ns with
  | nil => exact .ok _
  | cons n rest ih =>
    rw [List.forall_mem_cons] at hlegible
    rw [fragments, fragment]
    refine FailsWith.bind (.bind (.mono (stops_of_node hlegible.1 []) fun e he =>
      he.mono (by simp)) fun _ _ => .ok _) fun _ _ => ?_
    exact FailsWith.bind (.mono (ih hlegible.2) fun e he => he.mono (by simp)) fun _ _ => .ok _

end FileScope

end Stencil
