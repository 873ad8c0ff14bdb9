import Stencil.Path
import Mathlib.Data.List.DropRight
import Mathlib.Data.List.Induction
import Mathlib.Tactic.Lemma

/-!
Names of files. The segments of a name are **proper** if they are what can stand between slashes
(`Path.Proper`), and **ordinary** if they also mean no other directory (`Path.Ordinary`). A name is
**folded** if it consists of ordinary segments.

What a path does to the directory that it starts from is known exactly: it goes up some levels and
then down along ordinary segments (`Path.exists_walk`). So folded names stay folded, and a name is
folded if and only if normalizing leaves it alone (`Path.normalize_eq_self_iff`).

* Of the importing file only its directory counts, the segments of which are taken as they are. A
  name that is not folded itself may therefore lead to names that are not, and to other names than
  its normalized form does; `resolution_canonical_iff` says exactly when.
* The directory of a resolved name is where the rest of its path has led to
  (`Path.directory_ofSegments`), so that a file reached through several imports is the one that the
  paths, put together, lead to (`imports_compose`).
-/

namespace Stencil

namespace Text

variable {sep : Char}

/-- What stands on both sides of a separator is cut by itself. -/
lemma fields_append_cons (sep : Char) (cs ds : List Char) :
    fields sep (cs ++ sep :: ds) = fields sep cs ++ fields sep ds := by
  induction cs with
  | nil => simp [fields]
  | cons c cs ih =>
    rw [List.cons_append, fields, fields, ih]
    split
    · rfl
    · cases hf : fields sep cs with
      | nil => exact absurd hf (fields_ne_nil sep cs)
      | cons p ps => rfl

/-- Pieces that have been put together are found again. -/
lemma fields_joinFields {ps : List (List Char)} (hne : ps ≠ []) (h : ∀ p ∈ ps, sep ∉ p) :
    fields sep (joinFields sep ps) = ps := by
  induction ps using List.reverseRecOn with
  | nil => exact absurd rfl hne
  | append_singleton ps p ih =>
    rw [List.forall_mem_append, List.forall_mem_singleton] at h
    by_cases hps : ps = []
    · subst hps
      exact fields_of_notMem h.2
    · rw [joinFields_concat sep hps, fields_append _ h.2, ih hps h.1]

end Text

namespace Path

open Text (fields joinFields)

/-! ### Segments -/

/-- A segment that can stand between slashes. -/
structure Proper (s : Segment) : Prop where
  ne_nil : s ≠ []
  notMem : '/' ∉ s

/-- A segment that goes down to what is called like it. -/
structure Ordinary (s : Segment) : Prop extends Proper s where
  ne_dot : s ≠ ['.']
  ne_dots : s ≠ ['.', '.']

/-- **Folded** names consist of ordinary segments. -/
def Folded (name : String) : Prop :=
  ∃ rooted parts, name = ofSegments rooted parts ∧ ∀ s ∈ parts, Ordinary s

lemma proper_of_mem_directory {file : String} : ∀ s ∈ directory file, Proper s := by
  intro s hs
  obtain ⟨hmem, hne⟩ := List.mem_filter.1 hs
  exact ⟨by simpa using hne, Text.notMem_of_mem_fields (List.dropLast_subset _ hmem)⟩

lemma step_eq_append {s : Segment} (hs : Ordinary s) (parts : List Segment) :
    step parts s = parts ++ [s] := by
  rw [step, if_neg (by simp [hs.ne_nil, hs.ne_dot]), if_neg hs.ne_dots]

/-! ### Walks -/

/-- **What a walk does**: it goes up some levels, and down along ordinary segments. -/
lemma exists_foldl_step {path : List Segment} (h : ∀ s ∈ path, '/' ∉ s) :
    ∃ up names, (∀ s ∈ names, Ordinary s) ∧
      ∀ parts : List Segment, path.foldl step parts = parts.take (parts.length - up) ++ names := by
  induction path using List.reverseRecOn with
  | nil => exact ⟨0, [], by simp, by simp⟩
  | append_singleton path s ih =>
    rw [List.forall_mem_append, List.forall_mem_singleton] at h
    obtain ⟨up, names, hnames, hwalk⟩ := ih h.1
    simp only [List.foldl_append, List.foldl_cons, List.foldl_nil, hwalk]
    by_cases hstay : s = [] ∨ s = ['.']
    · exact ⟨up, names, hnames, fun parts => by rw [step, if_pos hstay]⟩
    · by_cases hup : s = ['.', '.']
      -- Going up takes back the last step down, if there is one.
      · obtain rfl | hne := eq_or_ne names []
        · refine ⟨up + 1, [], by simp, fun parts => ?_⟩
          rw [step, if_neg hstay, if_pos hup, List.append_nil, List.append_nil,
            List.dropLast_eq_take, List.take_take, List.length_take]
          congr 1
          omega
        · refine ⟨up, names.dropLast, fun t ht => hnames t (List.dropLast_subset _ ht),
            fun parts => ?_⟩
          rw [step, if_neg hstay, if_pos hup, List.dropLast_append_of_ne_nil hne]
      · rw [not_or] at hstay
        have hs : Ordinary s := ⟨⟨hstay.1, h.2⟩, hstay.2, hup⟩
        refine ⟨up, names ++ [s], ?_, fun parts => ?_⟩
        · exact List.forall_mem_append.2 ⟨hnames, List.forall_mem_singleton.2 hs⟩
        · rw [step_eq_append hs, List.append_assoc]

lemma exists_walk (path : String) : ∃ up names, (∀ s ∈ names, Ordinary s) ∧
    ∀ parts : List Segment, walk parts path = parts.take (parts.length - up) ++ names :=
  exists_foldl_step fun _ => Text.notMem_of_mem_fields

/-- What holds of ordinary segments and of those one starts from holds of those one comes to. -/
lemma forall_mem_walk {P : Segment → Prop} (hP : ∀ s, Ordinary s → P s) {parts : List Segment}
    (h : ∀ s ∈ parts, P s) (path : String) : ∀ s ∈ walk parts path, P s := by
  obtain ⟨up, names, hnames, hwalk⟩ := exists_walk path
  rw [hwalk]
  exact List.forall_mem_append.2
    ⟨fun s hs => h s (List.mem_of_mem_take hs), fun s hs => hP s (hnames s hs)⟩

lemma foldl_step_of_ordinary {names : List Segment} (h : ∀ s ∈ names, Ordinary s)
    (parts : List Segment) : names.foldl step parts = parts ++ names := by
  induction names generalizing parts with
  | nil => simp
  | cons s names ih =>
    rw [List.forall_mem_cons] at h
    rw [List.foldl_cons, step_eq_append h.1, ih h.2, List.append_assoc, List.singleton_append]

/-! ### Names -/

section Names

variable {rooted : Bool} {parts : List Segment}

lemma toList_ofSegments (rooted : Bool) (parts : List Segment) :
    (ofSegments rooted parts).toList = (if rooted then ['/'] else []) ++ joinFields '/' parts :=
  String.toList_ofList

/-- A name made of proper segments starts with a slash only if it is to be rooted. -/
lemma isRooted_ofSegments (h : ∀ s ∈ parts, Proper s) :
    isRooted (ofSegments rooted parts) = rooted := by
  rw [isRooted, toList_ofSegments]
  cases rooted with
  | true => rfl
  | false =>
    rw [if_neg Bool.false_ne_true, List.nil_append]
    have hhead : ∀ c ∈ (joinFields '/' parts).head?, c ≠ '/' := by
      match parts, h with
      | [], _ => simp [joinFields]
      | [] :: _, h => exact absurd rfl (h [] List.mem_cons_self).ne_nil
      | (c :: cs) :: rest, h =>
        have hc : c ≠ '/' := fun hc => (h _ List.mem_cons_self).notMem (by simp [hc])
        cases rest <;> simpa [joinFields] using hc
    cases hjoin : (joinFields '/' parts).head? with
    | none => rfl
    | some c => simpa using hhead c hjoin

/-- The pieces of a name are its segments, behind an empty one if it is rooted. -/
lemma fields_ofSegments (hne : parts ≠ []) (h : ∀ s ∈ parts, Proper s) :
    fields '/' (ofSegments rooted parts).toList = (if rooted then [[]] else []) ++ parts := by
  have hparts := Text.fields_joinFields hne fun p hp => (h p hp).notMem
  rw [toList_ofSegments]
  cases rooted with
  | true => exact congrArg ([] :: ·) hparts
  | false => exact hparts

/-- Of the pieces of a name only the one in front of its root is empty. -/
lemma filter_fields (h : ∀ s ∈ parts, Proper s) :
    ((if rooted then [[]] else []) ++ parts).filter (fun s => !s.isEmpty) = parts := by
  have hall : parts.filter (fun s => !s.isEmpty) = parts :=
    List.filter_eq_self.2 fun s hs => by simpa using (h s hs).ne_nil
  cases rooted with
  | true => exact hall
  | false => exact hall

/-- The directory of a name is what its last segment stands behind. -/
lemma directory_ofSegments {s : Segment} (h : ∀ t ∈ parts ++ [s], Proper t) :
    directory (ofSegments rooted (parts ++ [s])) = parts := by
  rw [directory, fields_ofSegments (by simp) h, ← List.append_assoc, List.dropLast_concat]
  exact filter_fields fun t ht => h t (List.mem_append_left _ ht)

/-- A name is determined by its segments, and by whether it is rooted. -/
lemma ofSegments_inj {rooted' : Bool} {parts' : List Segment} (h : ∀ s ∈ parts, Proper s)
    (h' : ∀ s ∈ parts', Proper s) (heq : ofSegments rooted parts = ofSegments rooted' parts') :
    rooted = rooted' ∧ parts = parts' := by
  have hrooted := congrArg isRooted heq
  rw [isRooted_ofSegments h, isRooted_ofSegments h'] at hrooted
  subst hrooted
  refine ⟨rfl, ?_⟩
  have hnonempty {ps : List Segment} (hps : ∀ s ∈ ps, Proper s) :
      (fields '/' (ofSegments rooted ps).toList).filter (fun s => !s.isEmpty) = ps := by
    obtain rfl | hne := eq_or_ne ps []
    · cases rooted <;> rfl
    · rw [fields_ofSegments hne hps, filter_fields hps]
  rw [← hnonempty h, heq, hnonempty h']

/-- Normalizing goes along the segments of the name. -/
lemma walk_ofSegments (h : ∀ s ∈ parts, Proper s) (start : List Segment) :
    walk start (ofSegments rooted parts) = parts.foldl step start := by
  rw [walk]
  obtain rfl | hne := eq_or_ne parts []
  · cases rooted <;> rfl
  · rw [fields_ofSegments hne h, List.foldl_append]
    cases rooted <;> rfl

lemma normalize_eq (name : String) :
    normalize name = ofSegments (isRooted name) (walk [] name) := by
  rw [normalize, join]
  simp

/-- Normalizing leaves exactly the folded names alone. -/
lemma normalize_eq_self_iff {name : String} : normalize name = name ↔ Folded name := by
  constructor
  · intro h
    rw [normalize_eq] at h
    exact ⟨_, _, h.symm, forall_mem_walk (fun _ hs => hs) (by simp) name⟩
  · rintro ⟨rooted, parts, rfl, hparts⟩
    have hproper : ∀ s ∈ parts, Proper s := fun s hs => (hparts s hs).toProper
    rw [normalize_eq, isRooted_ofSegments hproper, walk_ofSegments hproper,
      foldl_step_of_ordinary hparts, List.nil_append]

end Names

/-! ### Resolved names -/

section Join

variable {importer : Option String} {path : String}

/-- The directory that a path is resolved from. -/
def start (importer : Option String) (path : String) : List Segment :=
  if isRooted path then [] else (importer.map directory).getD []

lemma join_eq (importer : Option String) (path : String) : join importer path =
    ofSegments (isRooted path || importer.any isRooted) (walk (start importer path) path) := rfl

lemma proper_of_mem_start : ∀ s ∈ start importer path, Proper s := by
  rw [start]
  split
  · simp
  · cases importer with
    | none => simp
    | some file => exact proper_of_mem_directory

lemma proper_of_mem_walk : ∀ s ∈ walk (start importer path) path, Proper s :=
  forall_mem_walk (fun _ hs => hs.toProper) proper_of_mem_start path

/-- Resolved from ordinary directories, names are folded. -/
lemma folded_join (h : ∀ s ∈ start importer path, Ordinary s) : Folded (join importer path) :=
  ⟨_, _, join_eq importer path, forall_mem_walk (fun _ hs => hs) h path⟩

lemma ordinary_of_folded {rooted : Bool} {parts : List Segment} (h : ∀ s ∈ parts, Proper s)
    (hfolded : Folded (ofSegments rooted parts)) : ∀ s ∈ parts, Ordinary s := by
  obtain ⟨rooted', parts', heq, hparts'⟩ := hfolded
  obtain ⟨_, rfl⟩ := ofSegments_inj h (fun s hs => (hparts' s hs).toProper) heq
  exact hparts'

/-- A plain name resolves to itself behind the directory of the importing file. -/
lemma join_name (file : String) {s : Segment} (hs : Ordinary s) :
    join (some file) (String.ofList s) = ofSegments (isRooted file) (directory file ++ [s]) := by
  have hroot : isRooted (String.ofList s) = false := by
    cases s with
    | nil => exact absurd rfl hs.ne_nil
    | cons c cs =>
      have hc : c ≠ '/' := fun hc => hs.notMem (by simp [hc])
      simpa [isRooted] using hc
  rw [join_eq, start, hroot, walk, String.toList_ofList, Text.fields_of_notMem hs.notMem]
  exact congrArg _ (step_eq_append hs _)

end Join

/-! ### The same name for the same file -/

/-- A name that is longer than the directory by one segment. -/
lemma proper_of_mem_concat {file : String} {s : Segment} (hs : Ordinary s) :
    ∀ t ∈ directory file ++ [s], Proper t :=
  List.forall_mem_append.2 ⟨proper_of_mem_directory, List.forall_mem_singleton.2 hs.toProper⟩

lemma ordinary_x : Ordinary ['x'] := ⟨⟨by decide, by decide⟩, by decide, by decide⟩

/-- All names resolved from a file are folded exactly if its directory consists of ordinary
segments. -/
lemma forall_folded_iff {file : String} :
    (∀ path, Folded (join (some file) path)) ↔ ∀ s ∈ directory file, Ordinary s := by
  constructor
  · intro h
    have hx := h (String.ofList ['x'])
    rw [join_name file ordinary_x] at hx
    exact (List.forall_mem_append.1 (ordinary_of_folded (proper_of_mem_concat ordinary_x) hx)).1
  · intro h path
    refine folded_join fun s hs => ?_
    rw [start] at hs
    split at hs
    · cases hs
    · exact h s hs

/-- Two files resolve all paths alike exactly if they are in the same directory. -/
lemma forall_join_eq_iff {file file' : String} :
    (∀ path, join (some file) path = join (some file') path) ↔
      isRooted file = isRooted file' ∧ directory file = directory file' := by
  constructor
  · intro h
    have hx := h (String.ofList ['x'])
    rw [join_name file ordinary_x, join_name file' ordinary_x] at hx
    obtain ⟨hrooted, hparts⟩ := ofSegments_inj (proper_of_mem_concat ordinary_x)
      (proper_of_mem_concat ordinary_x) hx
    exact ⟨hrooted, List.append_cancel_right hparts⟩
  · rintro ⟨hrooted, hdirectory⟩ path
    simp [join_eq, start, hrooted, hdirectory]

/-- **When the same file gets the same name.** What is resolved from nowhere is folded, and
normalizing leaves exactly the folded names alone. All names that a file refers to are folded
exactly if its own directory consists of ordinary segments, and two files give the same names to all
that they refer to exactly if their directories are the same, segment by segment. -/
theorem resolution_canonical_iff (file : String) :
    (∀ path, Folded (join none path)) ∧ (∀ name, normalize name = name ↔ Folded name) ∧
    ((∀ path, Folded (join (some file) path)) ↔ ∀ s ∈ directory file, Ordinary s) ∧
    ∀ file', (∀ path, join (some file) path = join (some file') path) ↔
      isRooted file = isRooted file' ∧ directory file = directory file' := by
  refine ⟨fun path => folded_join ?_, fun _ => normalize_eq_self_iff, forall_folded_iff,
    fun _ => forall_join_eq_iff⟩
  rw [start]
  split <;> simp

/-- The directory of the importing file is taken as it is: a dot in it gets into the names that the
file refers to, although the name of the file means the same without it. -/
theorem dot_of_importer_stays : normalize "./page.html" = "page.html" ∧
    join (some "./page.html") "lib.html" = "./lib.html" ∧ ¬ Folded "./lib.html" ∧
    join (some "page.html") "lib.html" = "lib.html" := by
  refine ⟨by decide, by decide, fun h => ?_, by decide⟩
  have hnormal : normalize "./lib.html" = "lib.html" := by decide
  rw [← normalize_eq_self_iff, hnormal] at h
  exact absurd h (by decide)

/-! ### Chains of imports -/

/-- What stands before the last segment of a path, with the slash. -/
def folder (path : String) : String :=
  String.ofList (path.toList.rdropWhile (· ≠ '/'))

/-- The last segment of the path is an ordinary one. -/
def EndsInName (path : String) : Prop :=
  ∃ s, (fields '/' path.toList).getLast? = some s ∧ Ordinary s

lemma folder_eq (path : String) :
    (folder path).toList = path.toList.rdropWhile (· ≠ '/') :=
  String.toList_ofList

/-- A path that ends in a name is that name behind a folder, which is nothing or ends in a slash. -/
lemma EndsInName.split {path : String} (h : EndsInName path) : ∃ s, Ordinary s ∧
    ((folder path).toList = [] ∧ path.toList = s ∨
      ∃ front, (folder path).toList = front ++ ['/'] ∧ path.toList = front ++ '/' :: s) := by
  obtain ⟨s, hlast, hs⟩ := h
  rw [folder_eq]
  have hsplit := List.rdropWhile_append_rtakeWhile (p := fun c => decide (c ≠ '/'))
    (l := path.toList)
  have hname : '/' ∉ path.toList.rtakeWhile fun c => decide (c ≠ '/') :=
    fun hc => by simpa using List.mem_rtakeWhile_imp hc
  refine ⟨s, hs, ?_⟩
  obtain hnil | ⟨front, c, hfront⟩ :=
    List.eq_nil_or_concat (path.toList.rdropWhile fun c => decide (c ≠ '/'))
  · rw [hnil, List.nil_append] at hsplit
    rw [← hsplit, Text.fields_of_notMem hname, hsplit] at hlast
    exact .inl ⟨hnil, Option.some.inj hlast⟩
  · rw [List.concat_eq_append] at hfront
    have hslash : c = '/' := by
      have hnot := List.rdropWhile_last_not (fun c => decide (c ≠ '/')) path.toList
        (by rw [hfront]; exact List.concat_ne_nil c front)
      simpa only [hfront, List.getLast_concat, decide_eq_true_eq, not_not] using hnot
    subst hslash
    rw [hfront, List.append_assoc, List.singleton_append] at hsplit
    rw [← hsplit, Text.fields_append _ hname, List.getLast?_concat] at hlast
    exact .inr ⟨front, hfront, by rw [← Option.some.inj hlast, hsplit]⟩

lemma isRooted_append_folder {path rest : String} (h : EndsInName path)
    (hrest : isRooted rest = false) : isRooted (folder path ++ rest) = isRooted path := by
  obtain ⟨s, hs, ⟨hfolder, hpath⟩ | ⟨front, hfolder, hpath⟩⟩ := h.split
  · have hhead : isRooted path = false := by
      rw [isRooted, hpath]
      cases s with
      | nil => rfl
      | cons c cs =>
        have hc : c ≠ '/' := fun hc => hs.notMem (by simp [hc])
        simpa using hc
    rw [hhead, ← hrest, isRooted, isRooted, String.toList_append, hfolder, List.nil_append]
  · rw [isRooted, isRooted, String.toList_append, hfolder, hpath]
    cases front <;> rfl

/-- Behind its folder a path goes on from where the folder leads to. -/
lemma walk_append_folder {path : String} (h : EndsInName path) (parts : List Segment) :
    ∃ s, Ordinary s ∧ ∃ parts', walk parts path = parts' ++ [s] ∧
      ∀ rest, walk parts (folder path ++ rest) = walk parts' rest := by
  obtain ⟨s, hs, ⟨hfolder, hpath⟩ | ⟨front, hfolder, hpath⟩⟩ := h.split
  · refine ⟨s, hs, parts, ?_, fun rest => ?_⟩
    · rw [walk, hpath, Text.fields_of_notMem hs.notMem]
      exact step_eq_append hs parts
    · rw [walk, String.toList_append, hfolder, List.nil_append, walk]
  · refine ⟨s, hs, (fields '/' front).foldl step parts, ?_, fun rest => ?_⟩
    · rw [walk, hpath, Text.fields_append _ hs.notMem, List.foldl_concat, step_eq_append hs]
    · rw [walk, String.toList_append, hfolder, List.append_assoc, List.singleton_append,
        Text.fields_append_cons, List.foldl_append, walk]

/-- **Two imports in a row.** From a resolved name a relative path leads where it leads from the
folder of the path that has been resolved. -/
lemma join_join {importer : Option String} {path : String} (h : EndsInName path) {rest : String}
    (hrest : isRooted rest = false) :
    join (some (join importer path)) rest = join importer (folder path ++ rest) := by
  obtain ⟨s, hs, parts, hwalk, hmore⟩ := walk_append_folder h (start importer path)
  have hproper : ∀ t ∈ parts ++ [s], Proper t := hwalk ▸ proper_of_mem_walk
  have hstart : start importer (folder path ++ rest) = start importer path := by
    rw [start, start, isRooted_append_folder h hrest]
  rw [join_eq importer (folder path ++ rest), isRooted_append_folder h hrest, hstart, hmore,
    join_eq importer path, hwalk, join_eq, start, hrest]
  simp [isRooted_ofSegments hproper, directory_ofSegments hproper]

/-- The name that is reached from a file through imports of the given paths. -/
def reached (name : String) (paths : List String) : String :=
  paths.foldl (fun importer path => join (some importer) path) name

lemma isRooted_append_folders {paths : List String}
    (h : ∀ path ∈ paths, EndsInName path ∧ isRooted path = false) {rest : String}
    (hrest : isRooted rest = false) :
    isRooted (String.join (paths.map folder) ++ rest) = false := by
  induction paths with
  | nil => simpa using hrest
  | cons path paths ih =>
    rw [List.forall_mem_cons] at h
    rw [List.map_cons, String.join_cons, String.append_assoc, isRooted_append_folder h.1.1 (ih h.2)]
    exact h.1.2

/-- **Relative imports compose.** Let `path` end in a name. Then a relative path resolved from what
`path` is resolved to is what the two paths put together, the first without its last segment, are
resolved to from the importing file. So a file that is reached through any number of imports is the
one that all the paths, put together in this way, lead to. -/
theorem imports_compose (importer : Option String) {path : String} (hpath : EndsInName path)
    {rest : String} (hrest : isRooted rest = false) :
    join (some (join importer path)) rest = join importer (folder path ++ rest) ∧
    ∀ paths : List String, (∀ p ∈ paths, EndsInName p ∧ isRooted p = false) →
      join (some (reached (join importer path) paths)) rest =
        join importer (folder path ++ (String.join (paths.map folder) ++ rest)) := by
  refine ⟨join_join hpath hrest, fun paths hpaths => ?_⟩
  rw [← join_join hpath (isRooted_append_folders hpaths hrest)]
  generalize join importer path = name
  induction paths generalizing name with
  | nil => simp [reached]
  | cons p paths ih =>
    rw [List.forall_mem_cons] at hpaths
    have hfolders := isRooted_append_folders hpaths.2 hrest
    rw [List.map_cons, String.join_cons, String.append_assoc, ← join_join hpaths.1.1 hfolders]
    exact ih hpaths.2 _

/-- Both paths go up, one of them has an empty segment, and the file in between is in a directory
of its own. -/
theorem nested_import_composed : EndsInName "../lib//a.html" ∧ EndsInName "sub/b.html" ∧
    join (some (join (some "/srv/pages/home.html") "../lib//a.html")) ".././c.html" =
      join (some "/srv/pages/home.html") "../lib//.././c.html" ∧
    join (some (join (some (join (some "/srv/pages/home.html") "../lib//a.html")) "sub/b.html"))
      ".././c.html" = "/srv/lib/c.html" := by
  have ha : EndsInName "../lib//a.html" :=
    ⟨"a.html".toList, by decide, ⟨by decide, by decide⟩, by decide, by decide⟩
  have hb : EndsInName "sub/b.html" :=
    ⟨"b.html".toList, by decide, ⟨by decide, by decide⟩, by decide, by decide⟩
  have hc : isRooted ".././c.html" = false := by decide
  obtain ⟨honce, htwice⟩ := imports_compose (some "/srv/pages/home.html") ha hc
  have htwo := htwice ["sub/b.html"] (List.forall_mem_singleton.2 ⟨hb, by decide⟩)
  have hfolder : folder "../lib//a.html" = "../lib//" := by decide
  rw [hfolder] at honce
  exact ⟨ha, hb, honce, htwo.trans (by decide)⟩

end Path

end Stencil
