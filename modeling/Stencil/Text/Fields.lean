/-!
Cutting a text at every occurrence of one character. `fields` gives the pieces, of which there is
always at least one, and `joinFields` puts them together again; `String.intercalate` does the same
to texts.
-/

namespace Stencil.Text

/-- The pieces between the occurrences of `sep`. -/
def fields (sep : Char) : List Char → List (List Char)
  | [] => [[]]
  | c :: cs =>
    if c = sep then [] :: fields sep cs
    else
      match fields sep cs with
      | [] => [[c]]
      | p :: ps => (c :: p) :: ps

/-- The pieces with `sep` between them. -/
def joinFields (sep : Char) : List (List Char) → List Char
  | [] => []
  | [p] => p
  | p :: q :: rest => p ++ sep :: joinFields sep (q :: rest)

/-- There is at least one piece. -/
theorem fields_ne_nil (sep : Char) (cs : List Char) : fields sep cs ≠ [] := by
  cases cs with
  | nil => simp [fields]
  | cons c cs =>
    rw [fields]
    split
    · simp
    · split <;> simp

/-- Cutting loses nothing. -/
theorem joinFields_fields (sep : Char) (cs : List Char) : joinFields sep (fields sep cs) = cs := by
  induction cs with
  | nil => rfl
  | cons c cs ih =>
    rw [fields]
    split
    next h =>
      subst h
      match hf : fields c cs with
      | [] => exact absurd hf (fields_ne_nil c cs)
      | p :: ps => rw [joinFields, ← hf, ih]; rfl
    next h =>
      match hf : fields sep cs with
      | [] => exact absurd hf (fields_ne_nil sep cs)
      | [p] => rw [hf] at ih; simpa [joinFields] using ih
      | p :: q :: ps => rw [hf] at ih; simpa [joinFields] using ih

/-- A text without the separator is one piece. -/
theorem fields_of_notMem {sep : Char} {cs : List Char} (h : sep ∉ cs) : fields sep cs = [cs] := by
  induction cs with
  | nil => rfl
  | cons c cs ih =>
    rw [List.mem_cons, not_or] at h
    rw [fields, if_neg (Ne.symm h.1), ih h.2]

/-- What stands behind the last separator is the last piece. -/
theorem fields_append {sep : Char} (cs : List Char) {ds : List Char} (h : sep ∉ ds) :
    fields sep (cs ++ sep :: ds) = fields sep cs ++ [ds] := by
  induction cs with
  | nil => simp [fields, fields_of_notMem h]
  | cons c cs ih =>
    rw [List.cons_append, fields, fields, ih]
    split
    · rfl
    · cases hf : fields sep cs with
      | nil => exact absurd hf (fields_ne_nil sep cs)
      | cons p ps => rfl

/-- No piece contains the separator. -/
theorem notMem_of_mem_fields {sep : Char} {cs p : List Char} (h : p ∈ fields sep cs) :
    sep ∉ p := by
  induction cs generalizing p with
  | nil =>
    obtain rfl := List.mem_singleton.1 h
    simp
  | cons c cs ih =>
    rw [fields] at h
    split at h
    · obtain rfl | h := List.mem_cons.1 h
      · simp
      · exact ih h
    next hc =>
      split at h
      next hf => exact absurd hf (fields_ne_nil sep cs)
      next q qs hf =>
        rw [hf] at ih
        obtain rfl | h := List.mem_cons.1 h
        · simpa [Ne.symm hc] using ih List.mem_cons_self
        · exact ih (List.mem_cons_of_mem _ h)

/-- The last piece stands behind a separator. -/
theorem joinFields_concat (sep : Char) {ps : List (List Char)} (hne : ps ≠ []) (p : List Char) :
    joinFields sep (ps ++ [p]) = joinFields sep ps ++ sep :: p := by
  induction ps with
  | nil => exact absurd rfl hne
  | cons q qs ih =>
    cases qs with
    | nil => rfl
    | cons r rs =>
      have hrest := ih (List.cons_ne_nil r rs)
      rw [List.cons_append] at hrest
      simp [joinFields, hrest]

/-- The last text stands behind a separator. -/
theorem intercalate_concat (sep x : String) {l : List String} (hne : l ≠ []) :
    sep.intercalate (l ++ [x]) = sep.intercalate l ++ (sep ++ x) := by
  induction l with
  | nil => exact absurd rfl hne
  | cons a l ih =>
    cases l with
    | nil =>
      show sep.intercalate [a, x] = _
      rw [String.intercalate_cons_cons, String.intercalate_singleton, String.intercalate_singleton,
        String.append_assoc]
    | cons b l =>
      show sep.intercalate (a :: b :: (l ++ [x])) = _
      rw [String.intercalate_cons_cons, String.intercalate_cons_cons, ← List.cons_append,
        ih (List.cons_ne_nil _ _), ← String.append_assoc]

end Stencil.Text
