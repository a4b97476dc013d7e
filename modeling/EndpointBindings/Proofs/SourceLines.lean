import EndpointBindings.Proofs.SourceCharacters

/-!
The lines of emitted source, from which it can be read back what the source declares. No text of a
document breaks a line, so the lines that were planned are the lines of the source.
-/

namespace EndpointBindings.Emission

open EndpointBindings.Naming EndpointBindings.Text

/-- The lines of a source. -/
def sourceLines (source : String) : List String := (source.toList.splitOn '\n').map String.ofList

/-- The lines between the first of two lines and the next one that is the second. -/
def linesBetween (first last : String) (lines : List String) : List String :=
  ((lines.dropWhile (· ≠ first)).drop 1).takeWhile (· ≠ last)

/-- What a line of a list in brackets holds, behind its indentation and without its comma. -/
def listedItem (indent : String) (line : String) : String :=
  String.ofList (line.toList.drop indent.length).dropLast

section Reading

variable {first last : String} {before middle after lines : List String}

theorem dropWhile_ne (h : first ∉ before) :
    (before ++ first :: after).dropWhile (· ≠ first) = first :: after := by
  rw [List.dropWhile_append_of_pos fun l hl => ?_]
  · simp
  · simpa using ne_of_mem_of_not_mem hl h

theorem linesBetween_eq (hbefore : first ∉ before) (hmiddle : last ∉ middle) :
    linesBetween first last (before ++ first :: (middle ++ last :: after)) = middle := by
  rw [linesBetween, dropWhile_ne hbefore, List.drop_one, List.tail_cons,
    List.takeWhile_append_of_pos fun l hl => ?_]
  · simp
  · simpa using ne_of_mem_of_not_mem hl hmiddle

theorem linesBetween_eq_nil (h : first ∉ lines) : linesBetween first last lines = [] := by
  have hdrop : lines.dropWhile (· ≠ first) = [] := by
    rw [List.dropWhile_eq_nil_iff]
    intro l hl
    simpa using ne_of_mem_of_not_mem hl h
  rw [linesBetween, hdrop]
  rfl

theorem listedItem_eq (indent a : String) : listedItem indent (indent ++ a ++ ",") = a := by
  have hline : (indent ++ a ++ ",").toList.drop indent.length = a.toList ++ [','] := by
    rw [String.append_assoc, String.toList_append, List.drop_left' String.length_toList]
    exact String.toList_append
  rw [listedItem, hline, List.dropLast_concat, String.ofList_toList]

end Reading

section Lines

/-- Text on one line. -/
def IsLine (s : String) : Prop := '\n' ∉ s.toList

variable {a b : String} {l lines : List String}

instance : Decidable (IsLine a) := inferInstanceAs (Decidable ('\n' ∉ a.toList))

theorem IsLine.append (ha : IsLine a) (hb : IsLine b) : IsLine (a ++ b) := by
  rw [IsLine, String.toList_append, List.mem_append, not_or]
  exact ⟨ha, hb⟩

theorem IsBare.isLine (h : IsBare a) : IsLine a := fun hmem => (h _ hmem).2 rfl

theorem IsShown.isLine (h : IsShown a) : IsLine a := h.not_mem (by decide)

theorem isLine_intercalate (ha : IsLine a) (hl : ∀ b ∈ l, IsLine b) : IsLine (a.intercalate l) := by
  intro hmem
  obtain ⟨b, hb, hmem⟩ := (mem_toList_intercalate ha).mp hmem
  exact hl b hb hmem

theorem sourceLines_singleton (h : IsLine a) : sourceLines a = [a] := by
  rw [sourceLines, List.splitOn_eq_singleton h]
  simp

theorem sourceLines_append_end : sourceLines (a ++ "\n" ++ b) = sourceLines a ++ sourceLines b := by
  have hend : (a ++ "\n" ++ b).toList = a.toList ++ '\n' :: b.toList := by simp
  rw [sourceLines, hend, List.splitOn_append_cons_self, List.map_append]
  rfl

/-- The lines of a source are those that it is made of. -/
theorem sourceLines_joinLines (hne : lines ≠ []) (h : ∀ l ∈ lines, IsLine l) :
    sourceLines (joinLines lines) = lines := by
  induction lines with
  | nil => exact absurd rfl hne
  | cons l rest ih =>
      obtain ⟨hl, hrest⟩ := List.forall_mem_cons.mp h
      unfold joinLines
      cases rest with
      | nil =>
          rw [String.intercalate_singleton]
          exact sourceLines_singleton hl
      | cons m more =>
          rw [String.intercalate_cons_cons, sourceLines_append_end, sourceLines_singleton hl]
          exact congrArg (l :: ·) (ih (List.cons_ne_nil _ _) hrest)

theorem sourceLines_endLines :
    sourceLines (endLines lines) = lines.flatMap sourceLines ++ [""] := by
  induction lines with
  | nil => exact sourceLines_singleton (by decide)
  | cons l rest ih =>
      rw [endLines_cons, sourceLines_append_end, ih, List.flatMap_cons, List.append_assoc]

theorem sourceLines_endLines_of_isLine (h : ∀ l ∈ lines, IsLine l) :
    sourceLines (endLines lines) = lines ++ [""] := by
  have hflat : lines.flatMap sourceLines = lines := by
    rw [List.flatMap_congr fun l hl => sourceLines_singleton (h l hl), List.flatMap_singleton']
  rw [sourceLines_endLines, hflat]

end Lines

section Emitted

variable {f : Function} {fields : List Field} {e : Endpoint} {name cls : String}

theorem isLine_docstringText (text : String) : IsLine (docstringText text) := by
  intro hmem
  exact absurd ((mem_docstringText_iff (by decide)).mp hmem).2 (by decide)

/-- No line of a function is broken by a text of its document. -/
theorem isLine_of_mem_lines (h : f.IsNamed) : ∀ l ∈ f.lines, IsLine l := by
  intro l hl hmem
  obtain ⟨doc, hdoc, hmem⟩ := (occurs_functionLines h (by decide)).mp ⟨l, hl, hmem⟩
  obtain ⟨text, -, rfl⟩ := List.mem_map.mp hdoc
  exact isLine_docstringText text hmem

theorem sourceLines_render (h : f.IsNamed) : sourceLines f.render = f.lines :=
  sourceLines_joinLines (by rw [lines_eq]; simp) (isLine_of_mem_lines h)

theorem isLine_of_mem_paramsClassLines (h : ∀ f ∈ fields, IsNameText f.name) :
    ∀ l ∈ paramsClassLines name fields, IsLine l := by
  intro l hl hmem
  rcases (occurs_paramsClassLines h (by decide)).mp ⟨l, hl, hmem⟩ with hmem | ⟨doc, hdoc, hmem⟩
  · exact isLine_docstringText _ hmem
  · obtain ⟨f, -, rfl⟩ := List.mem_map.mp hdoc
    exact isLine_docstringText _ hmem

/-- The class of an endpoint, where it is emitted, has a line for each field. -/
theorem sourceLines_paramsClass (hname : e.name = some name) (h : paramsClass e = .ok cls) :
    sourceLines cls = paramsClassLines name (fieldsOf e) := by
  rw [paramsClass, hname] at h
  dsimp only at h
  split at h
  · simp at h
  · obtain rfl := Except.ok.inj h
    exact sourceLines_joinLines (List.cons_ne_nil _ _)
      (isLine_of_mem_paramsClassLines fun f hf => isNameText_of_mem_fieldsOf hf)

end Emitted

end EndpointBindings.Emission
