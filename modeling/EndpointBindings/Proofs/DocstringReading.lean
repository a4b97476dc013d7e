import EndpointBindings.Proofs.SourceCharacters

/-!
What a docstring reads. The text that stands between its quotes is read as characters, bare or
behind a backslash; they give the words of the text back, and no three of them end the docstring
before its own quotes do.
-/

namespace EndpointBindings.Emission

open EndpointBindings.Text

/-- The characters at which a text is cut into lines. -/
def isLineBreak (c : Char) : Bool :=
  let n := c.toNat
  (10 ≤ n && n ≤ 13) || (28 ≤ n && n ≤ 30) || n == 0x85 || n == 0x2028 || n == 0x2029

/-- The words of a text, what stands between its blanks, with one space between them. -/
def spaced (text : String) : List Char :=
  [' '].intercalate ((text.toList.splitOnP isBlank).filter (· ≠ []))

/-- A character between the quotes of a docstring, as it is or behind a backslash. -/
inductive DocChar where
  | bare (c : Char)
  | escaped (c : Char)
  deriving DecidableEq, Repr

/-- The character that is read. -/
def DocChar.char : DocChar → Char
  | bare c => c
  | escaped c => c

/-- A character as it is written. -/
def DocChar.write : DocChar → List Char
  | bare c => [c]
  | escaped c => ['\\', c]

/-- Reads what stands between the quotes of a docstring; a backslash must have a character
behind it. -/
def readDoc? : List Char → Option (List DocChar)
  | [] => some []
  | ['\\'] => none
  | '\\' :: c :: rest => (readDoc? rest).map (.escaped c :: ·)
  | c :: rest => (readDoc? rest).map (.bare c :: ·)

/-- The characters that escaped text is read as. -/
def docChars : List Char → List DocChar
  | [] => []
  | '"' :: '"' :: '"' :: rest => .escaped '"' :: .escaped '"' :: .escaped '"' :: docChars rest
  | '\\' :: rest => .escaped '\\' :: docChars rest
  | c :: rest => .bare c :: docChars rest

/-- Three quotes that would end a docstring. -/
def closingQuotes : List DocChar := [.bare '"', .bare '"', .bare '"']

section Words

variable {separates : Char → Bool} {c : Char} {cs : List Char}

theorem splitOnP_cons_of_pos (hc : separates c = true) :
    (c :: cs).splitOnP separates = [] :: cs.splitOnP separates := by
  rw [List.splitOnP_cons_eq_if_modifyHead, if_pos hc]

theorem splitOnP_cons_of_neg (hc : separates c = false) :
    (c :: cs).splitOnP separates = (cs.splitOnP separates).modifyHead (c :: ·) := by
  rw [List.splitOnP_cons_eq_if_modifyHead, if_neg (by simp [hc])]

theorem consWord_false (ws : List (List Char)) : consWord c false ws = [c] :: ws := by
  cases ws <;> rfl

/-- The words of a text are the nonempty pieces between what separates them. -/
theorem runs_eq_filter_splitOnP (separates : Char → Bool) (cs : List Char) :
    runs separates cs = (cs.splitOnP separates).filter (· ≠ []) := by
  induction cs with
  | nil => simp [runs, List.splitOnP_nil]
  | cons c rest ih =>
      cases hc : separates c with
      | true =>
          rw [runs_cons_of_separates hc, splitOnP_cons_of_pos hc, ih]
          simp
      | false =>
          rw [runs_cons hc, splitOnP_cons_of_neg hc, ih]
          cases rest with
          | nil => simp [consWord, List.splitOnP_nil]
          | cons d more =>
              cases hd : separates d with
              | true =>
                  rw [splitOnP_cons_of_pos hd]
                  simp [hd, consWord_false]
              | false =>
                  -- The word that `d` starts is the one that `c` is put in front of.
                  obtain ⟨w, ws, hw⟩ :=
                    List.exists_cons_of_ne_nil (List.splitOnP_ne_nil separates more)
                  rw [splitOnP_cons_of_neg hd, hw]
                  simp [hd, consWord]

theorem oneLine_eq_spaced (text : String) : oneLine text.toList = spaced text := by
  rw [oneLine, spaced, words, runs_eq_filter_splitOnP]

end Words

section Reading

variable {c : Char} {cs : List Char} {ds : List DocChar}

theorem readDoc?_cons (hc : c ≠ '\\') :
    readDoc? (c :: cs) = (readDoc? cs).map (.bare c :: ·) :=
  readDoc?.eq_4 c cs (fun h => absurd h hc) (fun _ _ h => absurd h hc)

/-- Written characters are read back, unless a backslash stands among them without a character
behind it. -/
theorem readDoc?_flatMap_write (h : .bare '\\' ∉ ds) :
    readDoc? (ds.flatMap DocChar.write) = some ds := by
  induction ds with
  | nil => rfl
  | cons d rest ih =>
      have hrest := ih fun hmem => h (List.mem_cons_of_mem _ hmem)
      rw [List.flatMap_cons]
      cases d with
      | bare c =>
          have hc : c ≠ '\\' := by
            rintro rfl
            exact h List.mem_cons_self
          rw [DocChar.write, List.singleton_append, readDoc?_cons hc, hrest, Option.map_some]
      | escaped c =>
          rw [DocChar.write, List.cons_append, List.singleton_append, readDoc?, hrest,
            Option.map_some]

/-- Written characters end in the character that is read last. -/
theorem getLast?_flatMap_write (ds : List DocChar) :
    (ds.flatMap DocChar.write).getLast? = ds.getLast?.map DocChar.char := by
  rcases List.eq_nil_or_concat ds with rfl | ⟨before, d, rfl⟩
  · rfl
  · rw [List.concat_eq_append, List.flatMap_append, List.getLast?_concat, Option.map_some,
      List.getLast?_append]
    cases d <;> rfl

end Reading

section Escaping

variable {c : Char} {cs : List Char} {more : List DocChar}

theorem flatMap_write_docChars (cs : List Char) :
    (docChars cs).flatMap DocChar.write = escapeDoc cs := by
  fun_induction docChars cs with
  | case1 => rfl
  | case2 rest ih => rw [escapeDoc, ← ih]; rfl
  | case3 rest ih => rw [escapeDoc, ← ih]; rfl
  | case4 c rest hquotes hslash ih => rw [escapeDoc.eq_4 c rest hquotes hslash, ← ih]; rfl

theorem map_char_docChars (cs : List Char) : (docChars cs).map DocChar.char = cs := by
  fun_induction docChars cs with
  | case1 => rfl
  | case2 rest ih => simp [DocChar.char, ih]
  | case3 rest ih => simp [DocChar.char, ih]
  | case4 c rest _ _ ih => simp [DocChar.char, ih]

theorem bare_backslash_notMem_docChars (cs : List Char) : .bare '\\' ∉ docChars cs := by
  fun_induction docChars cs with
  | case1 => simp
  | case2 rest ih => simpa using ih
  | case3 rest ih => simpa using ih
  | case4 c rest _ hslash ih => simpa [ih, eq_comm] using hslash

theorem eq_of_escaped_mem_docChars (h : .escaped c ∈ docChars cs) : c = '\\' ∨ c = '"' := by
  fun_induction docChars cs with
  | case1 => simp at h
  | case2 rest ih =>
      simp only [List.mem_cons, DocChar.escaped.injEq] at h
      rcases h with h | h | h | h
      · exact .inr h
      · exact .inr h
      · exact .inr h
      · exact ih h
  | case3 rest ih =>
      simp only [List.mem_cons, DocChar.escaped.injEq] at h
      exact h.elim .inl ih
  | case4 d rest _ _ ih => exact ih (by simpa using h)

/-- A bare quote in front is a quote of the text. -/
theorem eq_cons_of_docChars_eq (h : docChars cs = .bare '"' :: more) :
    ∃ ds, cs = '"' :: ds ∧ docChars ds = more := by
  fun_cases docChars cs with
  | case1 => simp [docChars] at h
  | case2 rest => simp [docChars] at h
  | case3 rest => simp [docChars] at h
  | case4 c rest hquotes hslash =>
      rw [docChars.eq_4 c rest hquotes hslash] at h
      obtain ⟨hc, hmore⟩ := List.cons.inj h
      exact ⟨rest, by rw [DocChar.bare.inj hc], hmore⟩

theorem not_closingQuotes_infix_docChars (cs : List Char) : ¬closingQuotes <:+: docChars cs := by
  fun_induction docChars cs with
  | case1 => simp [closingQuotes]
  | case2 rest ih => simpa [closingQuotes, List.infix_cons_iff] using ih
  | case3 rest ih => simpa [closingQuotes, List.infix_cons_iff] using ih
  | case4 c rest hquotes hslash ih =>
      rw [List.infix_cons_iff, not_or]
      refine ⟨?_, ih⟩
      -- Three quotes at the head would be three of the text, which are escaped together.
      rintro ⟨tail, htail⟩
      obtain ⟨hc, hrest⟩ := List.cons.inj htail
      obtain ⟨ds, rfl, hds⟩ := eq_cons_of_docChars_eq hrest.symm
      obtain ⟨es, rfl, -⟩ := eq_cons_of_docChars_eq hds
      exact hquotes es (DocChar.bare.inj hc).symm rfl

end Escaping

/-- What stands between the quotes of a docstring is one line, which is read as `chars` up to the
quotes that close it. -/
structure IsDocText (doc : String) (chars : List DocChar) : Prop where
  oneLine : ∀ c ∈ doc.toList, isLineBreak c = false
  reads : readDoc? doc.toList = some chars
  unclosed : ¬closingQuotes <:+: chars
  ended : chars.getLast? ≠ some (.bare '"')
  silent : IsSilent doc

section Docstring

variable {c : Char} {d : DocChar} {ds : List DocChar}

/-- The blank that keeps a last quote from those that close the docstring. -/
def guardChars (ds : List DocChar) : List DocChar :=
  if ds.getLast?.map DocChar.char = some '"' then ds ++ [.bare ' '] else ds

theorem flatMap_write_guardChars (ds : List DocChar) :
    (guardChars ds).flatMap DocChar.write = guardEnd (ds.flatMap DocChar.write) := by
  rw [guardChars, guardEnd, getLast?_flatMap_write]
  split
  · rw [List.flatMap_append]
    rfl
  · rfl

theorem map_char_guardChars (ds : List DocChar) :
    (guardChars ds).map DocChar.char = guardEnd (ds.map DocChar.char) := by
  rw [guardChars, guardEnd, List.getLast?_map]
  split
  · rw [List.map_append]
    rfl
  · rfl

theorem getLast?_guardChars (ds : List DocChar) :
    (guardChars ds).getLast? ≠ some (.bare '"') := by
  rw [guardChars]
  split
  · simp
  · rename_i hlast
    intro hbare
    exact hlast (by rw [hbare]; rfl)

theorem not_closingQuotes_infix_guardChars (h : ¬closingQuotes <:+: ds) :
    ¬closingQuotes <:+: guardChars ds := by
  rw [guardChars]
  split
  · rw [List.infix_concat_iff, not_or]
    refine ⟨fun hsuffix => ?_, h⟩
    have hlast := hsuffix.getLast (by simp [closingQuotes])
    simp [closingQuotes] at hlast
  · exact h

theorem mem_guardChars (h : d ∈ guardChars ds) : d ∈ ds ∨ d = .bare ' ' := by
  rw [guardChars] at h
  split at h
  · simpa using h
  · exact .inl h

theorem isLineBreak_eq_false_of_mem_docstringText {text : String}
    (h : c ∈ (docstringText text).toList) : isLineBreak c = false := by
  by_contra hbreak
  have hline : isBlank c = true ∧ Escaped.isAsciiShown c = false := by
    simp only [isLineBreak, isBlank, Escaped.isAsciiShown, Bool.not_eq_false, Bool.or_eq_true,
      Bool.and_eq_true, Bool.and_eq_false_iff, decide_eq_true_eq, decide_eq_false_iff_not,
      beq_iff_eq] at hbreak ⊢
    omega
  have hshown := ((mem_docstringText_iff hline.2).mp h).2
  rw [hline.1] at hshown
  exact absurd hshown (by decide)

/-- Every text can stand in a docstring: it is read there as its words with one space between them,
and with one more at the end when a quote would otherwise be the last character. Nothing but
backslashes and quotes is escaped. -/
theorem docstringText_reads (text : String) :
    ∃ chars, IsDocText (docstringText text) chars ∧
      (∀ c, .escaped c ∈ chars → c = '\\' ∨ c = '"') ∧
      chars.map DocChar.char =
        spaced text ++ if (spaced text).getLast? = some '"' then [' '] else [] := by
  have hwritten : (docstringText text).toList =
      (guardChars (docChars (spaced text))).flatMap DocChar.write := by
    rw [docstringText, String.toList_ofList, oneLine_eq_spaced, flatMap_write_guardChars,
      flatMap_write_docChars]
  have hslash : .bare '\\' ∉ guardChars (docChars (spaced text)) := fun hmem =>
    (mem_guardChars hmem).elim (bare_backslash_notMem_docChars _) (by simp)
  refine ⟨guardChars (docChars (spaced text)), ⟨?_, ?_, ?_, ?_, ?_⟩, ?_, ?_⟩
  · exact fun c => isLineBreak_eq_false_of_mem_docstringText
  · rw [hwritten, readDoc?_flatMap_write hslash]
  · exact not_closingQuotes_infix_guardChars (not_closingQuotes_infix_docChars _)
  · exact getLast?_guardChars _
  · exact isSilent_docstringText text
  · intro c hmem
    exact (mem_guardChars hmem).elim eq_of_escaped_mem_docChars (by simp)
  · rw [map_char_guardChars, map_char_docChars, guardEnd]
    split
    · rfl
    · rw [List.append_nil]

end Docstring

end EndpointBindings.Emission
