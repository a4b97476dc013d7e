import Mathlib.Data.List.Forall2
import EndpointBindings.Emission.Docstring
import EndpointBindings.Emission.Source
import EndpointBindings.Text.Escaped

/-!
Source text without what stands inside its string literals. Two texts that differ in literals only
have one skeleton; `Same` says so of pieces of source, and holds of a whole as it holds of its
pieces.
-/

namespace EndpointBindings.Emission

open EndpointBindings.Text

/-- Outside of literals, inside one between single double quotes, or inside one between three. -/
inductive Place where
  | code
  | short
  | long
  deriving DecidableEq, Repr

/-- Source with its literals emptied. Inside a literal a backslash goes with the next character, and
a short literal does not go past its line. -/
def skeletonFrom : Place → List Char → List Char
  | _, [] => []
  | .code, '"' :: '"' :: '"' :: rest => '"' :: '"' :: '"' :: skeletonFrom .long rest
  | .code, '"' :: rest => '"' :: skeletonFrom .short rest
  | .code, c :: rest => c :: skeletonFrom .code rest
  | .short, '\\' :: _ :: rest => skeletonFrom .short rest
  | .short, '"' :: rest => '"' :: skeletonFrom .code rest
  | .short, '\n' :: rest => '\n' :: skeletonFrom .code rest
  | .short, _ :: rest => skeletonFrom .short rest
  | .long, '\\' :: _ :: rest => skeletonFrom .long rest
  | .long, '"' :: '"' :: '"' :: rest => '"' :: '"' :: '"' :: skeletonFrom .code rest
  | .long, _ :: rest => skeletonFrom .long rest

def skeleton (source : String) : String := String.ofList (skeletonFrom .code source.toList)

example : skeleton "f(\"a\\\"b\", \"\") + \"\"\"c\"d\"\"\"" = "f(\"\", \"\") + \"\"\"\"\"\"" := by
  decide

section Steps

attribute [local simp] skeletonFrom

variable {c : Char} {rest : List Char}

theorem skeletonFrom_code_cons (h : c ≠ '"') :
    skeletonFrom .code (c :: rest) = c :: skeletonFrom .code rest := by
  simp [h]

theorem skeletonFrom_code_literal (h : rest.head? ≠ some '"') :
    skeletonFrom .code ('"' :: '"' :: rest) = '"' :: '"' :: skeletonFrom .code rest := by
  cases rest with
  | nil => rfl
  | cons c rest =>
      have hc : c ≠ '"' := by simpa using h
      simp [hc]

theorem skeletonFrom_code_quote (h : c ≠ '"') :
    skeletonFrom .code ('"' :: c :: rest) = '"' :: skeletonFrom .short (c :: rest) := by
  rw [skeletonFrom]
  simp [h]

theorem skeletonFrom_short_escape :
    skeletonFrom .short ('\\' :: c :: rest) = skeletonFrom .short rest := by
  rw [skeletonFrom]

theorem skeletonFrom_short_quote :
    skeletonFrom .short ('"' :: rest) = '"' :: skeletonFrom .code rest := by
  simp

theorem skeletonFrom_short_cons (hquote : c ≠ '"') (hslash : c ≠ '\\') (hend : c ≠ '\n') :
    skeletonFrom .short (c :: rest) = skeletonFrom .short rest := by
  rw [skeletonFrom]
  · simp [hslash]
  · exact hquote
  · exact hend

theorem skeletonFrom_long_escape :
    skeletonFrom .long ('\\' :: c :: rest) = skeletonFrom .long rest := by
  rw [skeletonFrom]

theorem skeletonFrom_long_cons (hquote : c ≠ '"') (hslash : c ≠ '\\') :
    skeletonFrom .long (c :: rest) = skeletonFrom .long rest := by
  simp [hquote, hslash]

theorem skeletonFrom_long_quote (h : ∀ more, rest ≠ '"' :: '"' :: more) :
    skeletonFrom .long ('"' :: rest) = skeletonFrom .long rest := by
  simp [h]

end Steps

section Literals

variable {c : Char} {cs rest : List Char} {text : String}

theorem hexDigit_short (n : Nat) : hexDigit n ≠ '"' ∧ hexDigit n ≠ '\\' ∧ hexDigit n ≠ '\n' := by
  have hall : "0123456789abcdef".toList.all (fun d => d ≠ '"' ∧ d ≠ '\\' ∧ d ≠ '\n') = true := by
    decide
  unfold hexDigit
  rw [List.getD_eq_getElem?_getD]
  cases hd : "0123456789abcdef".toList[n]? with
  | none => decide
  | some d => simpa using List.all_eq_true.mp hall d (List.mem_of_getElem? hd)

theorem skeletonFrom_short_hexDigits (width n : Nat) :
    skeletonFrom .short (hexDigits width n ++ rest) = skeletonFrom .short rest := by
  induction width generalizing n rest with
  | zero => rfl
  | succ width ih =>
      obtain ⟨hquote, hslash, hend⟩ := hexDigit_short (n % 16)
      rw [hexDigits, List.append_assoc, ih]
      exact skeletonFrom_short_cons hquote hslash hend

theorem skeletonFrom_short_escapeUnit (n : Nat) :
    skeletonFrom .short (Escaped.escapeUnit n ++ rest) = skeletonFrom .short rest := by
  unfold Escaped.escapeUnit
  rw [List.cons_append, List.cons_append, skeletonFrom_short_escape]
  exact skeletonFrom_short_hexDigits 4 n

theorem skeletonFrom_short_escapeChar (c : Char) :
    skeletonFrom .short (Escaped.escapeChar c ++ rest) = skeletonFrom .short rest := by
  unfold Escaped.escapeChar
  dsimp only
  split
  · exact skeletonFrom_short_escapeUnit _
  · rw [List.append_assoc, skeletonFrom_short_escapeUnit]
    exact skeletonFrom_short_escapeUnit _

theorem shortEscape?_eq_none (h : Escaped.shortEscape? c = none) :
    c ≠ '"' ∧ c ≠ '\\' ∧ c ≠ '\n' := by
  unfold Escaped.shortEscape? at h
  split_ifs at h
  simp_all

theorem skeletonFrom_short_writeChar (c : Char) :
    skeletonFrom .short (Escaped.writeChar Escaped.isAsciiShown c ++ rest) =
      skeletonFrom .short rest := by
  unfold Escaped.writeChar
  split
  · exact skeletonFrom_short_escape
  · rename_i hnone
    obtain ⟨hquote, hslash, hend⟩ := shortEscape?_eq_none hnone
    split
    · exact skeletonFrom_short_cons hquote hslash hend
    · exact skeletonFrom_short_escapeChar c

theorem skeletonFrom_short_written :
    skeletonFrom .short (cs.flatMap (Escaped.writeChar Escaped.isAsciiShown) ++ rest) =
      skeletonFrom .short rest := by
  induction cs with
  | nil => rfl
  | cons c more ih =>
      rw [List.flatMap_cons, List.append_assoc, skeletonFrom_short_writeChar]
      exact ih

/-- What is written of a character does not begin with a quote. -/
theorem exists_writeChar_eq (c : Char) :
    ∃ d more, Escaped.writeChar Escaped.isAsciiShown c = d :: more ∧ d ≠ '"' := by
  unfold Escaped.writeChar
  split
  · exact ⟨_, _, rfl, by decide⟩
  · rename_i hnone
    split
    · exact ⟨_, _, rfl, (shortEscape?_eq_none hnone).1⟩
    · unfold Escaped.escapeChar Escaped.escapeUnit
      dsimp only
      split
      · exact ⟨_, _, rfl, by decide⟩
      · exact ⟨_, _, rfl, by decide⟩

/-- A literal leaves its quotes only, whatever its text, unless a quote follows that would make a
long literal of an empty one. -/
theorem skeletonFrom_code_ascii (h : rest.head? ≠ some '"') :
    skeletonFrom .code ((Escaped.ascii text).toList ++ rest) =
      '"' :: '"' :: skeletonFrom .code rest := by
  unfold Escaped.ascii Escaped.write
  rw [String.toList_ofList]
  cases text.toList with
  | nil => exact skeletonFrom_code_literal h
  | cons c more =>
      obtain ⟨d, ds, hd, hquote⟩ := exists_writeChar_eq c
      have hshort := @skeletonFrom_short_written (c :: more) ('"' :: rest)
      rw [List.flatMap_cons, hd] at hshort
      rw [List.flatMap_cons, hd]
      simp only [List.cons_append, List.append_assoc, List.nil_append] at hshort ⊢
      rw [skeletonFrom_code_quote hquote, hshort, skeletonFrom_short_quote]

end Literals

section Docstrings

variable {c : Char} {cs rest : List Char} {a b : String}

/-- Characters of which none is a quote or a backslash. -/
def ArePlain (cs : List Char) : Prop := ∀ c ∈ cs, c ≠ '"' ∧ c ≠ '\\'

instance : Decidable (ArePlain cs) := List.decidableBAll (fun c => c ≠ '"' ∧ c ≠ '\\') cs

/-- Text without quotes and backslashes. -/
def IsPlain (s : String) : Prop := ArePlain s.toList

instance : Decidable (IsPlain a) := inferInstanceAs (Decidable (ArePlain a.toList))

/-- Text that can stand anywhere in a docstring without ending it. -/
def IsSilent (s : String) : Prop :=
  ∀ rest, skeletonFrom .long (s.toList ++ rest) = skeletonFrom .long rest

theorem ArePlain.append {ds : List Char} (hc : ArePlain cs) (hd : ArePlain ds) :
    ArePlain (cs ++ ds) := by
  intro c h
  rcases List.mem_append.mp h with h | h
  · exact hc c h
  · exact hd c h

theorem ArePlain.cons (hc : c ≠ '"' ∧ c ≠ '\\') (h : ArePlain cs) : ArePlain (c :: cs) :=
  List.forall_mem_cons.mpr ⟨hc, h⟩

theorem ArePlain.of_subset {ds : List Char} (hc : ArePlain cs) (h : ds ⊆ cs) : ArePlain ds :=
  fun c hd => hc c (h hd)

theorem IsPlain.append (ha : IsPlain a) (hb : IsPlain b) : IsPlain (a ++ b) := by
  unfold IsPlain
  rw [String.toList_append]
  exact ArePlain.append ha hb

theorem isPlain_intercalate {l : List String} (ha : IsPlain a) (hl : ∀ b ∈ l, IsPlain b) :
    IsPlain (a.intercalate l) := by
  induction l with
  | nil => simpa using (by decide : IsPlain "")
  | cons b rest ih =>
      have hrest := ih fun c hc => hl c (List.mem_cons_of_mem _ hc)
      have hb := hl b List.mem_cons_self
      cases rest with
      | nil =>
          rw [String.intercalate_singleton]
          exact hb
      | cons c more =>
          rw [String.intercalate_cons_cons]
          exact (hb.append ha).append hrest

theorem IsPlain.isSilent (h : IsPlain a) : IsSilent a := by
  unfold IsPlain at h
  intro rest
  generalize a.toList = cs at h
  induction cs with
  | nil => rfl
  | cons c more ih =>
      obtain ⟨hquote, hslash⟩ := h c List.mem_cons_self
      rw [List.cons_append, skeletonFrom_long_cons hquote hslash]
      exact ih fun d hd => h d (List.mem_cons_of_mem _ hd)

theorem IsSilent.append (ha : IsSilent a) (hb : IsSilent b) : IsSilent (a ++ b) := by
  intro rest
  rw [String.toList_append, List.append_assoc, ha, hb]

theorem isSilent_joinLines {lines : List String} (h : ∀ l ∈ lines, IsSilent l) :
    IsSilent (joinLines lines) := by
  have hend : IsSilent "\n" := IsPlain.isSilent (by decide)
  induction lines with
  | nil => exact IsPlain.isSilent (by decide)
  | cons l rest ih =>
      have hrest := ih fun m hm => h m (List.mem_cons_of_mem _ hm)
      have hl := h l List.mem_cons_self
      cases rest with
      | nil =>
          unfold joinLines
          rw [String.intercalate_singleton]
          exact hl
      | cons m more =>
          unfold joinLines
          rw [String.intercalate_cons_cons]
          exact (hl.append hend).append hrest

/-- What follows the text of a docstring does not turn a quote at its end into three. -/
def IsGuarded (cs rest : List Char) : Prop := cs.getLast? ≠ some '"' ∨ rest.head? ≠ some '"'

theorem IsGuarded.of_append (before : List Char) (h : IsGuarded (before ++ cs) rest) :
    IsGuarded cs rest := by
  cases cs with
  | nil => exact .inl (by simp)
  | cons c more =>
      unfold IsGuarded at h
      rwa [List.getLast?_append_of_ne_nil _ (List.cons_ne_nil c more)] at h

/-- A bare quote in front of an escaped text is one of the text itself. -/
theorem eq_cons_of_escapeDoc_eq {more : List Char} (h : escapeDoc cs ++ rest = '"' :: more) :
    (cs = [] ∧ rest = '"' :: more) ∨
      ∃ ds, cs = '"' :: ds ∧ escapeDoc cs = '"' :: escapeDoc ds ∧
        escapeDoc ds ++ rest = more := by
  fun_cases escapeDoc cs with
  | case1 => exact .inl ⟨rfl, h⟩
  | case2 ds => simp [escapeDoc] at h
  | case3 ds => simp [escapeDoc] at h
  | case4 c ds hquotes hslash =>
      rw [escapeDoc.eq_4 c ds hquotes hslash, List.cons_append] at h
      obtain ⟨rfl, hmore⟩ := List.cons.inj h
      exact .inr ⟨ds, rfl, rfl, hmore⟩

theorem skeletonFrom_long_escapeDoc (h : IsGuarded (escapeDoc cs) rest) :
    skeletonFrom .long (escapeDoc cs ++ rest) = skeletonFrom .long rest := by
  fun_induction escapeDoc cs with
  | case1 => rfl
  | case2 more ih =>
      simp only [List.cons_append, skeletonFrom_long_escape]
      exact ih (.of_append ['\\', '"', '\\', '"', '\\', '"'] h)
  | case3 more ih =>
      simp only [List.cons_append, skeletonFrom_long_escape]
      exact ih (.of_append ['\\', '\\'] h)
  | case4 c more hquotes hslash ih =>
      have hmore := ih (.of_append [c] h)
      rw [List.cons_append]
      by_cases hc : c = '"'
      · subst hc
        rw [skeletonFrom_long_quote, hmore]
        -- Two more quotes would make three, so the text or what follows it stops before.
        intro tail htail
        rcases eq_cons_of_escapeDoc_eq htail with ⟨rfl, hrest⟩ | ⟨ds, rfl, hds, htail⟩
        · simp [IsGuarded, escapeDoc, hrest] at h
        · rcases eq_cons_of_escapeDoc_eq htail with ⟨rfl, hrest⟩ | ⟨es, rfl, -, -⟩
          · rw [hds] at h
            simp [IsGuarded, escapeDoc, hrest] at h
          · exact hquotes es rfl rfl
      · rw [skeletonFrom_long_cons hc hslash, hmore]

theorem isSilent_docstringText (text : String) : IsSilent (docstringText text) := by
  intro rest
  unfold docstringText guardEnd
  rw [String.toList_ofList]
  split
  · rw [List.append_assoc, skeletonFrom_long_escapeDoc (.inr (by simp))]
    exact skeletonFrom_long_cons (by decide) (by decide)
  · rename_i hlast
    exact skeletonFrom_long_escapeDoc (.inl hlast)

/-- A docstring leaves its quotes only. -/
theorem skeletonFrom_code_docstring (h : IsSilent a) :
    skeletonFrom .code (("\"\"\"" ++ a ++ "\"\"\"").toList ++ rest) =
      "\"\"\"\"\"\"".toList ++ skeletonFrom .code rest := by
  have hopen : ("\"\"\"" ++ a ++ "\"\"\"").toList ++ rest =
      '"' :: '"' :: '"' :: (a.toList ++ '"' :: '"' :: '"' :: rest) := by simp
  rw [hopen, skeletonFrom, h, skeletonFrom]
  rfl

end Docstrings

section Pieces

variable {a b c d : String} {l m : List String}

/-- Pieces of source that keep the skeletons of what follows them the same. -/
def Same (a b : String) : Prop :=
  ∀ r s, skeletonFrom .code r = skeletonFrom .code s →
    skeletonFrom .code (a.toList ++ r) = skeletonFrom .code (b.toList ++ s)

/-- Pieces that do so where no quote follows, as literals are. -/
def SameBefore (a b : String) : Prop :=
  ∀ r s, r.head? ≠ some '"' → s.head? ≠ some '"' → skeletonFrom .code r = skeletonFrom .code s →
    skeletonFrom .code (a.toList ++ r) = skeletonFrom .code (b.toList ++ s)

theorem Same.skeleton_eq (h : Same a b) : skeleton a = skeleton b := by
  have hall := h [] [] rfl
  rw [List.append_nil, List.append_nil] at hall
  exact congrArg String.ofList hall

theorem Same.before (h : Same a b) : SameBefore a b := fun r s _ _ hrs => h r s hrs

theorem Same.append (h : Same a b) (h' : Same c d) : Same (a ++ c) (b ++ d) := by
  intro r s hrs
  simp only [String.toList_append, List.append_assoc]
  exact h _ _ (h' r s hrs)

theorem Same.append_before (h : Same a b) (h' : SameBefore c d) :
    SameBefore (a ++ c) (b ++ d) := by
  intro r s hr hs hrs
  simp only [String.toList_append, List.append_assoc]
  exact h _ _ (h' r s hr hs hrs)

theorem skeletonFrom_code_plain (h : IsPlain a) (r : List Char) :
    skeletonFrom .code (a.toList ++ r) = a.toList ++ skeletonFrom .code r := by
  unfold IsPlain at h
  generalize a.toList = cs at h
  induction cs with
  | nil => rfl
  | cons c more ih =>
      rw [List.cons_append, skeletonFrom_code_cons (h c List.mem_cons_self).1,
        ih fun d hd => h d (List.mem_cons_of_mem _ hd)]
      rfl

theorem IsPlain.same (h : IsPlain a) : Same a a := by
  intro r s hrs
  rw [skeletonFrom_code_plain h, skeletonFrom_code_plain h, hrs]

/-- A literal is closed by any text without quotes that follows it. -/
theorem SameBefore.append (h : SameBefore a b) (hc : IsPlain c) (hne : c ≠ "") :
    Same (a ++ c) (b ++ c) := by
  have hhead : ∀ r, (c.toList ++ r).head? ≠ some '"' := by
    intro r hquote
    cases hcs : c.toList with
    | nil => exact hne (String.toList_eq_nil_iff.mp hcs)
    | cons d more =>
        rw [hcs] at hquote
        exact (hc d (hcs ▸ List.mem_cons_self)).1 (Option.some.inj hquote)
  intro r s hrs
  simp only [String.toList_append, List.append_assoc]
  exact h _ _ (hhead r) (hhead s) (hc.same r s hrs)

theorem sameBefore_ascii (a b : String) : SameBefore (Escaped.ascii a) (Escaped.ascii b) := by
  intro r s hr hs hrs
  rw [skeletonFrom_code_ascii hr, skeletonFrom_code_ascii hs, hrs]

theorem same_docstring (ha : IsSilent a) (hb : IsSilent b) :
    Same ("\"\"\"" ++ a ++ "\"\"\"") ("\"\"\"" ++ b ++ "\"\"\"") := by
  intro r s hrs
  rw [skeletonFrom_code_docstring ha, skeletonFrom_code_docstring hb, hrs]

/-- Pieces with one text between them, which keeps a literal from the next. -/
theorem SameBefore.intercalate (hc : IsPlain c) (hne : c ≠ "") (h : List.Forall₂ SameBefore l m) :
    SameBefore (c.intercalate l) (c.intercalate m) := by
  induction h with
  | nil => simpa using (IsPlain.same (by decide : IsPlain "")).before
  | cons hfirst hrest ih =>
      cases hrest with
      | nil =>
          rw [String.intercalate_singleton, String.intercalate_singleton]
          exact hfirst
      | cons hsecond hmore =>
          rw [String.intercalate_cons_cons, String.intercalate_cons_cons]
          exact (hfirst.append hc hne).append_before ih

theorem Same.intercalate (hc : IsPlain c) (h : List.Forall₂ Same l m) :
    Same (c.intercalate l) (c.intercalate m) := by
  induction h with
  | nil => simpa using IsPlain.same (by decide : IsPlain "")
  | cons hfirst hrest ih =>
      cases hrest with
      | nil =>
          rw [String.intercalate_singleton, String.intercalate_singleton]
          exact hfirst
      | cons hsecond hmore =>
          rw [String.intercalate_cons_cons, String.intercalate_cons_cons]
          exact (hfirst.append hc.same).append ih

end Pieces

section Lines

variable {a b indent : String} {l m l' m' : List String}

/-- Lines of source, the same when they stand behind one another. -/
def SameLines (l m : List String) : Prop :=
  (l = [] ∧ m = []) ∨ (l ≠ [] ∧ m ≠ [] ∧ Same (joinLines l) (joinLines m))

theorem SameLines.same (h : SameLines l m) : Same (joinLines l) (joinLines m) := by
  rcases h with ⟨rfl, rfl⟩ | ⟨-, -, h⟩
  · exact IsPlain.same (by decide)
  · exact h

theorem joinLines_append (hl : l ≠ []) (hm : m ≠ []) :
    joinLines (l ++ m) = joinLines l ++ "\n" ++ joinLines m :=
  String.intercalate_append_of_ne_nil hl hm

theorem SameLines.append (h : SameLines l m) (h' : SameLines l' m') :
    SameLines (l ++ l') (m ++ m') := by
  rcases h with ⟨rfl, rfl⟩ | ⟨hl, hm, h⟩
  · exact h'
  · rcases h' with ⟨rfl, rfl⟩ | ⟨hl', hm', h'⟩
    · rw [List.append_nil, List.append_nil]
      exact .inr ⟨hl, hm, h⟩
    · refine .inr ⟨by simp [hl], by simp [hm], ?_⟩
      rw [joinLines_append hl hl', joinLines_append hm hm']
      exact (h.append (IsPlain.same (by decide))).append h'

theorem SameLines.singleton (h : Same a b) : SameLines [a] [b] := by
  refine .inr ⟨List.cons_ne_nil _ _, List.cons_ne_nil _ _, ?_⟩
  unfold joinLines
  rw [String.intercalate_singleton, String.intercalate_singleton]
  exact h

theorem SameLines.of_forall₂ (h : List.Forall₂ Same l m) : SameLines l m := by
  induction h with
  | nil => exact .inl ⟨rfl, rfl⟩
  | cons hfirst _ ih => exact (SameLines.singleton hfirst).append ih

theorem SameLines.of_plain (h : ∀ a ∈ l, IsPlain a) : SameLines l l :=
  .of_forall₂ (List.forall₂_same.mpr fun a ha => (h a ha).same)

theorem endLines_cons : endLines (a :: l) = a ++ "\n" ++ endLines l := by
  unfold endLines
  rw [List.map_cons, String.join_cons]

theorem endLines_eq (hl : l ≠ []) : endLines l = joinLines l ++ "\n" := by
  induction l with
  | nil => exact absurd rfl hl
  | cons a rest ih =>
      rw [endLines_cons]
      unfold joinLines
      cases rest with
      | nil =>
          rw [String.intercalate_singleton]
          exact String.append_empty
      | cons b more =>
          rw [ih (List.cons_ne_nil _ _), String.intercalate_cons_cons, ← String.append_assoc]
          rfl

theorem SameLines.same_endLines (h : SameLines l m) : Same (endLines l) (endLines m) := by
  rcases h with ⟨rfl, rfl⟩ | ⟨hl, hm, h⟩
  · exact IsPlain.same (by decide)
  · rw [endLines_eq hl, endLines_eq hm]
    exact h.append (IsPlain.same (by decide))

/-- Lines that are one docstring behind an indentation. -/
def IsDocstring (indent : String) (lines : List String) : Prop :=
  lines ≠ [] ∧ ∃ text, IsSilent text ∧ joinLines lines = indent ++ ("\"\"\"" ++ text ++ "\"\"\"")

theorem isDocstring_singleton (ha : IsSilent a) :
    IsDocstring indent [indent ++ "\"\"\"" ++ a ++ "\"\"\""] := by
  refine ⟨List.cons_ne_nil _ _, a, ha, ?_⟩
  unfold joinLines
  rw [String.intercalate_singleton]
  simp only [String.append_assoc]

theorem joinLines_append_last : joinLines (l ++ [a ++ b]) = joinLines (l ++ [a]) ++ b := by
  unfold joinLines
  induction l with
  | nil => simp
  | cons x rest ih =>
      have hne : ∀ y : String, rest ++ [y] ≠ [] := by simp
      rw [List.cons_append, List.cons_append, String.intercalate_cons_of_ne_nil (hne _), ih,
        String.intercalate_cons_of_ne_nil (hne _), ← String.append_assoc]

theorem isDocstring_lines (hindent : IsPlain indent) (ha : IsSilent a)
    (hl : ∀ b ∈ l, IsSilent b) :
    IsDocstring indent ([indent ++ "\"\"\"" ++ a] ++ l ++ [indent ++ "\"\"\""]) := by
  refine ⟨by simp, joinLines (a :: l ++ [indent]), isSilent_joinLines fun b hb => ?_, ?_⟩
  · rcases List.mem_append.mp hb with hb | hb
    · rcases List.mem_cons.mp hb with rfl | hb
      · exact ha
      · exact hl b hb
    · exact List.mem_singleton.mp hb ▸ hindent.isSilent
  · rw [joinLines_append_last]
    unfold joinLines
    simp only [List.cons_append, List.nil_append, String.intercalate_cons_append,
      String.append_assoc]

theorem sameLines_docstring (hindent : IsPlain indent) (hl : IsDocstring indent l)
    (hm : IsDocstring indent m) : SameLines l m := by
  obtain ⟨hl, a, ha, hla⟩ := hl
  obtain ⟨hm, b, hb, hmb⟩ := hm
  refine .inr ⟨hl, hm, ?_⟩
  rw [hla, hmb]
  exact hindent.same.append (same_docstring ha hb)

end Lines

end EndpointBindings.Emission
