import Mathlib.Algebra.Group.Nat.Defs
import Mathlib.Data.List.Induction
import EndpointBindings.Proofs.LiteralReading
import EndpointBindings.Proofs.SourceSkeleton
import EndpointBindings.Proofs.TextUnits

/-!
What the literals of emitted source stand for when it is run. The escapes of a character past the
first plane stand for its two surrogates and not for the character.
-/

namespace EndpointBindings.Emission

open EndpointBindings.Text EndpointBindings.Number

section Texts

variable {named : String → Option Nat} {cs rest : List Char} {c : Char} {s : String}

theorem hexValue_append_hexDigit {n d : Nat} (h : hexValue cs = some n) (hd : d < 16) :
    hexValue (cs ++ [hexDigit d]) = some (n * 16 + d) := by
  have hdigit : ∀ e : Fin 16, (asciiDigitValue? (hexDigit e)).filter (· < 16) = some e.val := by
    decide
  obtain ⟨ds, hds, rfl⟩ := Option.map_eq_some_iff.mp h
  rw [hexValue, List.mapM_append, hds]
  simp [hdigit ⟨d, hd⟩, ofDigits_append]

theorem hexValue_hexDigits (width n : Nat) :
    hexValue (hexDigits width n) = some (n % 16 ^ width) := by
  induction width generalizing n with
  | zero => simp [hexDigits, hexValue, ofDigits, Nat.mod_one]
  | succ width ih =>
      rw [hexDigits, hexValue_append_hexDigit (ih _) (Nat.mod_lt _ (by decide)), Nat.pow_succ',
        Nat.mod_mul]
      congr 1
      omega

theorem readEscape?_escapeUnit {n : Nat} (h : n < 0x10000) :
    readEscape? named ('u' :: (hexDigits 4 n ++ rest)) = some ([n], rest) := by
  have hlength := length_hexDigits 4 n
  have hpoint : readPoint? 4 (hexDigits 4 n ++ rest) = some (n, rest) := by
    rw [readPoint?, List.take_left' hlength, List.drop_left' hlength, hexValue_hexDigits]
    have hmod : n % 16 ^ 4 = n := Nat.mod_eq_of_lt h
    have hmax : n ≤ 0x10ffff := by omega
    rw [hmod]
    simp [hmax, hlength]
  simp [readEscape?, shortPoint?, readCode?, hpoint]

theorem readBody?_quote : readBody? named ('"' :: rest) = some ([], rest) := by
  rw [readBody?, if_pos rfl]

theorem readBody?_escape {more : List Char} {ps : List Nat}
    (h : readEscape? named cs = some (ps, more)) :
    readBody? named ('\\' :: cs) = (readBody? named more).map fun r => (ps ++ r.1, r.2) := by
  rw [readBody?, if_neg (by decide), if_pos rfl]
  split
  · simp_all
  · simp_all

theorem readBody?_cons (hquote : c ≠ '"') (hslash : c ≠ '\\')
    (hend : ¬(c = '\n' ∨ c = '\r' ∨ c = '\x00')) :
    readBody? named (c :: rest) = (readBody? named rest).map fun r => (c.toNat :: r.1, r.2) := by
  rw [readBody?, if_neg hquote, if_neg hslash, if_neg hend]

theorem readBody?_escapeUnit {n : Nat} (h : n < 0x10000) :
    readBody? named (Escaped.escapeUnit n ++ rest) =
      (readBody? named rest).map fun r => (n :: r.1, r.2) :=
  readBody?_escape (readEscape?_escapeUnit h)

theorem readBody?_escapeChar : readBody? named (Escaped.escapeChar c ++ rest) =
    (readBody? named rest).map fun r => (unitsOf c ++ r.1, r.2) := by
  rw [Escaped.escapeChar, unitsOf]
  have hlt := toNat_lt c
  split
  · rename_i hfirst
    exact readBody?_escapeUnit hfirst
  · rw [List.append_assoc, readBody?_escapeUnit (by omega), readBody?_escapeUnit (by omega),
      Option.map_map]
    rfl

/-- A short escape stands for the character that it is the escape of. -/
theorem readEscape?_shortEscape {e : Char} (h : Escaped.shortEscape? c = some e) :
    readEscape? named (e :: rest) = some (unitsOf c, rest) := by
  unfold Escaped.shortEscape? at h
  split_ifs at h with hc hc hc hc hc hc hc <;> cases h <;> subst hc <;> rfl

theorem readBody?_writeChar (c : Char) :
    readBody? named (Escaped.writeChar Escaped.isAsciiShown c ++ rest) =
      (readBody? named rest).map fun r => (unitsOf c ++ r.1, r.2) := by
  rw [Escaped.writeChar]
  split
  · rename_i e hshort
    exact readBody?_escape (readEscape?_shortEscape hshort)
  · rename_i hnone
    obtain ⟨hquote, hslash, -⟩ := shortEscape?_eq_none hnone
    split
    · rename_i hshown
      have hrange : 0x20 ≤ c.toNat ∧ c.toNat < 0x7f := by
        simpa [Escaped.isAsciiShown] using hshown
      have hend : ¬(c = '\n' ∨ c = '\r' ∨ c = '\x00') := by
        rintro (rfl | rfl | rfl) <;> exact absurd hrange (by decide)
      have hunits : unitsOf c = [c.toNat] := if_pos (by omega)
      rw [hunits]
      exact readBody?_cons hquote hslash hend
    · exact readBody?_escapeChar

theorem readBody?_written :
    readBody? named (cs.flatMap (Escaped.writeChar Escaped.isAsciiShown) ++ '"' :: rest) =
      some (cs.flatMap unitsOf, rest) := by
  induction cs with
  | nil => exact readBody?_quote
  | cons c more ih =>
      rw [List.flatMap_cons, List.append_assoc, readBody?_writeChar, ih]
      rfl

/-- A literal opens in no more than two quotes, of which the second ends it. -/
theorem written_ne_quotes (h : rest.head? ≠ some '"') (more : List Char) :
    cs.flatMap (Escaped.writeChar Escaped.isAsciiShown) ++ '"' :: rest ≠ '"' :: '"' :: more := by
  intro heq
  cases cs with
  | nil => simp_all
  | cons c tail =>
      obtain ⟨d, ds, hd, hquote⟩ := exists_writeChar_eq c
      simp_all

/-- A literal stands for the sixteen-bit units of its text, and what follows it is left. -/
theorem readText?_ascii (h : rest.head? ≠ some '"') :
    readText? named ((Escaped.ascii s).toList ++ rest) = some (units s, rest) := by
  rw [Escaped.ascii, Escaped.write, String.toList_ofList, List.cons_append, List.append_assoc,
    List.singleton_append, readText?]
  · exact readBody?_written
  · exact written_ne_quotes h

theorem evaluate?_ascii : evaluate? named (Escaped.ascii s) = some (.text (units s)) := by
  have hread := @readText?_ascii named [] s (by simp)
  rw [List.append_nil] at hread
  obtain ⟨cs, hcs⟩ : ∃ cs, (Escaped.ascii s).toList = '"' :: cs :=
    ⟨_, by rw [Escaped.ascii, Escaped.write, String.toList_ofList]⟩
  rw [hcs] at hread
  simp only [evaluate?, hcs, hread]

end Texts

section Tuples

variable {named : String → Option Nat} {cs rest more : List Char} {s : String}

theorem dropSpaces_cons {c : Char} (h : c ≠ ' ') : dropSpaces (c :: rest) = c :: rest := by
  simp [dropSpaces, h]

theorem readItems?_nil : readItems? named [')'] = some ([], true) := by
  rw [readItems?]
  exact if_pos (by decide)

theorem dropSpaces_ascii : dropSpaces ((Escaped.ascii s).toList ++ rest) =
    (Escaped.ascii s).toList ++ rest := by
  rw [Escaped.ascii, Escaped.write, String.toList_ofList]
  exact dropSpaces_cons (by decide)

theorem ascii_append_ne_close : (Escaped.ascii s).toList ++ rest ≠ [')'] := by
  rw [Escaped.ascii, Escaped.write, String.toList_ofList]
  simp

theorem readItems?_last :
    readItems? named ((Escaped.ascii s).toList ++ [')']) = some ([units s], false) := by
  have hread := @readText?_ascii named [')'] s (by decide)
  rw [readItems?, dropSpaces_ascii, if_neg ascii_append_ne_close]
  split
  · simp_all
  · rename_i points more htext
    obtain ⟨rfl, rfl⟩ := Prod.mk.inj (Option.some.inj (hread.symm.trans htext))
    rfl

theorem readItems?_item : readItems? named ((Escaped.ascii s).toList ++ ',' :: rest) =
    (readItems? named rest).map fun r => (units s :: r.1, r.2) := by
  have hread := @readText?_ascii named (',' :: rest) s (by simp)
  rw [readItems?, dropSpaces_ascii, if_neg ascii_append_ne_close]
  split
  · simp_all
  · rename_i points more htext
    obtain ⟨rfl, rfl⟩ := Prod.mk.inj (Option.some.inj (hread.symm.trans htext))
    rfl

theorem readItems?_space : readItems? named (' ' :: rest) = readItems? named rest := by
  conv_rhs => rw [readItems?]
  rw [readItems?]
  rfl

/-- Items behind one another, the last of which ends in the closing bracket. -/
theorem readItems?_items (items : List String) (s : String) :
    readItems? named ((", ".intercalate ((items ++ [s]).map Escaped.ascii)).toList ++ [')']) =
      some ((items ++ [s]).map units, false) := by
  induction items with
  | nil =>
      rw [List.nil_append, List.map_singleton, String.intercalate_singleton]
      exact readItems?_last
  | cons item items ih =>
      rw [List.cons_append, List.map_cons, String.intercalate_cons_of_ne_nil (by simp)]
      simp only [String.toList_append, List.append_assoc]
      rw [show (", ".toList : List Char) = [',', ' '] from rfl, List.cons_append, readItems?_item]
      rw [List.cons_append, readItems?_space, List.nil_append, ih]
      rfl

theorem evaluate?_tuple {source : String} {items : List (List Nat)} {comma : Bool}
    (hsource : source.toList = '(' :: cs) (hitems : readItems? named cs = some (items, comma))
    (hcomma : comma = true ∨ items.length ≠ 1) :
    evaluate? named source = some (.tuple items) := by
  simp only [evaluate?, hsource, hitems]
  split
  · simp_all
  · rfl

/-- A list of items stands for the tuple of their units, of however many items. -/
theorem evaluate?_tupleLiteral (items : List String) :
    evaluate? named (tupleLiteral items) = some (.tuple (items.map units)) := by
  cases items using List.reverseRecOn with
  | nil => exact evaluate?_tuple (by decide) readItems?_nil (.inl rfl)
  | append_singleton items last =>
      cases items with
      | nil =>
          have hitems : readItems? named ((Escaped.ascii last).toList ++ [',', ')']) =
              some ([units last], true) := by
            rw [readItems?_item, readItems?_nil]
            rfl
          refine evaluate?_tuple ?_ hitems (.inl rfl)
          simp [tupleLiteral]
      | cons item items =>
          refine evaluate?_tuple ?_ (readItems?_items (item :: items) last) (.inr (by simp))
          have hmany : tupleLiteral (item :: items ++ [last]) =
              "(" ++ ", ".intercalate ((item :: items ++ [last]).map Escaped.ascii) ++ ")" := by
            cases items <;> rfl
          rw [hmany]
          simp

end Tuples

section Integers

variable {named : String → Option Nat}

theorem head?_toDigits (n : Nat) (h : (Nat.toDigits 10 n).head? = some '0') : n = 0 := by
  induction n using Nat.strongRecOn with
  | _ n ih =>
      by_cases hn : n < 10
      · rw [Nat.toDigits_of_lt_base hn] at h
        simpa using h
      · rw [Nat.toDigits_of_base_le (by decide) (by omega),
          List.head?_append_of_ne_nil _ Nat.toDigits_ne_nil] at h
        have hzero := ih (n / 10) (by omega) h
        omega

theorem readInteger?_toDigits (negative : Bool) (n : Nat) :
    readInteger? negative (Nat.toDigits 10 n) =
      if isLong (signed negative n) then none else some (signed negative n) := by
  have hdigits : ∀ c ∈ Nat.toDigits 10 n, c.isDigit := fun c hc =>
    Nat.isDigit_of_mem_toDigits (by decide) (by decide) hc
  have hzeros : (Nat.toDigits 10 n).head? = some '0' → (Nat.toDigits 10 n).all (· = '0') := by
    intro h
    rw [head?_toDigits n h]
    decide
  have habs : (signed negative n).natAbs = n := by
    unfold signed
    split <;> simp
  have hlength : (Nat.toDigits 10 n).length ≤ maxDigits ↔ n < 10 ^ maxDigits :=
    Nat.length_toDigits_le_iff (by decide) (by decide)
  rw [readInteger?, Nat.ofDigitChars_ten_toDigits, isLong, habs]
  generalize maxDigits = limit at hlength ⊢
  by_cases hshort : n < 10 ^ limit
  · rw [if_pos ⟨Nat.toDigits_ne_nil, List.all_eq_true.mpr hdigits, hzeros, hlength.mpr hshort⟩]
    simp [hshort]
  · rw [if_neg fun h => hshort (hlength.mp h.2.2.2)]
    simpa using hshort

theorem evaluate?_digits {source : String} {c : Char} {cs : List Char}
    (hsource : source.toList = c :: cs) (hc : c.isDigit) :
    evaluate? named source = (readInteger? false (c :: cs)).map .integer := by
  rw [evaluate?, hsource]
  split
  · simp_all
  · simp_all
  · simp_all
  · simp_all
  · simp_all
  · rfl

/-- An integer stands for itself, unless it is too long to be read. -/
theorem evaluate?_integer (i : Int) :
    evaluate? named (toString i) = if isLong i then none else some (.integer i) := by
  have hmap : ∀ i : Int, (if isLong i then none else some i).map Meaning.integer =
      if isLong i then none else some (.integer i) := by
    intro i
    cases isLong i <;> rfl
  cases i with
  | ofNat n =>
      obtain ⟨c, cs, hcs⟩ := List.exists_cons_of_ne_nil (@Nat.toDigits_ne_nil n 10)
      have hsource : (toString (Int.ofNat n)).toList = c :: cs := hcs ▸ Nat.toList_repr
      have hc : c.isDigit := Nat.isDigit_of_mem_toDigits (by decide) (by decide)
        (hcs ▸ List.mem_cons_self)
      rw [evaluate?_digits hsource hc, ← hcs, readInteger?_toDigits]
      exact hmap n
  | negSucc n =>
      have hsource : (toString (Int.negSucc n)).toList = '-' :: Nat.toDigits 10 (n + 1) := by
        rw [← Nat.toList_repr]
        exact String.toList_append
      rw [evaluate?, hsource]
      exact (congrArg _ (readInteger?_toDigits true (n + 1))).trans (hmap (Int.negSucc n))

end Integers

section Defaults

variable (named : String → Option Nat) {d : Default}

/-- What a default that is no fraction stands for. -/
def Meaning.ofDefault? : Default → Option Meaning
  | .text s => some (.text (points s))
  | .flag b => some (.flag b)
  | .integer i => some (.integer i)
  | .list items => some (.tuple (items.map points))
  | .float _ => none

/-- Defaults whose literals stand for them: with no character past the first plane, and no integer
too long to be read. -/
def IsFaithful : Default → Prop
  | .text s => InFirstPlane s
  | .integer i => isLong i = false
  | .list items => ∀ item ∈ items, InFirstPlane item
  | _ => True

theorem map_units_eq_iff {items : List String} :
    items.map units = items.map points ↔ ∀ item ∈ items, InFirstPlane item := by
  rw [List.map_inj_left]
  exact forall₂_congr fun item _ => units_eq_points_iff

theorem evaluate?_literal_iff {m : Meaning} (h : Meaning.ofDefault? d = some m) :
    evaluate? named (literal d) = some m ↔ IsFaithful d := by
  cases d with
  | text s =>
      obtain rfl := Option.some.inj h
      rw [literal, evaluate?_ascii, Option.some.injEq, Meaning.text.injEq]
      exact units_eq_points_iff
  | flag b =>
      obtain rfl := Option.some.inj h
      cases b <;> simp [literal, boolLiteral, evaluate?, IsFaithful]
  | integer i =>
      obtain rfl := Option.some.inj h
      rw [literal, evaluate?_integer, IsFaithful]
      cases isLong i <;> simp
  | list items =>
      obtain rfl := Option.some.inj h
      rw [literal, evaluate?_tupleLiteral, Option.some.injEq, Meaning.tuple.injEq]
      exact map_units_eq_iff
  | float x => simp [Meaning.ofDefault?] at h

/-- A literal stands for the sixteen-bit units of its text wherever it stands, which are the text
itself if and only if they hold no surrogates; so the literal of a default stands for the default
if and only if it has no such text, and no integer too long to be read. -/
theorem literals_mean_units :
    (∀ s rest, rest.head? ≠ some '"' →
      readText? named ((Escaped.ascii s).toList ++ rest) = some (units s, rest)) ∧
    (∀ s, evaluate? named (Escaped.ascii s) = some (.text (points s)) ↔ InFirstPlane s) ∧
    ∀ d m, Meaning.ofDefault? d = some m →
      (evaluate? named (literal d) = some m ↔ IsFaithful d) := by
  refine ⟨fun s rest h => readText?_ascii h, fun s => ?_, fun d m h => ?_⟩
  · exact evaluate?_literal_iff named (d := .text s) rfl
  · exact evaluate?_literal_iff named h

/-- An accent and a backslash at the end of a line, beside a text without characters. -/
theorem literals_mean_units_accented :
    evaluate? (fun _ => none) (literal (.list ["café \\ \n", ""])) =
      some (.tuple ["café \\ \n".toList.map Char.toNat, []]) := by
  have hplane : IsFaithful (.list ["café \\ \n", ""]) := by
    simp only [IsFaithful]
    decide
  exact ((literals_mean_units fun _ => none).2.2 _ _ rfl).mpr hplane

theorem evaluate?_face :
    evaluate? (fun _ => none) (literal (.text "😀")) = some (.text [0xd83d, 0xde00]) ∧
      evaluate? (fun _ => none) (literal (.text "😀")) ≠ some (.text (points "😀")) := by
  have hface : evaluate? (fun _ => none) (literal (.text "😀")) = some (.text [0xd83d, 0xde00]) :=
    evaluate?_ascii
  refine ⟨hface, ?_⟩
  rw [hface]
  decide

end Defaults

end EndpointBindings.Emission
