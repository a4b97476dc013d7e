import EndpointBindings.Json.Writer
import EndpointBindings.Proofs.JsonDecoded
import EndpointBindings.Proofs.LiteralMeaning

/-!
JSON texts read back. What is written for texts and for lists and objects of them is read as the
same value, wherever the written text stands and whatever follows it.
-/

namespace EndpointBindings.Json

open EndpointBindings.Text

section Strings

variable {opening rest tail cs : List Char} {units : List Nat} {c : Char}

/-- A character that needs no escape stands for itself. -/
theorem readUnits_cons (hquote : c ≠ '"') (hslash : c ≠ '\\') (hshown : 0x20 ≤ c.toNat)
    (h : readUnits opening rest = .ok (units, tail)) :
    readUnits opening (c :: rest) = .ok (c.toNat :: units, tail) := by
  rw [readUnits.eq_def]
  split <;> simp_all

theorem readUnits_short {e : Char} (he : e ≠ 'u') (hc : shortEscape? e = some c)
    (h : readUnits opening rest = .ok (units, tail)) :
    readUnits opening ('\\' :: e :: rest) = .ok (c.toNat :: units, tail) := by
  rw [readUnits.eq_def]
  simp [he, hc, h]

theorem readUnits_unit {a b d e : Char} {n : Nat} (hn : hexValue [a, b, d, e] = some n)
    (hrest : rest ≠ []) (h : readUnits opening rest = .ok (units, tail)) :
    readUnits opening ('\\' :: 'u' :: a :: b :: d :: e :: rest) = .ok (n :: units, tail) := by
  rw [readUnits.eq_def]
  simp [hn, hrest, h]

/-- A short escape is read as the character that it is written for. -/
theorem shortEscape?_of_escaped {e : Char} (h : Escaped.shortEscape? c = some e) :
    e ≠ 'u' ∧ shortEscape? e = some c := by
  unfold Escaped.shortEscape? at h
  split_ifs at h with hc hc hc hc hc hc hc <;> cases h <;> subst hc <;> exact ⟨by decide, rfl⟩

theorem readUnits_escapeUnit {n : Nat} (hn : n < 0x10000) (hrest : rest ≠ [])
    (h : readUnits opening rest = .ok (units, tail)) :
    readUnits opening (Escaped.escapeUnit n ++ rest) = .ok (n :: units, tail) := by
  obtain ⟨a, b, d, e, hdigits⟩ : ∃ a b d e, hexDigits 4 n = [a, b, d, e] := ⟨_, _, _, _, rfl⟩
  have hvalue : hexValue [a, b, d, e] = some n := by
    rw [← hdigits, Emission.hexValue_hexDigits, Nat.mod_eq_of_lt (show n < 16 ^ 4 from hn)]
  rw [Escaped.escapeUnit, hdigits]
  exact readUnits_unit hvalue hrest h

theorem readUnits_writeChar (c : Char) (hrest : rest ≠ [])
    (h : readUnits opening rest = .ok (units, tail)) :
    readUnits opening (Escaped.writeChar Escaped.isPlainShown c ++ rest) =
      .ok (c.toNat :: units, tail) := by
  rw [Escaped.writeChar]
  split
  · rename_i e hshort
    obtain ⟨he, hc⟩ := shortEscape?_of_escaped hshort
    exact readUnits_short he hc h
  · rename_i hnone
    obtain ⟨hquote, hslash, -⟩ := Emission.shortEscape?_eq_none hnone
    split
    · rename_i hshown
      exact readUnits_cons hquote hslash (of_decide_eq_true hshown) h
    · rename_i hcontrol
      have hlow : c.toNat < 0x20 := by simpa [Escaped.isPlainShown] using hcontrol
      rw [Escaped.escapeChar, if_pos (by omega)]
      exact readUnits_escapeUnit (by omega) hrest h

theorem readUnits_written (cs : List Char) :
    readUnits opening (cs.flatMap (Escaped.writeChar Escaped.isPlainShown) ++ '"' :: tail) =
      .ok (cs.map Char.toNat, tail) := by
  induction cs with
  | nil =>
      rw [List.flatMap_nil, List.nil_append, readUnits.eq_def]
      rfl
  | cons c cs ih =>
      rw [List.flatMap_cons, List.append_assoc]
      exact readUnits_writeChar c (by simp) ih

/-- No character is a surrogate, so that none is joined to the next. -/
theorem joinUnits_points (cs : List Char) : joinUnits (cs.map Char.toNat) = cs := by
  have hscalar (c : Char) : scalar c.toNat = c := by
    rw [scalar, if_pos (show c.toNat.isValidChar from c.valid), Char.ofNat_toNat]
  induction cs with
  | nil => rfl
  | cons c cs ih =>
      have hhigh : isHighSurrogate c.toNat = false := by
        rw [isHighSurrogate, Bool.and_eq_false_iff, decide_eq_false_iff_not,
          decide_eq_false_iff_not]
        have hchar := Emission.not_surrogate c
        omega
      cases cs with
      | nil => simp [joinUnits, hscalar]
      | cons d more =>
          simp only [List.map_cons] at ih ⊢
          rw [joinUnits, hhigh, Bool.false_and, if_neg Bool.false_ne_true, hscalar, ih]

theorem readString_written (s : String) :
    readString opening
        (s.toList.flatMap (Escaped.writeChar Escaped.isPlainShown) ++ '"' :: tail) =
      .ok (s, tail) := by
  rw [readString, readUnits_written]
  simp [joinUnits_points, bind, Except.bind, pure, Except.pure]

theorem toList_plain (s : String) : (Escaped.plain s).toList =
    '"' :: (s.toList.flatMap (Escaped.writeChar Escaped.isPlainShown) ++ ['"']) :=
  String.toList_ofList

end Strings

/-- The entries of an object with these members. -/
def entries (members : List (String × Value)) : List (Value × Value) :=
  members.map fun m => (.text m.1, m.2)

/-- Texts, and lists and objects of them, with so many levels at most. -/
inductive Textual : Nat → Value → Prop
  | text (levels : Nat) (s : String) : Textual levels (.text s)
  | list {levels : Nat} {items : List Value} (each : ∀ v ∈ items, Textual levels v) :
      Textual (levels + 1) (.list items)
  | mapping {levels : Nat} {members : List (String × Value)}
      (distinct : (members.map (·.1)).Nodup) (each : ∀ m ∈ members, Textual levels m.2) :
      Textual (levels + 1) (.mapping (entries members))

section Blanks

variable {rest : List Char} {c : Char}

theorem skipSpace_cons (h : isSpace c = false) : skipSpace (c :: rest) = c :: rest := by
  rw [skipSpace, List.dropWhile_cons_of_neg (by simp [h])]

theorem skipSpace_newline (depth : Nat) :
    skipSpace ((newline depth).toList ++ rest) = skipSpace rest := by
  have hspace : ∀ c ∈ (newline depth).toList, isSpace c = true := by
    intro c hc
    rw [newline, String.toList_ofList, List.mem_cons] at hc
    rcases hc with rfl | hc
    · rfl
    · rw [List.eq_of_mem_replicate hc]
      rfl
  rw [skipSpace, List.dropWhile_append_of_pos hspace, skipSpace]

theorem skipSpace_newline_cons (depth : Nat) (h : isSpace c = false) :
    skipSpace ((newline depth).toList ++ c :: rest) = c :: rest := by
  rw [skipSpace_newline, skipSpace_cons h]

end Blanks

section Blocks

variable {opening closing s t : String} {depth : Nat} {items more : List String}

/-- What stands between the brackets of a block. -/
def separated (depth : Nat) (items : List String) : List Char :=
  (("," ++ newline depth).intercalate items).toList

theorem separated_cons_cons : separated depth (s :: t :: more) =
    s.toList ++ ',' :: ((newline depth).toList ++ separated depth (t :: more)) := by
  rw [separated, String.intercalate_cons_cons]
  simp [separated]

theorem toList_block_nil :
    (block opening closing depth []).toList = opening.toList ++ closing.toList := by
  exact String.toList_append

theorem toList_block_cons {tail : List Char} :
    (block opening closing depth (s :: more)).toList ++ tail =
      opening.toList ++ ((newline (depth + 1)).toList ++ (separated (depth + 1) (s :: more) ++
        ((newline depth).toList ++ (closing.toList ++ tail)))) := by
  simp [block, separated]

end Blocks

section Values

variable {v : Value} {items : List Value} {members : List (String × Value)}
  {level depth fuel : Nat} {cs rest tail : List Char} {name : String}

/-- What a text, a list or an object starts with. -/
def IsOpening (c : Char) : Prop := c = '"' ∨ c = '[' ∨ c = '\x7b'

theorem isSpace_eq_false {c : Char} (h : IsOpening c) : isSpace c = false := by
  rcases h with rfl | rfl | rfl <;> rfl

def StartsValue (cs : List Char) : Prop := ∃ c more, cs = c :: more ∧ IsOpening c

theorem StartsValue.append (h : StartsValue cs) (rest : List Char) : StartsValue (cs ++ rest) := by
  obtain ⟨c, more, rfl, hc⟩ := h
  exact ⟨c, more ++ rest, rfl, hc⟩

theorem StartsValue.skipSpace_eq (h : StartsValue cs) : skipSpace cs = cs := by
  obtain ⟨c, more, rfl, hc⟩ := h
  exact skipSpace_cons (isSpace_eq_false hc)

theorem startsValue_quote : StartsValue ('"' :: cs) := ⟨'"', cs, rfl, .inl rfl⟩

theorem startsValue_plain (s : String) : StartsValue (Escaped.plain s).toList := by
  rw [toList_plain]
  exact startsValue_quote

theorem startsValue_block {opening closing : String} {items : List String} {c : Char}
    (hopening : opening.toList = [c]) (hc : IsOpening c) :
    StartsValue (block opening closing level items).toList := by
  cases items with
  | nil =>
      rw [toList_block_nil, hopening]
      exact ⟨c, _, rfl, hc⟩
  | cons s more =>
      rw [← List.append_nil (String.toList _), toList_block_cons, hopening]
      exact ⟨c, _, rfl, hc⟩

theorem Textual.startsValue {levels : Nat} (h : Textual levels v) (level : Nat) :
    StartsValue (writeAt level v).toList := by
  cases h with
  | text levels s =>
      rw [writeAt]
      exact startsValue_plain s
  | list each =>
      rw [writeAt]
      exact startsValue_block rfl (.inr (.inl rfl))
  | mapping distinct each =>
      rw [writeAt]
      exact startsValue_block rfl (.inr (.inr rfl))

theorem startsValue_separated {s : String} (h : StartsValue s.toList) (more : List String) :
    StartsValue (separated level (s :: more)) := by
  cases more with
  | nil => simpa [separated] using h
  | cons t more =>
      rw [separated_cons_cons]
      exact h.append _

/-- A value is read back from its text, with fuel for each character, whatever follows. -/
def ReadsBack (depth level : Nat) (v : Value) : Prop :=
  ∀ fuel tail, (writeAt level v).toList.length ≤ fuel →
    readValue fuel depth ((writeAt level v).toList ++ tail) = .ok (v, tail)

theorem readsBack_text (s : String) : ReadsBack depth level (.text s) := by
  intro fuel tail hfuel
  rw [writeAt, toList_plain] at hfuel ⊢
  cases fuel with
  | zero => simp at hfuel
  | succ fuel =>
      rw [List.cons_append, List.append_assoc, readValue]
      dsimp only
      rw [List.singleton_append, readString_written]
      rfl

theorem readItems_written (fuel : Nat) (hne : items ≠ [])
    (heach : ∀ v ∈ items, ReadsBack depth level v)
    (hstart : ∀ v ∈ items, StartsValue (writeAt level v).toList)
    (hrest : skipSpace rest = ']' :: tail)
    (hfuel : (separated level (writeItems level items)).length < fuel) :
    readItems fuel depth (separated level (writeItems level items) ++ rest) =
      .ok (items, tail) := by
  induction items generalizing fuel with
  | nil => exact absurd rfl hne
  | cons v more ih =>
      obtain ⟨hv, hmore⟩ := List.forall_mem_cons.mp heach
      obtain ⟨-, hstarts⟩ := List.forall_mem_cons.mp hstart
      obtain ⟨fuel, rfl⟩ := Nat.exists_eq_add_one_of_ne_zero (Nat.ne_zero_of_lt hfuel)
      cases more with
      | nil =>
          have hone : separated level (writeItems level [v]) = (writeAt level v).toList := by
            simp [writeItems, separated]
          rw [hone] at hfuel ⊢
          rw [readItems, hv fuel rest (by omega)]
          simp only [bind, Except.bind, hrest]
          rfl
      | cons w more =>
          have hcons : separated level (writeItems level (v :: w :: more)) =
              (writeAt level v).toList ++ ',' :: ((newline level).toList ++
                separated level (writeItems level (w :: more))) := separated_cons_cons
          have hnext : StartsValue (separated level (writeItems level (w :: more)) ++ rest) :=
            (startsValue_separated (hstarts w List.mem_cons_self) _).append rest
          have hread := ih fuel (List.cons_ne_nil _ _) hmore hstarts (by
            rw [hcons] at hfuel
            simp only [List.length_append, List.length_cons] at hfuel
            omega)
          rw [hcons] at hfuel ⊢
          rw [List.append_assoc, List.cons_append, List.append_assoc, readItems,
            hv fuel _ (by simp only [List.length_append] at hfuel; omega)]
          simp only [bind, Except.bind, skipSpace_cons (show isSpace ',' = false from rfl),
            skipSpace_newline, hnext.skipSpace_eq, hread]
          rfl

theorem toList_entry (level : Nat) (name : String) (v : Value) :
    (writeKey (.text name) ++ ": " ++ writeAt level v).toList =
      '"' :: (name.toList.flatMap (Escaped.writeChar Escaped.isPlainShown) ++
        '"' :: ':' :: ' ' :: (writeAt level v).toList) := by
  have hkey : writeKey (.text name) = Escaped.plain name := rfl
  simp [hkey, toList_plain]

theorem separated_entries (level : Nat) (m : String × Value) (more : List (String × Value)) :
    ∃ cs, separated level (writeEntries level (entries (m :: more))) = '"' :: cs := by
  cases more with
  | nil =>
      refine ⟨_, Eq.trans ?_ (toList_entry level m.1 m.2)⟩
      simp [separated, entries, writeEntries]
  | cons n more =>
      rw [entries, List.map_cons, List.map_cons, writeEntries, writeEntries, separated_cons_cons,
        toList_entry, List.cons_append]
      exact ⟨_, rfl⟩

/-- A member is read with what follows it: the end of its object, or a comma and other members. -/
theorem readMembers_entry (hstart : StartsValue (writeAt level v).toList)
    (hv : readValue fuel depth ((writeAt level v).toList ++ rest) = .ok (v, rest)) :
    readMembers (fuel + 1) depth
        ((writeKey (.text name) ++ ": " ++ writeAt level v).toList ++ rest) =
      match skipSpace rest with
      | '\x7d' :: rest => .ok ([(.text name, v)], rest)
      | ',' :: rest => do
        let (members, last) ← readMembers fuel depth (skipSpace rest)
        return ((.text name, v) :: members, last)
      | rest => fail .expectingComma rest := by
  have hvalue : skipSpace (' ' :: ((writeAt level v).toList ++ rest)) =
      (writeAt level v).toList ++ rest := (hstart.append rest).skipSpace_eq
  rw [toList_entry, List.cons_append, List.append_assoc, readMembers]
  simp only [List.cons_append, readString_written, bind, Except.bind,
    skipSpace_cons (show isSpace ':' = false from rfl), hvalue, hv]
  rfl

theorem readMembers_written (fuel : Nat) (hne : members ≠ [])
    (heach : ∀ m ∈ members, ReadsBack depth level m.2)
    (hstart : ∀ m ∈ members, StartsValue (writeAt level m.2).toList)
    (hrest : skipSpace rest = '\x7d' :: tail)
    (hfuel : (separated level (writeEntries level (entries members))).length < fuel) :
    readMembers fuel depth (separated level (writeEntries level (entries members)) ++ rest) =
      .ok (entries members, tail) := by
  induction members generalizing fuel with
  | nil => exact absurd rfl hne
  | cons m more ih =>
      obtain ⟨name, v⟩ := m
      obtain ⟨hv, hmore⟩ := List.forall_mem_cons.mp heach
      obtain ⟨hvstart, hstarts⟩ := List.forall_mem_cons.mp hstart
      replace hv : ReadsBack depth level v := hv
      obtain ⟨fuel, rfl⟩ := Nat.exists_eq_add_one_of_ne_zero (Nat.ne_zero_of_lt hfuel)
      have hlength := congrArg List.length (toList_entry level name v)
      simp only [List.length_append, List.length_cons] at hlength
      cases more with
      | nil =>
          have hone : separated level (writeEntries level (entries [(name, v)])) =
              (writeKey (.text name) ++ ": " ++ writeAt level v).toList := by
            simp [entries, writeEntries, separated]
          rw [hone] at hfuel ⊢
          rw [readMembers_entry hvstart (hv fuel rest (by omega)), hrest]
          rfl
      | cons n more =>
          have hcons : separated level (writeEntries level (entries ((name, v) :: n :: more))) =
              (writeKey (.text name) ++ ": " ++ writeAt level v).toList ++
                ',' :: ((newline level).toList ++
                  separated level (writeEntries level (entries (n :: more)))) := separated_cons_cons
          have hnext : StartsValue
              (separated level (writeEntries level (entries (n :: more))) ++ rest) := by
            obtain ⟨cs, hcs⟩ := separated_entries level n more
            rw [hcs, List.cons_append]
            exact startsValue_quote
          have hread := ih fuel (List.cons_ne_nil _ _) hmore hstarts (by
            rw [hcons] at hfuel
            simp only [List.length_append, List.length_cons] at hfuel
            omega)
          rw [hcons] at hfuel ⊢
          rw [List.append_assoc, List.cons_append, List.append_assoc,
            readMembers_entry hvstart (hv fuel _ (by
              rw [List.length_append] at hfuel
              omega)),
            skipSpace_cons (show isSpace ',' = false from rfl)]
          simp only [bind, Except.bind, skipSpace_newline, hnext.skipSpace_eq, hread]
          rfl

/-- A member of a new name comes last. -/
theorem insertEntry_entries (h : name ∉ members.map (·.1)) :
    Value.insertEntry (.text name) v (entries members) = entries (members ++ [(name, v)]) := by
  induction members with
  | nil => rfl
  | cons m more ih =>
      rw [List.map_cons, List.mem_cons, not_or] at h
      have hne : m.1 ≠ name := Ne.symm h.1
      simp only [entries, List.map_cons, List.cons_append, Value.insertEntry, sameKey_text,
        beq_iff_eq, hne, if_false]
      exact congrArg _ (ih h.2)

theorem foldl_insertEntry_entries (more before : List (String × Value))
    (h : ((before ++ more).map (·.1)).Nodup) :
    (entries more).foldl (fun es p => Value.insertEntry p.1 p.2 es) (entries before) =
      entries (before ++ more) := by
  induction more generalizing before with
  | nil => simp [entries]
  | cons m more ih =>
      have hnew : m.1 ∉ before.map (·.1) := by
        rw [List.map_append, List.map_cons] at h
        exact (List.nodup_middle.mp h).notMem ∘ List.mem_append_left _
      have hstep := ih (before ++ [m]) (by simpa using h)
      rw [← insertEntry_entries hnew] at hstep
      simpa [entries] using hstep

/-- Members of different names are the entries of their object as they stand. -/
theorem ofPairs_entries (h : (members.map (·.1)).Nodup) :
    Value.ofPairs (entries members) = entries members :=
  foldl_insertEntry_entries members [] h

theorem readValue_list {lines : Nat} (h : StartsValue cs) :
    readValue (fuel + 1) (depth + 1) ('[' :: ((newline lines).toList ++ cs)) = do
      let (values, tail) ← readItems fuel depth cs
      return (.list values, tail) := by
  have hskip : skipSpace ((newline lines).toList ++ cs) = cs := by
    rw [skipSpace_newline, h.skipSpace_eq]
  obtain ⟨c, more, rfl, hc⟩ := h
  have hend : c ≠ ']' := by
    rcases hc with rfl | rfl | rfl <;> decide
  rw [readValue]
  dsimp only
  rw [hskip]
  split
  · rename_i heq
    exact absurd (List.cons.inj heq).1 hend
  · rfl

theorem readValue_mapping {lines : Nat} :
    readValue (fuel + 1) (depth + 1) ('\x7b' :: ((newline lines).toList ++ '"' :: cs)) = do
      let (pairs, tail) ← readMembers fuel depth ('"' :: cs)
      return (.mapping (Value.ofPairs pairs), tail) := by
  rw [readValue]
  dsimp only
  rw [skipSpace_newline_cons lines (show isSpace '"' = false from rfl)]
  rfl

/-- A list is read back if its items are. -/
theorem readsBack_list (heach : ∀ v ∈ items, ReadsBack depth (level + 1) v)
    (hstart : ∀ v ∈ items, StartsValue (writeAt (level + 1) v).toList) :
    ReadsBack (depth + 1) level (.list items) := by
  intro fuel tail hfuel
  rw [writeAt] at hfuel ⊢
  cases items with
  | nil =>
      cases fuel with
      | zero => simp [writeItems, block] at hfuel
      | succ fuel =>
          rw [writeItems, toList_block_nil]
          rfl
  | cons v more =>
      have hitems : StartsValue (separated (level + 1) (writeItems (level + 1) (v :: more)) ++
          ((newline level).toList ++ ']' :: tail)) :=
        (startsValue_separated (hstart v List.mem_cons_self) _).append _
      have htext : (block "[" "]" level (writeItems (level + 1) (v :: more))).toList ++ tail =
          '[' :: ((newline (level + 1)).toList ++
            (separated (level + 1) (writeItems (level + 1) (v :: more)) ++
              ((newline level).toList ++ ']' :: tail))) := toList_block_cons
      have hlength := congrArg List.length htext
      simp only [List.length_append, List.length_cons] at hlength
      obtain ⟨fuel, rfl⟩ := Nat.exists_eq_add_one_of_ne_zero (show fuel ≠ 0 by omega)
      have hclose : skipSpace ((newline level).toList ++ ']' :: tail) = ']' :: tail :=
        skipSpace_newline_cons level rfl
      have hread := readItems_written fuel (List.cons_ne_nil _ _) heach hstart hclose (by omega)
      rw [htext, readValue_list hitems, hread]
      rfl

/-- An object is read back if its members are. -/
theorem readsBack_mapping (hdistinct : (members.map (·.1)).Nodup)
    (heach : ∀ m ∈ members, ReadsBack depth (level + 1) m.2)
    (hstart : ∀ m ∈ members, StartsValue (writeAt (level + 1) m.2).toList) :
    ReadsBack (depth + 1) level (.mapping (entries members)) := by
  intro fuel tail hfuel
  rw [writeAt] at hfuel ⊢
  cases members with
  | nil =>
      cases fuel with
      | zero => simp [entries, writeEntries, block] at hfuel
      | succ fuel =>
          rw [entries, List.map_nil, writeEntries, toList_block_nil]
          rfl
  | cons m more =>
      have htext : (block "\x7b" "\x7d" level
          (writeEntries (level + 1) (entries (m :: more)))).toList ++ tail =
            '\x7b' :: ((newline (level + 1)).toList ++
              (separated (level + 1) (writeEntries (level + 1) (entries (m :: more))) ++
                ((newline level).toList ++ '\x7d' :: tail))) := toList_block_cons
      have hlength := congrArg List.length htext
      simp only [List.length_append, List.length_cons] at hlength
      obtain ⟨fuel, rfl⟩ := Nat.exists_eq_add_one_of_ne_zero (show fuel ≠ 0 by omega)
      have hclose : skipSpace ((newline level).toList ++ '\x7d' :: tail) = '\x7d' :: tail :=
        skipSpace_newline_cons level rfl
      have hread := readMembers_written fuel (List.cons_ne_nil _ _) heach hstart hclose
        (by omega)
      obtain ⟨cs, hquote⟩ := separated_entries (level + 1) m more
      rw [hquote] at htext hread
      rw [htext, List.cons_append, readValue_mapping, ← List.cons_append, hread]
      simp only [bind, Except.bind, ofPairs_entries hdistinct]
      rfl

/-- What a textual value is written as is read as that value, wherever it stands. -/
theorem Textual.readsBack {levels : Nat} (h : Textual levels v) :
    ∀ depth level, levels ≤ depth → ReadsBack depth level v := by
  induction h with
  | text levels s => exact fun depth level _ => readsBack_text s
  | @list levels items each ih =>
      intro depth level hdepth
      obtain ⟨depth, rfl⟩ := Nat.exists_eq_add_one_of_ne_zero (show depth ≠ 0 by omega)
      exact readsBack_list (fun v hv => ih v hv depth (level + 1) (by omega))
        fun v hv => (each v hv).startsValue _
  | @mapping levels members distinct each ih =>
      intro depth level hdepth
      obtain ⟨depth, rfl⟩ := Nat.exists_eq_add_one_of_ne_zero (show depth ≠ 0 by omega)
      exact readsBack_mapping distinct (fun m hm => ih m hm depth (level + 1) (by omega))
        fun m hm => (each m hm).startsValue _

/-- A textual value is read back from its text on a line of its own. -/
theorem Textual.readText_write {levels : Nat} (h : Textual levels v)
    (hlevels : levels ≤ maxDepth) : readText (write v ++ "\n") = .ok v := by
  have hstart : StartsValue (writeAt 0 v).toList := h.startsValue 0
  have hlength : (writeAt 0 v).toList.length ≤ fuelFor ((writeAt 0 v).toList ++ ['\n']) := by
    rw [fuelFor, List.length_append]
    omega
  have hread := h.readsBack maxDepth 0 hlevels _ ['\n'] hlength
  rw [write, readText, String.toList_append, show "\n".toList = ['\n'] from rfl, read, readWithin]
  · rw [(hstart.append _).skipSpace_eq, hread]
    rfl
  · intro more heq
    obtain ⟨c, more, hcs, hc⟩ := hstart
    rw [hcs, List.cons_append] at heq
    obtain rfl := (List.cons.inj heq).1
    rcases hc with hc | hc | hc <;> exact absurd hc (by decide)

end Values

end EndpointBindings.Json
