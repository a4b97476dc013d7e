import EndpointBindings.Proofs.JsonDecoded
import EndpointBindings.Proofs.TextUnits
import EndpointBindings.Proofs.SourceForms

/-!
Escapes of surrogates. A text is made of characters, and a surrogate is only half of one. Of a
document that escapes whole characters only, each string is read as the text whose units it spells.
-/

namespace EndpointBindings

open EndpointBindings.Text

namespace Text

theorem toNat_ofNat {n : Nat} (h : n.isValidChar) : (Char.ofNat n).toNat = n := by
  rw [Char.ofNat, dif_pos h]
  rfl

theorem hexValue_lt {cs : List Char} {n : Nat} (h : hexValue cs = some n) :
    n < 16 ^ cs.length := by
  obtain ⟨digits, hdigits, rfl⟩ := Option.map_eq_some_iff.mp h
  have hall : digits.length = cs.length ∧ ∀ d ∈ digits, d < 16 := by
    clear h
    induction cs generalizing digits with
    | nil =>
        obtain rfl : digits = [] := by simpa using hdigits.symm
        simp
    | cons c cs ih =>
        simp only [List.mapM_cons, Option.bind_eq_bind, Option.bind_eq_some_iff,
          Option.filter_eq_some_iff, decide_eq_true_eq, Option.pure_def, Option.some.injEq]
          at hdigits
        obtain ⟨d, ⟨-, hd⟩, more, hmore, rfl⟩ := hdigits
        obtain ⟨hlength, hlt⟩ := ih more hmore
        exact ⟨by simp [hlength], List.forall_mem_cons.mpr ⟨hd, hlt⟩⟩
  rw [← hall.1]
  exact Json.ofDigits_lt hall.2

end Text

namespace Json

/-- Whether the escapes of surrogates in a text come in pairs, a high one right before a low one;
`high` says that a high one stands before the text. -/
def pairsSurrogates (high : Bool) : List Char → Bool
  | '\\' :: 'u' :: a :: b :: c :: d :: rest =>
    match hexValue [a, b, c, d] with
    | some n => isLowSurrogate n == high && pairsSurrogates (isHighSurrogate n) rest
    | none => !high && pairsSurrogates false rest
  | '\\' :: _ :: rest => !high && pairsSurrogates false rest
  | _ :: rest => !high && pairsSurrogates false rest
  | [] => !high

example : (pairsSurrogates false "\"\\ud83d\\ude00\"".toList,
    pairsSurrogates false "\"\\ude00\\ud83d\"".toList) = (true, false) := by
  decide

/-- Code points among which each high surrogate stands before a low one, and no other low one
stands. -/
def ArePaired (high : Bool) : List Nat → Prop
  | [] => high = false
  | n :: rest => isLowSurrogate n = high ∧ n < 0x110000 ∧ ArePaired (isHighSurrogate n) rest

/-- The sixteen-bit units of a code point, which for a surrogate are itself. -/
def unitsOfPoint (n : Nat) : List Nat :=
  if n < 0x10000 then [n]
  else [0xd800 + (n - 0x10000) / 1024, 0xdc00 + (n - 0x10000) % 1024]

section Strings

variable {opening cs rest tail : List Char} {written : List Nat} {text : String} {high : Bool}
  {c : Char} {n m : Nat}

theorem isLowSurrogate_char (c : Char) : isLowSurrogate c.toNat = false := by
  have hchar := Emission.not_surrogate c
  rw [isLowSurrogate, Bool.and_eq_false_iff, decide_eq_false_iff_not, decide_eq_false_iff_not]
  omega

theorem isHighSurrogate_char (c : Char) : isHighSurrogate c.toNat = false := by
  have hchar := Emission.not_surrogate c
  rw [isHighSurrogate, Bool.and_eq_false_iff, decide_eq_false_iff_not, decide_eq_false_iff_not]
  omega

theorem ArePaired.cons_char (h : ArePaired false written) (c : Char) :
    ArePaired false (c.toNat :: written) := by
  refine ⟨isLowSurrogate_char c, Emission.toNat_lt c, ?_⟩
  rwa [isHighSurrogate_char]

theorem pairsSurrogates_short {e : Char} (he : e ≠ 'u')
    (h : pairsSurrogates high ('\\' :: e :: rest) = true) :
    high = false ∧ pairsSurrogates false rest = true := by
  rw [pairsSurrogates.eq_2 _ _ _ (by simp [he]), Bool.and_eq_true, Bool.not_eq_true'] at h
  exact h

theorem pairsSurrogates_cons (hc : c ≠ '\\') (h : pairsSurrogates high (c :: rest) = true) :
    high = false ∧ pairsSurrogates false rest = true := by
  rw [pairsSurrogates.eq_3 _ _ _ (by simp [hc]) (by simp [hc]), Bool.and_eq_true,
    Bool.not_eq_true'] at h
  exact h

/-- What is read up to the end of a string is paired where the text is, and so is the rest. -/
theorem arePaired_readUnits (h : readUnits opening cs = .ok (written, tail))
    (hpairs : pairsSurrogates high cs = true) :
    ArePaired high written ∧ pairsSurrogates false tail = true := by
  fun_induction readUnits opening cs generalizing written high with
  | case2 rest =>
      cases h
      exact pairsSurrogates_cons (by decide) hpairs
  | case5 a b c d rest n hn hrest ih =>
      obtain ⟨⟨more, last⟩, hmore, h⟩ := bind_eq_ok.mp h
      cases h
      rw [pairsSurrogates, hn] at hpairs
      simp only [Bool.and_eq_true, beq_iff_eq] at hpairs
      obtain ⟨hpaired, htail⟩ := ih hmore hpairs.2
      have hlt : n < 16 ^ 4 := hexValue_lt hn
      exact ⟨⟨hpairs.1, by omega, hpaired⟩, htail⟩
  | case9 e rest _ he c _ ih =>
      obtain ⟨⟨more, last⟩, hmore, h⟩ := bind_eq_ok.mp h
      cases h
      obtain ⟨rfl, hafter⟩ := pairsSurrogates_short he hpairs
      obtain ⟨hpaired, htail⟩ := ih hmore hafter
      exact ⟨hpaired.cons_char c, htail⟩
  | case11 c rest _ _ _ hend hescape _ ih =>
      obtain ⟨⟨more, last⟩, hmore, h⟩ := bind_eq_ok.mp h
      cases h
      have hc : c ≠ '\\' := by
        rintro rfl
        cases rest with
        | nil => exact hend rfl rfl
        | cons e more => exact hescape e more rfl rfl
      obtain ⟨rfl, hafter⟩ := pairsSurrogates_cons hc hpairs
      obtain ⟨hpaired, htail⟩ := ih hmore hafter
      exact ⟨hpaired.cons_char c, htail⟩
  | _ => cases h

theorem unitsOf_scalar (hlow : isLowSurrogate n = false) (hhigh : isHighSurrogate n = false)
    (hlt : n < 0x110000) : Emission.unitsOf (scalar n) = unitsOfPoint n := by
  have hvalid : n.isValidChar := by
    simp only [isLowSurrogate, isHighSurrogate, Bool.and_eq_false_iff, decide_eq_false_iff_not]
      at hlow hhigh
    unfold Nat.isValidChar
    omega
  rw [Emission.unitsOf, scalar, if_pos hvalid, toNat_ofNat hvalid, unitsOfPoint]

theorem unitsOf_joinSurrogates (hn : isHighSurrogate n = true) (hm : isLowSurrogate m = true) :
    Emission.unitsOf (joinSurrogates n m) = unitsOfPoint n ++ unitsOfPoint m := by
  simp only [isLowSurrogate, isHighSurrogate, Bool.and_eq_true, decide_eq_true_eq] at hn hm
  have hvalid : (0x10000 + (n - 0xd800) * 1024 + (m - 0xdc00)).isValidChar := by
    unfold Nat.isValidChar
    omega
  have hfirst : 0xd800 + (0x10000 + (n - 0xd800) * 1024 + (m - 0xdc00) - 0x10000) / 1024 = n := by
    omega
  have hsecond : 0xdc00 + (0x10000 + (n - 0xd800) * 1024 + (m - 0xdc00) - 0x10000) % 1024 = m := by
    omega
  rw [Emission.unitsOf, joinSurrogates, toNat_ofNat hvalid, if_neg (by omega), unitsOfPoint,
    unitsOfPoint, if_pos (by omega), if_pos (by omega), hfirst, hsecond, List.singleton_append]

/-- Joining pairs loses nothing of what is paired. -/
theorem units_joinUnits (h : ArePaired false written) :
    (joinUnits written).flatMap Emission.unitsOf = written.flatMap unitsOfPoint := by
  fun_induction joinUnits written with
  | case1 => rfl
  | case2 n =>
      obtain ⟨hlow, hlt, hhigh⟩ := h
      rw [List.flatMap_singleton, List.flatMap_singleton, unitsOf_scalar hlow hhigh hlt]
  | case3 n m rest hboth ih =>
      obtain ⟨hn, hm⟩ := Bool.and_eq_true_iff.mp hboth
      obtain ⟨-, -, -, -, hrest⟩ := h
      have hm' : isHighSurrogate m = false := by
        simp only [isLowSurrogate, isHighSurrogate, Bool.and_eq_true, decide_eq_true_eq,
          Bool.and_eq_false_iff, decide_eq_false_iff_not] at hm ⊢
        omega
      rw [hm'] at hrest
      rw [List.flatMap_cons, List.flatMap_cons, List.flatMap_cons, unitsOf_joinSurrogates hn hm,
        ih hrest, List.append_assoc]
  | case4 n m rest hnot ih =>
      obtain ⟨hlow, hlt, hrest⟩ := h
      -- A high one would stand before a low one, and the two would be joined.
      have hhigh : isHighSurrogate n = false := by
        rw [Bool.eq_false_iff]
        intro hn
        exact hnot (Bool.and_eq_true_iff.mpr ⟨hn, hrest.1.trans hn⟩)
      rw [hhigh] at hrest
      rw [List.flatMap_cons, List.flatMap_cons, unitsOf_scalar hlow hhigh hlt, ih hrest]

/-- A string in a text with paired surrogates is read as the text of the units that it spells. -/
theorem units_readString (h : readString opening cs = .ok (text, tail))
    (hpairs : pairsSurrogates false cs = true) :
    ∃ written, readUnits opening cs = .ok (written, tail) ∧
      Emission.units text = written.flatMap unitsOfPoint ∧ pairsSurrogates false tail = true := by
  obtain ⟨⟨written, last⟩, hunits, h⟩ := bind_eq_ok.mp h
  cases h
  obtain ⟨hpaired, htail⟩ := arePaired_readUnits hunits hpairs
  refine ⟨written, hunits, ?_, htail⟩
  rw [Emission.units, String.toList_ofList, units_joinUnits hpaired]

end Strings

end Json

namespace Yaml

/-- Whether no escape in a text is of a surrogate. Between double quotes each such escape is a
character of its own, so that no two of them are joined. -/
def sparesSurrogates : List Char → Bool
  | '\\' :: e :: rest =>
    (((escapeWidth? e).bind fun width => hexValue (rest.take width)).all fun n =>
      !(Json.isHighSurrogate n || Json.isLowSurrogate n)) && sparesSurrogates rest
  | _ :: rest => sparesSurrogates rest
  | [] => true

theorem toNat_charOf {n : Nat} {c : Char} (h : charOf? n = some c)
    (hspares : (Json.isHighSurrogate n || Json.isLowSurrogate n) = false) : c.toNat = n := by
  rw [charOf?] at h
  split_ifs at h with hvalid hlt
  · obtain rfl := Option.some.inj h
    exact toNat_ofNat hvalid
  · simp only [Json.isHighSurrogate, Json.isLowSurrogate, Bool.or_eq_false_iff,
      Bool.and_eq_false_iff, decide_eq_false_iff_not] at hspares
    unfold Nat.isValidChar at hvalid
    omega

/-- A numeric escape in a text that spares surrogates is read as the character it numbers. -/
theorem hexValue_of_quotedEscape {c next : Cursor} {e ch : Char} {more : List Char} {width : Nat}
    (hrest : c.rest = e :: more) (hwidth : escapeWidth? e = some width)
    (h : quotedEscape c = .ok ([ch], next)) (hspares : sparesSurrogates ('\\' :: c.rest) = true) :
    hexValue (more.take width) = some ch.toNat := by
  have hlookup : escapes.lookup e = none := by
    unfold escapeWidth? at hwidth
    split at hwidth <;> first | rfl | cases hwidth
  unfold quotedEscape at h
  rw [hrest] at h hspares
  simp only [hlookup, hwidth] at h
  split at h
  · cases h
  · split at h
    · rename_i found hfound
      obtain ⟨n, hn, hchar⟩ := Option.bind_eq_some_iff.mp hfound
      obtain rfl : found = ch := by simp_all
      rw [sparesSurrogates, hwidth, Option.bind_some, hn] at hspares
      simp only [Option.all_some, Bool.and_eq_true, Bool.not_eq_true'] at hspares
      rw [hn, toNat_charOf hchar hspares.1]
    · cases h

end Yaml

namespace Document

/-- The escapes in a text stand for whole characters in the format that it is read in. -/
def EscapesCharacters (hint : Hint) (cs : List Char) : Prop :=
  match hint with
  | .json => Json.pairsSurrogates false cs = true
  | .yaml => Yaml.sparesSurrogates cs = true
  | .none => Json.pairsSurrogates false cs = true ∧
      ((∃ v, Json.read cs = .ok v) ∨ Yaml.sparesSurrogates cs = true)

/-- The octets of a document, if they hold a text at all, escape whole characters only. -/
def IsWhole (hint : Hint) (octets : List UInt8) : Prop :=
  ∀ s, sourceText (.octets octets) = .ok s → EscapesCharacters hint s.toList

variable {hint : Hint} {octets : List UInt8}

theorem isWhole_of_decode (cs : List Char) (hdecode : Utf8.decode (Utf8.dropMark octets) = .ok cs)
    (h : EscapesCharacters hint cs) : IsWhole hint octets := by
  intro s hs
  simp only [sourceText, hdecode] at hs
  obtain rfl := Except.ok.inj hs
  rwa [String.toList_ofList]

/-- Octets that hold no text escape nothing. -/
theorem isWhole_of_not_decode {fault : Utf8.Fault}
    (hdecode : Utf8.decode (Utf8.dropMark octets) = .error fault) : IsWhole hint octets := by
  intro s hs
  simp only [sourceText, hdecode] at hs
  cases hs

end Document

end EndpointBindings
