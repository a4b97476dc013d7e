import Mathlib.Data.Char
import EndpointBindings.Document
import EndpointBindings.Proofs.ExceptResults

/-!
The forms in which a document is handed over. A text is read back from its UTF-8 form, so that the
text, a stream of it and octets behind a byte-order mark are one document. The mark is taken away
once, and octets without it differ only where the text starts with the same character.
-/

namespace EndpointBindings

namespace Text.Utf8

section Sequences

variable {pos : Nat} {rest : List UInt8} {b0 b1 b2 b3 : UInt8}

theorem decodeAt_one (h : b0 < 0x80) :
    decodeAt pos (b0 :: rest) = (Char.ofNat b0.toNat :: ·) <$> decodeAt (pos + 1) rest := by
  rw [decodeAt.eq_def]
  dsimp only
  rw [if_pos h]
  rfl

theorem decodeAt_two (hlow : 0xc2 ≤ b0) (hhigh : b0 < 0xe0) (h1 : isContinuation b1 = true) :
    decodeAt pos (b0 :: b1 :: rest) =
      (Char.ofNat (b0.toNat % 32 * 64 + payload b1) :: ·) <$> decodeAt (pos + 2) rest := by
  have hlong : ¬ b0 < 0x80 := by grind
  have hstart : ¬ (b0 < 0xc2 || 0xf5 ≤ b0) := by grind
  rw [decodeAt.eq_def]
  dsimp only
  rw [if_neg hlong, if_neg hstart, if_pos hhigh, if_pos h1]
  rfl

theorem decodeAt_three (hlow : 0xe0 ≤ b0) (hhigh : b0 < 0xf0) (h1 : secondOfThree b0 b1 = true)
    (h2 : isContinuation b2 = true) :
    decodeAt pos (b0 :: b1 :: b2 :: rest) =
      (Char.ofNat (b0.toNat % 16 * 4096 + payload b1 * 64 + payload b2) :: ·) <$>
        decodeAt (pos + 3) rest := by
  have hlong : ¬ b0 < 0x80 := by grind
  have hstart : ¬ (b0 < 0xc2 || 0xf5 ≤ b0) := by grind
  have hthree : ¬ b0 < 0xe0 := by grind
  rw [decodeAt.eq_def]
  dsimp only
  rw [if_neg hlong, if_neg hstart, if_neg hthree, if_pos hhigh, if_pos h1, if_pos h2]
  rfl

theorem decodeAt_four (hlow : 0xf0 ≤ b0) (hhigh : b0 < 0xf5) (h1 : secondOfFour b0 b1 = true)
    (h2 : isContinuation b2 = true) (h3 : isContinuation b3 = true) :
    decodeAt pos (b0 :: b1 :: b2 :: b3 :: rest) =
      (Char.ofNat (b0.toNat % 8 * 262144 + payload b1 * 4096 + payload b2 * 64 + payload b3) :: ·)
        <$> decodeAt (pos + 4) rest := by
  have hlong : ¬ b0 < 0x80 := by grind
  have hstart : ¬ (b0 < 0xc2 || 0xf5 ≤ b0) := by grind
  have hthree : ¬ b0 < 0xe0 := by grind
  have hfour : ¬ b0 < 0xf0 := by grind
  rw [decodeAt.eq_def]
  dsimp only
  rw [if_neg hlong, if_neg hstart, if_neg hthree, if_neg hfour, if_pos h1, if_pos h2, if_pos h3]
  rfl

theorem secondOfThree_of (h1 : isContinuation b1 = true) (hlong : b0 = 0xe0 → 0xa0 ≤ b1)
    (hsurrogate : b0 = 0xed → b1 < 0xa0) : secondOfThree b0 b1 = true := by
  rw [secondOfThree, h1, Bool.true_and]
  split_ifs with h h'
  · exact decide_eq_true (hlong h)
  · exact decide_eq_true (hsurrogate h')
  · rfl

theorem secondOfFour_of (h1 : isContinuation b1 = true) (hlong : b0 = 0xf0 → 0x90 ≤ b1)
    (hlast : b0 = 0xf4 → b1 < 0x90) : secondOfFour b0 b1 = true := by
  rw [secondOfFour, h1, Bool.true_and]
  split_ifs with h h'
  · exact decide_eq_true (hlong h)
  · exact decide_eq_true (hlast h')
  · rfl

end Sequences

section Octets

variable {n : Nat} {b : UInt8}

theorem toNat_octet (h : n < 256) : n.toUInt8.toNat = n := by
  simp [Nat.mod_eq_of_lt h]

theorem octet_lt (h : n < 256) (hb : n < b.toNat) : n.toUInt8 < b := by
  rw [UInt8.lt_iff_toNat_lt, toNat_octet h]
  exact hb

theorem le_octet (h : n < 256) (hb : b.toNat ≤ n) : b ≤ n.toUInt8 := by
  rw [UInt8.le_iff_toNat_le, toNat_octet h]
  exact hb

theorem eq_of_octet_eq (h : n < 256) (hb : n.toUInt8 = b) : n = b.toNat := by
  rw [← hb, toNat_octet h]

theorem isContinuation_octet (h : n < 64) : isContinuation (0x80 + n).toUInt8 = true := by
  have hlow : 0x80 ≤ (0x80 + n).toUInt8 := le_octet (by omega) (Nat.le_add_right _ _)
  have hhigh : (0x80 + n).toUInt8 < 0xc0 := octet_lt (by omega) (Nat.add_lt_add_left h 0x80)
  exact Bool.and_eq_true_iff.mpr ⟨decide_eq_true hlow, decide_eq_true hhigh⟩

theorem payload_octet (h : n < 64) : payload (0x80 + n).toUInt8 = n := by
  rw [payload, toNat_octet (by omega)]
  omega

end Octets

section Texts

variable {pos : Nat} {rest : List UInt8} {cs : List Char}

/-- The octets of three have neither a long form nor a surrogate in front. -/
theorem secondOfThree_octets {n : Nat} (hlow : 0x800 ≤ n)
    (hvalid : n < 0xd800 ∨ 0xdfff < n ∧ n < 0x10000) :
    secondOfThree (0xe0 + n / 4096).toUInt8 (0x80 + n / 64 % 64).toUInt8 = true := by
  apply secondOfThree_of (isContinuation_octet (by omega))
  · intro hfirst
    have hn : 0xe0 + n / 4096 = 0xe0 := eq_of_octet_eq (by omega) hfirst
    apply le_octet (by omega)
    show 0xa0 ≤ 0x80 + n / 64 % 64
    omega
  · intro hfirst
    have hn : 0xe0 + n / 4096 = 0xed := eq_of_octet_eq (by omega) hfirst
    apply octet_lt (by omega)
    show 0x80 + n / 64 % 64 < 0xa0
    omega

theorem secondOfFour_octets {n : Nat} (hlow : 0x10000 ≤ n) (hhigh : n < 0x110000) :
    secondOfFour (0xf0 + n / 262144).toUInt8 (0x80 + n / 4096 % 64).toUInt8 = true := by
  apply secondOfFour_of (isContinuation_octet (by omega))
  · intro hfirst
    have hn : 0xf0 + n / 262144 = 0xf0 := eq_of_octet_eq (by omega) hfirst
    apply le_octet (by omega)
    show 0x90 ≤ 0x80 + n / 4096 % 64
    omega
  · intro hfirst
    have hn : 0xf0 + n / 262144 = 0xf4 := eq_of_octet_eq (by omega) hfirst
    apply octet_lt (by omega)
    show 0x80 + n / 4096 % 64 < 0x90
    omega

/-- A character is read back from its octets, whatever follows them. -/
theorem decodeAt_encodeChar (c : Char) :
    decodeAt pos (encodeChar c ++ rest) =
      (c :: ·) <$> decodeAt (pos + (encodeChar c).length) rest := by
  have hvalid : c.toNat < 0xd800 ∨ 0xdfff < c.toNat ∧ c.toNat < 0x110000 := c.valid
  have hc : Char.ofNat c.toNat = c := Char.ofNat_toNat c
  unfold encodeChar
  dsimp only
  generalize c.toNat = n at hvalid hc ⊢
  split_ifs with h1 h2 h3
  · have hfirst : n.toUInt8 < 0x80 := octet_lt (by omega) h1
    rw [List.singleton_append, decodeAt_one hfirst, toNat_octet (by omega), hc]
    rfl
  · have hlow : 0xc2 ≤ (0xc0 + n / 64).toUInt8 := by
      apply le_octet (by omega)
      show 0xc2 ≤ 0xc0 + n / 64
      omega
    have hhigh : (0xc0 + n / 64).toUInt8 < 0xe0 := by
      apply octet_lt (by omega)
      show 0xc0 + n / 64 < 0xe0
      omega
    have hpoint : (0xc0 + n / 64) % 32 * 64 + n % 64 = n := by omega
    rw [List.cons_append, List.singleton_append,
      decodeAt_two hlow hhigh (isContinuation_octet (by omega)), toNat_octet (by omega),
      payload_octet (by omega), hpoint, hc]
    rfl
  · have hlow : 0xe0 ≤ (0xe0 + n / 4096).toUInt8 := le_octet (by omega) (Nat.le_add_right _ _)
    have hhigh : (0xe0 + n / 4096).toUInt8 < 0xf0 := by
      apply octet_lt (by omega)
      show 0xe0 + n / 4096 < 0xf0
      omega
    have hpoint : (0xe0 + n / 4096) % 16 * 4096 + n / 64 % 64 * 64 + n % 64 = n := by omega
    rw [List.cons_append, List.cons_append, List.singleton_append,
      decodeAt_three hlow hhigh (secondOfThree_octets (by omega) (by omega))
        (isContinuation_octet (by omega)),
      toNat_octet (by omega), payload_octet (by omega), payload_octet (by omega), hpoint, hc]
    rfl
  · have hlow : 0xf0 ≤ (0xf0 + n / 262144).toUInt8 := le_octet (by omega) (Nat.le_add_right _ _)
    have hhigh : (0xf0 + n / 262144).toUInt8 < 0xf5 := by
      apply octet_lt (by omega)
      show 0xf0 + n / 262144 < 0xf5
      omega
    have hpoint : (0xf0 + n / 262144) % 8 * 262144 + n / 4096 % 64 * 4096 + n / 64 % 64 * 64 +
        n % 64 = n := by omega
    rw [List.cons_append, List.cons_append, List.cons_append, List.singleton_append,
      decodeAt_four hlow hhigh (secondOfFour_octets (by omega) (by omega))
        (isContinuation_octet (by omega)) (isContinuation_octet (by omega)),
      toNat_octet (by omega), payload_octet (by omega), payload_octet (by omega),
      payload_octet (by omega), hpoint, hc]
    rfl

theorem decodeAt_encode : decodeAt pos (encode cs) = .ok cs := by
  induction cs generalizing pos with
  | nil => rfl
  | cons c cs ih =>
      show decodeAt pos (encodeChar c ++ encode cs) = .ok (c :: cs)
      rw [decodeAt_encodeChar, ih]
      rfl

/-- Every text is read back from its UTF-8 form. -/
theorem decode_encode (cs : List Char) : decode (encode cs) = .ok cs := decodeAt_encode

/-- The byte-order mark. -/
def mark : List UInt8 := [0xef, 0xbb, 0xbf]

theorem dropMark_mark (octets : List UInt8) : dropMark (mark ++ octets) = octets := rfl

/-- Octets that start with the mark give a text that starts with its character. -/
theorem decode_mark (octets : List UInt8) :
    decode (mark ++ octets) = ('\ufeff' :: ·) <$> decodeAt 3 octets :=
  have hsecond : secondOfThree 0xef 0xbb = true := by decide
  decodeAt_three (by decide) (by decide) hsecond (show isContinuation 0xbf = true by decide)

theorem dropMark_of_not_prefix {octets : List UInt8} (h : ∀ rest, octets ≠ mark ++ rest) :
    dropMark octets = octets := by
  unfold dropMark
  split
  · rename_i rest
    exact absurd rfl (h rest)
  · rfl

theorem dropMark_encode (h : cs.head? ≠ some '\ufeff') : dropMark (encode cs) = encode cs := by
  apply dropMark_of_not_prefix
  intro rest heq
  have hcs : ('\ufeff' :: ·) <$> decodeAt 3 rest = .ok cs := by
    rw [← decode_mark, ← heq, decode_encode]
  obtain ⟨more, -, rfl⟩ := map_eq_ok.mp hcs
  exact h rfl

end Texts

end Text.Utf8

namespace Document

open EndpointBindings.Text

variable {s : String} {octets : List UInt8} {hint : String}

theorem sourceText_octets (h : Utf8.dropMark octets = Utf8.encode s.toList) :
    sourceText (.octets octets) = .ok s := by
  unfold sourceText
  dsimp only
  rw [h, Utf8.decode_encode]
  exact congrArg Except.ok (String.ofList_toList (s := s))

/-- Documents whose sources have one text are one document. -/
theorem loadFrom_congr {a b : Handover} (h : sourceText a.source = sourceText b.source) :
    loadFrom a hint = loadFrom b hint := by
  unfold loadFrom load
  rw [h]

theorem loadFrom_octets {a : Handover} (ha : a.source = .octets octets)
    (h : Utf8.dropMark octets = Utf8.encode s.toList) :
    loadFrom a hint = loadFrom (.text s) hint := by
  apply loadFrom_congr
  rw [ha]
  exact sourceText_octets h

/-- The arrays and the stream that octets are handed over in. -/
def octetForms (octets : List UInt8) : List Handover :=
  [.bytes octets, .byteArray octets, .byteStream octets]

theorem source_of_mem_octetForms {a : Handover} (h : a ∈ octetForms octets) :
    a.source = .octets octets := by
  simp only [octetForms, List.mem_cons, List.not_mem_nil, or_false] at h
  rcases h with rfl | rfl | rfl <;> rfl

/-- A text, a stream of it and its UTF-8 form behind a mark are one document, and so is the form
without the mark unless the text starts with the character of the mark. -/
theorem loadFrom_every_form (s hint : String) :
    loadFrom (.textStream s) hint = loadFrom (.text s) hint ∧
      (∀ a ∈ octetForms (Utf8.mark ++ Utf8.encode s.toList),
        loadFrom a hint = loadFrom (.text s) hint) ∧
      (s.toList.head? ≠ some '\ufeff' → ∀ a ∈ octetForms (Utf8.encode s.toList),
        loadFrom a hint = loadFrom (.text s) hint) := by
  refine ⟨rfl, fun a ha => ?_, fun hhead a ha => ?_⟩
  · exact loadFrom_octets (source_of_mem_octetForms ha) (Utf8.dropMark_mark _)
  · exact loadFrom_octets (source_of_mem_octetForms ha) (Utf8.dropMark_encode hhead)

/-- An object whose member is named by characters of two, three and four octets. -/
def accented : String := "\x7b\"é€😀\": 1\x7d"

theorem loadFrom_every_form_accented :
    accented.toList.head? ≠ some '\ufeff' ∧
      loadFrom (.bytes (Utf8.encode accented.toList)) "json" = loadFrom (.text accented) "json" ∧
      ∃ fields, loadFrom (.byteStream (Utf8.mark ++ Utf8.encode accented.toList)) "json" =
        .ok fields ∧ Value.field "é€😀" fields matches .int 1 := by
  have hhead : accented.toList.head? ≠ some '\ufeff' := by decide
  obtain ⟨-, hmarked, hplain⟩ := loadFrom_every_form accented "json"
  refine ⟨hhead, hplain hhead _ List.mem_cons_self, ?_⟩
  rw [hmarked (.byteStream _) (.tail _ (.tail _ (.head _)))]
  exact exists_of_isOkWith (by decide +kernel)

end Document

end EndpointBindings
