import Mathlib.Data.List.Induction
import Mathlib.Data.List.Nodup
import Mathlib.Data.List.TakeWhile
import EndpointBindings.Json.Reader
import EndpointBindings.Value.Display
import EndpointBindings.Proofs.ExceptResults
import EndpointBindings.Proofs.FloatRange

/-!
What JSON texts decode to: values whose objects have distinct texts for keys, whose integers are
short enough to be written, and in which nothing leads back to itself.
-/

namespace EndpointBindings.Json

open EndpointBindings.Text EndpointBindings.Number

/-- The values that a JSON text can stand for. -/
inductive Decoded : Value → Prop
  | null : Decoded .null
  | bool (b : Bool) : Decoded (.bool b)
  | int {i : Int} (short : isLong i = false) : Decoded (.int i)
  | float {x : Binary64} (inRange : x.InRange) : Decoded (.float x)
  | text (s : String) : Decoded (.text s)
  | list {items : List Value} (each : ∀ v ∈ items, Decoded v) : Decoded (.list items)
  | mapping {entries : List (Value × Value)} (keys : ∀ e ∈ entries, ∃ name, e.1 = .text name)
      (distinct : (entries.map (·.1)).Nodup) (each : ∀ e ∈ entries, Decoded e.2) :
      Decoded (.mapping entries)

namespace Decoded

variable {v : Value} {items : List Value} {entries : List (Value × Value)}

theorem unfold_eq (h : Decoded v) : v.unfold = v := by
  cases h <;> rfl

theorem of_mem_list (h : Decoded (.list items)) (hv : v ∈ items) : Decoded v := by
  cases h with
  | list each => exact each v hv

theorem of_mem_mapping (h : Decoded (.mapping entries)) {e : Value × Value} (he : e ∈ entries) :
    Decoded e.2 := by
  cases h with
  | mapping keys distinct each => exact each e he

theorem key_of_mem (h : Decoded (.mapping entries)) {e : Value × Value} (he : e ∈ entries) :
    ∃ name, e.1 = .text name := by
  cases h with
  | mapping keys distinct each => exact keys e he

theorem list_iff : Decoded (.list items) ↔ ∀ v ∈ items, Decoded v :=
  ⟨fun h _ hv => h.of_mem_list hv, .list⟩

theorem mapping_iff : Decoded (.mapping entries) ↔
    (∀ e ∈ entries, ∃ name, e.1 = .text name) ∧ (entries.map (·.1)).Nodup ∧
      ∀ e ∈ entries, Decoded e.2 := by
  constructor
  · intro h
    cases h with
    | mapping keys distinct each => exact ⟨keys, distinct, each⟩
  · rintro ⟨keys, distinct, each⟩
    exact .mapping keys distinct each

theorem nil_mapping : Decoded (.mapping []) := mapping (by simp) (by simp) (by simp)

/-- A field of an object is a value of the object, or null. -/
theorem field (h : Decoded (.mapping entries)) (name : String) :
    Decoded (Value.field name entries) := by
  unfold Value.field Value.field?
  cases hfind : entries.find? fun e => e.1.sameKey (.text name) with
  | none => exact null
  | some e => exact h.of_mem_mapping (List.mem_of_find?_eq_some hfind)

theorem orElse {w : Value} (hv : Decoded v) (hw : Decoded w) : Decoded (v.orElse w) := by
  unfold Value.orElse
  split
  · exact hw
  · exact hv

theorem anyLongInteger_eq_false (h : ∀ v ∈ items, v.hasLongInteger = false) :
    Value.anyLongInteger items = false := by
  induction items with
  | nil => rfl
  | cons v rest ih =>
      simp only [Value.anyLongInteger, h v List.mem_cons_self, Bool.false_or]
      exact ih fun w hw => h w (List.mem_cons_of_mem _ hw)

theorem entriesLongInteger_eq_false (hkeys : ∀ e ∈ entries, ∃ name, e.1 = .text name)
    (h : ∀ e ∈ entries, e.2.hasLongInteger = false) :
    Value.entriesLongInteger entries = false := by
  induction entries with
  | nil => rfl
  | cons e rest ih =>
      obtain ⟨k, v⟩ := e
      obtain ⟨name, rfl⟩ := hkeys _ List.mem_cons_self
      simp only [Value.entriesLongInteger, h _ List.mem_cons_self, Bool.or_false,
        Value.hasLongInteger, Bool.false_or]
      exact ih (fun e he => hkeys e (List.mem_cons_of_mem _ he))
        fun e he => h e (List.mem_cons_of_mem _ he)

/-- Every value of a JSON text can be written in a message. -/
theorem hasLongInteger_eq_false (h : Decoded v) : v.hasLongInteger = false := by
  induction h with
  | null | bool | float | text => rfl
  | int short => exact short
  | list each ih => exact anyLongInteger_eq_false ih
  | mapping keys distinct each ih => exact entriesLongInteger_eq_false keys ih

theorem shown_eq (h : Decoded v) : v.shown = .ok v.display := by
  simp [Value.shown, h.hasLongInteger_eq_false]

theorem shownText_eq (h : Decoded v) : v.shownText = .ok v.toText := by
  simp [Value.shownText, h.hasLongInteger_eq_false]

end Decoded

section Objects

variable {key : String} {value : Value} {entries pairs : List (Value × Value)}

@[simp] theorem sameKey_text (s t : String) : (Value.text s).sameKey (.text t) = (s == t) := rfl

theorem sameKey_text_iff {v : Value} : v.sameKey (.text key) = true ↔ v = .text key := by
  cases v <;> simp [Value.sameKey, Value.integer?]

theorem mem_insertEntry {e : Value × Value} (he : e ∈ Value.insertEntry (.text key) value entries)
    (hkeys : ∀ e ∈ entries, ∃ name, e.1 = .text name) : e = (.text key, value) ∨ e ∈ entries := by
  induction entries with
  | nil => exact .inl (List.mem_singleton.mp he)
  | cons d rest ih =>
      obtain ⟨k, v⟩ := d
      obtain ⟨name, rfl⟩ := hkeys _ List.mem_cons_self
      simp only [Value.insertEntry, sameKey_text, beq_iff_eq] at he
      split at he
      · rename_i heq
        subst heq
        rcases List.mem_cons.mp he with he | he
        · exact .inl he
        · exact .inr (List.mem_cons_of_mem _ he)
      · rcases List.mem_cons.mp he with he | he
        · exact .inr (he ▸ List.mem_cons_self)
        · exact (ih he fun e he => hkeys e (List.mem_cons_of_mem _ he)).imp_right
            (List.mem_cons_of_mem _)

theorem keys_insertEntry_nodup (hkeys : ∀ e ∈ entries, ∃ name, e.1 = .text name)
    (hdistinct : (entries.map (·.1)).Nodup) :
    ((Value.insertEntry (.text key) value entries).map (·.1)).Nodup := by
  induction entries with
  | nil => simp [Value.insertEntry]
  | cons d rest ih =>
      obtain ⟨k, v⟩ := d
      obtain ⟨name, rfl⟩ := hkeys _ List.mem_cons_self
      have hrest : ∀ e ∈ rest, ∃ name, e.1 = .text name := fun e he =>
        hkeys e (List.mem_cons_of_mem _ he)
      obtain ⟨hfirst, hmore⟩ := List.nodup_cons.mp hdistinct
      simp only [Value.insertEntry, sameKey_text, beq_iff_eq]
      split
      · exact hdistinct
      · rename_i hne
        refine List.nodup_cons.mpr ⟨fun hmem => ?_, ih hrest hmore⟩
        obtain ⟨e, he, hkey⟩ := List.mem_map.mp hmem
        rcases mem_insertEntry he hrest with rfl | he
        · exact hne (Value.text.inj hkey).symm
        · exact hfirst (List.mem_map.mpr ⟨e, he, hkey⟩)

/-- An object keeps its form when a member is read into it. -/
theorem Decoded.insertEntry (h : Decoded (.mapping entries)) (hvalue : Decoded value) :
    Decoded (.mapping (Value.insertEntry (.text key) value entries)) := by
  cases h with
  | mapping keys distinct each =>
      refine .mapping (fun e he => ?_) (keys_insertEntry_nodup keys distinct) fun e he => ?_
      · rcases mem_insertEntry he keys with rfl | he
        · exact ⟨key, rfl⟩
        · exact keys e he
      · rcases mem_insertEntry he keys with rfl | he
        · exact hvalue
        · exact each e he

theorem decoded_ofPairs (hkeys : ∀ e ∈ pairs, ∃ name, e.1 = .text name)
    (heach : ∀ e ∈ pairs, Decoded e.2) : Decoded (.mapping (Value.ofPairs pairs)) := by
  suffices h : ∀ entries, Decoded (.mapping entries) →
      Decoded (.mapping (pairs.foldl (fun es p => Value.insertEntry p.1 p.2 es) entries)) from
    h [] .nil_mapping
  induction pairs with
  | nil => exact fun entries h => h
  | cons p rest ih =>
      intro entries h
      obtain ⟨name, hname⟩ := hkeys p List.mem_cons_self
      refine ih (fun e he => hkeys e (List.mem_cons_of_mem _ he))
        (fun e he => heach e (List.mem_cons_of_mem _ he)) _ ?_
      show Decoded (.mapping (Value.insertEntry p.1 p.2 entries))
      rw [hname]
      exact h.insertEntry (heach p List.mem_cons_self)

end Objects

section Numbers

variable {cs tail : List Char} {v : Value}

theorem ofDigits_lt {base : Nat} {digits : List Nat} (h : ∀ d ∈ digits, d < base) :
    ofDigits base digits < base ^ digits.length := by
  induction digits using List.reverseRecOn with
  | nil => simp [ofDigits]
  | append_singleton ds d ih =>
      have hds := ih fun d hd => h d (List.mem_append_left _ hd)
      have hd : d < base := h d (by simp)
      rw [ofDigits_append, List.length_append, List.length_singleton, Nat.pow_succ]
      calc ofDigits base ds * base + d < ofDigits base ds * base + base := by omega
        _ = (ofDigits base ds + 1) * base := by ring
        _ ≤ base ^ ds.length * base := Nat.mul_le_mul_right _ hds

theorem digitsValue_lt {digits : List Char} (h : ∀ c ∈ digits, c.isDigit) :
    digitsValue digits < 10 ^ digits.length := by
  have hlt : ∀ d ∈ digits.map fun c => c.toNat - '0'.toNat, d < 10 := by
    intro d hd
    obtain ⟨c, hc, rfl⟩ := List.mem_map.mp hd
    have hdigit := h c hc
    simp only [Char.isDigit, Bool.and_eq_true, decide_eq_true_eq, UInt32.le_iff_toNat_le] at hdigit
    have hnine : c.toNat ≤ 57 := hdigit.2
    have hzero : '0'.toNat = 48 := rfl
    omega
  simpa [digitsValue] using ofDigits_lt hlt

theorem readWhole_isDigit {whole : List Char} (h : readWhole cs = some (whole, tail)) :
    ∀ c ∈ whole, c.isDigit := by
  unfold readWhole at h
  split at h
  · obtain ⟨rfl, rfl⟩ := by simpa using h
    simp
  · split at h
    · obtain ⟨rfl, rfl⟩ := by simpa [spanDigits] using h
      exact fun c hc => List.mem_takeWhile_imp hc
    · simp at h
  · simp at h

theorem isLong_signed {negative : Bool} {digits : List Char} (h : ∀ c ∈ digits, c.isDigit)
    (hlength : digits.length ≤ maxDigits) :
    isLong (signed negative (digitsValue digits)) = false := by
  have habs : (signed negative (digitsValue digits)).natAbs = digitsValue digits := by
    unfold signed
    split <;> simp
  unfold isLong
  rw [habs]
  generalize maxDigits = limit at hlength ⊢
  have hpow : 10 ^ digits.length ≤ Nat.pow 10 limit := Nat.pow_le_pow_right (by decide) hlength
  simpa using lt_of_lt_of_le (digitsValue_lt h) hpow

theorem decoded_readNumber {negative : Bool}
    (h : readNumber negative cs = some (.ok v, tail)) : Decoded v := by
  simp only [readNumber, bind, Option.bind_eq_some_iff, Prod.exists] at h
  obtain ⟨whole, rest, hwhole, h⟩ := h
  split at h
  · obtain ⟨rfl, -⟩ := by simpa [pure] using h
    exact .float (Binary64.inRange_ofDecimal _ _ _ _)
  · split at h
    · obtain ⟨rfl, -⟩ := by simpa [pure] using h
      exact .float (Binary64.inRange_ofDecimal _ _ _ _)
    · split at h
      · simp [pure] at h
      · rename_i hlength
        obtain ⟨rfl, -⟩ := by simpa [pure] using h
        exact .int (isLong_signed (readWhole_isDigit hwhole) (by omega))

theorem decoded_readAtom (h : readAtom cs = some (.ok v, tail)) : Decoded v := by
  unfold readAtom at h
  split at h
  case h_7 => exact decoded_readNumber h
  case h_8 => exact decoded_readNumber h
  all_goals obtain ⟨rfl, -⟩ := by simpa using h
  · exact .null
  · exact .bool true
  · exact .bool false
  · exact .float trivial
  · exact .float trivial
  · exact .float trivial

end Numbers

section Readers

variable {fuel : Nat}

/-- What the three readers give with some fuel is decoded. -/
def ReadsDecoded (fuel : Nat) : Prop :=
  (∀ depth cs v tail, readValue fuel depth cs = .ok (v, tail) → Decoded v) ∧
    (∀ depth cs vs tail, readItems fuel depth cs = .ok (vs, tail) → ∀ v ∈ vs, Decoded v) ∧
    ∀ depth cs members tail, readMembers fuel depth cs = .ok (members, tail) →
      ∀ e ∈ members, (∃ name, e.1 = .text name) ∧ Decoded e.2

theorem readsDecoded_zero : ReadsDecoded 0 := by
  refine ⟨fun _ _ _ _ h => ?_, fun _ _ _ _ h => ?_, fun _ _ _ _ h => ?_⟩
  · simp [readValue, fail] at h
  · simp [readItems, fail] at h
  · simp [readMembers, fail] at h

theorem decoded_readValue (ih : ReadsDecoded fuel) {depth : Nat} {cs tail : List Char} {v : Value}
    (h : readValue (fuel + 1) depth cs = .ok (v, tail)) : Decoded v := by
  unfold readValue at h
  split at h
  · obtain ⟨⟨s, more⟩, -, h⟩ := bind_eq_ok.mp h
    obtain ⟨rfl, -⟩ := by simpa [pure, Except.pure] using h
    exact .text s
  · split at h
    · simp at h
    · split at h
      · obtain ⟨rfl, -⟩ := by simpa using h
        exact .list (by simp)
      · obtain ⟨⟨items, more⟩, hitems, h⟩ := bind_eq_ok.mp h
        obtain ⟨rfl, -⟩ := by simpa [pure, Except.pure] using h
        exact .list (ih.2.1 _ _ _ _ hitems)
  · split at h
    · simp at h
    · split at h
      · obtain ⟨rfl, -⟩ := by simpa using h
        exact .nil_mapping
      · obtain ⟨⟨members, more⟩, hmembers, h⟩ := bind_eq_ok.mp h
        obtain ⟨rfl, -⟩ := by simpa [pure, Except.pure] using h
        have heach := ih.2.2 _ _ _ _ hmembers
        exact decoded_ofPairs (fun e he => (heach e he).1) fun e he => (heach e he).2
  · split at h
    · simp [fail] at h
    · simp at h
    · rename_i hatom
      obtain ⟨rfl, rfl⟩ := by simpa using h
      exact decoded_readAtom hatom

theorem decoded_readItems (ih : ReadsDecoded fuel) {depth : Nat} {cs tail : List Char}
    {vs : List Value} (h : readItems (fuel + 1) depth cs = .ok (vs, tail)) :
    ∀ v ∈ vs, Decoded v := by
  unfold readItems at h
  obtain ⟨⟨v, rest⟩, hv, h⟩ := bind_eq_ok.mp h
  have hfirst := ih.1 _ _ _ _ hv
  dsimp only at h
  split at h
  · obtain ⟨rfl, -⟩ := by simpa [pure, Except.pure] using h
    simpa using hfirst
  · obtain ⟨⟨more, last⟩, hmore, h⟩ := bind_eq_ok.mp h
    obtain ⟨rfl, -⟩ := by simpa [pure, Except.pure] using h
    exact List.forall_mem_cons.mpr ⟨hfirst, ih.2.1 _ _ _ _ hmore⟩
  · simp [fail] at h

theorem decoded_readMembers (ih : ReadsDecoded fuel) {depth : Nat} {cs tail : List Char}
    {members : List (Value × Value)}
    (h : readMembers (fuel + 1) depth cs = .ok (members, tail)) :
    ∀ e ∈ members, (∃ name, e.1 = .text name) ∧ Decoded e.2 := by
  unfold readMembers at h
  split at h
  · obtain ⟨⟨name, rest⟩, -, h⟩ := bind_eq_ok.mp h
    dsimp only at h
    split at h
    · obtain ⟨⟨v, rest⟩, hv, h⟩ := bind_eq_ok.mp h
      have hfirst : (∃ n, Value.text name = .text n) ∧ Decoded v := ⟨⟨name, rfl⟩, ih.1 _ _ _ _ hv⟩
      dsimp only at h
      split at h
      · obtain ⟨rfl, -⟩ := by simpa [pure, Except.pure] using h
        simpa using hfirst
      · obtain ⟨⟨more, last⟩, hmore, h⟩ := bind_eq_ok.mp h
        obtain ⟨rfl, -⟩ := by simpa [pure, Except.pure] using h
        exact List.forall_mem_cons.mpr ⟨hfirst, ih.2.2 _ _ _ _ hmore⟩
      · simp [fail] at h
    · simp [fail] at h
  · simp [fail] at h

theorem readsDecoded (fuel : Nat) : ReadsDecoded fuel := by
  induction fuel with
  | zero => exact readsDecoded_zero
  | succ fuel ih =>
      exact ⟨fun _ _ _ _ h => decoded_readValue ih h, fun _ _ _ _ h => decoded_readItems ih h,
        fun _ _ _ _ h => decoded_readMembers ih h⟩

theorem decoded_readText {s : String} {v : Value} (h : readText s = .ok v) : Decoded v := by
  unfold readText read readWithin at h
  split at h
  · simp [fail] at h
  · obtain ⟨⟨w, tail⟩, hw, h⟩ := bind_eq_ok.mp h
    dsimp only at h
    split at h
    · obtain rfl := by simpa [pure, Except.pure] using h
      exact (readsDecoded _).1 _ _ _ _ hw
    · simp [fail] at h

end Readers

end EndpointBindings.Json
