import Mathlib.Data.List.Basic
import Mathlib.Data.Char

/-!
Texts by their code points, and by their sixteen-bit units: a character past the first plane has two
units, which are surrogates. Either way a text is had back from what it is given by.
-/

namespace EndpointBindings.Emission

variable {s : String}

def points (s : String) : List Nat := s.toList.map Char.toNat

/-- The sixteen-bit units of a character: its own code point, or two surrogates for one past the
first plane. -/
def unitsOf (c : Char) : List Nat :=
  if c.toNat < 0x10000 then [c.toNat]
  else [0xd800 + (c.toNat - 0x10000) / 1024, 0xdc00 + (c.toNat - 0x10000) % 1024]

def units (s : String) : List Nat := s.toList.flatMap unitsOf

def InFirstPlane (s : String) : Prop := ∀ c ∈ s.toList, c.toNat < 0x10000

instance : Decidable (InFirstPlane s) :=
  List.decidableBAll (fun c : Char => c.toNat < 0x10000) s.toList

theorem toNat_lt (c : Char) : c.toNat < 0x110000 := by
  have hvalid := c.valid
  rw [UInt32.isValidChar, Nat.isValidChar] at hvalid
  change c.val.toNat < _
  omega

/-- A surrogate is no code point of the character that it is half of. -/
theorem units_eq_points_iff : units s = points s ↔ InFirstPlane s := by
  unfold units points InFirstPlane
  induction s.toList with
  | nil => simp
  | cons c rest ih =>
      rw [List.flatMap_cons, List.map_cons, List.forall_mem_cons, unitsOf]
      split
      · rename_i hfirst
        simp [hfirst, ih]
      · rename_i hpast
        have hlt := toNat_lt c
        simp only [List.cons_append, List.cons.injEq, hpast, false_and, iff_false, not_and]
        omega

/-- No character is a surrogate. -/
theorem not_surrogate (c : Char) : c.toNat < 0xd800 ∨ 0xe000 ≤ c.toNat := by
  have hvalid := c.valid
  rw [UInt32.isValidChar, Nat.isValidChar] at hvalid
  change c.val.toNat < _ ∨ _ ≤ c.val.toNat
  omega

theorem unitsOf_append_inj {c d : Char} {us vs : List Nat}
    (h : unitsOf c ++ us = unitsOf d ++ vs) : c = d ∧ us = vs := by
  have hc := not_surrogate c
  have hd := not_surrogate d
  have hclt := toNat_lt c
  have hdlt := toNat_lt d
  suffices hnat : c.toNat = d.toNat by
    obtain rfl := Char.toNat_inj.mp hnat
    exact ⟨rfl, List.append_cancel_left h⟩
  unfold unitsOf at h
  split at h <;> split at h <;>
    simp only [List.cons_append, List.nil_append, List.cons.injEq] at h <;> omega

/-- Texts of the same units are the same. -/
theorem units_injective : Function.Injective units := by
  intro s t h
  unfold units at h
  rw [← String.toList_inj]
  generalize s.toList = cs at h ⊢
  generalize t.toList = ds at h ⊢
  have hne : ∀ c : Char, unitsOf c ≠ [] := by
    intro c
    unfold unitsOf
    split <;> simp
  induction cs generalizing ds with
  | nil =>
      cases ds with
      | nil => rfl
      | cons d ds => simp [hne] at h
  | cons c cs ih =>
      cases ds with
      | nil => simp [hne] at h
      | cons d ds =>
          rw [List.flatMap_cons, List.flatMap_cons] at h
          obtain ⟨rfl, hrest⟩ := unitsOf_append_inj h
          rw [ih ds hrest]

theorem points_injective : Function.Injective points := fun _ _ h =>
  String.toList_inj.mp (List.map_injective_iff.mpr (fun _ _ => Char.toNat_inj.mp) h)

/-- Units that are all characters are those of the text that has these characters. -/
theorem eq_of_units_eq_points {t : String} (h : units s = points t) : s = t ∧ InFirstPlane s := by
  have hplane : InFirstPlane s := by
    intro c hc
    by_contra hpast
    have hmem : 0xd800 + (c.toNat - 0x10000) / 1024 ∈ points t := by
      rw [← h]
      exact List.mem_flatMap.mpr ⟨c, hc, by simp [unitsOf, hpast]⟩
    obtain ⟨d, -, hd⟩ := List.mem_map.mp hmem
    have hchar := not_surrogate d
    have hlt := toNat_lt c
    omega
  exact ⟨points_injective ((units_eq_points_iff.mpr hplane).symm.trans h), hplane⟩

end EndpointBindings.Emission
