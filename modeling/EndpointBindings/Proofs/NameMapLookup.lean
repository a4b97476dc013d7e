import Mathlib.Data.List.Basic
import EndpointBindings.NameMap

/-!
Maps from names as functions: a map is determined by what its names are bound to, and an insertion
under a new name adds one value to the others.
-/

namespace EndpointBindings.NameMap

variable {α β : Type}

theorem lookup_eq_none_iff {name : String} {l : List (String × α)} :
    lookup name l = none ↔ ∀ e ∈ l, e.1 ≠ name := by
  induction l with
  | nil => simp [lookup]
  | cons e rest ih =>
      unfold lookup
      split
      · rename_i h
        simp [h]
      · rename_i h
        simp [ih, h]

theorem mem_of_lookup_eq_some {name : String} {value : α} {l : List (String × α)}
    (h : lookup name l = some value) : (name, value) ∈ l := by
  induction l with
  | nil => simp [lookup] at h
  | cons e rest ih =>
      unfold lookup at h
      split at h
      · rename_i hname
        obtain rfl : e.2 = value := by simpa using h
        exact hname ▸ List.mem_cons_self
      · exact List.mem_cons_of_mem _ (ih h)

theorem lookup_eq_some_of_mem {name : String} {value : α} {l : List (String × α)}
    (hl : l.Pairwise fun a b => a.1 < b.1) (h : (name, value) ∈ l) :
    lookup name l = some value := by
  induction l with
  | nil => simp at h
  | cons e rest ih =>
      obtain ⟨hfirst, hrest⟩ := List.pairwise_cons.mp hl
      unfold lookup
      rcases List.mem_cons.mp h with rfl | h
      · simp
      · have hne : e.1 ≠ name := fun heq =>
          String.lt_irrefl name (heq ▸ hfirst (name, value) h)
        simpa [hne] using ih hrest h

/-- The entries of a map are the pairs that look-up finds. -/
theorem mem_entries_iff {name : String} {value : α} {m : NameMap α} :
    (name, value) ∈ m.entries ↔ m.get? name = some value :=
  ⟨lookup_eq_some_of_mem m.ordered, mem_of_lookup_eq_some⟩

theorem mem_values_iff {value : α} {m : NameMap α} :
    value ∈ m.values ↔ ∃ name, m.get? name = some value := by
  simp [values, ← mem_entries_iff]

theorem mem_names_iff {name : String} {m : NameMap α} :
    name ∈ m.names ↔ ∃ value, m.get? name = some value := by
  simp [names, ← mem_entries_iff]

theorem names_pairwise_lt (m : NameMap α) : m.names.Pairwise (· < ·) :=
  List.pairwise_map.mpr m.ordered

theorem names_nodup (m : NameMap α) : m.names.Nodup := by
  apply m.names_pairwise_lt.imp
  rintro a _ hlt rfl
  exact String.lt_irrefl _ hlt

theorem nodup_of_ordered {l : List (String × α)} (hl : l.Pairwise fun a b => a.1 < b.1) :
    l.Nodup := by
  apply hl.imp
  rintro a _ hlt rfl
  exact String.lt_irrefl _ hlt

/-- Two lists in strict order of their names with the same members are the same list. -/
theorem entries_eq_of_mem_iff {l l' : List (String × α)}
    (hl : l.Pairwise fun a b => a.1 < b.1) (hl' : l'.Pairwise fun a b => a.1 < b.1)
    (h : ∀ e, e ∈ l ↔ e ∈ l') : l = l' := by
  have hperm : l.Perm l' :=
    (List.perm_ext_iff_of_nodup (nodup_of_ordered hl) (nodup_of_ordered hl')).mpr h
  refine List.Perm.eq_of_pairwise (fun a b _ _ hab hba => ?_) hl hl' hperm
  exact absurd (String.lt_trans hab hba) (String.lt_irrefl _)

/-- Entries with different names come into strict order when they are sorted. -/
theorem pairwise_lt_mergeSort {l : List (String × α)} (h : (l.map (·.1)).Nodup) :
    (l.mergeSort fun a b => decide (a.1 ≤ b.1)).Pairwise fun a b => a.1 < b.1 := by
  have hle : (l.mergeSort fun a b => decide (a.1 ≤ b.1)).Pairwise fun a b => a.1 ≤ b.1 := by
    refine (List.pairwise_mergeSort ?_ ?_ l).imp fun h => of_decide_eq_true h
    · intro a b c hab hbc
      exact decide_eq_true (String.le_trans (of_decide_eq_true hab) (of_decide_eq_true hbc))
    · intro a b
      simpa using String.le_total a.1 b.1
  have hne : (l.mergeSort fun a b => decide (a.1 ≤ b.1)).Pairwise fun a b => a.1 ≠ b.1 :=
    List.pairwise_map.mp (((List.mergeSort_perm l _).map Prod.fst).nodup_iff.mpr h)
  refine (hle.and hne).imp fun ⟨hab, hne⟩ => ?_
  exact lt_of_not_lt_of_ne (String.not_lt.mpr hab) hne.symm

/-- A map is what its names are bound to. -/
theorem ext_get? {m m' : NameMap α} (h : ∀ name, m.get? name = m'.get? name) : m = m' := by
  have hentries : m.entries = m'.entries := by
    apply entries_eq_of_mem_iff m.ordered m'.ordered
    intro e
    obtain ⟨name, value⟩ := e
    rw [mem_entries_iff, h name, ← mem_entries_iff]
  cases m
  cases m'
  simpa using hentries

/-- Maps with the same names have them in the same order. -/
theorem names_eq_of_mem_iff {m : NameMap α} {m' : NameMap β}
    (h : ∀ name, name ∈ m.names ↔ name ∈ m'.names) : m.names = m'.names := by
  have hperm : m.names.Perm m'.names :=
    (List.perm_ext_iff_of_nodup m.names_nodup m'.names_nodup).mpr h
  refine List.Perm.eq_of_pairwise (fun a b _ _ hab hba => ?_) m.names_pairwise_lt
    m'.names_pairwise_lt hperm
  exact absurd (String.lt_trans hab hba) (String.lt_irrefl _)

theorem forall₂_of_names_eq {R : α → β → Prop} {l : List (String × α)} {l' : List (String × β)}
    (hnames : l.map (·.1) = l'.map (·.1))
    (hvalues : ∀ a ∈ l, ∀ b ∈ l', a.1 = b.1 → R a.2 b.2) :
    List.Forall₂ (fun a b => a.1 = b.1 ∧ R a.2 b.2) l l' := by
  induction l generalizing l' with
  | nil =>
      obtain rfl := List.map_eq_nil_iff.mp hnames.symm
      exact .nil
  | cons a rest ih =>
      cases l' with
      | nil => simp at hnames
      | cons b rest' =>
          obtain ⟨hname, hnames⟩ := List.cons.inj hnames
          refine .cons ⟨hname, hvalues a List.mem_cons_self b List.mem_cons_self hname⟩ ?_
          exact ih hnames fun c hc d hd =>
            hvalues c (List.mem_cons_of_mem _ hc) d (List.mem_cons_of_mem _ hd)

/-- Maps that bind the same names to related values have related entries in order. -/
theorem forall₂_entries {R : α → β → Prop} {m : NameMap α} {m' : NameMap β}
    (h : ∀ name v, m.get? name = some v → ∃ w, m'.get? name = some w ∧ R v w)
    (h' : ∀ name w, m'.get? name = some w → ∃ v, m.get? name = some v) :
    List.Forall₂ (fun a b => a.1 = b.1 ∧ R a.2 b.2) m.entries m'.entries := by
  refine forall₂_of_names_eq (names_eq_of_mem_iff fun name => ?_) fun a ha b hb hname => ?_
  · rw [mem_names_iff, mem_names_iff]
    constructor
    · rintro ⟨v, hv⟩
      obtain ⟨w, hw, -⟩ := h name v hv
      exact ⟨w, hw⟩
    · rintro ⟨w, hw⟩
      exact h' name w hw
  · obtain ⟨w, hw, hR⟩ := h a.1 a.2 (mem_entries_iff.mp ha)
    have hb : m'.get? a.1 = some b.2 := hname ▸ mem_entries_iff.mp hb
    obtain rfl := Option.some.inj (hw.symm.trans hb)
    exact hR

theorem get?_foldl_insert {name : String} {value : α} {l : List (String × α)} {m : NameMap α}
    (hl : (l.map (·.1)).Nodup) :
    (l.foldl (fun m p => m.insert p.1 p.2) m).get? name = some value ↔
      (name, value) ∈ l ∨ (name ∉ l.map (·.1) ∧ m.get? name = some value) := by
  induction l generalizing m with
  | nil => simp
  | cons p rest ih =>
      obtain ⟨hfirst, hrest⟩ := List.nodup_cons.mp hl
      rw [List.foldl_cons, ih hrest, get?_insert]
      by_cases hname : p.1 = name
      · subst hname
        have hvalue : (p.1, value) ∈ rest → p.1 ∈ rest.map (·.1) := List.mem_map_of_mem
        simp only [if_true, List.mem_cons, Option.some.injEq, List.map_cons]
        grind
      · simp only [if_neg hname, List.mem_cons, List.map_cons]
        grind

/-- Pairs with different names are what the map of them binds. -/
theorem get?_ofPairs_iff {name : String} {value : α} {l : List (String × α)}
    (hl : (l.map (·.1)).Nodup) : (ofPairs l).get? name = some value ↔ (name, value) ∈ l := by
  unfold ofPairs
  rw [get?_foldl_insert hl]
  simp

theorem mem_of_mem_foldl_insert {l : List (String × α)} {m : NameMap α} {q : String × α}
    (h : q ∈ (l.foldl (fun m p => m.insert p.1 p.2) m).entries) : q ∈ l ∨ q ∈ m.entries := by
  induction l generalizing m with
  | nil => exact .inr h
  | cons p rest ih =>
      rcases ih h with h | h
      · exact .inl (List.mem_cons_of_mem _ h)
      · rcases mem_insertEntry h with rfl | h
        · exact .inl List.mem_cons_self
        · exact .inr h

/-- A map of pairs binds nothing but the pairs. -/
theorem mem_of_mem_ofPairs {l : List (String × α)} {q : String × α}
    (h : q ∈ (ofPairs l).entries) : q ∈ l :=
  (mem_of_mem_foldl_insert h).resolve_right List.not_mem_nil

theorem insertEntry_perm_of_lookup_eq_none {name : String} {value : α} {l : List (String × α)}
    (h : lookup name l = none) : (insertEntry name value l).Perm ((name, value) :: l) := by
  induction l with
  | nil => exact List.Perm.refl _
  | cons e rest ih =>
      have hne : name ≠ e.1 := fun heq =>
        lookup_eq_none_iff.mp h e List.mem_cons_self heq.symm
      have hrest : lookup name rest = none := lookup_eq_none_iff.mpr fun d hd =>
        lookup_eq_none_iff.mp h d (List.mem_cons_of_mem _ hd)
      unfold insertEntry
      split
      · exact List.Perm.refl _
      · exact ((ih hrest).cons e).trans (List.Perm.swap _ _ _)

theorem values_insert_perm {name : String} {value : α} {m : NameMap α}
    (h : m.get? name = none) : (m.insert name value).values.Perm (value :: m.values) :=
  (insertEntry_perm_of_lookup_eq_none h).map Prod.snd

end EndpointBindings.NameMap
