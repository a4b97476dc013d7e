import Mathlib.Data.List.Nodup
import EndpointBindings.Proofs.AssemblySuccess
import EndpointBindings.Proofs.RelatedLists

/-!
Values that differ in the order of keys at any level, and documents that declare the same: the order
of keys, the order and the repetition of methods and the repetition of paths apart.
-/

namespace EndpointBindings

namespace Value

/-- The text that a value is. -/
def text? : Value → Option String
  | text s => some s
  | _ => none

/-- The names of the fields among entries. -/
def names (entries : List (Value × Value)) : List String := entries.filterMap fun e => e.1.text?

/-- Entries with related values under the same keys, in whatever order. No two fields have one name
unless the entries are just the same. -/
def Keyed (R : Value → Value → Value → Prop) (entries entries' : List (Value × Value)) : Prop :=
  entries = entries' ∨ (names entries).Nodup ∧
    InSomeOrder (fun e e' => e.1 = e'.1 ∧ R e.1 e.2 e'.2) entries entries'

/-- The entries of a mapping; other values have none. -/
def contents (v : Value) : List (Value × Value) :=
  match v.unfold with
  | mapping entries => entries
  | _ => []

def IsCollection (v : Value) : Prop :=
  match v.unfold with
  | list _ | tuple _ | set _ | mapping _ => True
  | _ => False

/-- A collection that holds the texts, in their order, and nothing else. -/
def HoldsTexts (v : Value) (texts : List String) : Prop :=
  v.unfold = list (texts.map text) ∨ v.unfold = tuple (texts.map text)

/-- One level of a reordering, with the relation that holds one level down. -/
inductive ReorderedBy (R : Value → Value → Prop) : Value → Value → Prop
  | same (v : Value) : ReorderedBy R v v
  | list {v v' : Value} {items items' : List Value} (unfold_eq : v.unfold = list items)
      (unfold_eq' : v'.unfold = list items') (related : List.Forall₂ R items items') :
      ReorderedBy R v v'
  | tuple {v v' : Value} {items items' : List Value} (unfold_eq : v.unfold = tuple items)
      (unfold_eq' : v'.unfold = tuple items') (related : List.Forall₂ R items items') :
      ReorderedBy R v v'
  | set {v v' : Value} {items items' : List Value} (unfold_eq : v.unfold = set items)
      (unfold_eq' : v'.unfold = set items') (perm : items.Perm items') : ReorderedBy R v v'
  | mapping {v v' : Value} {entries entries' : List (Value × Value)}
      (unfold_eq : v.unfold = mapping entries) (unfold_eq' : v'.unfold = mapping entries')
      (keyed : Keyed (fun _ => R) entries entries') : ReorderedBy R v v'

/-- Values that differ in the order of keys. A collection may lead back to itself, so that there
need be no last level. -/
def Reordered (v v' : Value) : Prop :=
  ∃ R : Value → Value → Prop, R v v' ∧ ∀ a b, R a b → ReorderedBy R a b

section Keyed

variable {R S : Value → Value → Value → Prop} {entries entries' : List (Value × Value)}
  {name : String} {v : Value}

theorem mem_names_iff : name ∈ names entries ↔ ∃ v, (text name, v) ∈ entries := by
  rw [names, List.mem_filterMap]
  constructor
  · rintro ⟨⟨key, v⟩, hmem, hkey⟩
    cases key with
    | text s => exact ⟨v, Option.some.inj hkey ▸ hmem⟩
    | _ => simp [text?] at hkey
  · rintro ⟨v, hmem⟩
    exact ⟨(text name, v), hmem, rfl⟩

theorem field?_eq_some_iff (h : (names entries).Nodup) :
    field? name entries = some v ↔ (text name, v) ∈ entries := by
  induction entries with
  | nil => simp [field?]
  | cons e rest ih =>
      obtain ⟨key, w⟩ := e
      by_cases hkey : key = text name
      · subst hkey
        obtain ⟨hfirst, hrest⟩ := List.nodup_cons.mp h
        have hnone : (text name, v) ∉ rest := fun hmem => hfirst (mem_names_iff.mpr ⟨v, hmem⟩)
        simp [field?, hnone, eq_comm]
      · have hrest : (names rest).Nodup := h.sublist ((List.sublist_cons_self _ _).filterMap _)
        have hfield : field? name ((key, w) :: rest) = field? name rest := by
          simp [field?, mt Json.sameKey_text_iff.mp hkey]
        rw [hfield, ih hrest, List.mem_cons]
        simp [Ne.symm hkey]

theorem Keyed.mono (h : Keyed R entries entries') (hRS : ∀ k v v', R k v v' → S k v v') :
    Keyed S entries entries' := by
  rcases h with rfl | ⟨hnames, hentries⟩
  · exact .inl rfl
  · exact .inr ⟨hnames, hentries.imp fun e e' he => ⟨he.1, hRS _ _ _ he.2⟩⟩

theorem names_perm (h : InSomeOrder (fun e e' => e.1 = e'.1) entries entries') :
    (names entries).Perm (names entries') := by
  have hperm := (h.map_perm fun _ _ he => he).filterMap text?
  rwa [List.filterMap_map, List.filterMap_map] at hperm

theorem Keyed.field? (h : Keyed R entries entries') (hrefl : ∀ k v, R k v v) (name : String) :
    Option.Rel (R (text name)) (field? name entries) (field? name entries') := by
  rcases h with rfl | ⟨hnames, hentries⟩
  · cases Value.field? name entries with
    | none => exact .none
    | some v => exact .some (hrefl _ v)
  · have hnames' := (names_perm (hentries.imp fun _ _ he => he.1)).nodup hnames
    cases hv : Value.field? name entries with
    | none =>
        cases hv' : Value.field? name entries' with
        | none => exact .none
        | some v' =>
            obtain ⟨⟨key, v⟩, hmem, rfl, -⟩ :=
              hentries.exists_left ((field?_eq_some_iff hnames').mp hv')
            rw [(field?_eq_some_iff hnames).mpr hmem] at hv
            simp at hv
    | some v =>
        obtain ⟨⟨key, v'⟩, hmem, rfl, hR⟩ :=
          hentries.exists_right ((field?_eq_some_iff hnames).mp hv)
        rw [(field?_eq_some_iff hnames').mpr hmem]
        exact .some hR

theorem Keyed.field (h : Keyed R entries entries') (hrefl : ∀ k v, R k v v) (name : String) :
    R (text name) (field name entries) (field name entries') := by
  have hrel := h.field? hrefl name
  rw [Value.field, Value.field]
  generalize Value.field? name entries = found at hrel ⊢
  generalize Value.field? name entries' = found' at hrel ⊢
  cases hrel with
  | none => exact hrefl _ _
  | some hR => exact hR

theorem Keyed.isEmpty_eq (h : Keyed R entries entries') : entries.isEmpty = entries'.isEmpty := by
  rcases h with rfl | ⟨-, hentries⟩
  · rfl
  · exact hentries.isEmpty_eq

theorem Keyed.of_forall₂ (hnames : (names entries).Nodup)
    (h : List.Forall₂ (fun e e' => e.1 = e'.1 ∧ R e.1 e.2 e'.2) entries entries') :
    Keyed R entries entries' :=
  .inr ⟨hnames, entries, .refl _, h⟩

end Keyed

theorem ReorderedBy.mono {R S : Value → Value → Prop} {v v' : Value}
    (h : ReorderedBy R v v') (hRS : ∀ a b, R a b → S a b) : ReorderedBy S v v' := by
  cases h with
  | same => exact .same v
  | list hlist hlist' hitems => exact .list hlist hlist' (hitems.imp hRS)
  | tuple htuple htuple' hitems => exact .tuple htuple htuple' (hitems.imp hRS)
  | set hset hset' hperm => exact .set hset hset' hperm
  | mapping hmapping hmapping' hkeyed =>
      exact .mapping hmapping hmapping' (hkeyed.mono fun _ => hRS)

namespace Reordered

variable {v v' w w' : Value}

theorem step (h : Reordered v v') : ReorderedBy Reordered v v' := by
  obtain ⟨R, hR, hstep⟩ := h
  exact (hstep v v' hR).mono fun a b hab => ⟨R, hab, hstep⟩

theorem of_step (h : ReorderedBy Reordered v v') : Reordered v v' := by
  -- With one more level on top the relation is still closed.
  refine ⟨fun a b => Reordered a b ∨ ReorderedBy Reordered a b, .inr h, ?_⟩
  rintro a b (hab | hab)
  · exact hab.step.mono fun _ _ => .inl
  · exact hab.mono fun _ _ => .inl

theorem refl (v : Value) : Reordered v v := of_step (.same v)

theorem of_keyed {entries entries' : List (Value × Value)}
    (h : Keyed (fun _ => Reordered) entries entries') :
    Reordered (.mapping entries) (.mapping entries') :=
  of_step (.mapping rfl rfl h)

/-- What is no collection has no order. -/
theorem eq_or_collections (h : Reordered v v') : v = v' ∨ v.IsCollection ∧ v'.IsCollection := by
  cases h.step with
  | same => exact .inl rfl
  | list h h' | tuple h h' | set h h' | mapping h h' =>
      refine .inr ⟨?_, ?_⟩
      · rw [IsCollection, h]
        trivial
      · rw [IsCollection, h']
        trivial

theorem eq_of_not_isCollection (h : Reordered v v') (hv : ¬v.IsCollection) : v' = v := by
  rcases h.eq_or_collections with rfl | ⟨hcollection, -⟩
  · rfl
  · exact absurd hcollection hv

theorem isBlank_eq (h : Reordered v v') : v.isBlank = v'.isBlank := by
  rw [← Assembly.isBlank_unfold v, ← Assembly.isBlank_unfold v']
  cases h.step with
  | same => rfl
  | list h h' hitems =>
      rw [h, h', isBlank, isBlank]
      cases hitems <;> rfl
  | tuple h h' hitems =>
      rw [h, h', isBlank, isBlank]
      cases hitems <;> rfl
  | set h h' hperm =>
      rw [h, h', isBlank, isBlank, hperm.isEmpty_eq]
  | mapping h h' hkeyed =>
      rw [h, h', isBlank, isBlank, hkeyed.isEmpty_eq]

theorem orElse (h : Reordered v v') (hw : Reordered w w') :
    Reordered (v.orElse w) (v'.orElse w') := by
  rw [Value.orElse, Value.orElse, h.isBlank_eq]
  split
  · exact hw
  · exact h

theorem contents (h : Reordered v v') : Keyed (fun _ => Reordered) v.contents v'.contents := by
  cases h.step with
  | same => exact .inl rfl
  | list h h' | tuple h h' | set h h' =>
      rw [Value.contents, Value.contents, h, h']
      exact .inl rfl
  | mapping h h' hkeyed =>
      rw [Value.contents, Value.contents, h, h']
      exact hkeyed

theorem field {entries entries' : List (Value × Value)}
    (h : Keyed (fun _ => Reordered) entries entries') (name : String) :
    Reordered (Value.field name entries) (Value.field name entries') :=
  h.field (fun _ => refl) name

section Texts

variable {s : String} {texts texts' : List String} {text text' : Option String}

theorem not_isCollection_optional : ¬(Assembly.optional text).IsCollection := by
  cases text <;> exact id

theorem optional_inj (h : Reordered (Assembly.optional text) (Assembly.optional text')) :
    text = text' := by
  have heq := h.eq_of_not_isCollection not_isCollection_optional
  cases text <;> cases text' <;> simp_all [Assembly.optional]

theorem texts_eq (h : List.Forall₂ Reordered (texts.map .text) (texts'.map .text)) :
    texts = texts' := by
  rw [List.forall₂_map_left_iff, List.forall₂_map_right_iff] at h
  rw [← List.forall₂_eq_eq_eq]
  apply h.imp
  intro s t hst
  exact (Value.text.inj (hst.eq_of_not_isCollection id)).symm

theorem texts_eq_of_holdsTexts (h : Reordered v v') (hv : HoldsTexts v texts)
    (hv' : HoldsTexts v' texts') : texts = texts' := by
  have hinj : Function.Injective (List.map Value.text) :=
    List.map_injective_iff.mpr fun _ _ => Value.text.inj
  rw [HoldsTexts] at hv hv'
  cases h.step with
  | same =>
      rcases hv with hv | hv
      · rw [hv] at hv'
        simpa [hinj.eq_iff] using hv'
      · rw [hv] at hv'
        simpa [hinj.eq_iff] using hv'
  | list h h' hitems | tuple h h' hitems =>
      rw [h] at hv
      rw [h'] at hv'
      obtain rfl := by simpa using hv
      obtain rfl := by simpa using hv'
      exact texts_eq hitems
  | set h | mapping h => simp [h] at hv

end Texts

end Reordered

section Brackets

variable {v : Value} {s name : String} {texts : List String}

def EndsInBracket (s : String) : Prop :=
  s.toList.getLast? ∈ [some ']', some ')', some '\x7d']

instance : Decidable (EndsInBracket s) :=
  inferInstanceAs (Decidable (s.toList.getLast? ∈ [some ']', some ')', some '\x7d']))

theorem EndsInBracket.append (h : EndsInBracket s) (before : String) :
    EndsInBracket (before ++ s) := by
  rw [EndsInBracket] at h ⊢
  rw [String.toList_append, List.getLast?_append]
  cases hlast : s.toList.getLast? with
  | none => simp [hlast] at h
  | some c => rwa [hlast] at h

theorem endsInBracket_displayInside (around : List (Nat × String)) (hv : v.IsCollection)
    (hloop : ∀ label body, v ≠ loop label body) : EndsInBracket (displayInside around v) := by
  cases v with
  | list items =>
      rw [displayInside]
      exact EndsInBracket.append (by decide) _
  | mapping entries =>
      rw [displayInside]
      exact EndsInBracket.append (by decide) _
  | tuple items =>
      rw [displayInside]
      split
      · exact EndsInBracket.append (by decide) _
      · exact EndsInBracket.append (by decide) _
  | set items =>
      rw [displayInside]
      split
      · decide
      · exact EndsInBracket.append (by decide) _
  | loop label body => exact absurd rfl (hloop label body)
  | _ => exact False.elim hv

/-- What stands for a collection in a text ends in a bracket, as no name of a type does. -/
theorem IsCollection.endsInBracket (hv : v.IsCollection) : EndsInBracket v.toText := by
  cases v with
  | list | mapping | tuple | set => exact endsInBracket_displayInside [] hv (by simp)
  | loop label body =>
      have hshown : (loop label body).toText = displayInside [(label, body.elided)] body := by
        rw [toText, display, displayInside]
        · rfl
        all_goals simp
      rw [hshown]
      cases body with
      | list | mapping | tuple | set => exact endsInBracket_displayInside _ trivial (by simp)
      | _ => exact False.elim hv
  | _ => exact False.elim hv

theorem resolve?_of_endsInBracket (h : EndsInBracket name) :
    ValueType.resolve? name texts = some (.other name) := by
  have hnames : ∀ s ∈ ValueType.choiceName :: ValueType.named.map (·.1), ¬EndsInBracket s := by
    decide
  have hchoice : name ≠ ValueType.choiceName := by
    rintro rfl
    exact hnames _ List.mem_cons_self h
  have hnamed : ValueType.named.lookup name = none := by
    apply List.lookup_eq_none_iff.mpr
    intro p hp
    have hp : p.1 ≠ name := by
      rintro rfl
      exact hnames _ (List.mem_cons_of_mem _ (List.mem_map_of_mem hp)) h
    simpa using hp.symm
  rw [ValueType.resolve?, if_neg hchoice, hnamed]
  rfl

end Brackets

end Value

open Value

/-- Lists of the same methods, in whatever order and however often. -/
def SameMethods (v v' : Value) : Prop :=
  ∃ items items', v.unfold = .list items ∧ v'.unfold = .list items' ∧ ∀ m, m ∈ items ↔ m ∈ items'

/-- Lists of the same paths, in one order of their first places, however often they come again. -/
def SamePaths (v v' : Value) : Prop :=
  ∃ texts texts' : List String, v.unfold = .list (texts.map .text) ∧
    v'.unfold = .list (texts'.map .text) ∧ texts.eraseDups = texts'.eraseDups

/-- What may differ under a key of a URL. -/
def UrlEntryAlike (key v v' : Value) : Prop :=
  Reordered v v' ∨ key = .text "paths" ∧ SamePaths v v'

/-- What may differ under a key of the body of an endpoint. -/
def BodyEntryAlike (key v v' : Value) : Prop :=
  Reordered v v' ∨ key = .text "methods" ∧ SameMethods v v' ∨
    key = .text "url" ∧ ∃ url url', v.unfold = .mapping url ∧ v'.unfold = .mapping url' ∧
      Keyed UrlEntryAlike url url'

/-- Documents that differ in the order of the keys of any object, in the order and the repetition of
the methods, and in the repetition of paths. -/
def DocumentAlike (document document' : Fields) : Prop :=
  Assembly.isBody document = true ∧ Keyed BodyEntryAlike document document' ∨
    Assembly.isBody document = false ∧ ∃ key v v' fields fields', document = [(key, v)] ∧
      document' = [(key, v')] ∧ v.unfold = .mapping fields ∧ v'.unfold = .mapping fields' ∧
      Keyed BodyEntryAlike fields fields'

end EndpointBindings
