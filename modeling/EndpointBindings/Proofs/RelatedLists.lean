import Mathlib.Data.List.Forall2
import Mathlib.Data.List.Perm.Basic

/-!
Lists whose items are related, one by one or in some order.
-/

namespace EndpointBindings

variable {α β γ δ : Type} {R : α → β → Prop} {P : α → γ → Prop} {Q : β → δ → Prop}
  {S : γ → δ → Prop} {l : List α} {bs : List β} {cs : List γ} {ds : List δ}

/-- Where each item has a result, all items together have results. -/
theorem exists_forall₂_iff :
    (∃ bs, List.Forall₂ R l bs) ↔ ∀ a ∈ l, ∃ b, R a b := by
  induction l with
  | nil => simp
  | cons a rest ih =>
      simp only [List.forall₂_cons_left_iff, List.forall_mem_cons, ← ih]
      constructor
      · rintro ⟨_, b, bs, hb, hbs, rfl⟩
        exact ⟨⟨b, hb⟩, bs, hbs⟩
      · rintro ⟨⟨b, hb⟩, bs, hbs⟩
        exact ⟨_, b, bs, hb, hbs, rfl⟩

theorem exists_of_mem_forall₂ (h : List.Forall₂ R l bs) {a : α} (ha : a ∈ l) : ∃ b ∈ bs, R a b := by
  induction h with
  | nil => simp at ha
  | cons hfirst _ ih =>
      rcases List.mem_cons.mp ha with rfl | ha
      · exact ⟨_, List.mem_cons_self, hfirst⟩
      · obtain ⟨b, hb, hab⟩ := ih ha
        exact ⟨b, List.mem_cons_of_mem _ hb, hab⟩

theorem map_eq_of_forall₂ {f : α → γ} {g : β → γ} (h : List.Forall₂ R l bs)
    (hfg : ∀ a b, R a b → f a = g b) : l.map f = bs.map g := by
  rw [← List.forall₂_eq_eq_eq, List.forall₂_map_left_iff, List.forall₂_map_right_iff]
  exact h.imp hfg

theorem forall₂_mem (h : List.Forall₂ R l bs) :
    List.Forall₂ (fun a b => (a ∈ l ∧ b ∈ bs) ∧ R a b) l bs := by
  induction h with
  | nil => exact .nil
  | cons hfirst _ ih =>
      refine .cons ⟨⟨List.mem_cons_self, List.mem_cons_self⟩, hfirst⟩ (ih.imp ?_)
      rintro a b ⟨⟨ha, hb⟩, hab⟩
      exact ⟨⟨List.mem_cons_of_mem _ ha, List.mem_cons_of_mem _ hb⟩, hab⟩

/-- Results of related items are related. -/
theorem forall₂_results (h : List.Forall₂ R l bs) (hl : List.Forall₂ P l cs)
    (hbs : List.Forall₂ Q bs ds) (hS : ∀ a b c d, R a b → P a c → Q b d → S c d) :
    List.Forall₂ S cs ds := by
  induction h generalizing cs ds with
  | nil =>
      cases hl
      cases hbs
      exact .nil
  | cons hfirst _ ih =>
      cases hl with
      | cons hc hl =>
          cases hbs with
          | cons hd hbs => exact .cons (hS _ _ _ _ hfirst hc hd) (ih hl hbs)

/-- Two lists have related items when one of them is put in order. -/
def InSomeOrder (R : α → β → Prop) (l : List α) (bs : List β) : Prop :=
  ∃ shuffled, l.Perm shuffled ∧ List.Forall₂ R shuffled bs

namespace InSomeOrder

theorem exists_right (h : InSomeOrder R l bs) {a : α} (ha : a ∈ l) : ∃ b ∈ bs, R a b := by
  obtain ⟨shuffled, hperm, hall⟩ := h
  exact exists_of_mem_forall₂ hall (hperm.mem_iff.mp ha)

theorem exists_left (h : InSomeOrder R l bs) {b : β} (hb : b ∈ bs) : ∃ a ∈ l, R a b := by
  obtain ⟨shuffled, hperm, hall⟩ := h
  obtain ⟨a, ha, hab⟩ := exists_of_mem_forall₂ hall.flip hb
  exact ⟨a, hperm.mem_iff.mpr ha, hab⟩

theorem imp {S : α → β → Prop} (h : InSomeOrder R l bs) (hRS : ∀ a b, R a b → S a b) :
    InSomeOrder S l bs := by
  obtain ⟨shuffled, hperm, hall⟩ := h
  exact ⟨shuffled, hperm, hall.imp hRS⟩

theorem mem (h : InSomeOrder R l bs) :
    InSomeOrder (fun a b => (a ∈ l ∧ b ∈ bs) ∧ R a b) l bs := by
  obtain ⟨shuffled, hperm, hall⟩ := h
  refine ⟨shuffled, hperm, (forall₂_mem hall).imp ?_⟩
  rintro a b ⟨⟨ha, hb⟩, hab⟩
  exact ⟨⟨hperm.mem_iff.mpr ha, hb⟩, hab⟩

theorem isEmpty_eq (h : InSomeOrder R l bs) : l.isEmpty = bs.isEmpty := by
  obtain ⟨shuffled, hperm, hall⟩ := h
  rw [hperm.isEmpty_eq]
  cases hall <;> rfl

/-- Results of items that are related in some order are related in some order. -/
theorem results (h : InSomeOrder R l bs) (hl : List.Forall₂ P l cs) (hbs : List.Forall₂ Q bs ds)
    (hS : ∀ a b c d, R a b → P a c → Q b d → S c d) : InSomeOrder S cs ds := by
  obtain ⟨shuffled, hperm, hall⟩ := h
  obtain ⟨results, hresults, hcs⟩ := List.perm_comp_forall₂ hperm.symm hl
  exact ⟨results, hcs.symm, forall₂_results hall hresults hbs hS⟩

theorem map_perm {f : α → γ} {g : β → γ} (h : InSomeOrder R l bs)
    (hfg : ∀ a b, R a b → f a = g b) : (l.map f).Perm (bs.map g) := by
  obtain ⟨shuffled, hperm, hall⟩ := h
  rw [← map_eq_of_forall₂ hall hfg]
  exact hperm.map f

end InSomeOrder

end EndpointBindings
