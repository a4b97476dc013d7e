import Mathlib.Data.List.Forall2
import Mathlib.Data.List.Nodup
import Mathlib.Data.List.Perm.Subperm
import Mathlib.Order.Bounds.Basic
import EndpointBindings.Naming.Fresh
import EndpointBindings.Proofs.RelatedLists

/-!
Names that are not taken. The search for one stops at a candidate, and as candidates do not repeat,
the taken names run out before the search does.
-/

namespace EndpointBindings.Naming

section Search

variable {candidate : Nat → String} {taken : List String}

/-- A search passes taken names on its way to the candidate that it ends at. -/
theorem exists_firstFree_eq (fuel k : Nat) :
    ∃ j, firstFree candidate taken fuel k = candidate j ∧
      ∀ i, k ≤ i → i < j → candidate i ∈ taken := by
  induction fuel generalizing k with
  | zero => exact ⟨k, rfl, fun i hk hi => absurd hi (Nat.not_lt.mpr hk)⟩
  | succ fuel ih =>
      unfold firstFree
      split
      · rename_i hk
        obtain ⟨j, hj, hpassed⟩ := ih (k + 1)
        refine ⟨j, hj, fun i hki hij => ?_⟩
        rcases Nat.eq_or_lt_of_le hki with rfl | hlt
        · exact hk
        · exact hpassed i hlt hij
      · exact ⟨k, rfl, fun i hk hi => absurd hi (Nat.not_lt.mpr hk)⟩

/-- A search that ends at a taken name passed taken names only. -/
theorem mem_of_firstFree_mem {fuel k : Nat} (h : firstFree candidate taken fuel k ∈ taken) :
    ∀ i ≤ fuel, candidate (k + i) ∈ taken := by
  induction fuel generalizing k with
  | zero =>
      intro i hi
      obtain rfl : i = 0 := by omega
      exact h
  | succ fuel ih =>
      unfold firstFree at h
      split at h
      · rename_i hk
        intro i hi
        cases i with
        | zero => exact hk
        | succ i =>
            have := ih h i (by omega)
            rwa [Nat.add_right_comm, Nat.add_assoc] at this
      · rename_i hk
        exact absurd h hk

theorem fresh_not_mem (hcandidate : Function.Injective candidate) :
    fresh candidate taken ∉ taken := by
  intro h
  have hall := mem_of_firstFree_mem h
  have hnodup : ((List.range (taken.length + 1)).map candidate).Nodup :=
    List.nodup_range.map hcandidate
  have hsubset : (List.range (taken.length + 1)).map candidate ⊆ taken := by
    intro name hname
    obtain ⟨i, hi, rfl⟩ := List.mem_map.mp hname
    simpa using hall i (by simpa [Nat.lt_succ_iff] using hi)
  have hlength := (List.subperm_of_subset hnodup hsubset).length_le
  rw [List.length_map, List.length_range] at hlength
  omega

theorem exists_fresh_eq : ∃ k, fresh candidate taken = candidate k :=
  (exists_firstFree_eq _ _).imp fun _ h => h.1

/-- The name that is found is the first of the candidates that is not taken. -/
theorem exists_isLeast_fresh (hcandidate : Function.Injective candidate) :
    ∃ k, IsLeast {k | candidate k ∉ taken} k ∧ fresh candidate taken = candidate k := by
  obtain ⟨k, hk, hpassed⟩ : ∃ k, fresh candidate taken = candidate k ∧
      ∀ i, 0 ≤ i → i < k → candidate i ∈ taken := exists_firstFree_eq _ _
  refine ⟨k, ⟨?_, fun j hj => ?_⟩, hk⟩
  · have hfree : fresh candidate taken ∉ taken := fresh_not_mem hcandidate
    rwa [hk] at hfree
  · by_contra hlt
    exact hj (hpassed j (Nat.zero_le j) (Nat.not_le.mp hlt))

end Search

section Candidates

variable {name : String}

theorem underscored_injective : Function.Injective (underscored name) := by
  intro j k h
  have hlist := congrArg List.length (congrArg String.toList h)
  simpa [underscored] using hlist

theorem toString_injective : Function.Injective (toString : Nat → String) := by
  intro j k h
  have hlist : Nat.toDigits 10 j = Nat.toDigits 10 k := by
    simpa [Nat.toString_eq_ofList_toDigits] using congrArg String.toList h
  have hvalue := congrArg (fun digits => Nat.ofDigitChars 10 digits 0) hlist
  simpa using hvalue

/-- A number is never mistaken for the end of the name. -/
theorem numbered_injective : Function.Injective (numbered name) := by
  have hlonger : ∀ k, name ≠ name ++ "_" ++ toString (k + 1) := by
    intro k h
    have hlist := congrArg List.length (congrArg String.toList h)
    simp at hlist
  intro j k h
  unfold numbered at h
  split at h
  · split at h
    · omega
    · exact absurd h (hlonger k)
  · split at h
    · exact absurd h.symm (hlonger j)
    · have hnumber : toString (j + 1) = toString (k + 1) := by
        have hlist := congrArg String.toList h
        simp only [String.toList_append, List.append_assoc, List.append_cancel_left_eq] at hlist
        exact String.toList_inj.mp hlist
      have := toString_injective hnumber
      omega

theorem uniqueIdentifier_not_mem {taken : List String} : uniqueIdentifier name taken ∉ taken :=
  fresh_not_mem underscored_injective

end Candidates

/-- A call for a free name: with underscores at its end, or with a number behind it. -/
inductive Request where
  | underscores (name : String)
  | number (name : String)
  deriving DecidableEq, Repr

namespace Request

/-- The names that are tried, in order. -/
def candidate : Request → Nat → String
  | underscores name => underscored name
  | number name => numbered name

def answer : Request → List String → String
  | underscores name, taken => uniqueIdentifier name taken
  | number name, taken => uniqueFunctionName name taken

theorem candidate_injective (request : Request) : Function.Injective request.candidate :=
  match request with
  | underscores _ => underscored_injective
  | number _ => numbered_injective

theorem answer_eq (request : Request) (taken : List String) :
    request.answer taken = fresh request.candidate taken := by
  cases request <;> rfl

theorem answer_not_mem {request : Request} {taken : List String} :
    request.answer taken ∉ taken := by
  rw [answer_eq]
  exact fresh_not_mem request.candidate_injective

end Request

section Turns

variable {α α' β β' γ : Type} {choose : α → List String → String}
  {choose' : α' → List String → String} {make : α → String → β} {make' : α' → String → β'}
  {taken : List String} {l : List α} {l' : List α'} {a : α} {b : β}

theorem map_nameInTurn (f : β → γ) : (nameInTurn choose make taken l).map f =
    nameInTurn choose (fun a name => f (make a name)) taken l := by
  induction l generalizing taken with
  | nil => rfl
  | cons a rest ih => exact congrArg (_ :: ·) ih

theorem nameInTurn_map (g : α' → α) : nameInTurn choose make taken (l'.map g) =
    nameInTurn (fun a => choose (g a)) (fun a => make (g a)) taken l' := by
  induction l' generalizing taken with
  | nil => rfl
  | cons a rest ih => exact congrArg (_ :: ·) ih

/-- What is made of each thing has the name that was chosen for it among the taken ones. -/
theorem forall₂_choices : List.Forall₂
    (fun a b => ∃ before, taken ⊆ before ∧ b = make a (choose a before)) l
    (nameInTurn choose make taken l) := by
  induction l generalizing taken with
  | nil => exact .nil
  | cons a rest ih =>
      refine .cons ⟨taken, List.Subset.refl _, rfl⟩ (ih.imp ?_)
      rintro other b ⟨before, hbefore, rfl⟩
      exact ⟨before, fun _ hmem => hbefore (List.mem_cons_of_mem _ hmem), rfl⟩

/-- What does not hang on the names is had from the things alone. -/
theorem map_nameInTurn_eq_map {f : β → γ} (g : α → γ) (h : ∀ a name, f (make a name) = g a) :
    (nameInTurn choose make taken l).map f = l.map g := by
  refine (map_eq_of_forall₂ (@forall₂_choices _ _ choose make taken l) ?_).symm
  rintro a b ⟨before, -, rfl⟩
  exact (h a _).symm

theorem exists_of_mem_nameInTurn (hb : b ∈ nameInTurn choose make taken l) :
    ∃ a ∈ l, ∃ before, taken ⊆ before ∧ b = make a (choose a before) :=
  exists_of_mem_forall₂ forall₂_choices.flip hb

theorem exists_mem_nameInTurn (ha : a ∈ l) :
    ∃ name, make a name ∈ nameInTurn choose make taken l := by
  obtain ⟨b, hb, before, -, rfl⟩ := exists_of_mem_forall₂ forall₂_choices ha
  exact ⟨_, hb⟩

/-- Things that agree are given one name each, and so what is made of them agrees. -/
theorem forall₂_nameInTurn {R : α → α' → Prop} {S : β → β' → Prop} (h : List.Forall₂ R l l')
    (hchoose : ∀ a a', R a a' → choose a = choose' a')
    (hmake : ∀ a a' before, R a a' → S (make a (choose a before)) (make' a' (choose a before))) :
    List.Forall₂ S (nameInTurn choose make taken l) (nameInTurn choose' make' taken l') := by
  induction h generalizing taken with
  | nil => exact .nil
  | @cons a a' _ _ hfirst _ ih =>
      rw [nameInTurn, nameInTurn, ← hchoose a a' hfirst]
      exact .cons (hmake a a' taken hfirst) ih

/-- Names that are chosen one after another differ from each other and from the taken ones. -/
theorem nodup_nameInTurn (hchoose : ∀ a taken, choose a taken ∉ taken) :
    (nameInTurn choose (fun _ name => name) taken l).Nodup ∧
      ∀ name ∈ nameInTurn choose (fun _ name => name) taken l, name ∉ taken := by
  induction l generalizing taken with
  | nil => simp [nameInTurn]
  | cons a rest ih =>
      obtain ⟨hnodup, hfree⟩ := @ih (choose a taken :: taken)
      constructor
      · exact List.nodup_cons.mpr ⟨fun hmem => hfree _ hmem List.mem_cons_self, hnodup⟩
      · intro name hname
        rcases List.mem_cons.mp hname with rfl | hname
        · exact hchoose a taken
        · exact fun hmem => hfree name hname (List.mem_cons_of_mem _ hmem)

end Turns

/-- The answers to calls in turn, each of them taken from then on. -/
def answers (taken : List String) (requests : List Request) : List String :=
  nameInTurn Request.answer (fun _ name => name) taken requests

section Sequences

variable {taken names : List String} {name : String} {requests : List Request}

theorem answers_nil : answers taken [] = [] := rfl

theorem answers_cons (request : Request) : answers taken (request :: requests) =
    request.answer taken :: answers (request.answer taken :: taken) requests :=
  rfl

theorem answers_nodup : (answers taken requests).Nodup ∧
    ∀ name ∈ answers taken requests, name ∉ taken :=
  nodup_nameInTurn fun _ _ => Request.answer_not_mem

theorem uniqueIdentifiers_nodup : (uniqueIdentifiers taken names).Nodup ∧
    ∀ name ∈ uniqueIdentifiers taken names, name ∉ taken :=
  nodup_nameInTurn fun _ _ => uniqueIdentifier_not_mem

end Sequences

end EndpointBindings.Naming
