import Mathlib.Data.Finset.Card
import Mathlib.Logic.Function.Iterate
import Mathlib.Logic.Relation
import EndpointBindings.Proofs.FreshNames

/-!
The loops that look for a free name. A loop tries one name after another and goes on from a taken
one, so what it has still to go through is the taken names that it has not tried. As it tries no
name twice, they run out, and it ends at the first of its names that is not taken.
-/

namespace EndpointBindings.Naming

/-- A loop that tries the name of its state, starting from the first. -/
structure NameLoop where
  State : Type
  start : State
  tried : State → String
  next : State → State

/-- A name, and each time one more underscore behind it. -/
def appending (name : String) : NameLoop := ⟨String, name, id, (· ++ "_")⟩

/-- A name, and then the name with a counter behind it that starts at two. -/
def counting (name : String) : NameLoop :=
  ⟨String × Nat, (name, 2), Prod.fst, fun s => (name ++ "_" ++ toString s.2, s.2 + 1)⟩

/-- The loop that answers a call. -/
def Request.loop : Request → NameLoop
  | underscores name => appending name
  | number name => counting name

namespace NameLoop

/-- The state in which a loop tries its name number `k`. -/
def stateAt (loop : NameLoop) (k : Nat) : loop.State := loop.next^[k] loop.start

def nameAt (loop : NameLoop) (k : Nat) : String := loop.tried (loop.stateAt k)

/-- A loop goes on from a taken name. -/
def Step (loop : NameLoop) (taken : Finset String) (s t : loop.State) : Prop :=
  loop.tried s ∈ taken ∧ t = loop.next s

/-- A loop ends at a name that is not taken. -/
def EndsAt (loop : NameLoop) (taken : Finset String) (name : String) : Prop :=
  ∃ s, Relation.ReflTransGen (loop.Step taken) loop.start s ∧ loop.tried s = name ∧ name ∉ taken

/-- The taken names that are not among the first `k` tried ones. -/
def untried (loop : NameLoop) (taken : Finset String) (k : Nat) : Finset String :=
  taken \ (Finset.range k).image loop.nameAt

variable {loop : NameLoop} {taken : Finset String} {name : String} {k : Nat}

theorem stateAt_succ : loop.stateAt (k + 1) = loop.next (loop.stateAt k) :=
  Function.iterate_succ_apply' _ _ _

/-- A step tries a taken name that no step before it has tried. -/
theorem untried_succ_ssubset (hinjective : Function.Injective loop.nameAt)
    (hk : loop.nameAt k ∈ taken) : loop.untried taken (k + 1) ⊂ loop.untried taken k := by
  have hmem : loop.nameAt k ∈ loop.untried taken k := by
    refine Finset.mem_sdiff.mpr ⟨hk, fun htried => ?_⟩
    obtain ⟨j, hj, hname⟩ := Finset.mem_image.mp htried
    exact absurd (hinjective hname) (Finset.mem_range.mp hj).ne
  have hnot : loop.nameAt k ∉ loop.untried taken (k + 1) := fun hmem =>
    (Finset.mem_sdiff.mp hmem).2
      (Finset.mem_image_of_mem _ (Finset.mem_range.mpr (Nat.lt_succ_self k)))
  have hsubset : loop.untried taken (k + 1) ⊆ loop.untried taken k :=
    Finset.sdiff_subset_sdiff (Finset.Subset.refl taken)
      (Finset.image_subset_image (Finset.range_subset_range.mpr (Nat.le_succ k)))
  exact (Finset.ssubset_iff_of_subset hsubset).mpr ⟨_, hmem, hnot⟩

/-- No run of a loop goes on without end. -/
theorem acc_stateAt (hinjective : Function.Injective loop.nameAt) (k : Nat) :
    Acc (fun t s => loop.Step taken s t) (loop.stateAt k) := by
  induction h : loop.untried taken k using Finset.strongInduction generalizing k with
  | H names ih =>
      constructor
      rintro t ⟨hk, rfl⟩
      rw [← stateAt_succ]
      exact ih _ (h ▸ untried_succ_ssubset hinjective hk) (k + 1) rfl

/-- A loop comes to the states behind taken names. -/
theorem reaches_iff {s : loop.State} : Relation.ReflTransGen (loop.Step taken) loop.start s ↔
    ∃ k, s = loop.stateAt k ∧ ∀ j < k, loop.nameAt j ∈ taken := by
  constructor
  · intro h
    induction h with
    | refl => exact ⟨0, rfl, fun j hj => absurd hj (Nat.not_lt_zero j)⟩
    | tail _ hstep ih =>
        obtain ⟨k, rfl, hpassed⟩ := ih
        obtain ⟨hk, rfl⟩ := hstep
        refine ⟨k + 1, stateAt_succ.symm, fun j hj => ?_⟩
        rcases Nat.lt_succ_iff_lt_or_eq.mp hj with hj | rfl
        · exact hpassed j hj
        · exact hk
  · rintro ⟨k, rfl, hpassed⟩
    induction k with
    | zero => exact .refl
    | succ k ih =>
        have hbefore := ih fun j hj => hpassed j (Nat.lt_succ_of_lt hj)
        exact hbefore.tail ⟨hpassed k (Nat.lt_succ_self k), stateAt_succ⟩

theorem endsAt_iff :
    loop.EndsAt taken name ↔ ∃ k, IsLeast {k | loop.nameAt k ∉ taken} k ∧ loop.nameAt k = name := by
  constructor
  · rintro ⟨s, hs, rfl, hfree⟩
    obtain ⟨k, rfl, hpassed⟩ := reaches_iff.mp hs
    exact ⟨k, ⟨hfree, fun j hj => Nat.not_lt.mp fun hlt => hj (hpassed j hlt)⟩, rfl⟩
  · rintro ⟨k, ⟨hfree, hleast⟩, rfl⟩
    have hpassed : ∀ j < k, loop.nameAt j ∈ taken := fun j hj =>
      by_contra fun hj' => absurd (hleast hj') (Nat.not_le.mpr hj)
    exact ⟨loop.stateAt k, reaches_iff.mpr ⟨k, rfl, hpassed⟩, rfl, hfree⟩

/-- A loop takes at most one step for each taken name. -/
theorem le_card (hinjective : Function.Injective loop.nameAt)
    (hk : IsLeast {k | loop.nameAt k ∉ taken} k) : k ≤ taken.card := by
  have hpassed : (Finset.range k).image loop.nameAt ⊆ taken := by
    intro name hname
    obtain ⟨j, hj, rfl⟩ := Finset.mem_image.mp hname
    exact by_contra fun hfree => absurd (hk.2 hfree) (Nat.not_le.mpr (Finset.mem_range.mp hj))
  have hcard := Finset.card_le_card hpassed
  rwa [Finset.card_image_of_injective _ hinjective, Finset.card_range] at hcard

end NameLoop

theorem underscored_succ (name : String) (k : Nat) :
    underscored name (k + 1) = underscored name k ++ "_" := by
  apply String.toList_inj.mp
  simp [underscored, List.replicate_succ']

theorem stateAt_appending (name : String) (k : Nat) :
    (appending name).stateAt k = underscored name k := by
  induction k with
  | zero => exact String.toList_inj.mp (by simp [underscored, appending, NameLoop.stateAt])
  | succ k ih => rw [NameLoop.stateAt_succ, ih, underscored_succ]; rfl

theorem stateAt_counting (name : String) (k : Nat) :
    (counting name).stateAt k = (numbered name k, k + 2) := by
  induction k with
  | zero => rfl
  | succ k ih => rw [NameLoop.stateAt_succ, ih]; rfl

/-- The loop of a call tries its candidates in order. -/
theorem Request.nameAt_loop (request : Request) : request.loop.nameAt = request.candidate := by
  funext k
  cases request with
  | underscores name => exact stateAt_appending name k
  | number name => exact congrArg Prod.fst (stateAt_counting name k)

/-- What a call gives for a set of taken names: its loop ends, and the one name at which it does is
the first of the call's candidates that is not taken. -/
structure IsAnswer (request : Request) (taken : Finset String) (name : String) : Prop where
  terminates : Acc (fun t s => request.loop.Step taken s t) request.loop.start
  endsAt_iff : ∀ other, request.loop.EndsAt taken other ↔ other = name
  first : ∃ k ≤ taken.card, IsLeast {k | request.candidate k ∉ taken} k ∧ request.candidate k = name

/-- Calls in turn that share one set of taken names, with what they answer and the set that they
leave: each adds its answer to the set and nothing else. -/
inductive Answered : Finset String → List Request → List String → Finset String → Prop
  | done (taken : Finset String) : Answered taken [] [] taken
  | call {taken after : Finset String} {request : Request} {requests : List Request}
      {name : String} {names : List String} (hname : IsAnswer request taken name)
      (hrest : Answered (insert name taken) requests names after) :
      Answered taken (request :: requests) (name :: names) after

theorem isAnswer_answer (request : Request) (taken : List String) :
    IsAnswer request taken.toFinset (request.answer taken) := by
  have hinjective : Function.Injective request.loop.nameAt := by
    rw [request.nameAt_loop]
    exact request.candidate_injective
  obtain ⟨k, hleast, hname⟩ := @exists_isLeast_fresh _ taken request.candidate_injective
  rw [← request.answer_eq] at hname
  have hfirst : IsLeast {k | request.candidate k ∉ taken.toFinset} k := by
    simpa only [List.mem_toFinset] using hleast
  have hcard : k ≤ taken.toFinset.card := by
    apply NameLoop.le_card hinjective
    rwa [request.nameAt_loop]
  refine ⟨NameLoop.acc_stateAt hinjective 0, fun other => ?_, k, hcard, hfirst, hname.symm⟩
  rw [NameLoop.endsAt_iff, request.nameAt_loop]
  constructor
  · rintro ⟨j, hj, rfl⟩
    rw [hname, hfirst.unique hj]
  · rintro rfl
    exact ⟨k, hfirst, hname.symm⟩

theorem answered_answers (requests : List Request) (taken : List String) :
    Answered taken.toFinset requests (answers taken requests)
      (taken.toFinset ∪ (answers taken requests).toFinset) := by
  induction requests generalizing taken with
  | nil => simpa [answers_nil] using Answered.done taken.toFinset
  | cons request rest ih =>
      refine .call (isAnswer_answer request taken) ?_
      have hrest := ih (request.answer taken :: taken)
      rw [List.toFinset_cons] at hrest
      rwa [answers_cons, List.toFinset_cons, Finset.union_insert, ← Finset.insert_union]

/-- Calls that share a set of taken names all end, each at the first of its candidates that is not
taken by then, which it adds to the set. No name is given twice, and none that was taken before. -/
theorem names_answered_in_turn (requests : List Request) (taken : List String) :
    Answered taken.toFinset requests (answers taken requests)
        (taken.toFinset ∪ (answers taken requests).toFinset) ∧
      (answers taken requests).Nodup ∧ ∀ name ∈ answers taken requests, name ∉ taken :=
  ⟨answered_answers requests taken, answers_nodup⟩

end EndpointBindings.Naming
