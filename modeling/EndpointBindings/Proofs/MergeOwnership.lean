import Mathlib.Data.List.Sort
import EndpointBindings.Compilation
import EndpointBindings.Proofs.NameMapLookup

/-!
The merge of what became of the files. A name goes to the least of the files that claim it, and each
file either owns a name or has an error; `Accounts` says so of a compilation, every added file
preserves it, and so the merge has it.
-/

namespace EndpointBindings.Compilation

/-- Endpoints have a name before they are merged. -/
def AllNamed (outcomes : List (String × Outcome)) : Prop :=
  ∀ path e, (path, Except.ok e) ∈ outcomes → ∃ name, e.name = some name

/-- A file claims the name of the endpoint in it. -/
def Claims (outcomes : List (String × Outcome)) (path name : String) : Prop :=
  ∃ e, (path, Except.ok e) ∈ outcomes ∧ e.name = some name

/-- The owner of a name is the least file that claims it. -/
def Owns (outcomes : List (String × Outcome)) (path name : String) : Prop :=
  Claims outcomes path name ∧ ∀ other, Claims outcomes other name → path ≤ other

/-- A file fails with an error of its own, or because another file owns its name. -/
def Fails (outcomes : List (String × Outcome)) (path : String) (error : SpecError) : Prop :=
  (path, Except.error error) ∈ outcomes ∨
    ∃ name owner, Claims outcomes path name ∧ Owns outcomes owner name ∧ owner ≠ path ∧
      error = .duplicateEndpoint name (some owner)

/-- What a compilation of files says of each of them. -/
structure Accounts (outcomes : List (String × Outcome)) (c : Compilation) : Prop where
  paths : (c.files.values ++ c.errors.map (·.file)).Perm (outcomes.map (·.1))
  ordered : c.errors.Pairwise fun a b => a.file < b.file
  owner : ∀ name path, c.files.get? name = some path ↔ Owns outcomes path name
  endpoint : ∀ name e, c.registry.get? name = some e ↔
    e.name = some name ∧ ∃ path, c.files.get? name = some path ∧ (path, Except.ok e) ∈ outcomes
  error : ∀ path error, ⟨path, error⟩ ∈ c.errors ↔ Fails outcomes path error

/-- A file owns one name and is not at fault, or owns none and is listed with one error. -/
def HasOnePlace (c : Compilation) (path : String) : Prop :=
  (c.files.values.count path = 1 ∧ path ∉ c.errors.map (·.file)) ∨
    (path ∉ c.files.values ∧ (c.errors.map (·.file)).count path = 1)

section Claims

variable {outcomes : List (String × Outcome)} {path other name : String} {e : Endpoint}

theorem Claims.mem_paths (h : Claims outcomes path name) : path ∈ outcomes.map (·.1) := by
  obtain ⟨e, hmem, -⟩ := h
  exact List.mem_map_of_mem hmem

theorem Owns.unique {owner : String} (h : Owns outcomes path name)
    (h' : Owns outcomes owner name) : path = owner :=
  String.le_antisymm (h.2 owner h'.1) (h'.2 path h.1)

theorem claims_cons {o : String × Outcome} :
    Claims (o :: outcomes) path name ↔ Claims [o] path name ∨ Claims outcomes path name := by
  simp only [Claims, List.mem_cons, List.not_mem_nil, or_false, or_and_right, exists_or]

theorem Claims.eq_of_singleton {o : String × Outcome} (h : Claims [o] path name) :
    path = o.1 := by
  obtain ⟨e, hmem, -⟩ := h
  exact congrArg Prod.fst (List.mem_singleton.mp hmem)

/-- Of files that claim a name one is the least. -/
theorem exists_owner (h : Claims outcomes path name) : ∃ owner, Owns outcomes owner name := by
  induction outcomes generalizing path with
  | nil =>
      obtain ⟨e, hmem, -⟩ := h
      simp at hmem
  | cons o rest ih =>
      by_cases hhead : Claims [o] o.1 name ∧ ∀ other, Claims rest other name → o.1 ≤ other
      · refine ⟨o.1, claims_cons.mpr (.inl hhead.1), fun other hother => ?_⟩
        rcases claims_cons.mp hother with h | h
        · exact h.eq_of_singleton ▸ String.le_refl _
        · exact hhead.2 other h
      · have hrest : ∃ q, Claims rest q name := by
          rcases claims_cons.mp h with h | h
          · by_contra hnone
            refine hhead ⟨h.eq_of_singleton ▸ h, fun other hother => ?_⟩
            exact absurd ⟨other, hother⟩ hnone
          · exact ⟨path, h⟩
        obtain ⟨q, hq⟩ := hrest
        obtain ⟨owner, hclaims, hleast⟩ := ih hq
        refine ⟨owner, claims_cons.mpr (.inr hclaims), fun other hother => ?_⟩
        rcases claims_cons.mp hother with h | h
        · refine (String.le_total owner other).resolve_right fun hle => hhead ?_
          have hother : other = o.1 := h.eq_of_singleton
          subst hother
          exact ⟨h, fun q hq => String.le_trans hle (hleast q hq)⟩
        · exact hleast other h

theorem claims_congr {outcomes' : List (String × Outcome)}
    (h : ∀ o, o ∈ outcomes ↔ o ∈ outcomes') : Claims outcomes = Claims outcomes' := by
  funext path name
  simp only [Claims, h]

end Claims

section Step

variable {seen : List (String × Outcome)} {c : Compilation} {path q n name : String} {e : Endpoint}
  {error : SpecError}

theorem claims_append_error :
    Claims (seen ++ [(path, .error error)]) q n ↔ Claims seen q n := by
  simp [Claims]

theorem claims_append_ok (hname : e.name = some name) :
    Claims (seen ++ [(path, .ok e)]) q n ↔ Claims seen q n ∨ (q = path ∧ n = name) := by
  simp only [Claims, List.mem_append, List.mem_singleton, Prod.mk.injEq, or_and_right, exists_or]
  refine or_congr_right ⟨?_, ?_⟩
  · rintro ⟨d, ⟨rfl, hd⟩, hdname⟩
    obtain rfl : d = e := by simpa using hd
    exact ⟨rfl, by simpa [hdname] using hname⟩
  · rintro ⟨rfl, rfl⟩
    exact ⟨e, ⟨rfl, rfl⟩, hname⟩

theorem owns_append_error :
    Owns (seen ++ [(path, .error error)]) q n ↔ Owns seen q n := by
  simp [Owns, claims_append_error]

/-- A file after all others owns a name only if nobody claims it before. -/
theorem owns_append_ok (hname : e.name = some name) (hlast : ∀ p ∈ seen.map (·.1), p < path) :
    Owns (seen ++ [(path, .ok e)]) q n ↔
      Owns seen q n ∨ (q = path ∧ n = name ∧ ∀ other, ¬Claims seen other n) := by
  constructor
  · rintro ⟨hclaims, hleast⟩
    rcases (claims_append_ok hname).mp hclaims with h | ⟨rfl, rfl⟩
    · exact .inl ⟨h, fun other hother => hleast other ((claims_append_ok hname).mpr (.inl hother))⟩
    · refine .inr ⟨rfl, rfl, fun other hother => ?_⟩
      have hle := hleast other ((claims_append_ok hname).mpr (.inl hother))
      exact String.not_lt.mpr hle (hlast other hother.mem_paths)
  · rintro (⟨hclaims, hleast⟩ | ⟨rfl, rfl, hnone⟩)
    · refine ⟨(claims_append_ok hname).mpr (.inl hclaims), fun other hother => ?_⟩
      rcases (claims_append_ok hname).mp hother with h | ⟨rfl, -⟩
      · exact hleast other h
      · exact String.not_lt.mp (String.lt_asymm (hlast q hclaims.mem_paths))
    · refine ⟨(claims_append_ok hname).mpr (.inr ⟨rfl, rfl⟩), fun other hother => ?_⟩
      rcases (claims_append_ok hname).mp hother with h | ⟨rfl, -⟩
      · exact absurd h (hnone other)
      · exact String.le_refl _

theorem Accounts.error_file_lt (h : Accounts seen c) (hlast : ∀ p ∈ seen.map (·.1), p < path) :
    ∀ f ∈ c.errors, f.file < path := fun f hf =>
  hlast f.file (h.paths.mem_iff.mp (List.mem_append_right _ (List.mem_map_of_mem hf)))

theorem Accounts.ordered_append (h : Accounts seen c)
    (hlast : ∀ p ∈ seen.map (·.1), p < path) :
    (c.errors ++ [FileError.mk path error]).Pairwise fun a b => a.file < b.file := by
  refine List.pairwise_append.mpr ⟨h.ordered, List.pairwise_singleton _ _, fun f hf g hg => ?_⟩
  obtain rfl := List.mem_singleton.mp hg
  exact h.error_file_lt hlast f hf

theorem Accounts.paths_append_error (h : Accounts seen c) {outcome : Outcome} :
    (c.files.values ++ (c.errors ++ [FileError.mk path error]).map (·.file)).Perm
      ((seen ++ [(path, outcome)]).map (·.1)) := by
  simpa [← List.append_assoc] using h.paths.append_right [path]

theorem Accounts.add_error (h : Accounts seen c) (hlast : ∀ p ∈ seen.map (·.1), p < path) :
    Accounts (seen ++ [(path, .error error)]) (c.add path (.error error)) where
  paths := h.paths_append_error
  ordered := h.ordered_append hlast
  owner n q := (h.owner n q).trans owns_append_error.symm
  endpoint n e := by simpa [add] using h.endpoint n e
  error q err := by
    simp only [add, List.mem_append, h.error, Fails, claims_append_error, owns_append_error,
      List.mem_singleton, FileError.mk.injEq, Prod.mk.injEq, Except.error.injEq]
    exact or_right_comm

theorem Accounts.path_lt_of_file (h : Accounts seen c)
    (hlast : ∀ p ∈ seen.map (·.1), p < path) (hfile : c.files.get? n = some q) : q < path :=
  hlast q ((h.owner n q).mp hfile).1.mem_paths

/-- What is in the file of a name stays as it is when a file after all others is added. -/
theorem Accounts.mem_append_iff (h : Accounts seen c) (hlast : ∀ p ∈ seen.map (·.1), p < path)
    (hfile : c.files.get? n = some q) {outcome o : Outcome} :
    (q, o) ∈ seen ++ [(path, outcome)] ↔ (q, o) ∈ seen := by
  have hne : q ≠ path := by
    rintro rfl
    exact String.lt_irrefl _ (h.path_lt_of_file hlast hfile)
  simp [hne]

theorem Accounts.endpoint_append (h : Accounts seen c)
    (hlast : ∀ p ∈ seen.map (·.1), p < path) {outcome : Outcome} {d : Endpoint} :
    c.registry.get? n = some d ↔ d.name = some n ∧
      ∃ q, c.files.get? n = some q ∧ (q, Except.ok d) ∈ seen ++ [(path, outcome)] := by
  rw [h.endpoint n d]
  refine and_congr_right fun _ => exists_congr fun q => and_congr_right fun hfile => ?_
  exact (h.mem_append_iff hlast hfile).symm

/-- A file that comes too late for its name is listed with the owner of the name. -/
theorem Accounts.add_duplicate (h : Accounts seen c) (hlast : ∀ p ∈ seen.map (·.1), p < path)
    (hname : e.name = some name) {first : String} (hfirst : c.files.get? name = some first) :
    Accounts (seen ++ [(path, .ok e)]) (c.add path (.ok e)) := by
  have hadd : c.add path (.ok e) =
      { c with errors := c.errors ++ [⟨path, .duplicateEndpoint name (some first)⟩] } := by
    simp [add, hname, hfirst]
  have hfirstOwns : Owns seen first name := (h.owner name first).mp hfirst
  have howns : ∀ n q, Owns (seen ++ [(path, .ok e)]) q n ↔ Owns seen q n := by
    intro n q
    refine (owns_append_ok hname hlast).trans (or_iff_left ?_)
    rintro ⟨-, rfl, hnone⟩
    exact hnone first hfirstOwns.1
  rw [hadd]
  refine ⟨h.paths_append_error, h.ordered_append hlast, fun n q => ?_, fun n d =>
    h.endpoint_append hlast, fun q err => ?_⟩
  · exact (h.owner n q).trans (howns n q).symm
  · have hlt : first < path := h.path_lt_of_file hlast hfirst
    simp only [List.mem_append, List.mem_singleton, FileError.mk.injEq, h.error, Fails,
      claims_append_ok hname, howns, Prod.mk.injEq, reduceCtorEq, and_false, or_false]
    constructor
    · rintro ((h | ⟨n, owner, hclaims, rest⟩) | ⟨rfl, rfl⟩)
      · exact .inl h
      · exact .inr ⟨n, owner, .inl hclaims, rest⟩
      · refine .inr ⟨name, first, .inr ⟨rfl, rfl⟩, hfirstOwns, ?_, rfl⟩
        rintro rfl
        exact String.lt_irrefl _ hlt
    · rintro (h | ⟨n, owner, hclaims | ⟨rfl, rfl⟩, howner, hne, herr⟩)
      · exact .inl (.inl h)
      · exact .inl (.inr ⟨n, owner, hclaims, howner, hne, herr⟩)
      · exact .inr ⟨rfl, by rw [herr, howner.unique hfirstOwns]⟩

/-- A file whose name is free comes to own it. -/
theorem Accounts.add_owner (h : Accounts seen c) (hlast : ∀ p ∈ seen.map (·.1), p < path)
    (hname : e.name = some name) (hfree : c.files.get? name = none) :
    Accounts (seen ++ [(path, .ok e)]) (c.add path (.ok e)) := by
  have hadd : c.add path (.ok e) =
      { c with registry := c.registry.insert name e, files := c.files.insert name path } := by
    simp [add, hname, hfree]
  have hnone : ∀ other, ¬Claims seen other name := by
    intro other hother
    obtain ⟨owner, howner⟩ := exists_owner hother
    simp [(h.owner name owner).mpr howner] at hfree
  have howns : ∀ n q, Owns (seen ++ [(path, .ok e)]) q n ↔
      if name = n then q = path else Owns seen q n := by
    intro n q
    rw [owns_append_ok hname hlast]
    split
    · rename_i heq
      subst heq
      exact ⟨fun h => h.elim (fun h => absurd h.1 (hnone q)) (·.1), fun h => .inr ⟨h, rfl, hnone⟩⟩
    · rename_i hne
      exact or_iff_left fun h => hne h.2.1.symm
  rw [hadd]
  refine ⟨?_, h.ordered, fun n q => ?_, fun n d => ?_, fun q err => ?_⟩
  · have hvalues := (@NameMap.values_insert_perm _ name path _ hfree).append_right
      (c.errors.map (·.file))
    refine (hvalues.trans (h.paths.cons path)).trans ?_
    simpa using (List.perm_append_singleton path (seen.map (·.1))).symm
  · rw [NameMap.get?_insert, howns]
    split
    · simp [eq_comm]
    · exact h.owner n q
  · simp only [NameMap.get?_insert]
    split
    · rename_i heq
      subst heq
      have hnew : ∀ o, (path, o) ∉ seen := fun o ho =>
        String.lt_irrefl path (hlast path (List.mem_map_of_mem ho))
      constructor
      · intro hd
        obtain rfl : e = d := by simpa using hd
        exact ⟨hname, path, rfl, by simp⟩
      · rintro ⟨-, q, hq, hmem⟩
        obtain rfl : path = q := by simpa using hq
        simpa [hnew, eq_comm] using hmem
    · exact h.endpoint_append hlast
  · simp only [h.error, Fails, List.mem_append, List.mem_singleton, claims_append_ok hname, howns,
      Prod.mk.injEq, reduceCtorEq, and_false, or_false]
    refine or_congr_right (exists_congr fun n => exists_congr fun owner => ?_)
    split
    · rename_i heq
      subst heq
      constructor
      · rintro ⟨hclaims, -⟩
        exact absurd hclaims (hnone q)
      · rintro ⟨hclaims | ⟨rfl, -⟩, rfl, hne, -⟩
        · exact absurd hclaims (hnone q)
        · exact absurd rfl hne
    · rename_i hne
      refine and_congr_left fun _ => (or_iff_left ?_).symm
      exact fun h => hne h.2.symm

theorem Accounts.add (h : Accounts seen c) (hlast : ∀ p ∈ seen.map (·.1), p < path)
    {outcome : Outcome} (hnamed : ∀ e, outcome = .ok e → ∃ name, e.name = some name) :
    Accounts (seen ++ [(path, outcome)]) (c.add path outcome) := by
  cases outcome with
  | error error => exact h.add_error hlast
  | ok e =>
      obtain ⟨name, hname⟩ := hnamed e rfl
      cases hfile : c.files.get? name with
      | none => exact h.add_owner hlast hname hfile
      | some first => exact h.add_duplicate hlast hname hfile

end Step

section Run

variable {outcomes : List (String × Outcome)}

theorem accounts_empty : Accounts [] empty where
  paths := List.Perm.refl _
  ordered := List.Pairwise.nil
  owner n q := by simp [empty, Owns, Claims]
  endpoint n e := by simp [empty]
  error q err := by simp [empty, Fails, Claims]

/-- Adding files in the order of their paths keeps the account of the files before them. -/
theorem accounts_foldl {seen rest : List (String × Outcome)} {c : Compilation}
    (h : Accounts seen c) (hsorted : (seen ++ rest).Pairwise fun a b => a.1 < b.1)
    (hnamed : AllNamed (seen ++ rest)) :
    Accounts (seen ++ rest) (rest.foldl (fun c o => c.add o.1 o.2) c) := by
  -- A file moves from `rest` to `seen` at each step, and comes after all that are there.
  induction rest generalizing seen c with
  | nil => simpa using h
  | cons o rest ih =>
      have hlast : ∀ p ∈ seen.map (·.1), p < o.1 := by
        intro p hp
        obtain ⟨d, hd, rfl⟩ := List.mem_map.mp hp
        exact (List.pairwise_append.mp hsorted).2.2 d hd o List.mem_cons_self
      have hname : ∀ e, o.2 = .ok e → ∃ name, e.name = some name := fun e he =>
        hnamed o.1 e (he ▸ List.mem_append_right _ List.mem_cons_self)
      have happend : seen ++ o :: rest = (seen ++ [o]) ++ rest := by simp
      rw [happend] at hsorted hnamed ⊢
      exact ih (h.add hlast hname) hsorted hnamed

theorem sortOutcomes_perm : (sortOutcomes outcomes).Perm outcomes := List.mergeSort_perm _ _

theorem sortOutcomes_pairwise_lt (hpaths : (outcomes.map (·.1)).Nodup) :
    (sortOutcomes outcomes).Pairwise fun a b => a.1 < b.1 :=
  NameMap.pairwise_lt_mergeSort hpaths

theorem Accounts.of_perm {outcomes' : List (String × Outcome)} {c : Compilation}
    (hperm : outcomes.Perm outcomes') (h : Accounts outcomes c) : Accounts outcomes' c := by
  have hclaims : Claims outcomes = Claims outcomes' := claims_congr fun o => hperm.mem_iff
  have howns : Owns outcomes = Owns outcomes' := by
    funext path name
    simp only [Owns, hclaims]
  refine ⟨h.paths.trans (hperm.map _), h.ordered, fun n q => ?_, fun n e => ?_, fun q err => ?_⟩
  · rw [h.owner n q, howns]
  · simp only [h.endpoint n e, hperm.mem_iff]
  · simp only [h.error q err, Fails, hclaims, howns, hperm.mem_iff]

theorem accounts_merge (hpaths : (outcomes.map (·.1)).Nodup) (hnamed : AllNamed outcomes) :
    Accounts outcomes (merge outcomes) := by
  have hnamed' : AllNamed (sortOutcomes outcomes) := fun path e hmem =>
    hnamed path e (sortOutcomes_perm.mem_iff.mp hmem)
  exact (accounts_foldl accounts_empty (sortOutcomes_pairwise_lt hpaths) hnamed').of_perm
    sortOutcomes_perm

end Run

section Result

variable {outcomes : List (String × Outcome)} {c : Compilation}

theorem Accounts.count_paths (h : Accounts outcomes c) (hpaths : (outcomes.map (·.1)).Nodup)
    {path : String} (hpath : path ∈ outcomes.map (·.1)) :
    c.files.values.count path + (c.errors.map (·.file)).count path = 1 := by
  rw [← List.count_append, h.paths.count_eq, List.count_eq_one_of_mem hpaths hpath]

theorem Accounts.hasOnePlace (h : Accounts outcomes c) (hpaths : (outcomes.map (·.1)).Nodup)
    {path : String} (hpath : path ∈ outcomes.map (·.1)) : HasOnePlace c path := by
  have hcount := h.count_paths hpaths hpath
  unfold HasOnePlace
  rw [← List.count_eq_zero, ← List.count_eq_zero]
  omega

theorem Accounts.names_eq (h : Accounts outcomes c) : c.registry.names = c.files.names := by
  apply NameMap.names_eq_of_mem_iff
  intro name
  rw [NameMap.mem_names_iff, NameMap.mem_names_iff]
  constructor
  · rintro ⟨e, he⟩
    obtain ⟨-, path, hpath, -⟩ := (h.endpoint name e).mp he
    exact ⟨path, hpath⟩
  · rintro ⟨path, hpath⟩
    obtain ⟨⟨e, hmem, hname⟩, -⟩ := (h.owner name path).mp hpath
    exact ⟨e, (h.endpoint name e).mpr ⟨hname, path, hpath, hmem⟩⟩

/-- Files with an error own no name. -/
theorem Accounts.not_owns_of_error (h : Accounts outcomes c)
    (hpaths : (outcomes.map (·.1)).Nodup) {path name : String}
    (herror : path ∈ c.errors.map (·.file)) : ¬Owns outcomes path name := by
  intro howns
  have hfile : path ∈ c.files.values :=
    NameMap.mem_values_iff.mpr ⟨name, (h.owner name path).mpr howns⟩
  have hcount := h.count_paths hpaths howns.1.mem_paths
  have hfiles := List.count_pos_iff.mpr hfile
  have herrors := List.count_pos_iff.mpr herror
  omega

/-- A name keeps its owner when files that own none are left out. -/
theorem owns_filter {kept : String × Outcome → Bool}
    (hkept : ∀ path name, Owns outcomes path name → ∀ o ∈ outcomes, o.1 = path → kept o)
    {path name : String} :
    Owns (outcomes.filter kept) path name ↔ Owns outcomes path name := by
  have hsub : ∀ {q}, Claims (outcomes.filter kept) q name → Claims outcomes q name := by
    rintro q ⟨e, hmem, hname⟩
    exact ⟨e, (List.mem_filter.mp hmem).1, hname⟩
  have hstays : ∀ {q}, Owns outcomes q name → Claims (outcomes.filter kept) q name := by
    rintro q howns
    obtain ⟨e, hmem, hname⟩ := howns.1
    exact ⟨e, List.mem_filter.mpr ⟨hmem, hkept q name howns _ hmem rfl⟩, hname⟩
  constructor
  · rintro ⟨hclaims, hleast⟩
    obtain ⟨owner, howner⟩ := exists_owner (hsub hclaims)
    have heq : path = owner :=
      String.le_antisymm (hleast owner (hstays howner)) (howner.2 path (hsub hclaims))
    exact heq ▸ howner
  · intro howns
    exact ⟨hstays howns, fun other hother => howns.2 other (hsub hother)⟩

theorem AllNamed.filter {kept : String × Outcome → Bool} (hnamed : AllNamed outcomes) :
    AllNamed (outcomes.filter kept) := fun path e hmem =>
  hnamed path e (List.mem_filter.mp hmem).1

theorem merge_filter (hpaths : (outcomes.map (·.1)).Nodup) (hnamed : AllNamed outcomes)
    {kept : String × Outcome → Bool}
    (hdropped : ∀ o ∈ outcomes, kept o = false → o.1 ∈ (merge outcomes).errors.map (·.file)) :
    (merge (outcomes.filter kept)).registry = (merge outcomes).registry ∧
      (merge (outcomes.filter kept)).files = (merge outcomes).files := by
  have hall := accounts_merge hpaths hnamed
  have hsome := accounts_merge (hpaths.sublist (List.filter_sublist.map _))
    (@AllNamed.filter _ kept hnamed)
  have hkept : ∀ path name, Owns outcomes path name → ∀ o ∈ outcomes, o.1 = path → kept o := by
    rintro path name howns o ho rfl
    by_contra hno
    exact hall.not_owns_of_error hpaths (hdropped o ho (by simpa using hno)) howns
  have hfiles : (merge (outcomes.filter kept)).files = (merge outcomes).files := by
    apply NameMap.ext_get?
    intro name
    apply Option.ext
    intro path
    rw [hsome.owner, hall.owner, owns_filter hkept]
  refine ⟨NameMap.ext_get? fun name => Option.ext fun e => ?_, hfiles⟩
  rw [hsome.endpoint, hall.endpoint, hfiles]
  refine and_congr_right fun _ => exists_congr fun path => and_congr_right fun hpath => ?_
  have howns := (hall.owner name path).mp hpath
  exact List.mem_filter.trans (and_iff_left_of_imp fun hmem => hkept path name howns _ hmem rfl)

/-- The merge loses, repeats and misplaces no file: each either owns its name, as the least file
that claims it, or is listed with its error, and files with an error make no difference to the
others. -/
theorem merge_accounts_for_every_file (hpaths : (outcomes.map (·.1)).Nodup)
    (hnamed : AllNamed outcomes) :
    Accounts outcomes (merge outcomes) ∧
      (∀ path ∈ outcomes.map (·.1), HasOnePlace (merge outcomes) path) ∧
      (merge outcomes).registry.names = (merge outcomes).files.names ∧
      ∀ kept : String × Outcome → Bool,
        (∀ o ∈ outcomes, kept o = false → o.1 ∈ (merge outcomes).errors.map (·.file)) →
          (merge (outcomes.filter kept)).registry = (merge outcomes).registry ∧
            (merge (outcomes.filter kept)).files = (merge outcomes).files := by
  have h := accounts_merge hpaths hnamed
  exact ⟨h, fun path hpath => h.hasOnePlace hpaths hpath, h.names_eq,
    fun kept => merge_filter hpaths hnamed⟩

/-- Two files that claim one name, out of order, and a file without an endpoint. -/
def contested : List (String × Outcome) :=
  let ping : Endpoint :=
    { name := some "ping", documentation := none, verbs := [.get], paths := [⟨"/", [.literal "/"]⟩]
      params := [], body := none }
  [("b.json", .ok ping), ("c.json", .error (.missingField "url")), ("a.json", .ok ping)]

theorem merge_contested :
    (contested.map (·.1)).Nodup ∧ AllNamed contested ∧
      (merge contested).files.get? "ping" = some "a.json" ∧
      ⟨"b.json", .duplicateEndpoint "ping" (some "a.json")⟩ ∈ (merge contested).errors ∧
      ⟨"c.json", .missingField "url"⟩ ∈ (merge contested).errors := by
  have hpaths : (contested.map (·.1)).Nodup := by decide
  have hnamed : AllNamed contested := by
    intro path e hmem
    simp only [contested, List.mem_cons, Prod.mk.injEq, Except.ok.injEq, reduceCtorEq] at hmem
    exact ⟨"ping", by rcases hmem with ⟨-, rfl⟩ | hmem | ⟨-, rfl⟩ | hmem <;> simp_all⟩
  have howner : Owns contested "a.json" "ping" := by
    refine ⟨⟨_, List.mem_cons_of_mem _ (List.mem_cons_of_mem _ List.mem_cons_self), rfl⟩, ?_⟩
    rintro other ⟨e, hmem, -⟩
    have hleast : ∀ p ∈ contested.map (·.1), "a.json" ≤ p := by decide
    exact hleast other (List.mem_map_of_mem hmem)
  have h := (merge_accounts_for_every_file hpaths hnamed).1
  refine ⟨hpaths, hnamed, (h.owner _ _).mpr howner, (h.error _ _).mpr (.inr ?_),
    (h.error _ _).mpr (.inl (List.mem_cons_of_mem _ List.mem_cons_self))⟩
  exact ⟨"ping", "a.json", ⟨_, List.mem_cons_self, rfl⟩, howner, by decide, rfl⟩

end Result

end EndpointBindings.Compilation
