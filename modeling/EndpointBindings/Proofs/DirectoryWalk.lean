import Mathlib.Data.List.Perm.Basic
import Mathlib.Logic.Relation
import EndpointBindings.Discovery
import EndpointBindings.Proofs.FileTree
import EndpointBindings.Proofs.NameMapLookup

/-!
The walk through a directory, one listing after the other. A listing names the entries of a
directory in any order, so there are many walks; what is found and what is still to be found stay
together the same files at every step, and all walks end with the documents of the directory.
-/

namespace EndpointBindings.Discovery

open FileSystem

/-- How far a walk has come: the directories to be listed, the next one first, and the files that
were selected. -/
structure Walk where
  pending : List Location
  found : List (Location × List UInt8)

section Definitions

variable (wanted : String → Bool) (fs : FileSystem) (root way : Location) (names : List String)

/-- An entry of a directory as a file that is selected, if it is one. -/
def selected? (name : String) : Option (Location × List UInt8) :=
  match fs.get? (root ++ (way ++ [name])) with
  | some (.file octets) =>
    if wanted (joinNames (way ++ [name])) then some (way ++ [name], octets) else none
  | _ => none

/-- An entry of a directory as a directory that is entered, if it is one. -/
def entered? (name : String) : Option Location :=
  match fs.get? (root ++ (way ++ [name])) with
  | some .directory => if name ∈ skippedDirectories then none else some (way ++ [name])
  | _ => none

def selectedOf : List (Location × List UInt8) := names.filterMap (selected? wanted fs root way)

def enteredOf : List Location := names.filterMap (entered? fs root way)

/-- A directory is listed: its files are looked at, and its directories are listed next. -/
inductive Walk.Step : Walk → Walk → Prop
  | list {way : Location} {names : List String} {pending : List Location}
      {found : List (Location × List UInt8)} (hnames : fs.Lists (root ++ way) names) :
      Step ⟨way :: pending, found⟩
        ⟨enteredOf fs root way names ++ pending, found ++ selectedOf wanted fs root way names⟩

def Walk.start : Walk := ⟨[[]], []⟩

/-- The files that were selected, by their paths. -/
def Walk.files (walk : Walk) : List (String × List UInt8) :=
  walk.found.map fun f => (joinNames f.1, f.2)

/-- The selected files in the order of their paths. -/
def Walk.sorted (walk : Walk) : List (String × List UInt8) :=
  walk.files.mergeSort fun a b => decide (a.1 ≤ b.1)

/-- All files to be selected in a directory and in those inside it. -/
def selectedUnder : List (Location × List UInt8) :=
  (fs.filesUnder root).filter fun f =>
    way.isPrefixOf f.1 && (!isSkipped f.1 && wanted (joinNames f.1))

/-- The files that a walk has found are, with those below the directories that it still has to list,
all files to be selected. -/
structure Walk.IsUnderWay (walk : Walk) : Prop where
  complete : (walk.found ++ walk.pending.flatMap (selectedUnder wanted fs root)).Perm
    (selectedUnder wanted fs root [])
  pending : ∀ way ∈ walk.pending, fs.get? (root ++ way) = some .directory ∧
    ∀ name ∈ way, name ∉ skippedDirectories

end Definitions

section Listing

variable {wanted : String → Bool} {fs : FileSystem} {root way : Location} {names : List String}
  {f : Location × List UInt8}

theorem selected?_eq_some_iff {name : String} : selected? wanted fs root way name = some f ↔
    f.1 = way ++ [name] ∧ fs.get? (root ++ f.1) = some (.file f.2) ∧
      wanted (joinNames f.1) = true := by
  obtain ⟨l, octets⟩ := f
  rw [selected?]
  constructor
  · intro h
    split at h
    · rename_i found hget
      split at h
      · rename_i hwanted
        obtain ⟨rfl, rfl⟩ := Prod.mk.inj (Option.some.inj h)
        exact ⟨rfl, hget, hwanted⟩
      · simp at h
    · simp at h
  · rintro ⟨hl, hget, hwanted⟩
    obtain rfl : l = way ++ [name] := hl
    dsimp only at hget hwanted
    simp [hget, hwanted]

theorem entered?_eq_some_iff {name : String} {l : Location} : entered? fs root way name = some l ↔
    l = way ++ [name] ∧ fs.get? (root ++ l) = some .directory ∧ name ∉ skippedDirectories := by
  rw [entered?]
  constructor
  · intro h
    split at h
    · rename_i hget
      split at h
      · simp at h
      · rename_i hskipped
        obtain rfl := Option.some.inj h
        exact ⟨rfl, hget, hskipped⟩
    · simp at h
  · rintro ⟨rfl, hget, hskipped⟩
    simp [hget, hskipped]

theorem mem_selectedOf_iff : f ∈ selectedOf wanted fs root way names ↔
    ∃ name ∈ names, f.1 = way ++ [name] ∧ fs.get? (root ++ f.1) = some (.file f.2) ∧
      wanted (joinNames f.1) = true := by
  simp only [selectedOf, List.mem_filterMap, selected?_eq_some_iff]

theorem mem_enteredOf_iff {l : Location} : l ∈ enteredOf fs root way names ↔
    ∃ name ∈ names, l = way ++ [name] ∧ fs.get? (root ++ l) = some .directory ∧
      name ∉ skippedDirectories := by
  simp only [enteredOf, List.mem_filterMap, entered?_eq_some_iff]

theorem mem_selectedUnder_iff (hfs : fs.WellFormed) : f ∈ selectedUnder wanted fs root way ↔
    fs.get? (root ++ f.1) = some (.file f.2) ∧ way <+: f.1 ∧
      (∀ name ∈ f.1.dropLast, name ∉ skippedDirectories) ∧ wanted (joinNames f.1) = true := by
  have hskipped : isSkipped f.1 = false ↔ ∀ name ∈ f.1.dropLast, name ∉ skippedDirectories := by
    simp [isSkipped]
  rw [selectedUnder, List.mem_filter, hfs.mem_filesUnder_iff, Bool.and_eq_true, Bool.and_eq_true,
    List.isPrefixOf_iff_prefix, Bool.not_eq_true', hskipped]

theorem selectedUnder_nodup (hfs : fs.WellFormed) : (selectedUnder wanted fs root way).Nodup :=
  hfs.filesUnder_nodup.of_map.filter _

theorem selectedOf_nodup (hnames : names.Nodup) :
    (selectedOf wanted fs root way names).Nodup := by
  apply hnames.filterMap
  intro name name' f hf hf'
  obtain ⟨hl, -⟩ := selected?_eq_some_iff.mp hf
  obtain ⟨hl', -⟩ := selected?_eq_some_iff.mp hf'
  simpa using hl.symm.trans hl'

theorem enteredOf_nodup (hnames : names.Nodup) : (enteredOf fs root way names).Nodup := by
  apply hnames.filterMap
  intro name name' l hl hl'
  obtain ⟨hl, -⟩ := entered?_eq_some_iff.mp hl
  obtain ⟨hl', -⟩ := entered?_eq_some_iff.mp hl'
  simpa using hl.symm.trans hl'

/-- Directories of one listing have no file in common. -/
theorem eq_of_mem_enteredOf {l l' : Location} (hl : l ∈ enteredOf fs root way names)
    (hl' : l' ∈ enteredOf fs root way names) {m : Location} (hm : l <+: m) (hm' : l' <+: m) :
    l = l' := by
  obtain ⟨name, -, rfl, -⟩ := mem_enteredOf_iff.mp hl
  obtain ⟨name', -, rfl, -⟩ := mem_enteredOf_iff.mp hl'
  exact (List.prefix_of_prefix_length_le hm hm' (by simp)).eq_of_length (by simp)

theorem disjoint_enteredOf (hfs : fs.WellFormed) :
    List.Disjoint (selectedOf wanted fs root way names)
      ((enteredOf fs root way names).flatMap (selectedUnder wanted fs root)) := by
  intro f hf hbelow
  obtain ⟨name, -, hl, hfile, -⟩ := mem_selectedOf_iff.mp hf
  obtain ⟨l, hentered, hunder⟩ := List.mem_flatMap.mp hbelow
  obtain ⟨name', -, rfl, hdirectory, -⟩ := mem_enteredOf_iff.mp hentered
  obtain ⟨-, hbegins, -⟩ := (mem_selectedUnder_iff hfs).mp hunder
  rw [hl] at hbegins hfile
  rw [hbegins.eq_of_length (by simp), hfile] at hdirectory
  simp at hdirectory

theorem flatMap_enteredOf_nodup (hfs : fs.WellFormed) (hnames : names.Nodup) :
    ((enteredOf fs root way names).flatMap (selectedUnder wanted fs root)).Nodup := by
  apply List.nodup_flatMap.mpr
  refine ⟨fun _ _ => selectedUnder_nodup hfs, ?_⟩
  apply (enteredOf_nodup hnames).pairwise_of_forall_ne
  intro l hl l' hl' hne f hf hf'
  obtain ⟨-, hbegins, -⟩ := (mem_selectedUnder_iff hfs).mp hf
  obtain ⟨-, hbegins', -⟩ := (mem_selectedUnder_iff hfs).mp hf'
  exact hne (eq_of_mem_enteredOf hl hl' hbegins hbegins')

/-- The files below a directory are those in it and those below its directories. -/
theorem mem_selectedUnder_iff_of_lists (hfs : fs.WellFormed)
    (hway : fs.get? (root ++ way) = some .directory)
    (hskipped : ∀ name ∈ way, name ∉ skippedDirectories)
    (hnames : fs.Lists (root ++ way) names) : f ∈ selectedUnder wanted fs root way ↔
      f ∈ selectedOf wanted fs root way names ∨
        ∃ l ∈ enteredOf fs root way names, f ∈ selectedUnder wanted fs root l := by
  simp only [mem_selectedUnder_iff hfs, mem_selectedOf_iff, mem_enteredOf_iff]
  constructor
  · rintro ⟨hfile, ⟨rest, hrest⟩, hnone, hwanted⟩
    rw [← hrest] at hfile hnone
    cases rest with
    | nil =>
        rw [List.append_nil, hway] at hfile
        simp at hfile
    | cons name more =>
        by_cases hmore : more = []
        · subst hmore
          refine .inl ⟨name, ?_, hrest.symm, by rwa [hrest] at hfile, hwanted⟩
          exact (hnames.mem_iff name).mpr ⟨_, by rwa [List.append_assoc]⟩
        · have hstep : root ++ (way ++ name :: more) = root ++ (way ++ [name]) ++ more := by simp
          have hdirectory : fs.get? (root ++ (way ++ [name])) = some .directory :=
            (hfs.of_get?_way (hstep ▸ hfile) hmore).1
          refine .inr ⟨way ++ [name], ⟨name, ?_, rfl, hdirectory, ?_⟩, by rwa [hrest] at hfile,
            ⟨more, by simpa using hrest⟩, by rwa [hrest] at hnone, hwanted⟩
          · exact (hnames.mem_iff name).mpr ⟨_, by rwa [List.append_assoc]⟩
          · apply hnone
            rw [List.dropLast_append_of_ne_nil (by simp), List.dropLast_cons_of_ne_nil hmore]
            simp
  · rintro (⟨name, -, hl, hfile, hwanted⟩ | ⟨l, ⟨name, -, rfl, -⟩, hfile, hbegins, hnone, hwanted⟩)
    · refine ⟨hfile, ⟨[name], hl.symm⟩, ?_, hwanted⟩
      rwa [hl, List.dropLast_concat]
    · exact ⟨hfile, (List.prefix_append _ _).trans hbegins, hnone, hwanted⟩

theorem selectedUnder_perm (hfs : fs.WellFormed) (hway : fs.get? (root ++ way) = some .directory)
    (hskipped : ∀ name ∈ way, name ∉ skippedDirectories)
    (hnames : fs.Lists (root ++ way) names) :
    (selectedUnder wanted fs root way).Perm (selectedOf wanted fs root way names ++
      (enteredOf fs root way names).flatMap (selectedUnder wanted fs root)) := by
  apply (List.perm_ext_iff_of_nodup (selectedUnder_nodup hfs) ?_).mpr
  · intro f
    rw [List.mem_append, List.mem_flatMap]
    exact mem_selectedUnder_iff_of_lists hfs hway hskipped hnames
  · exact (selectedOf_nodup hnames.nodup).append (flatMap_enteredOf_nodup hfs hnames.nodup)
      (disjoint_enteredOf hfs)

end Listing

section Run

variable {wanted : String → Bool} {fs : FileSystem} {root : Location} {walk walk' : Walk}

theorem Walk.isUnderWay_start (hroot : fs.get? root = some .directory) :
    Walk.start.IsUnderWay wanted fs root where
  complete := by simp [Walk.start]
  pending := by simpa [Walk.start] using hroot

theorem Walk.IsUnderWay.step (hfs : fs.WellFormed) (h : walk.IsUnderWay wanted fs root)
    (hstep : Walk.Step wanted fs root walk walk') : walk'.IsUnderWay wanted fs root := by
  cases hstep with
  | @list way names pending found hnames =>
      obtain ⟨hway, hskipped⟩ := h.pending way List.mem_cons_self
      constructor
      · refine List.Perm.trans ?_ h.complete
        rw [List.flatMap_cons, List.flatMap_append, List.append_assoc]
        apply List.Perm.append_left
        rw [← List.append_assoc]
        apply List.Perm.append_right
        exact (selectedUnder_perm hfs hway hskipped hnames).symm
      · intro l hl
        rcases List.mem_append.mp hl with hl | hl
        · obtain ⟨name, -, rfl, hdirectory, hname⟩ := mem_enteredOf_iff.mp hl
          refine ⟨hdirectory, fun other hother => ?_⟩
          rcases List.mem_append.mp hother with hother | hother
          · exact hskipped other hother
          · rwa [List.mem_singleton.mp hother]
        · exact h.pending l (List.mem_cons_of_mem _ hl)

theorem Walk.IsUnderWay.steps (hfs : fs.WellFormed) (h : walk.IsUnderWay wanted fs root)
    (hsteps : Relation.ReflTransGen (Walk.Step wanted fs root) walk walk') :
    walk'.IsUnderWay wanted fs root := by
  induction hsteps with
  | refl => exact h
  | tail _ hstep ih => exact ih.step hfs hstep

section Termination

variable {way : Location} {ls pending : List Location}

/-- Whatever was found so far, every walk that still has these directories to list comes to its
end. -/
def Ends (wanted : String → Bool) (fs : FileSystem) (root : Location) (pending : List Location) :
    Prop :=
  ∀ found, Acc (fun next walk => Walk.Step wanted fs root walk next) ⟨pending, found⟩

theorem ends_append (hls : ∀ l ∈ ls, ∀ rest, Ends wanted fs root rest →
    Ends wanted fs root (l :: rest)) (h : Ends wanted fs root pending) :
    Ends wanted fs root (ls ++ pending) := by
  induction ls with
  | nil => exact h
  | cons l more ih =>
      obtain ⟨hl, hmore⟩ := List.forall_mem_cons.mp hls
      exact hl _ (ih hmore)

theorem ends_cons (k : Nat) (hdepth : ∀ l n, fs.get? (root ++ (way ++ l)) = some n → l.length < k)
    (h : Ends wanted fs root pending) : Ends wanted fs root (way :: pending) := by
  -- The bound for what stands below a directory falls with every directory that is entered.
  induction k generalizing way pending with
  | zero =>
      intro found
      constructor
      intro next hstep
      cases hstep with
      | @list way names pending found hnames =>
          refine ends_append (fun l hl => ?_) h _
          obtain ⟨name, -, rfl, hdirectory, -⟩ := mem_enteredOf_iff.mp hl
          exact absurd (hdepth _ _ hdirectory) (Nat.not_lt_zero _)
  | succ k ih =>
      intro found
      constructor
      intro next hstep
      cases hstep with
      | @list way names pending found hnames =>
          refine ends_append (fun l hl rest hrest => ih (fun m n hn => ?_) hrest) h _
          obtain ⟨name, -, rfl, -⟩ := mem_enteredOf_iff.mp hl
          have hlength := hdepth ([name] ++ m) n (by rwa [← List.append_assoc way])
          simp only [List.length_append, List.length_singleton] at hlength
          omega

/-- No walk goes on for ever. -/
theorem Walk.wellFounded_step :
    WellFounded fun next walk => Walk.Step wanted fs root walk next := by
  obtain ⟨k, hk⟩ := fs.exists_depth
  constructor
  rintro ⟨pending, found⟩
  have hdepth : ∀ way l n, fs.get? (root ++ (way ++ l)) = some n → l.length < k + 1 := by
    intro way l n hget
    have hlength := hk _ n hget
    simp only [List.length_append] at hlength
    omega
  have hends : Ends wanted fs root (pending ++ []) := by
    apply ends_append
    · exact fun l _ rest => ends_cons (k + 1) (hdepth l)
    · intro found
      constructor
      nofun
  rw [List.append_nil] at hends
  exact hends found

theorem Walk.exists_step (way : Location) (pending : List Location)
    (found : List (Location × List UInt8)) :
    ∃ next, Walk.Step wanted fs root ⟨way :: pending, found⟩ next := by
  obtain ⟨names, hnames⟩ := fs.exists_lists (root ++ way)
  exact ⟨_, .list hnames⟩

/-- A walk can be carried on to its end. -/
theorem Walk.exists_finished (walk : Walk) :
    ∃ found, Relation.ReflTransGen (Walk.Step wanted fs root) walk ⟨[], found⟩ := by
  induction walk using (@Walk.wellFounded_step wanted fs root).induction with
  | _ walk ih =>
      obtain ⟨pending, found⟩ := walk
      cases pending with
      | nil => exact ⟨found, .refl⟩
      | cons way rest =>
          obtain ⟨next, hnext⟩ := @Walk.exists_step wanted fs root way rest found
          obtain ⟨last, hlast⟩ := ih next hnext
          exact ⟨last, hlast.head hnext⟩

end Termination

theorem discover_eq : discover wanted fs root =
    .ofPairs ((selectedUnder wanted fs root []).map fun f => (joinNames f.1, f.2)) := by
  rw [discover, selectedUnder, ← List.filterMap_eq_filter, List.map_filterMap]
  congr
  funext f
  obtain ⟨way, octets⟩ := f
  simp only [List.isPrefixOf_nil_left, Bool.true_and, Option.guard]
  generalize (!isSkipped way && wanted (joinNames way)) = chosen
  cases chosen <;> rfl

/-- Different files have different paths. -/
theorem paths_nodup (hfs : fs.WellFormed) (hroot : fs.get? root = some .directory) :
    (((selectedUnder wanted fs root []).map fun f => (joinNames f.1, f.2)).map (·.1)).Nodup := by
  have hways : ((selectedUnder wanted fs root []).map (·.1)).Nodup :=
    hfs.filesUnder_nodup.sublist (List.filter_sublist.map _)
  have hnames : ∀ f ∈ selectedUnder wanted fs root [], ∀ name ∈ f.1, IsEntryName name := by
    intro f hf
    obtain ⟨hfile, -⟩ := (mem_selectedUnder_iff hfs).mp hf
    apply (hfs.of_get?_way hfile ?_).2
    intro hnil
    rw [hnil, List.append_nil, hroot] at hfile
    simp at hfile
  rw [List.map_map]
  apply (hways.of_map).map_on
  intro f hf g hg heq
  exact List.inj_on_of_nodup_map hways hf hg (joinNames_inj (hnames f hf) (hnames g hg) heq)

/-- Whatever the order of the listings, a walk ends with the documents of the directory. -/
theorem Walk.sorted_eq (hfs : fs.WellFormed) (hroot : fs.get? root = some .directory)
    {found : List (Location × List UInt8)}
    (hsteps : Relation.ReflTransGen (Walk.Step wanted fs root) Walk.start ⟨[], found⟩) :
    Walk.sorted ⟨[], found⟩ = (discover wanted fs root).entries := by
  have hfound : found.Perm (selectedUnder wanted fs root []) := by
    simpa using ((Walk.isUnderWay_start hroot).steps hfs hsteps).complete
  have hfiles : (Walk.files ⟨[], found⟩).Perm
      ((selectedUnder wanted fs root []).map fun f => (joinNames f.1, f.2)) := hfound.map _
  have hnodup : (((selectedUnder wanted fs root []).map fun f =>
      (joinNames f.1, f.2)).map (·.1)).Nodup := paths_nodup hfs hroot
  apply NameMap.entries_eq_of_mem_iff
  · exact NameMap.pairwise_lt_mergeSort ((hfiles.map _).nodup_iff.mpr hnodup)
  · exact (discover wanted fs root).ordered
  · intro e
    rw [Walk.sorted, List.mem_mergeSort, hfiles.mem_iff, discover_eq, NameMap.mem_entries_iff,
      NameMap.get?_ofPairs_iff hnodup]

end Run

end EndpointBindings.Discovery
