import EndpointBindings.FileSystem.Writing
import EndpointBindings.Proofs.ExceptResults
import EndpointBindings.Proofs.FileTree

/-!
What making directories leaves of a file system. Directories are made on the way to a path and
nowhere else, and nothing that was there is gone, whether the last of them could be made or not.
-/

namespace EndpointBindings

/-- The place from which a path leads on. -/
def FilePath.start (cwd : Location) (p : FilePath) : Location := if p.root.isEmpty then cwd else []

theorem FilePath.child_eq {name : String} {p : FilePath} (h : IsEntryName name) :
    p.child name = ⟨p.root, p.parts ++ [name]⟩ := by
  have hparts : (FilePath.ofString name).parts = [name] := by
    have hjoin : FileSystem.joinNames [name] = name := rfl
    rw [← hjoin]
    exact FilePath.parts_ofString_joinNames (by simpa using h)
  have hroot : (FilePath.ofString name).root = "" := by
    rw [FilePath.ofString]
    dsimp only
    have hslash := h.2.2.2
    split
    · rename_i heq
      simp [heq] at hslash
    · rename_i heq
      simp [heq] at hslash
    · rename_i heq
      simp [heq] at hslash
    · rfl
  rw [FilePath.child, FilePath.join, hroot, hparts]
  rfl

namespace FileSystem

/-- Everything stands in a directory. -/
def IsTree (fs : FileSystem) : Prop :=
  ∀ l name n, fs.get? (l ++ [name]) = some n → fs.get? l = some .directory

section Trees

variable {fs fs' : FileSystem} {cwd l m start : Location} {parts way : List String} {p : FilePath}
  {name : String} {n : Node}

theorem WellFormed.isTree (h : fs.WellFormed) : fs.IsTree :=
  fun _ _ _ hget => (h.of_get?_append hget).1

theorem IsTree.get?_append (h : fs.IsTree) (hl : fs.get? l ≠ some .directory) (hway : way ≠ []) :
    fs.get? (l ++ way) = none := by
  induction way using List.reverseRecOn with
  | nil => exact absurd rfl hway
  | append_singleton rest name ih =>
      rw [← List.append_assoc, ← Option.not_isSome_iff_eq_none, Option.isSome_iff_exists]
      rintro ⟨n, hn⟩
      have hrest := h _ _ _ hn
      cases rest with
      | nil => exact hl (by simpa using hrest)
      | cons first more => simp [ih] at hrest

theorem get?_put_of_ne {k : Node} (hl : l ≠ []) (hm : m ≠ l) : (fs.put l k).get? m = fs.get? m := by
  rw [get?_put _ _ _ hl, if_neg hm]

theorem follow_mono (hkept : ∀ m, fs.get? m = some .directory → fs'.get? m = some .directory)
    (h : fs.follow start parts = .ok l) : fs'.follow start parts = .ok l := by
  induction parts generalizing start with
  | nil => exact h
  | cons name rest ih =>
      obtain ⟨hstart, hrest⟩ := follow_cons_eq_ok h
      rw [follow, hstart] at h
      rw [follow, hkept _ hstart]
      dsimp only at h ⊢
      split at h
      · simp at h
      · rename_i hlength
        rw [if_neg hlength]
        exact ih hrest

theorem locate_mono (hkept : ∀ m, fs.get? m = some .directory → fs'.get? m = some .directory)
    (h : fs.locate cwd p = .ok l) : fs'.locate cwd p = .ok l := by
  have hfollow := follow_mono hkept (locate_eq_ok h)
  rw [locate] at h ⊢
  split at h
  · simp at h
  · split at h
    · simp at h
    · rename_i hnul hlength
      rw [if_neg hnul, if_neg hlength, hfollow]

/-- Whatever part of a way is gone first, it leads to a directory if something comes after it. -/
theorem exists_follow_of_append {more : List String} (h : fs.follow start (way ++ more) = .ok l) :
    ∃ m, fs.follow start way = .ok m ∧ (more ≠ [] → fs.get? m = some .directory) ∧
      fs.follow m more = .ok l := by
  induction way generalizing start with
  | nil =>
      refine ⟨start, rfl, fun hmore => ?_, h⟩
      obtain ⟨name, rest, rfl⟩ := List.exists_cons_of_ne_nil hmore
      exact (follow_cons_eq_ok h).1
  | cons name rest ih =>
      obtain ⟨hstart, hrest⟩ := follow_cons_eq_ok h
      obtain ⟨m, hm, hmore, hl⟩ := ih hrest
      refine ⟨m, ?_, hmore, hl⟩
      rw [List.cons_append, follow, hstart] at h
      rw [follow, hstart]
      dsimp only at h ⊢
      split at h
      · simp at h
      · rename_i hlength
        rw [if_neg hlength, hm]

end Trees

/-- Nothing is gone, and what is new are directories. -/
structure AddsDirectories (fs fs' : FileSystem) : Prop where
  kept : ∀ m n, fs.get? m = some n → fs'.get? m = some n
  made : ∀ m n, fs'.get? m = some n → fs.get? m = some n ∨ n = .directory

section Additions

variable {fs fs' fs'' : FileSystem} {cwd m : Location} {p : FilePath} {root : String}
  {outer : List String} {octets : List UInt8}

theorem AddsDirectories.refl : AddsDirectories fs fs :=
  ⟨fun _ _ h => h, fun _ _ h => .inl h⟩

theorem AddsDirectories.trans (h : AddsDirectories fs fs') (h' : AddsDirectories fs' fs'') :
    AddsDirectories fs fs'' := by
  refine ⟨fun m n hm => h'.kept m n (h.kept m n hm), fun m n hm => ?_⟩
  rcases h'.made m n hm with hm | rfl
  · exact h.made m n hm
  · exact .inr rfl

theorem AddsDirectories.file_iff (h : AddsDirectories fs fs') :
    fs'.get? m = some (.file octets) ↔ fs.get? m = some (.file octets) := by
  constructor
  · intro hm
    exact (h.made m _ hm).resolve_right (by simp)
  · exact h.kept m _

theorem makeDirectory_eq_ok (h : fs.makeDirectory cwd p = .ok fs') : ∃ l,
    fs.locate cwd p = .ok l ∧ fs.get? l = none ∧ fs.get? l.dropLast = some .directory ∧
      ∀ m, fs'.get? m = if m = l then some .directory else fs.get? m := by
  rw [makeDirectory, bind_eq_ok] at h
  obtain ⟨l, hl, h⟩ := h
  split at h
  · simp at h
  · rename_i hnone
    split at h
    · rename_i hparent
      obtain rfl := Except.ok.inj h
      have hroot : l ≠ [] := by
        rintro rfl
        simp at hnone
      exact ⟨l, hl, hnone, isDirectoryAt_iff.mp hparent, fun m => get?_put fs m _ hroot⟩
    · simp at h

theorem addsDirectories_of_makeDirectory (h : fs.makeDirectory cwd p = .ok fs') :
    AddsDirectories fs fs' := by
  obtain ⟨l, -, hnone, -, hget⟩ := makeDirectory_eq_ok h
  refine ⟨fun m n hm => ?_, fun m n hm => ?_⟩
  · rw [hget, if_neg, hm]
    rintro rfl
    simp [hnone] at hm
  · rw [hget] at hm
    split at hm
    · exact .inr (Option.some.inj hm).symm
    · exact .inl hm

/-- Even where the last directory cannot be made, those before it are all that is new. -/
theorem addsDirectories_makeDirectories :
    AddsDirectories fs (fs.makeDirectories cwd root outer).1 := by
  induction outer with
  | nil =>
      rw [makeDirectories]
      split
      · rename_i made hmade
        exact addsDirectories_of_makeDirectory hmade
      · exact .refl
  | cons name outer ih =>
      rw [makeDirectories]
      split
      · rename_i made hmade
        exact addsDirectories_of_makeDirectory hmade
      · split
        · rename_i made d hmade
          rwa [hmade] at ih
        · rename_i made hmade
          rw [hmade] at ih
          split
          · rename_i all hall
            exact ih.trans (addsDirectories_of_makeDirectory hall)
          · exact ih
      · exact .refl

theorem addsDirectories_ensureDirectory : AddsDirectories fs (fs.ensureDirectory cwd p).1 :=
  addsDirectories_makeDirectories

end Additions

/-- The directory of a path is there. All that was there before still is, and all else are
directories on the way of the path. -/
structure Prepares (fs fs' : FileSystem) (cwd : Location) (p : FilePath) (l : Location) : Prop where
  tree : fs'.IsTree
  located : fs'.locate cwd p = .ok l
  directory : fs'.get? l = some .directory
  kept : ∀ m n, fs.get? m = some n → fs'.get? m = some n
  made : ∀ m n, fs'.get? m = some n → fs.get? m = some n ∨
    n = .directory ∧ ∃ way, way <+: p.parts ∧ fs'.follow (p.start cwd) way = .ok m

section Directories

variable {fs fs' fs'' : FileSystem} {cwd l l' m : Location} {p q : FilePath} {root : String}
  {outer : List String} {n : Node} {e : Defect}

theorem Prepares.refl (htree : fs.IsTree) (hl : fs.locate cwd p = .ok l)
    (hd : fs.get? l = some .directory) : Prepares fs fs cwd p l :=
  ⟨htree, hl, hd, fun _ _ h => h, fun _ _ h => .inl h⟩

theorem Prepares.trans (h : Prepares fs fs' cwd p l) (h' : Prepares fs' fs'' cwd q l')
    (hroot : p.root = q.root) (hparts : p.parts <+: q.parts) : Prepares fs fs'' cwd q l' := by
  refine ⟨h'.tree, h'.located, h'.directory, fun m n hm => h'.kept m n (h.kept m n hm), ?_⟩
  intro m n hm
  rcases h'.made m n hm with hm | hnew
  · rcases h.made m n hm with hm | ⟨rfl, way, hway, hfollow⟩
    · exact .inl hm
    · have hstart : p.start cwd = q.start cwd := by rw [FilePath.start, FilePath.start, hroot]
      rw [hstart] at hfollow
      exact .inr ⟨rfl, way, hway.trans hparts, follow_mono (fun m => h'.kept m _) hfollow⟩
  · exact .inr hnew

/-- The directories are those that were there and those on the way. -/
theorem Prepares.directory_iff (h : Prepares fs fs' cwd p l) :
    fs'.get? m = some .directory ↔ fs.get? m = some .directory ∨
      ∃ way, way <+: p.parts ∧ fs'.follow (p.start cwd) way = .ok m := by
  constructor
  · intro hm
    rcases h.made m _ hm with hm | ⟨-, hway⟩
    · exact .inl hm
    · exact .inr hway
  · rintro (hm | ⟨way, ⟨more, hparts⟩, hway⟩)
    · exact h.kept m _ hm
    · have hfollow := locate_eq_ok h.located
      rw [← hparts] at hfollow
      obtain ⟨m', hm', hmore, hl⟩ := exists_follow_of_append hfollow
      obtain rfl := Except.ok.inj (hway.symm.trans hm')
      cases more with
      | nil =>
          obtain rfl := Except.ok.inj hl
          exact h.directory
      | cons name rest => exact hmore (by simp)

theorem Prepares.addsDirectories (h : Prepares fs fs' cwd p l) : AddsDirectories fs fs' :=
  ⟨h.kept, fun m n hm => (h.made m n hm).imp_right And.left⟩

theorem prepares_of_makeDirectory (htree : fs.IsTree) (h : fs.makeDirectory cwd p = .ok fs') :
    ∃ l, Prepares fs fs' cwd p l := by
  have hkept := (addsDirectories_of_makeDirectory h).kept
  obtain ⟨l, hl, hnone, hparent, hget⟩ := makeDirectory_eq_ok h
  have hlocated := locate_mono (fun m => hkept m _) hl
  refine ⟨l, ?_, hlocated, by rw [hget, if_pos rfl], hkept, ?_⟩
  · intro m name n hm
    apply hkept
    rw [hget] at hm
    split at hm
    · rename_i heq
      rwa [← heq, List.dropLast_concat] at hparent
    · exact htree m name n hm
  · intro m n hm
    rw [hget] at hm
    split at hm
    · rename_i heq
      subst heq
      exact .inr ⟨(Option.some.inj hm).symm, p.parts, List.prefix_rfl, locate_eq_ok hlocated⟩
    · exact .inl hm

theorem prepares_of_acceptExisting (htree : fs.IsTree) (h : fs.acceptExisting cwd p e = .ok ()) :
    ∃ l, Prepares fs fs cwd p l := by
  rw [acceptExisting] at h
  split at h
  · simp at h
  · obtain ⟨there, hthere, h⟩ := bind_eq_ok.mp h
    split at h
    · rename_i htrue
      subst htrue
      simp only [isDirectory, lookup, bind_eq_ok] at hthere
      obtain ⟨found, hfound, hdirectory⟩ := hthere
      have hdirectory : found = some .directory := by simpa [pure, Except.pure] using hdirectory
      subst hdirectory
      split at hfound
      · rename_i l hl
        exact ⟨l, .refl htree hl (Except.ok.inj hfound)⟩
      · simp at hfound
      · simp at hfound
    · simp at h

theorem prepares_of_makeDirectories (htree : fs.IsTree)
    (h : fs.makeDirectories cwd root outer = (fs', .ok ())) :
    ∃ l, Prepares fs fs' cwd ⟨root, outer.reverse⟩ l := by
  -- The parts stand last first, so that the induction goes outwards, as the directories are made.
  induction outer generalizing fs' with
  | nil =>
      rw [makeDirectories] at h
      split at h
      · rename_i made hmade
        obtain ⟨rfl, -⟩ := Prod.mk.inj h
        exact prepares_of_makeDirectory htree hmade
      · obtain ⟨rfl, haccept⟩ := Prod.mk.inj h
        exact prepares_of_acceptExisting htree haccept
  | cons name outer ih =>
      rw [makeDirectories] at h
      split at h
      · rename_i made hmade
        obtain ⟨rfl, -⟩ := Prod.mk.inj h
        exact prepares_of_makeDirectory htree hmade
      · split at h
        · simp at h
        · rename_i made hmade
          obtain ⟨l, hl⟩ := ih hmade
          have hlast : ∃ l', Prepares made fs' cwd ⟨root, (name :: outer).reverse⟩ l' := by
            split at h
            · rename_i all hall
              obtain ⟨rfl, -⟩ := Prod.mk.inj h
              exact prepares_of_makeDirectory hl.tree hall
            · obtain ⟨rfl, haccept⟩ := Prod.mk.inj h
              exact prepares_of_acceptExisting hl.tree haccept
          obtain ⟨l', hl'⟩ := hlast
          refine ⟨l', hl.trans hl' rfl ?_⟩
          simp
      · obtain ⟨rfl, haccept⟩ := Prod.mk.inj h
        exact prepares_of_acceptExisting htree haccept

theorem prepares_of_ensureDirectory (htree : fs.IsTree)
    (h : fs.ensureDirectory cwd p = (fs', .ok ())) : ∃ l, Prepares fs fs' cwd p l := by
  have hprepares := prepares_of_makeDirectories htree h
  rwa [List.reverse_reverse] at hprepares

/-- A directory that is there is not made again. -/
theorem ensureDirectory_of_directory (hl : fs.locate cwd p = .ok l)
    (hd : fs.get? l = some .directory) : fs.ensureDirectory cwd p = (fs, .ok ()) := by
  have hmake : fs.makeDirectory cwd p = .error .fileExists := by
    simp [makeDirectory, hl, hd, bind, Except.bind]
  have haccept : fs.acceptExisting cwd p .fileExists = .ok () := by
    simp [acceptExisting, isDirectory, lookup, hl, hd, bind, Except.bind, pure, Except.pure]
  obtain ⟨root, parts⟩ := p
  obtain ⟨outer, rfl⟩ : ∃ outer, parts = outer.reverse := ⟨parts.reverse, by simp⟩
  rw [ensureDirectory]
  dsimp only
  rw [List.reverse_reverse]
  cases outer with
  | nil =>
      rw [List.reverse_nil] at hmake haccept
      rw [makeDirectories, hmake]
      dsimp only
      rw [haccept]
  | cons name outer =>
      rw [makeDirectories, hmake]
      dsimp only
      rw [haccept]

end Directories

end FileSystem

end EndpointBindings
