import EndpointBindings.Publishing
import EndpointBindings.Proofs.FileWriting
import EndpointBindings.Proofs.PackageModules
import EndpointBindings.Proofs.PlainText

/-!
What it comes to that a package is written into a directory: its files stand there with their texts,
and nothing else has changed but for directories that were made on the way.
-/

namespace EndpointBindings

open Emission Naming

namespace FileSystem

/-- Files stand in the directory of a path as they are given. All other files are those of before,
and so are the directories but for those on the way of the path. -/
structure Publishes (fs fs' : FileSystem) (cwd : Location) (out : FilePath)
    (files : List (String × String)) (l : Location) : Prop where
  located : fs'.locate cwd out = .ok l
  written : ∀ name text, (name, text) ∈ files →
    fs'.get? (l ++ [name]) = some (.file (Text.Utf8.encode text.toList))
  untouched : ∀ m octets, (∀ f ∈ files, m ≠ l ++ [f.1]) →
    (fs'.get? m = some (.file octets) ↔ fs.get? m = some (.file octets))
  directories : ∀ m, fs'.get? m = some .directory ↔ fs.get? m = some .directory ∨
    ∃ way, way <+: out.parts ∧ fs'.follow (out.start cwd) way = .ok m

/-- Nothing keeps files from being written into the directory of a path: it can be made, and no name
of a file is too long or taken by a directory. -/
structure HasRoom (fs : FileSystem) (cwd : Location) (out : FilePath)
    (files : List (String × String)) (made : FileSystem) (l : Location) : Prop where
  prepared : fs.ensureDirectory cwd out = (made, .ok ())
  located : made.locate cwd out = .ok l
  free : ∀ f ∈ files, requireName f.1 = .ok () ∧ made.get? (l ++ [f.1]) ≠ some .directory

variable {fs fs' made : FileSystem} {cwd l : Location} {out : FilePath}
  {files : List (String × String)}

theorem Prepares.publishes (h : Prepares fs made cwd out l) (h' : Fills made fs' l files) :
    Publishes fs fs' cwd out files l := by
  have hdirectories : ∀ m, fs'.get? m = some .directory ↔ made.get? m = some .directory := by
    intro m
    by_cases hm : ∀ f ∈ files, m ≠ l ++ [f.1]
    · rw [h'.kept m hm]
    · push Not at hm
      obtain ⟨f, hf, rfl⟩ := hm
      simp [h'.written f hf, h'.old f hf]
  have hfollow : ∀ way m, way <+: out.parts →
      (fs'.follow (out.start cwd) way = .ok m ↔ made.follow (out.start cwd) way = .ok m) := by
    intro way m hway
    constructor
    · exact follow_mono fun m => (hdirectories m).mp
    · exact follow_mono fun m => (hdirectories m).mpr
  refine ⟨locate_mono (fun m => (hdirectories m).mpr) h.located, ?_, ?_, ?_⟩
  · intro name text hf
    exact h'.written _ hf
  · intro m octets hm
    rw [h'.kept m hm, h.addsDirectories.file_iff]
  · intro m
    rw [hdirectories, h.directory_iff]
    apply or_congr_right
    apply exists_congr
    intro way
    exact and_congr_right fun hway => (hfollow way m hway).symm

end FileSystem

section Names

variable {name : String} {taken names : List String} {r : Registry}
  {files : List (String × String)}

theorem isEntryName_fileName (h : IsNameText name) : IsEntryName (fileName name) := by
  have hlist : (fileName name).toList = name.toList ++ ['.', 'p', 'y'] := by simp [fileName]
  have hlonger : ∀ other : String, other.toList.length < 3 → fileName name ≠ other := by
    rintro other hother rfl
    simp [hlist] at hother
  refine ⟨hlonger _ (by decide), hlonger _ (by decide), hlonger _ (by decide), ?_⟩
  rw [hlist, List.mem_append]
  rintro (hc | hc)
  · rcases h _ hc with hc | hc <;> exact absurd hc (by decide)
  · simp at hc

theorem isNameText_of_mem_nameModules {m : ModuleName} (hm : m ∈ nameModules taken names) :
    IsNameText m.name := by
  obtain ⟨endpoint, -, before, -, rfl⟩ := exists_of_mem_nameInTurn hm
  exact isNameText_identifier.uniqueIdentifier

theorem isEntryName_of_package (hfiles : package r = .ok files) :
    ∀ f ∈ files, IsEntryName f.1 := by
  intro f hf
  have hmem := (fileNames_sublist hfiles).subset (List.mem_map_of_mem hf)
  obtain ⟨name, hname, hfile⟩ := List.mem_map.mp hmem
  rw [← hfile]
  apply isEntryName_fileName
  rw [List.mem_append, List.mem_cons, List.mem_singleton] at hname
  rcases hname with (rfl | hname) | rfl
  · simp [IsNameText, IsNameChar, transportModule]
  · obtain ⟨m, hm, rfl⟩ := List.mem_map.mp hname
    exact isNameText_of_mem_nameModules hm
  · simp [IsNameText, IsNameChar]

end Names

/-- What it comes to that a package is written. -/
theorem publishes_of_publish {r : Registry} {cwd : Location} {out : FilePath} {fs fs' : FileSystem}
    {written : List String} (htree : fs.IsTree)
    (h : publish (fun _ => FileSystem.noFault) r cwd out fs = (fs', .ok written)) :
    ∃ files l, package r = .ok files ∧ FileSystem.Publishes fs fs' cwd out files l := by
  rw [publish] at h
  split at h
  · simp at h
  · rename_i made hmade
    split at h
    · simp at h
    · rename_i files hfiles
      split at h
      · simp at h
      · rename_i filled hfilled
        obtain ⟨rfl, -⟩ := Prod.mk.inj h
        obtain ⟨l, hl⟩ := FileSystem.prepares_of_ensureDirectory htree hmade
        have hfills := FileSystem.fills_of_writeAll hl.tree hl.located hl.directory
          (isEntryName_of_package hfiles) (fileNames_nodup hfiles) hfilled
        exact ⟨files, l, hfiles, hl.publishes hfills⟩

theorem exists_publish {r : Registry} {cwd l : Location} {out : FilePath} {fs made : FileSystem}
    {files : List (String × String)} (htree : fs.IsTree) (hfiles : package r = .ok files)
    (hroom : FileSystem.HasRoom fs cwd out files made l) :
    ∃ fs' written, publish (fun _ => FileSystem.noFault) r cwd out fs = (fs', .ok written) := by
  obtain ⟨hmade, hl, hfree⟩ := hroom
  obtain ⟨l', hprepares⟩ := FileSystem.prepares_of_ensureDirectory htree hmade
  obtain rfl := Except.ok.inj (hl.symm.trans hprepares.located)
  have hnames : ∀ f ∈ files, IsEntryName f.1 ∧ FileSystem.requireName f.1 = .ok () :=
    fun f hf => ⟨isEntryName_of_package hfiles f hf, (hfree f hf).1⟩
  obtain ⟨fs', hfs'⟩ := FileSystem.exists_writeAll hprepares.tree hl hprepares.directory hnames
    (fileNames_nodup hfiles) fun f hf => (hfree f hf).2
  rw [publish, hmade]
  dsimp only
  rw [hfiles]
  dsimp only
  rw [hfs']
  exact ⟨_, _, rfl⟩

end EndpointBindings
