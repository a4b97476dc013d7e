import EndpointBindings.Proofs.PackageWriting

/-!
A write is all or nothing. Whichever step of it fails, the files are those of before; and where a
package is not written to its end, the files before the failure stand with their new texts and all
others are those of before.
-/

namespace EndpointBindings

namespace FileSystem

section Writing

variable {fs fs' made : FileSystem} {cwd l target : Location} {p : FilePath} {name : String}
  {octets : List UInt8} {fault : Step → Option Defect} {out : FileSystem × Except Defect Unit}
  {d : Defect}

theorem obstacle?_eq_none_iff : obstacle? fault fs target = none ↔
    (∀ s, s ≠ .prepare → fault s = none) ∧ fs.placeFault? target = none := by
  rw [obstacle?, Option.or_eq_none_iff, List.findSome?_eq_none_iff]
  apply and_congr_left'
  constructor
  · intro hfree s hs
    apply hfree
    cases s with
    | prepare => exact absurd rfl hs
    | create | write | flush | sync | close | move => decide
  · intro hfree s hs
    apply hfree
    rintro rfl
    exact absurd hs (by decide)

/-- A write adds at most directories if it fails, and it fails where any step of it does. If it does
not fail, the file is there and nothing else but directories on its way is new. Once its directory
is there, the first step that fails is what it fails with, and then nothing at all is new. -/
structure WritesAtomically (fault : Step → Option Defect) (fs : FileSystem) (cwd : Location)
    (p : FilePath) (octets : List UInt8) (out : FileSystem × Except Defect Unit) : Prop where
  failed : ∀ d, out.2 = .error d → AddsDirectories fs out.1
  done : out.2 = .ok () → (∀ s, fault s = none) ∧
    ∃ made l, Prepares fs made cwd p.parent l ∧ Replaces made out.1 (l ++ [p.name]) octets
  settled : ∀ made l name, fault .prepare = none →
    fs.ensureDirectory cwd p.parent = (made, .ok ()) → made.locateTarget cwd p = .ok (l, name) →
    Settles made (l ++ [name]) octets out (obstacle? fault made (l ++ [name]))

theorem locateTarget_eq_ok (h : fs.locateTarget cwd p = .ok (l, name)) :
    fs.locate cwd p.parent = .ok l ∧ name = p.name := by
  obtain ⟨directory, hl, h⟩ := bind_eq_ok.mp h
  obtain ⟨-, -, h⟩ := bind_eq_ok.mp h
  obtain ⟨rfl, rfl⟩ := Prod.mk.inj (Except.ok.inj h)
  exact ⟨hl, rfl⟩

theorem Settles.writesAtomically (hprepares : Prepares fs made cwd p.parent l)
    (hprepare : fault .prepare = none) (hmade : fs.ensureDirectory cwd p.parent = (made, .ok ()))
    (hl : made.locateTarget cwd p = .ok (l, p.name))
    (h : Settles made (l ++ [p.name]) octets out (obstacle? fault made (l ++ [p.name]))) :
    WritesAtomically fault fs cwd p octets out := by
  refine ⟨fun d hd => ?_, fun hok => ?_, fun made' l' name hprepare hmade' hl' => ?_⟩
  · obtain ⟨hkept, hnew⟩ := hprepares.addsDirectories
    have hsame := h.unchanged hd
    refine ⟨fun m n hm => ?_, fun m n hm => ?_⟩
    · rw [hsame m]
      exact hkept m n hm
    · rw [hsame m] at hm
      exact hnew m n hm
  · obtain ⟨hobstacle, hreplaced⟩ := h.replaced hok
    refine ⟨fun s => ?_, made, l, hprepares, hreplaced⟩
    by_cases hs : s = .prepare
    · rw [hs, hprepare]
    · exact (obstacle?_eq_none_iff.mp hobstacle).1 s hs
  · obtain ⟨rfl, -⟩ := Prod.mk.inj (hmade.symm.trans hmade')
    obtain ⟨rfl, rfl⟩ := Prod.mk.inj (Except.ok.inj (hl.symm.trans hl'))
    exact h

/-- Before the file beside the target is made, a failure has nothing to take away. -/
theorem writesAtomically_of_error (hfs : AddsDirectories fs fs')
    (hearly : fault .prepare = none → ∀ made, fs.ensureDirectory cwd p.parent = (made, .ok ()) →
      ∀ l name, made.locateTarget cwd p ≠ .ok (l, name)) :
    WritesAtomically fault fs cwd p octets (fs', .error d) := by
  refine ⟨fun _ _ => hfs, fun hok => absurd hok (by simp), fun made l name hprepare hmade hl => ?_⟩
  exact absurd hl (hearly hprepare made hmade l name)

theorem writesAtomically_write (htree : fs.IsTree) :
    WritesAtomically fault fs cwd p octets (write fault fs cwd p octets) := by
  rw [write]
  cases hprepare : fault .prepare with
  | some d =>
      apply writesAtomically_of_error .refl
      intro hnone
      simp [hprepare] at hnone
  | none =>
      have hadds := @addsDirectories_ensureDirectory fs cwd p.parent
      dsimp only
      split
      · rename_i made d hmade
        rw [hmade] at hadds
        apply writesAtomically_of_error hadds
        intro _ made' hmade'
        simp [hmade] at hmade'
      · rename_i made hmade
        rw [hmade] at hadds
        cases htarget : made.locateTarget cwd p with
        | error d =>
            apply writesAtomically_of_error hadds
            intro _ made' hmade' l name
            obtain ⟨rfl, -⟩ := Prod.mk.inj (hmade.symm.trans hmade')
            simp [htarget]
        | ok target =>
            obtain ⟨l, name⟩ := target
            obtain ⟨hl, rfl⟩ := locateTarget_eq_ok htarget
            obtain ⟨l', hprepares⟩ := prepares_of_ensureDirectory htree hmade
            obtain rfl := Except.ok.inj (hprepares.located.symm.trans hl)
            exact (settles_replaceFile hprepares.tree).writesAtomically hprepares hprepare hmade
              htarget

end Writing

end FileSystem

open FileSystem

/-- How the writing of a package may end. -/
inductive PublishEnds (faults : String → Step → Option Defect) (r : Registry) (cwd : Location)
    (out : FilePath) (fs : FileSystem) : FileSystem × Except Defect (List String) → Prop
  /-- The directory cannot be made. -/
  | noDirectory {made : FileSystem} {d : Defect}
      (prepared : fs.ensureDirectory cwd out = (made, .error d)) (adds : AddsDirectories fs made) :
      PublishEnds faults r cwd out fs (made, .error d)
  /-- The texts cannot be made, and none of them is written. -/
  | noTexts {made : FileSystem} {l : Location} {d : Defect} (prepared : Prepares fs made cwd out l)
      (texts : Emission.package r = .error d) : PublishEnds faults r cwd out fs (made, .error d)
  /-- A file is kept from its place. Those before it are written. -/
  | stopped {made fs' : FileSystem} {l : Location} {before after : List (String × String)}
      {file : String × String} {d : Defect} (prepared : Prepares fs made cwd out l)
      (texts : Emission.package r = .ok (before ++ file :: after))
      (free : ∀ f ∈ before, hindrance? (faults f.1) made l f.1 = none)
      (hindered : hindrance? (faults file.1) made l file.1 = some d)
      (published : Publishes fs fs' cwd out before l)
      (left : ∀ f ∈ file :: after, fs'.get? (l ++ [f.1]) = made.get? (l ++ [f.1])) :
      PublishEnds faults r cwd out fs (fs', .error d)
  /-- Every file is written. -/
  | complete {made fs' : FileSystem} {l : Location} {files : List (String × String)}
      (prepared : Prepares fs made cwd out l) (texts : Emission.package r = .ok files)
      (free : ∀ f ∈ files, hindrance? (faults f.1) made l f.1 = none)
      (published : Publishes fs fs' cwd out files l) :
      PublishEnds faults r cwd out fs (fs', .ok (files.map fun f => (out.child f.1).text))

theorem publishEnds_publish {faults : String → Step → Option Defect} {r : Registry}
    {cwd : Location} {out : FilePath} {fs : FileSystem} (htree : fs.IsTree) :
    PublishEnds faults r cwd out fs (publish faults r cwd out fs) := by
  have hadds := @addsDirectories_ensureDirectory fs cwd out
  rw [publish]
  split
  · rename_i made d hmade
    rw [hmade] at hadds
    exact .noDirectory hmade hadds
  · rename_i made hmade
    obtain ⟨l, hprepares⟩ := prepares_of_ensureDirectory htree hmade
    cases hfiles : Emission.package r with
    | error d => exact .noTexts hprepares hfiles
    | ok files =>
        obtain ⟨before, after, rfl, hstops⟩ : ∃ before after, files = before ++ after ∧
            Stops faults made l before after (writeAll faults cwd out files made) :=
          exists_stops (isEntryName_of_package hfiles) (Emission.fileNames_nodup hfiles)
            hprepares.tree hprepares.located hprepares.directory
        dsimp only
        generalize writeAll faults cwd out (before ++ after) made = written at hstops ⊢
        obtain ⟨filled, outcome⟩ := written
        have hpublished := hprepares.publishes hstops.filled
        cases after with
        | nil =>
            obtain rfl : outcome = .ok () := hstops.succeeds rfl
            rw [List.append_nil] at hfiles ⊢
            exact .complete hprepares hfiles hstops.free hpublished
        | cons file after =>
            obtain ⟨d, hd, herror⟩ := hstops.fails file after rfl
            obtain rfl : outcome = .error d := herror
            exact .stopped hprepares hfiles hstops.free hd hpublished hstops.left

/-- A file is replaced as a whole or left as it was, from every state and at every failure. Where a
package is not written to its end, the files before the failure are the new ones and all others the
old ones. -/
theorem writing_is_atomic {fs : FileSystem} (htree : fs.IsTree) (cwd : Location) :
    (∀ fault p octets,
      WritesAtomically fault fs cwd p octets (write fault fs cwd p octets)) ∧
    ∀ faults r out, PublishEnds faults r cwd out fs (publish faults r cwd out fs) :=
  ⟨fun _ _ _ => writesAtomically_write htree, fun _ _ _ => publishEnds_publish htree⟩

/-- Only the list of the modules stands in the working directory. -/
def earlierList : FileSystem := ⟨[(["__init__.py"], .file [35])]⟩

theorem earlierList_isTree : earlierList.IsTree := by
  apply WellFormed.isTree
  refine ⟨by decide, ?_⟩
  intro e he
  obtain rfl := List.mem_singleton.mp he
  exact ⟨[], "__init__.py", rfl, by decide, rfl⟩

/-- What is written cannot be made to last. -/
def unsynced : Step → Option Defect
  | .sync => some .noSuchFile
  | _ => none

theorem writing_is_atomic_unsynced : earlierList.IsTree ∧
    (write unsynced earlierList [] ⟨"", ["__init__.py"]⟩ [36]).2 = .error .noSuchFile ∧
    (∀ m, (write unsynced earlierList [] ⟨"", ["__init__.py"]⟩ [36]).1.get? m =
      earlierList.get? m) ∧
    PublishEnds (fun _ => unsynced) .empty [] ⟨"", []⟩ earlierList
      (publish (fun _ => unsynced) .empty [] ⟨"", []⟩ earlierList) := by
  obtain ⟨hwrite, hpublish⟩ := writing_is_atomic earlierList_isTree []
  have hlocated : earlierList.locate [] ⟨"", []⟩ = .ok [] := by
    rw [locate_eq (by decide) (by decide)]
    rfl
  have htarget : earlierList.locateTarget [] ⟨"", ["__init__.py"]⟩ = .ok ([], "__init__.py") := by
    have hname : requireName "__init__.py" = .ok () := by
      rw [requireName, if_neg (by simp [String.contains_char_eq])]
      rfl
    have hparent : FilePath.parent ⟨"", ["__init__.py"]⟩ = ⟨"", []⟩ := rfl
    have hlast : FilePath.name ⟨"", ["__init__.py"]⟩ = "__init__.py" := rfl
    rw [locateTarget, hparent, hlast, hlocated]
    dsimp only [bind, Except.bind]
    rw [hname]
    rfl
  obtain ⟨herror, hsame⟩ : Settles earlierList ["__init__.py"] [36]
      (write unsynced earlierList [] ⟨"", ["__init__.py"]⟩ [36]) (some .noSuchFile) :=
    (hwrite unsynced ⟨"", ["__init__.py"]⟩ [36]).settled _ [] "__init__.py" rfl
      (ensureDirectory_of_directory hlocated rfl) htarget
  exact ⟨earlierList_isTree, herror, hsame, hpublish _ _ _⟩

end EndpointBindings
