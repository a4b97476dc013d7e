import EndpointBindings.Proofs.DirectoryWalk

/-!
Which files are the documents of a directory. A file is selected by its own path and the names of
the directories on the way to it; neither the order of the listings nor what stands beside it has a
say in that.
-/

namespace EndpointBindings.Discovery

open FileSystem

/-- Whether a path is included and not excluded. -/
def chosen (included excluded : String → Bool) (path : String) : Bool :=
  included path && !excluded path

/-- The paths, in order and each once, of the files in a directory that are included and not
excluded, where no directory of a tool stands on the way. -/
structure Selects (included excluded : String → Bool) (fs : FileSystem) (root : Location)
    (paths : List String) : Prop where
  increasing : paths.Pairwise (· < ·)
  mem_iff : ∀ path, path ∈ paths ↔ ∃ way octets, joinNames way = path ∧
    fs.get? (root ++ way) = some (.file octets) ∧ included path = true ∧ excluded path = false ∧
    ∀ name ∈ way.dropLast, name ∉ skippedDirectories

section Selection

variable {wanted included excluded : String → Bool} {fs : FileSystem} {root cwd : Location}
  {walk : Walk} {octets : List UInt8} {path : String}

theorem get?_discover_iff (hfs : fs.WellFormed) (hroot : fs.get? root = some .directory) :
    (discover wanted fs root).get? path = some octets ↔ ∃ way, joinNames way = path ∧
      fs.get? (root ++ way) = some (.file octets) ∧
      (∀ name ∈ way.dropLast, name ∉ skippedDirectories) ∧ wanted path = true := by
  rw [discover_eq, NameMap.get?_ofPairs_iff (paths_nodup hfs hroot), List.mem_map]
  constructor
  · rintro ⟨f, hf, heq⟩
    obtain ⟨rfl, rfl⟩ := Prod.mk.inj heq
    obtain ⟨hfile, -, hnone, hwanted⟩ := (mem_selectedUnder_iff hfs).mp hf
    exact ⟨f.1, rfl, hfile, hnone, hwanted⟩
  · rintro ⟨way, rfl, hfile, hnone, hwanted⟩
    refine ⟨(way, octets), ?_, rfl⟩
    exact (mem_selectedUnder_iff hfs).mpr ⟨hfile, List.nil_prefix, hnone, hwanted⟩

theorem selects_discover (hfs : fs.WellFormed) (hroot : fs.get? root = some .directory) :
    Selects included excluded fs root
      (discover (chosen included excluded) fs root).names := by
  refine ⟨NameMap.names_pairwise_lt _, fun path => ?_⟩
  simp only [NameMap.mem_names_iff, get?_discover_iff hfs hroot, chosen, Bool.and_eq_true,
    Bool.not_eq_true']
  constructor
  · rintro ⟨octets, way, hpath, hfile, hnone, hincluded, hexcluded⟩
    exact ⟨way, octets, hpath, hfile, hincluded, hexcluded, hnone⟩
  · rintro ⟨way, octets, hpath, hfile, hincluded, hexcluded, hnone⟩
    exact ⟨octets, way, hpath, hfile, hnone, hincluded, hexcluded⟩

/-- A walk that cannot go on has listed everything. -/
theorem Walk.pending_eq_nil (h : ∀ next, ¬Walk.Step wanted fs root walk next) :
    walk.pending = [] := by
  obtain ⟨pending, found⟩ := walk
  cases pending with
  | nil => rfl
  | cons way rest =>
      obtain ⟨next, hnext⟩ := @Walk.exists_step wanted fs root way rest found
      exact absurd hnext (h next)

theorem Walk.paths_eq (hfs : fs.WellFormed) (hroot : fs.get? root = some .directory)
    (hsteps : Relation.ReflTransGen (Walk.Step wanted fs root) Walk.start walk)
    (hend : ∀ next, ¬Walk.Step wanted fs root walk next) :
    walk.sorted.map (·.1) = (discover wanted fs root).names := by
  have hpending := Walk.pending_eq_nil hend
  obtain ⟨pending, found⟩ := walk
  obtain rfl : pending = [] := hpending
  rw [Walk.sorted_eq hfs hroot hsteps]
  rfl

theorem documents_eq {directory : FilePath} {lines others : List String}
    {inside outside : List Pattern} (hl : fs.locate cwd directory = .ok root)
    (hroot : fs.get? root = some .directory) (hinside : readPatterns lines = .ok inside)
    (houtside : readPatterns others = .ok outside) :
    documents fs cwd directory lines others =
      .ok (discover (wantedBy inside outside) fs root) := by
  rw [documents, hinside, houtside]
  dsimp only [bind, Except.bind]
  rw [hl]
  dsimp only
  rw [if_pos (isDirectoryAt_iff.mpr hroot)]
  rfl

/-- In whatever order the directories of a tree are listed, a walk through them comes to its end,
and has then found the files that are included and not excluded and lie in no directory of a tool.
Their paths in order are what discovery gives, and the documents that two lists of patterns select
are the files for which the patterns speak. -/
theorem discovery_selects_exactly (hfs : fs.WellFormed)
    (hroot : fs.get? root = some .directory) :
    (∀ included excluded,
      Selects included excluded fs root (discover (chosen included excluded) fs root).names ∧
      (WellFounded fun next walk => Walk.Step (chosen included excluded) fs root walk next) ∧
      ∀ walk, Relation.ReflTransGen (Walk.Step (chosen included excluded) fs root) Walk.start walk →
        (∀ next, ¬Walk.Step (chosen included excluded) fs root walk next) →
        walk.sorted.map (·.1) = (discover (chosen included excluded) fs root).names) ∧
    ∀ cwd directory lines others inside outside, fs.locate cwd directory = .ok root →
      readPatterns lines = .ok inside → readPatterns others = .ok outside →
      ∃ found, documents fs cwd directory lines others = .ok found ∧
        Selects (Pattern.selects inside) (Pattern.selects outside) fs root found.names := by
  constructor
  · intro included excluded
    exact ⟨selects_discover hfs hroot, Walk.wellFounded_step, fun walk => Walk.paths_eq hfs hroot⟩
  · intro cwd directory lines others inside outside hl hinside houtside
    exact ⟨_, documents_eq hl hroot hinside houtside, selects_discover hfs hroot⟩

end Selection

/-- A directory by the name of one of a tool, with files by such names in it and in a directory
inside it, and with a directory of a tool. -/
def toolTree : FileSystem :=
  ⟨[([".git"], .directory), ([".git", "src"], .directory), ([".git", ".hg"], .directory),
    ([".git", "src", "b.tmp"], .file []), ([".git", "src", ".tox"], .file []),
    ([".git", ".hg", "a.json"], .file []), ([".git", "__pycache__"], .file [])]⟩

theorem wellFormed_toolTree : toolTree.WellFormed := by
  refine ⟨by decide, ?_⟩
  simp only [toolTree, List.forall_mem_cons, List.not_mem_nil, false_imp_iff, implies_true,
    and_true]
  exact ⟨⟨[], ".git", rfl, by decide, rfl⟩, ⟨[".git"], "src", rfl, by decide, rfl⟩,
    ⟨[".git"], ".hg", rfl, by decide, rfl⟩, ⟨[".git", "src"], "b.tmp", rfl, by decide, rfl⟩,
    ⟨[".git", "src"], ".tox", rfl, by decide, rfl⟩,
    ⟨[".git", ".hg"], "a.json", rfl, by decide, rfl⟩,
    ⟨[".git"], "__pycache__", rfl, by decide, rfl⟩⟩

theorem discovery_selects_exactly_tools :
    Selects (fun _ => true) (· == "src/b.tmp") toolTree [".git"] ["__pycache__", "src/.tox"] ∧
      ∃ inside outside, readPatterns ["*"] = .ok inside ∧ readPatterns ["*.tmp"] = .ok outside ∧
        ∃ found, documents toolTree [] ⟨"/", [".git"]⟩ ["*"] ["*.tmp"] = .ok found ∧
          Selects (Pattern.selects inside) (Pattern.selects outside) toolTree [".git"]
            found.names := by
  obtain ⟨hselects, hdocuments⟩ :=
    @discovery_selects_exactly toolTree [".git"] wellFormed_toolTree rfl
  constructor
  · obtain ⟨h, -⟩ := hselects (fun _ => true) (· == "src/b.tmp")
    have hnames : (discover (chosen (fun _ => true) (· == "src/b.tmp")) toolTree [".git"]).names =
        ["__pycache__", "src/.tox"] := by decide +kernel
    rwa [hnames] at h
  · have hlocated : toolTree.locate [] ⟨"/", [".git"]⟩ = .ok [".git"] := by
      rw [locate_eq (by decide) (by decide)]
      rfl
    exact ⟨_, _, rfl, rfl, hdocuments _ _ _ _ _ _ hlocated rfl rfl⟩

end EndpointBindings.Discovery
