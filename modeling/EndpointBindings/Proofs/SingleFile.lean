import EndpointBindings.Run.Show
import EndpointBindings.Proofs.AssemblySuccess
import EndpointBindings.Proofs.DirectoryWalk
import EndpointBindings.Proofs.FileIsolation
import EndpointBindings.Proofs.PackageModules
import EndpointBindings.Proofs.RelatedLists

/-!
A document in its directory and by itself. The module that a package has for an endpoint is the one
that is shown for its file, by whatever path the file is named; other files of the directory keep
the package from being written at worst.
-/

namespace EndpointBindings

open Emission

namespace FileSystem

variable {fs : FileSystem} {l m cwd : Location} {parts : List String} {p : FilePath}
  {octets : List UInt8}

/-- A directory lies in a directory. -/
theorem WellFormed.get?_dropLast (hfs : fs.WellFormed) (hl : fs.get? l = some .directory) :
    fs.get? l.dropLast = some .directory := by
  cases l using List.reverseRecOn with
  | nil => rfl
  | append_singleton before name =>
      rw [List.dropLast_concat]
      exact (hfs.of_get?_append hl).1

/-- A way that ends in a file ends in the name of the file. -/
theorem getLast?_of_follow (hfs : fs.WellFormed) (hl : fs.get? l = some .directory)
    (hm : fs.get? m = some (.file octets)) (h : fs.follow l parts = .ok m) :
    parts.getLast? = m.getLast? := by
  induction parts generalizing l with
  | nil =>
      obtain rfl := Except.ok.inj h
      simp [hl] at hm
  | cons name rest ih =>
      obtain ⟨-, hrest⟩ := follow_cons_eq_ok h
      cases rest with
      | nil =>
          obtain rfl := Except.ok.inj hrest
          split at hm
          · simp [hfs.get?_dropLast hl] at hm
          · rename_i hname
            simp [hname]
      | cons next more =>
          rw [List.getLast?_cons_cons]
          exact ih (follow_cons_eq_ok hrest).1 hrest

theorem name_of_locate (hfs : fs.WellFormed) (hcwd : fs.get? cwd = some .directory)
    (hl : fs.get? l = some (.file octets)) (h : fs.locate cwd p = .ok l) :
    p.parts.getLast? = l.getLast? := by
  refine getLast?_of_follow hfs ?_ hl (locate_eq_ok h)
  split
  · exact hcwd
  · rfl

end FileSystem

section Documents

variable {document : Fields} {e : Endpoint} {name path : String} {octets : List UInt8}

theorem compileFile_eq_ok (h : Compilation.compileFile path octets = .ok (.ok e)) :
    ∃ document d,
      Document.load (.octets octets) (Document.hintFor (.ofString path)) = .ok document ∧
      assemble document = .ok d ∧ e = d.orNamed (endpointNameFor path) := by
  rw [Compilation.compileFile] at h
  split at h
  · rename_i d hd
    obtain ⟨document, hload, hassemble⟩ := bind_eq_ok.mp hd
    refine ⟨document, d, hload, hassemble, ?_⟩
    simpa using h.symm
  · simp at h
  · simp at h

theorem isEmittable_of_compileFile (h : Compilation.compileFile path octets = .ok (.ok e))
    (hname : e.name = some name) : IsEmittable name e := by
  obtain ⟨document, d, -, hassemble, rfl⟩ := compileFile_eq_ok h
  obtain ⟨hverbs, hpaths⟩ := Assembly.isEmittable_of_assemble hassemble
  exact ⟨hname, hverbs, hpaths⟩

end Documents

section Directory

variable {w : World} {directory specFile path name : String} {config : CompilerConfig}
  {root way : Location} {c : Compilation} {e : Endpoint} {octets : List UInt8}
  {found : NameMap (List UInt8)}

/-- The documents of a directory are files of it, under the paths that lead to them. -/
theorem Discovery.exists_way_of_mem_documents {fs : FileSystem} {cwd : Location} {p : FilePath}
    {included excluded : List String} (hfs : fs.WellFormed) (hroot : fs.locate cwd p = .ok root)
    (hfound : documents fs cwd p included excluded = .ok found)
    (hf : (path, octets) ∈ found.entries) :
    (FilePath.ofString path).parts ≠ [] ∧
      fs.get? (root ++ (FilePath.ofString path).parts) = some (.file octets) := by
  simp only [documents, bind_eq_ok, hroot] at hfound
  obtain ⟨inside, -, outside, -, hfound⟩ := hfound
  obtain rfl := Except.ok.inj hfound
  split at hf
  · rename_i hdirectory
    rw [FileSystem.isDirectoryAt_iff] at hdirectory
    rw [discover_eq, NameMap.mem_entries_iff, NameMap.get?_ofPairs_iff (paths_nodup hfs hdirectory)]
      at hf
    obtain ⟨⟨way, found⟩, hmem, heq⟩ := List.mem_map.mp hf
    obtain ⟨rfl, rfl⟩ := Prod.mk.inj heq
    obtain ⟨hfile, -⟩ := (mem_selectedUnder_iff hfs).mp hmem
    have hway : way ≠ [] := by
      rintro rfl
      simp [hdirectory] at hfile
    rw [FilePath.parts_ofString_joinNames (hfs.of_get?_way hfile hway).2]
    exact ⟨hway, hfile⟩
  · simp [NameMap.empty] at hf

theorem Compilation.exists_documents_of_ofDirectory (hc : ofDirectory w directory config = .ok c) :
    ∃ found, w.files.isDirectory w.cwd (.ofString directory) = .ok true ∧
      Discovery.documents w.files w.cwd (.ofString directory) config.included config.excluded =
        .ok found := by
  simp only [ofDirectory, bind_eq_ok, mapError_eq_ok] at hc
  obtain ⟨isDirectory, hdirectory, hc⟩ := hc
  cases isDirectory with
  | false => simp at hc
  | true =>
      simp only [if_true, mapError_eq_ok, bind_eq_ok] at hc
      obtain ⟨found, hfound, -⟩ := hc
      exact ⟨found, hdirectory, hfound⟩

/-- A registered endpoint is what its file compiles to. -/
theorem Compilation.exists_file_of_registered (hc : ofDirectory w directory config = .ok c)
    (he : c.registry.get? name = some e) : ∃ found path octets,
      Discovery.documents w.files w.cwd (.ofString directory) config.included config.excluded =
        .ok found ∧
      c.files.get? name = some path ∧ (path, octets) ∈ found.entries ∧
      compileFile path octets = .ok (.ok e) ∧ e.name = some name := by
  obtain ⟨found, hdirectory, hfound⟩ := exists_documents_of_ofDirectory hc
  obtain ⟨outcomes, hall, haccounts, -⟩ := hasOnePlace_of_ofDirectory hdirectory hfound hc
  obtain ⟨hname, path, hpath, hmem⟩ := (haccounts.endpoint name e).mp he
  obtain ⟨⟨path', octets⟩, hf, hpath', hcompile⟩ := exists_of_mem_forall₂ hall.flip hmem
  obtain rfl : path = path' := hpath'
  exact ⟨found, path, octets, hfound, hpath, hf, hcompile, hname⟩

theorem isEmittable_of_registered (hc : Compilation.ofDirectory w directory config = .ok c)
    (he : c.registry.get? name = some e) : IsEmittable name e := by
  obtain ⟨_, _, _, -, -, -, hcompile, hname⟩ := Compilation.exists_file_of_registered hc he
  exact isEmittable_of_compileFile hcompile hname

theorem FilePath.name_eq {p q : FilePath} (h : p.parts.getLast? = q.parts.getLast?) :
    p.name = q.name := by
  rw [name, name, h]

/-- A file that a path leads to is read as the document that it compiles as. -/
theorem Run.endpointOf_eq (hfs : w.files.WellFormed)
    (hcwd : w.files.get? w.cwd = some .directory) (hparts : (FilePath.ofString path).parts ≠ [])
    (hfile : w.files.get? (root ++ (FilePath.ofString path).parts) = some (.file octets))
    (hcompile : Compilation.compileFile path octets = .ok (.ok e))
    (hspec : w.files.locate w.cwd (.ofString specFile) =
      .ok (root ++ (FilePath.ofString path).parts)) : endpointOf w specFile = .ok e := by
  obtain ⟨document, d, hload, hassemble, rfl⟩ := compileFile_eq_ok hcompile
  have hname : (FilePath.ofString specFile).name = (FilePath.ofString path).name := by
    apply FilePath.name_eq
    rw [FileSystem.name_of_locate hfs hcwd hfile hspec, List.getLast?_append_of_ne_nil _ hparts]
  have hhint : Document.hintFor (.ofString specFile) = Document.hintFor (.ofString path) := by
    rw [Document.hintFor, Document.hintFor, FilePath.suffix, FilePath.suffix, hname]
  have hstem : endpointNameFor specFile = endpointNameFor path := by
    rw [endpointNameFor, endpointNameFor, FilePath.stem, FilePath.stem, hname]
  have hofFile : Document.ofFile w specFile = .ok document := by
    simp [Document.ofFile, World.octets?, FileSystem.octets?_of_locate hfile hspec, hhint, hload,
      bind, Except.bind]
  simp [endpointOf, hofFile, hassemble, hstem, bind, Except.bind, pure, Except.pure]

theorem Run.moduleOf_eq_of_endpointOf (h : endpointOf w specFile = .ok e) :
    moduleOf w specFile none = (Emission.moduleOf e).mapError RunError.defect := by
  have hmodule : moduleOf w specFile none =
      (emit (NameMap.empty.insert (e.name.getD "") e)).mapError RunError.defect >>= fun bindings =>
        (moduleText e bindings).mapError RunError.defect := by
    rw [moduleOf, h]
    rfl
  rw [hmodule, Emission.moduleOf]
  cases emit (NameMap.empty.insert (e.name.getD "") e) <;> rfl

/-- What a package has for an endpoint is shown for the file of the endpoint. A package is written
unless some endpoint has an integer for a default that is too long. -/
theorem Run.package_agrees_with_shown (hfs : w.files.WellFormed)
    (hcwd : w.files.get? w.cwd = some .directory)
    (hroot : w.files.locate w.cwd (.ofString directory) = .ok root)
    (hc : Compilation.ofDirectory w directory config = .ok c) :
    (∀ d, package c.registry = .error d ↔ d = .tooManyDigits ∧
      ∃ name e, c.registry.get? name = some e ∧ HasLongDefault e) ∧
    (∀ files, package c.registry = .ok files → (files.map (·.1)).Nodup) ∧
    ∀ name e, c.registry.get? name = some e → ∃ path, c.files.get? name = some path ∧
      ∀ specFile, w.files.locate w.cwd (.ofString specFile) =
          .ok (root ++ (FilePath.ofString path).parts) →
        moduleOf w specFile none = (Emission.moduleOf e).mapError RunError.defect ∧
        ∀ files, package c.registry = .ok files →
          ∃ m ∈ nameModules reservedModules c.registry.names, m.endpoint = name ∧
            ∃ text, (fileName m.name, text) ∈ files ∧
              showModule w specFile none = done w.files [] (.source text) := by
  have hemittable : ∀ name e, c.registry.get? name = some e → IsEmittable name e :=
    fun _ _ he => isEmittable_of_registered hc he
  refine ⟨fun d => package_eq_error_iff hemittable, fun files => fileNames_nodup,
    fun name e he => ?_⟩
  obtain ⟨found, path, octets, hfound, hpath, hf, hcompile, -⟩ :=
    Compilation.exists_file_of_registered hc he
  obtain ⟨hparts, hfile⟩ := Discovery.exists_way_of_mem_documents hfs hroot hfound hf
  refine ⟨path, hpath, fun specFile hspec => ?_⟩
  have hmodule := moduleOf_eq_of_endpointOf
    (endpointOf_eq hfs hcwd hparts hfile hcompile hspec)
  refine ⟨hmodule, fun files hfiles => ?_⟩
  obtain ⟨m, hm, hendpoint, text, hmem, htext⟩ := exists_module_of_package hemittable hfiles he
  refine ⟨m, hm, hendpoint, text, hmem, ?_⟩
  rw [showModule, hmodule, htext]
  rfl

/-- A directory with one document. -/
def pinging : World :=
  Compilation.filesOnly ⟨[("ping.json", Text.Utf8.encode Compilation.pingText.toList)], by decide⟩

theorem Run.package_agrees_with_shown_pinging :
    ∃ c, Compilation.ofDirectory pinging "." Compilation.jsonConfig = .ok c ∧
      ∃ (files : List (String × String)) (m : ModuleName) (text : String),
        package c.registry = .ok files ∧ m.endpoint = "ping" ∧
        (fileName m.name, text) ∈ files ∧
        showModule pinging "./ping.json" none = done pinging.files [] (.source text) := by
  have hfs : pinging.files.WellFormed := by
    refine ⟨by decide, ?_⟩
    intro e he
    obtain rfl := List.mem_singleton.mp he
    exact ⟨[], "ping.json", rfl, by decide, rfl⟩
  have hregistered : (match Compilation.ofDirectory pinging "." Compilation.jsonConfig with
      | .ok c => (c.registry.get? "ping").isSome && c.files.get? "ping" == some "ping.json" &&
        c.registry.values.all fun e => !(fieldsOf e).any Field.hasLongDefault
      | .error _ => false) = true := by decide +kernel
  cases hc : Compilation.ofDirectory pinging "." Compilation.jsonConfig with
  | error failure => simp [hc] at hregistered
  | ok c =>
      simp only [hc, Bool.and_eq_true, Option.isSome_iff_exists, beq_iff_eq, List.all_eq_true,
        Bool.not_eq_true'] at hregistered
      obtain ⟨⟨⟨e, he⟩, hfile⟩, hshort⟩ := hregistered
      have hroot : pinging.files.locate pinging.cwd (.ofString ".") = .ok [] := rfl
      obtain ⟨herror, -, hmodules⟩ := package_agrees_with_shown hfs rfl hroot hc
      obtain ⟨path, hpath, hshown⟩ := hmodules "ping" e he
      obtain rfl := Option.some.inj (hfile.symm.trans hpath)
      cases hfiles : package c.registry with
      | error d =>
          obtain ⟨-, name, e', he', hlong⟩ := (herror d).mp hfiles
          have hnone := hshort e' (NameMap.mem_values_iff.mpr ⟨name, he'⟩)
          rw [HasLongDefault, hnone] at hlong
          simp at hlong
      | ok files =>
          have hspec : pinging.files.locate pinging.cwd (.ofString "./ping.json") =
              .ok ([] ++ (FilePath.ofString "ping.json").parts) := by
            rw [FileSystem.locate_eq (by decide) (by decide)]
            decide +kernel
          obtain ⟨m, -, hm, text, hmem, htext⟩ := (hshown "./ping.json" hspec).2 files hfiles
          exact ⟨c, rfl, files, m, text, hfiles, hm, hmem, htext⟩

/-- A document with one parameter, of a type that is not known. -/
def tokenDocument (default : Value) : Fields :=
  [(.text "methods", .list [.text "GET"]),
   (.text "url", .mapping [(.text "path", .text "/"), (.text "params", .mapping [(.text "q",
    .mapping [(.text "type", .text "token"), (.text "default", default)])])])]

/-- The endpoint of such a document under a name. -/
def tokenEndpoint (name : String) (default : Option Default) : Endpoint :=
  { name := some name, documentation := none, verbs := [.get]
    paths := [⟨"/", [.literal "/"]⟩]
    params := [("q", ⟨.other "token", false, default, none⟩)], body := none }

/-- An integer that is too long keeps the package from being written, with the modules of all other
endpoints. -/
theorem package_beside_long_default :
    (∃ e, assemble (tokenDocument .null) = .ok e ∧ e.orNamed "a" = tokenEndpoint "a" none) ∧
    (∃ e, assemble (tokenDocument (.int (10 ^ 4300 : Nat))) = .ok e ∧
      e.orNamed "b" = tokenEndpoint "b" (some (.integer (10 ^ 4300 : Nat)))) ∧
    package ((NameMap.empty.insert "a" (tokenEndpoint "a" none)).insert "b"
      (tokenEndpoint "b" (some (.integer (10 ^ 4300 : Nat))))) = .error .tooManyDigits ∧
    ∃ text, Emission.moduleOf (tokenEndpoint "a" none) = .ok text := by
  have hemittable : ∀ name default, IsEmittable name (tokenEndpoint name default) := by
    intro name default
    exact ⟨rfl, by simp [tokenEndpoint], by simp [tokenEndpoint]⟩
  have hlong : HasLongDefault (tokenEndpoint "b" (some (.integer (10 ^ 4300 : Nat)))) := by
    rw [HasLongDefault]
    decide +kernel
  refine ⟨⟨_, rfl, rfl⟩, ⟨_, rfl, rfl⟩, ?_, ?_⟩
  · refine (package_eq_error_iff fun name e he => ?_).mpr ⟨rfl, "b", _, ?_, hlong⟩
    · rw [NameMap.get?_insert, NameMap.get?_insert] at he
      split at he
      · rename_i hname
        obtain rfl := Option.some.inj he
        exact hname ▸ hemittable _ _
      · split at he
        · rename_i hname
          obtain rfl := Option.some.inj he
          exact hname ▸ hemittable _ _
        · simp at he
    · rw [NameMap.get?_insert, if_pos rfl]
  · cases htext : Emission.moduleOf (tokenEndpoint "a" none) with
    | ok text => exact ⟨text, rfl⟩
    | error d =>
        obtain ⟨-, hshort⟩ := (moduleOf_eq_error_iff (hemittable _ _)).mp htext
        have hnone : ¬HasLongDefault (tokenEndpoint "a" none) := by
          rw [HasLongDefault]
          decide +kernel
        exact absurd hshort hnone

end Directory

end EndpointBindings
