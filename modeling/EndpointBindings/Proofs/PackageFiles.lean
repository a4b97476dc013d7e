import EndpointBindings.Proofs.Identifiers
import EndpointBindings.Proofs.LiteralMeaning
import EndpointBindings.Proofs.PackageWriting
import EndpointBindings.Proofs.SingleFile
import EndpointBindings.Proofs.SourceLines

/-!
The files of a package by their names. Whatever endpoints are called, each has a module of its own
whose name is an identifier in lower case, and the list of the modules has these names, in the order
of the endpoints.
-/

namespace EndpointBindings.Emission

open EndpointBindings.Naming EndpointBindings.Text

/-- The modules that the list of a package imports. -/
def importedModules (source : String) : List String :=
  (linesBetween "from . import (" ")" (sourceLines source)).map (listedItem "    ")

/-- What the names stand for that the list of a package exports. -/
def exportedNames (named : String → Option Nat) (source : String) : List (Option Meaning) :=
  (linesBetween "__all__ = [" "]" (sourceLines source)).map fun line =>
    evaluate? named (listedItem "    " line)

section Literals

variable {named : String → Option Nat} {c : Char} {name : String}

theorem writeChar_of_isNameChar (h : IsNameChar c) :
    Escaped.writeChar Escaped.isAsciiShown c = [c] := by
  obtain ⟨hlow, hhigh⟩ := toNat_of_isNameChar h
  obtain ⟨hquote, hslash⟩ := plain_of_isNameChar h
  have hshort : Escaped.shortEscape? c = none := by
    unfold Escaped.shortEscape?
    rw [if_neg hquote, if_neg hslash, if_neg, if_neg, if_neg, if_neg, if_neg] <;>
      (rintro rfl; exact absurd hlow (by decide))
  have hshown : Escaped.isAsciiShown c = true := by
    simp only [Escaped.isAsciiShown, Bool.and_eq_true, decide_eq_true_eq]
    omega
  rw [Escaped.writeChar, hshort]
  exact if_pos hshown

/-- A name stands in a literal as it is. -/
theorem ascii_of_isNameText (h : IsNameText name) : Escaped.ascii name = "\"" ++ name ++ "\"" := by
  have hwritten : name.toList.flatMap (Escaped.writeChar Escaped.isAsciiShown) = name.toList := by
    rw [List.flatMap_congr fun c hc => writeChar_of_isNameChar (h c hc), List.flatMap_singleton']
  rw [Escaped.ascii, Escaped.write, hwritten]
  apply String.toList_inj.mp
  simp

theorem inFirstPlane_of_isNameText (h : IsNameText name) : InFirstPlane name := by
  intro c hc
  have hhigh := (toNat_of_isNameChar (h c hc)).2
  omega

theorem evaluate?_name (h : IsNameText name) :
    evaluate? named ("\"" ++ name ++ "\"") = some (.text (points name)) := by
  rw [← ascii_of_isNameText h, evaluate?_ascii,
    units_eq_points_iff.mpr (inFirstPlane_of_isNameText h)]

end Literals

section Lists

variable {named : String → Option Nat} {modules : List ModuleName} {l : String} {c : Char}

/-- The lines of the list of modules up to the imports of the modules. -/
def initHead (modules : List ModuleName) : List String :=
  ["\"\"\"Client bindings generated by " ++ generator ++ ". Do not edit."] ++
    (if modules.isEmpty then []
      else ["", "Endpoints:"] ++ modules.map fun m =>
        "    " ++ m.name ++ ": \x60\x60" ++ docstringText m.endpoint ++ "\x60\x60") ++
    ["\"\"\"", "", "from ._transport import Transport"]

/-- The lines of the imports. -/
def initImports (modules : List ModuleName) : List String :=
  if modules.isEmpty then []
  else "from . import (" :: (modules.map (fun m => "    " ++ m.name ++ ",") ++ [")"])

/-- The lines of the names that the package exports. -/
def initExports (modules : List ModuleName) : List String :=
  "    \"Transport\"," :: modules.map fun m => "    \"" ++ m.name ++ "\","

theorem packageInitText_eq : packageInitText modules = endLines (initHead modules ++
    initImports modules ++ "" :: "__all__ = [" :: (initExports modules ++ ["]"])) := by
  have himports : initImports modules = if modules.isEmpty then []
      else ["from . import ("] ++ modules.map (fun m => "    " ++ m.name ++ ",") ++ [")"] := rfl
  rw [packageInitText, himports, initHead, initExports]
  simp only [List.append_assoc, List.cons_append, List.nil_append]

theorem indented_ne (hl : l.toList.head? ≠ some ' ') (text : String) : "    " ++ text ≠ l := by
  rintro rfl
  simp at hl

theorem notMem_map_indented {text : ModuleName → String} (hl : l.toList.head? ≠ some ' ') :
    l ∉ modules.map fun m => "    " ++ text m := by
  intro hmem
  obtain ⟨m, -, hm⟩ := List.mem_map.mp hmem
  exact indented_ne hl _ hm

/-- The head of the list holds no line that opens another part of it. -/
theorem notMem_initHead (hl : l.toList.head? ≠ some ' ')
    (hfixed : l ∉ ["\"\"\"Client bindings generated by " ++ generator ++ ". Do not edit.", "",
      "Endpoints:", "\"\"\"", "", "from ._transport import Transport"]) :
    l ∉ initHead modules := by
  have hmodules : l ∉ modules.map fun m =>
      "    " ++ m.name ++ ": \x60\x60" ++ docstringText m.endpoint ++ "\x60\x60" := by
    simp only [String.append_assoc]
    exact notMem_map_indented hl
  unfold initHead
  split
  · simp_all
  · simp_all

theorem isShown_moduleNames {opening closing : String} (h : ∀ m ∈ modules, IsNameText m.name)
    (hopening : IsShown opening) (hclosing : IsShown closing) :
    ∀ l ∈ modules.map (fun m => opening ++ m.name ++ closing), IsShown l := by
  intro l hl
  obtain ⟨m, hm, rfl⟩ := List.mem_map.mp hl
  exact (hopening.append (h m hm).isShown).append hclosing

theorem isShown_initImports (h : ∀ m ∈ modules, IsNameText m.name) :
    ∀ l ∈ initImports modules, IsShown l := by
  unfold initImports
  split
  · simp
  · rw [List.forall_mem_cons, List.forall_mem_append]
    exact ⟨by decide, isShown_moduleNames h (by decide) (by decide), by decide⟩

theorem isShown_initExports (h : ∀ m ∈ modules, IsNameText m.name) :
    ∀ l ∈ initExports modules, IsShown l :=
  List.forall_mem_cons.mpr ⟨by decide, isShown_moduleNames h (by decide) (by decide)⟩

/-- Only the names of the endpoints bring other characters into the list. -/
theorem occurs_initHead (h : ∀ m ∈ modules, IsNameText m.name)
    (hc : Escaped.isAsciiShown c = false) :
    Occurs c (initHead modules) ↔ Occurs c ((modules.map (·.endpoint)).map docstringText) := by
  have hcode : ∀ {lines : List String}, (∀ l ∈ lines, IsShown l) → ¬Occurs c lines :=
    fun hlines => not_occurs_of_isShown hlines hc
  have hmodules : Occurs c (modules.map fun m =>
      "    " ++ m.name ++ ": \x60\x60" ++ docstringText m.endpoint ++ "\x60\x60") ↔
      Occurs c ((modules.map (·.endpoint)).map docstringText) := by
    simp only [Occurs, List.mem_map, exists_exists_and_eq_and]
    apply exists_congr
    intro m
    apply and_congr_right
    intro hm
    have hlabel : IsShown ("    " ++ m.name ++ ": \x60\x60") :=
      ((by decide : IsShown "    ").append (h m hm).isShown).append (by decide)
    rw [(by decide : IsShown "\x60\x60").mem_append_iff_left hc, hlabel.mem_append_iff hc]
  rw [initHead, occurs_append, occurs_append, or_iff_left (hcode (by decide)),
    or_iff_right (hcode (by decide))]
  split
  · rename_i hnone
    rw [List.isEmpty_iff.mp hnone]
    rfl
  · rw [occurs_append, or_iff_right (hcode (by decide)), hmodules]

theorem isLine_initHead (h : ∀ m ∈ modules, IsNameText m.name) :
    ∀ l ∈ initHead modules, IsLine l := by
  intro l hl hmem
  obtain ⟨doc, hdoc, hmem⟩ := (occurs_initHead h (by decide)).mp ⟨l, hl, hmem⟩
  obtain ⟨name, -, rfl⟩ := List.mem_map.mp hdoc
  exact isLine_docstringText name hmem

theorem sourceLines_packageInitText (h : ∀ m ∈ modules, IsNameText m.name) :
    sourceLines (packageInitText modules) = initHead modules ++ initImports modules ++
      "" :: "__all__ = [" :: (initExports modules ++ ["]", ""]) := by
  have himports : ∀ l ∈ initImports modules, IsLine l := fun l hl =>
    (isShown_initImports h l hl).isLine
  have hexports : ∀ l ∈ initExports modules, IsLine l := fun l hl =>
    (isShown_initExports h l hl).isLine
  rw [packageInitText_eq, sourceLines_endLines_of_isLine]
  · simp only [List.append_assoc, List.cons_append, List.nil_append]
  · simp only [List.forall_mem_append, List.forall_mem_cons]
    exact ⟨⟨isLine_initHead h, himports⟩, by decide, by decide, hexports, by decide, by simp⟩

theorem importedModules_packageInitText (h : ∀ m ∈ modules, IsNameText m.name) :
    importedModules (packageInitText modules) = modules.map (·.name) := by
  rw [importedModules, sourceLines_packageInitText h]
  cases hmodules : modules with
  | nil =>
      -- Without modules only the transport is imported, on a line of its own.
      rw [linesBetween_eq_nil (by decide)]
      rfl
  | cons m rest =>
      have hhead : "from . import (" ∉ initHead (m :: rest) :=
        notMem_initHead (by decide) (by decide)
      have hitems : ")" ∉ (m :: rest).map fun m => "    " ++ (m.name ++ ",") :=
        notMem_map_indented (by decide)
      have hlines : initHead (m :: rest) ++ initImports (m :: rest) ++
          "" :: "__all__ = [" :: (initExports (m :: rest) ++ ["]", ""]) =
          initHead (m :: rest) ++ "from . import (" ::
            ((m :: rest).map (fun m => "    " ++ (m.name ++ ",")) ++ ")" ::
              "" :: "__all__ = [" :: (initExports (m :: rest) ++ ["]", ""])) := by
        simp [initImports, String.append_assoc]
      rw [hlines, linesBetween_eq hhead hitems, List.map_map]
      apply List.map_congr_left
      intro m _
      rw [Function.comp_apply, ← String.append_assoc]
      exact listedItem_eq "    " m.name

theorem initExports_eq : initExports modules = ("Transport" :: modules.map (·.name)).map
    fun name => "    " ++ ("\"" ++ name ++ "\"" ++ ",") := by
  have hline : ∀ name : String, "    \"" ++ name ++ "\"," =
      "    " ++ ("\"" ++ name ++ "\"" ++ ",") := by
    intro name
    have hopening : "    \"" = "    " ++ "\"" := by decide
    have hclosing : "\"," = "\"" ++ "," := by decide
    simp only [hopening, hclosing, String.append_assoc]
  have htransport : "    \"Transport\"," = "    \"" ++ "Transport" ++ "\"," := by decide
  rw [initExports, htransport, List.map_cons, List.map_map]
  simp only [hline]
  rfl

theorem exportedNames_packageInitText (h : ∀ m ∈ modules, IsNameText m.name) :
    exportedNames named (packageInitText modules) =
      ("Transport" :: modules.map (·.name)).map fun name => some (.text (points name)) := by
  have himports : "__all__ = [" ∉ initImports modules := by
    unfold initImports
    split
    · simp
    · have hitems : "__all__ = [" ∉ modules.map fun m => "    " ++ (m.name ++ ",") :=
        notMem_map_indented (by decide)
      simp only [← String.append_assoc] at hitems
      simp [hitems]
  have hhead : "__all__ = [" ∉ initHead modules ++ initImports modules ++ [""] := by
    simp only [List.mem_append, not_or]
    exact ⟨⟨notMem_initHead (by decide) (by decide), himports⟩, by decide⟩
  have hitems : "]" ∉ initExports modules := by
    rw [initExports_eq]
    intro hmem
    obtain ⟨name, -, hname⟩ := List.mem_map.mp hmem
    exact indented_ne (by decide) _ hname
  have hlines : initHead modules ++ initImports modules ++
      "" :: "__all__ = [" :: (initExports modules ++ ["]", ""]) =
      initHead modules ++ initImports modules ++ [""] ++ "__all__ = [" ::
        (initExports modules ++ "]" :: [""]) := by
    simp
  rw [exportedNames, sourceLines_packageInitText h, hlines, linesBetween_eq hhead hitems,
    initExports_eq, List.map_map]
  apply List.map_congr_left
  intro name hname
  rw [Function.comp_apply, ← String.append_assoc, listedItem_eq]
  apply evaluate?_name
  rcases List.mem_cons.mp hname with rfl | hname
  · simp [IsNameText, IsNameChar]
  · obtain ⟨m, hm, rfl⟩ := List.mem_map.mp hname
    exact h m hm

end Lists

section Packages

variable {r : Registry} {files : List (String × String)} {m : ModuleName}

/-- The files of a package for the endpoints of a registry: one module for each endpoint, in order,
and the list of the modules has their names. -/
structure Packages (named : String → Option Nat) (r : Registry) (files : List (String × String))
    (modules : List String) : Prop where
  names : files.map (·.1) = "_transport.py" :: modules.map (· ++ ".py") ++ ["__init__.py"]
  distinct : (files.map (·.1)).Nodup
  identifiers : ∀ m ∈ modules, IsLowerIdentifier m ∧ m ≠ "_transport" ∧ m ≠ "__init__"
  endpoints : List.Forall₂ (fun name m => ∃ e text, r.get? name = some e ∧
    moduleOf e = .ok text ∧ (m ++ ".py", text) ∈ files) r.names modules
  listed : ∃ init, ("__init__.py", init) ∈ files ∧ importedModules init = modules ∧
    exportedNames named init =
      ("Transport" :: modules).map fun name => some (.text (points name))

theorem isLowerIdentifier_of_mem_nameModules {taken names : List String}
    (hm : m ∈ nameModules taken names) : IsLowerIdentifier m.name := by
  obtain ⟨endpoint, -, before, -, rfl⟩ := exists_of_mem_nameInTurn hm
  exact (isLowerIdentifier_identifier endpoint).uniqueIdentifier

theorem packages_of_package (named : String → Option Nat)
    (hr : ∀ name e, r.get? name = some e → IsEmittable name e) (hfiles : package r = .ok files) :
    Packages named r files ((nameModules reservedModules r.names).map (·.name)) := by
  have hdistinct := fileNames_nodup hfiles
  have hendpoints := @nameModules_endpoints reservedModules r.names
  obtain ⟨-, hreserved⟩ := @nameModules_names_nodup reservedModules r.names
  have hidentifier : ∀ m ∈ nameModules reservedModules r.names, IsLowerIdentifier m.name :=
    fun m hm => isLowerIdentifier_of_mem_nameModules hm
  have hplain : ∀ m ∈ nameModules reservedModules r.names, IsNameText m.name :=
    fun m hm => (hidentifier m hm).isIdentifier.chars
  obtain ⟨own, hown, hmodules⟩ := (package_eq_ok_iff hr).mp hfiles
  have hlisted : (fileName "__init__", packageInitText (nameModules reservedModules r.names)) ∈
      files := by
    simp [hown]
  -- From here on it does not matter how the names were chosen.
  generalize nameModules reservedModules r.names = modules at *
  have hnames : own.map (·.1) = (modules.map (·.name)).map fileName := by
    rw [List.map_map]
    exact (map_eq_of_forall₂ hmodules fun _ _ h => h.1.symm).symm
  refine ⟨?_, hdistinct, ?_, ?_, _, hlisted, importedModules_packageInitText hplain,
    exportedNames_packageInitText hplain⟩
  · rw [hown, List.map_append, List.map_cons, hnames]
    rfl
  · intro name hname
    obtain ⟨m, hm, rfl⟩ := List.mem_map.mp hname
    have hfree := hreserved m hm
    simp only [reservedModules, List.mem_cons, List.not_mem_nil, or_false, not_or] at hfree
    exact ⟨hidentifier m hm, hfree⟩
  · rw [← hendpoints, List.forall₂_map_left_iff, List.forall₂_map_right_iff, List.forall₂_same]
    intro m hm
    obtain ⟨⟨file, text⟩, hf, rfl, e, he, htext⟩ := exists_of_mem_forall₂ hmodules hm
    refine ⟨e, text, he, htext, ?_⟩
    rw [hown]
    exact List.mem_append_left _ (List.mem_cons_of_mem _ hf)

/-- A registry has its package unless an optional parameter has an integer too long to be written as
its default. The names of its files are those of modules that differ, whatever endpoints are called,
so each is the name of a file right in the directory that the package is written to, where no file
of another name changes. -/
theorem package_names_modules (named : String → Option Nat)
    (hr : ∀ name e, r.get? name = some e → IsEmittable name e) :
    ((∃ name e, r.get? name = some e ∧ HasLongDefault e) → package r = .error .tooManyDigits) ∧
      ((¬∃ name e, r.get? name = some e ∧ HasLongDefault e) →
        ∃ files modules, package r = .ok files ∧ Packages named r files modules ∧
          (∀ f ∈ files, ∀ out : FilePath, out.child f.1 = ⟨out.root, out.parts ++ [f.1]⟩) ∧
          ∀ cwd out fs fs' written, fs.IsTree →
            publish (fun _ => FileSystem.noFault) r cwd out fs = (fs', .ok written) →
            ∃ l, fs'.locate cwd out = .ok l ∧ ∀ m octets, (∀ f ∈ files, m ≠ l ++ [f.1]) →
              (fs'.get? m = some (.file octets) ↔ fs.get? m = some (.file octets))) := by
  refine ⟨fun hlong => (package_eq_error_iff hr).mpr ⟨rfl, hlong⟩, fun hshort => ?_⟩
  cases hfiles : package r with
  | error d => exact absurd ((package_eq_error_iff hr).mp hfiles).2 hshort
  | ok files =>
      refine ⟨files, _, rfl, packages_of_package named hr hfiles, fun f hf out => ?_, ?_⟩
      · exact FilePath.child_eq (isEntryName_of_package hfiles f hf)
      · intro cwd out fs fs' written htree hpublish
        obtain ⟨files', l, hfiles', hpublishes⟩ := publishes_of_publish htree hpublish
        obtain rfl := Except.ok.inj (hfiles.symm.trans hfiles')
        exact ⟨l, hpublishes.located, hpublishes.untouched⟩

/-- Endpoints alike under the given names, each with one parameter of a type that is not known. -/
def tokenRegistry (default : Option Default) (names : List String) : Registry :=
  NameMap.ofPairs (names.map fun name => (name, tokenEndpoint name default))

theorem eq_of_get?_tokenRegistry {default : Option Default} {names : List String} {name : String}
    {e : Endpoint} (h : (tokenRegistry default names).get? name = some e) :
    e = tokenEndpoint name default := by
  have hmem := NameMap.mem_of_mem_ofPairs (NameMap.mem_entries_iff.mpr h)
  obtain ⟨other, -, hother⟩ := List.mem_map.mp hmem
  obtain ⟨rfl, rfl⟩ := Prod.mk.inj hother
  rfl

theorem isEmittable_of_get?_tokenRegistry {default : Option Default} {names : List String} :
    ∀ name e, (tokenRegistry default names).get? name = some e → IsEmittable name e := by
  intro name e he
  rw [eq_of_get?_tokenRegistry he]
  exact ⟨rfl, by simp [tokenEndpoint], by simp [tokenEndpoint]⟩

/-- Names that lead out of a directory, are empty or differ by their signs only. -/
def oddNames : List String := ["../x", "", "a.b", "a_b", "é", "_transport"]

theorem package_names_modules_odd :
    ∃ files modules,
      package (tokenRegistry none oddNames) = .ok files ∧
        Packages (fun _ => none) (tokenRegistry none oddNames) files modules := by
  have hshort : ¬∃ name e, (tokenRegistry none oddNames).get? name = some e ∧
      HasLongDefault e := by
    rintro ⟨name, e, he, hlong⟩
    have hfields : fieldsOf (tokenEndpoint name none) = fieldsOf (tokenEndpoint "" none) := rfl
    rw [eq_of_get?_tokenRegistry he, HasLongDefault, hfields] at hlong
    exact absurd hlong (by decide +kernel)
  obtain ⟨files, modules, hfiles, hpackages, -⟩ :=
    (package_names_modules (fun _ => none) isEmittable_of_get?_tokenRegistry).2 hshort
  exact ⟨files, modules, hfiles, hpackages⟩

/-- An integer too long to be written is the default of a document all the same, and its registry
has no package. -/
theorem package_without_files :
    (∃ e, assemble (tokenDocument (.int (10 ^ 4300 : Nat))) = .ok e ∧
      e.orNamed "b" = tokenEndpoint "b" (some (.integer (10 ^ 4300 : Nat)))) ∧
    ∀ files, package (tokenRegistry (some (.integer (10 ^ 4300 : Nat))) ["b"]) ≠ .ok files := by
  refine ⟨⟨_, rfl, rfl⟩, fun files hfiles => ?_⟩
  have hlong : HasLongDefault (tokenEndpoint "b" (some (.integer (10 ^ 4300 : Nat)))) := by
    rw [HasLongDefault]
    decide +kernel
  have hbound : ∀ default, (tokenRegistry default ["b"]).get? "b" =
      some (tokenEndpoint "b" default) := fun default => NameMap.get?_insert "b" "b" _ .empty
  have herror := (package_eq_error_iff isEmittable_of_get?_tokenRegistry).mpr
    ⟨rfl, "b", _, hbound _, hlong⟩
  exact absurd (hfiles.symm.trans herror) (by simp)

end Packages

end EndpointBindings.Emission
