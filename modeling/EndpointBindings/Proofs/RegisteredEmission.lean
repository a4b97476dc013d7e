import EndpointBindings.Proofs.DefaultFits
import EndpointBindings.Proofs.ModuleOutline
import EndpointBindings.Proofs.SingleFile

/-!
Whatever a directory of JSON documents registers can be emitted: an endpoint that assembles has a
name, verbs and paths, and no integer of a JSON text is too long to be written. So a package has a
module for each endpoint, with a function for every verb and path and one class.
-/

namespace EndpointBindings

open Emission Naming Number

section Defaults

variable {type : ValueType} {v : Value} {i : Int} {expected : String}

theorem not_isLong_of_fitOther (hv : Json.Decoded v)
    (h : Default.fitOther expected v = .ok (.integer i)) : isLong i = false := by
  unfold Default.fitOther at h
  split at h
  · simp at h
  · obtain rfl := Default.integer.inj (Except.ok.inj h)
    cases hv with
    | int short => exact short
  · simp at h
  · simp at h
  · obtain ⟨texts, hlist, -⟩ := Assembly.fitList_eq_ok.mp h
    simp at hlist

/-- A default that is an integer has few digits, as all integers of JSON texts have. -/
theorem not_isLong_of_fit (hv : Json.Decoded v) (h : Default.fit type v = .ok (.integer i)) :
    isLong i = false := by
  cases hlong : isLong i with
  | false => rfl
  | true =>
      obtain ⟨name, rfl⟩ := (Default.fits_of_fit h).exists_other hlong
      exact hlong.symm.trans (not_isLong_of_fitOther hv h)

end Defaults

section Endpoints

variable {document declared : Fields} {v : Value} {e : Endpoint} {p : Param} {name : String} {i : Int}

theorem not_isLong_of_param (hv : Json.Decoded v) (h : Assembly.param name v = .ok p)
    (hdefault : p.default = some (.integer i)) : isLong i = false := by
  obtain ⟨declaration, hdeclaration, -, -, -, hvalue⟩ := Assembly.param_eq_ok.mp h
  rw [hv.unfold_eq] at hdeclaration
  subst hdeclaration
  rcases hvalue with ⟨-, hnone⟩ | ⟨-, d, hd, hfit⟩
  · simp [hnone] at hdefault
  · obtain rfl := Option.some.inj (hd.symm.trans hdefault)
    exact not_isLong_of_fit (hv.field "default") hfit

theorem not_isLong_of_assemble (hdocument : Json.Decoded (.mapping document))
    (h : assemble document = .ok e) :
    ∀ q ∈ e.params, ∀ i, q.2.default = some (.integer i) → isLong i = false := by
  obtain ⟨fields, url, parts, declared, hunwrap, he⟩ := Assembly.assemble_eq_ok.mp h
  have hfields := Assembly.decoded_of_unwrap hdocument hunwrap
  have hurl : Json.Decoded (.mapping url) := by
    have hvalue := hfields.field "url"
    rwa [← hvalue.unfold_eq, he.url_eq] at hvalue
  have hdeclared : Json.Decoded (.mapping declared) := by
    have hvalue := (hurl.field "params").orElse Json.Decoded.nil_mapping
    rwa [← hvalue.unfold_eq, he.declared_eq] at hvalue
  intro q hq i hi
  obtain ⟨entry, hentry, -, hparam⟩ :=
    exists_of_mem_forall₂ (Assembly.params_eq_ok.mp he.params_eq).flip hq
  exact not_isLong_of_param (hdeclared.of_mem_mapping hentry) hparam hi

theorem not_hasLongDefault
    (h : ∀ q ∈ e.params, ∀ i, q.2.default = some (.integer i) → isLong i = false) :
    ¬HasLongDefault e := by
  intro hlong
  obtain ⟨f, hf, hfield⟩ := List.any_eq_true.mp hlong
  have hmem : (f.wire, f.param) ∈ e.params :=
    NameMap.mem_of_mem_ofPairs (of_mem_nameFields (mem_fieldsOf_iff.mp hf))
  unfold Field.hasLongDefault at hfield
  split at hfield
  · rename_i i hi
    rw [h _ hmem i hi, Bool.and_false] at hfield
    exact Bool.false_ne_true hfield
  · exact Bool.false_ne_true hfield

theorem verbs_eq_canonical (h : assemble document = .ok e) : Verb.canonical e.verbs = e.verbs := by
  obtain ⟨fields, url, parts, declared, -, he⟩ := Assembly.assemble_eq_ok.mp h
  obtain ⟨listed, -, -, hverbs⟩ := Assembly.verbs_eq_ok.mp he.verbs_eq
  rw [hverbs]
  exact canonical_eq_of_mem_iff fun verb => Verb.mem_canonical

end Endpoints

section Directory

variable {w : World} {directory : String} {config : CompilerConfig} {c : Compilation}
  {found : NameMap (List UInt8)} {name : String} {e : Endpoint}

/-- A registered endpoint of a JSON document has all that its module needs. -/
structure IsReady (name : String) (e : Endpoint) : Prop where
  emittable : IsEmittable name e
  verbs : Verb.canonical e.verbs = e.verbs
  short : ¬HasLongDefault e

theorem isReady_of_registered
    (hfound : Discovery.documents w.files w.cwd (.ofString directory) config.included
      config.excluded = .ok found)
    (hjson : ∀ f ∈ found.entries, Compilation.IsJson f.1)
    (hc : Compilation.ofDirectory w directory config = .ok c)
    (he : c.registry.get? name = some e) : IsReady name e := by
  obtain ⟨others, path, octets, hothers, -, hf, hcompile, hname⟩ :=
    Compilation.exists_file_of_registered hc he
  obtain rfl := Except.ok.inj (hothers.symm.trans hfound)
  obtain ⟨document, d, hload, hassemble, rfl⟩ := compileFile_eq_ok hcompile
  rw [hjson _ hf] at hload
  have hverbs : Verb.canonical d.verbs = d.verbs := verbs_eq_canonical hassemble
  have hshort : ¬HasLongDefault d :=
    not_hasLongDefault (not_isLong_of_assemble (Document.decoded_load hload) hassemble)
  exact ⟨isEmittable_of_compileFile hcompile hname, hverbs, hshort⟩

theorem exists_package {r : Registry} (hr : ∀ name e, r.get? name = some e → IsReady name e) :
    ∃ files, package r = .ok files := by
  have hemittable : ∀ name e, r.get? name = some e → IsEmittable name e :=
    fun name e he => (hr name e he).emittable
  cases hpackage : package r with
  | ok files => exact ⟨files, rfl⟩
  | error d =>
      obtain ⟨-, name, e, he, hlong⟩ := (package_eq_error_iff hemittable).mp hpackage
      exact absurd hlong (hr name e he).short

theorem length_functionsFor (h : IsReady name e) :
    (functionsFor name e).length = e.verbs.length * e.paths.length := by
  have hpaths : ∀ verb, (functionsOf e (className name) verb [] e.paths).length =
      e.paths.length := by
    intro verb
    rw [← List.length_map (·.path), functionsOf_paths]
  rw [functionsFor, List.length_flatMap, h.verbs]
  simp [hpaths]

/-- What a directory of JSON documents registers is emitted without a defect. Each endpoint has a
module of its own, with a function for every verb and path, of which there are some, and one
class. -/
theorem package_of_registered
    (hfound : Discovery.documents w.files w.cwd (.ofString directory) config.included
      config.excluded = .ok found)
    (hjson : ∀ f ∈ found.entries, Compilation.IsJson f.1)
    (hc : Compilation.ofDirectory w directory config = .ok c) :
    ∃ files, package c.registry = .ok files ∧
      ∀ name e, c.registry.get? name = some e →
        ∃ m ∈ nameModules reservedModules c.registry.names, m.endpoint = name ∧
          ∃ text, (fileName m.name, text) ∈ files ∧
            (linesFrom "def " text).length = e.verbs.length * e.paths.length ∧
            1 ≤ e.verbs.length * e.paths.length ∧
            linesFrom "class " text = ["class " ++ className name ++ ":"] := by
  have hready : ∀ name e, c.registry.get? name = some e → IsReady name e :=
    fun name e he => isReady_of_registered hfound hjson hc he
  have hemittable : ∀ name e, c.registry.get? name = some e → IsEmittable name e :=
    fun name e he => (hready name e he).emittable
  obtain ⟨files, hfiles⟩ := exists_package hready
  refine ⟨files, hfiles, fun name e he => ?_⟩
  obtain ⟨m, hm, hendpoint, text, hmem, htext⟩ := exists_module_of_package hemittable hfiles he
  obtain ⟨hfunctions, hclass⟩ := linesFrom_moduleOf (hemittable name e he) htext
  obtain ⟨-, hverbs, hpaths⟩ := hemittable name e he
  refine ⟨m, hm, hendpoint, text, hmem, ?_, ?_, hclass⟩
  · rw [hfunctions, List.length_map, length_functionsFor (hready name e he)]
  · exact Nat.mul_pos (List.length_pos_iff.mpr hverbs) (List.length_pos_iff.mpr hpaths)

/-- The document of an endpoint with two verbs and two paths. -/
def searchText : String :=
  "\x7b\"methods\":[\"GET\",\"POST\"]," ++
    "\"url\":\x7b\"paths\":[\"/_search\",\"/\x7bindex\x7d/_search\"]," ++
    "\"parts\":\x7b\"index\":\x7b\"type\":\"list\"\x7d\x7d\x7d\x7d"

/-- The root of a file system with that document alone. -/
def searching : World :=
  Compilation.filesOnly ⟨[("search.json", Text.Utf8.encode searchText.toList)], by simp⟩

theorem package_of_registered_search :
    ∃ c files text, Compilation.ofDirectory searching "." Compilation.jsonConfig = .ok c ∧
      package c.registry = .ok files ∧
      (fileName "search", text) ∈ files ∧ (linesFrom "def " text).length = 4 ∧
      linesFrom "class " text = ["class SearchParams:"] := by
  have hpaths : (match Discovery.documents searching.files searching.cwd (.ofString ".")
        Compilation.jsonConfig.included Compilation.jsonConfig.excluded with
      | .ok found => found.names == ["search.json"]
      | .error _ => false) = true := by decide +kernel
  have hregistered : (match Compilation.ofDirectory searching "." Compilation.jsonConfig with
      | .ok c => c.registry.names == ["search"] &&
        c.registry.values.all fun e => e.verbs.length == 2 && e.paths.length == 2
      | .error _ => false) = true := by decide +kernel
  cases hc : Compilation.ofDirectory searching "." Compilation.jsonConfig with
  | error failure => simp [hc] at hregistered
  | ok c =>
      simp only [hc, Bool.and_eq_true, beq_iff_eq, List.all_eq_true] at hregistered
      obtain ⟨hnames, hlengths⟩ := hregistered
      obtain ⟨found, -, hfound⟩ := Compilation.exists_documents_of_ofDirectory hc
      rw [hfound] at hpaths
      have hjson : ∀ f ∈ found.entries, Compilation.IsJson f.1 := by
        intro f hf
        have hmem : f.1 ∈ found.names := List.mem_map_of_mem hf
        rw [beq_iff_eq.mp hpaths, List.mem_singleton] at hmem
        rw [hmem]
        decide
      obtain ⟨e, he⟩ := NameMap.mem_names_iff.mp (hnames ▸ List.mem_singleton_self "search")
      obtain ⟨files, hfiles, hmodules⟩ := package_of_registered hfound hjson hc
      obtain ⟨m, hm, hendpoint, text, hmem, hfunctions, -, hclass⟩ := hmodules "search" e he
      obtain ⟨hverbs, hpaths⟩ := hlengths e (NameMap.mem_values_iff.mpr ⟨"search", he⟩)
      rw [hverbs, hpaths] at hfunctions
      have hname : m.name = "search" := by
        rw [hnames] at hm
        obtain rfl := List.mem_singleton.mp hm
        decide +kernel
      rw [hname] at hmem
      have hcls : className "search" = "SearchParams" := by decide +kernel
      rw [hcls] at hclass
      exact ⟨c, files, text, rfl, hfiles, hmem, hfunctions, hclass⟩

end Directory

end EndpointBindings
