import Mathlib.Data.List.Forall2
import EndpointBindings.Emission.Module
import EndpointBindings.Proofs.BindingOrder
import EndpointBindings.Proofs.RelatedLists

/-!
The modules of a package. A module is what its endpoint alone is emitted as; what else is in the
registry has a say in the name of its file only, and may keep the whole package from being written.
-/

namespace EndpointBindings.Emission

open EndpointBindings.Naming

/-- The module of an endpoint, with the bindings of all its verbs. -/
def moduleOf (e : Endpoint) : Except Defect String := do
  let bindings ← emit (NameMap.empty.insert (e.name.getD "") e)
  moduleText e bindings

/-- A parameter may be left out for an integer that is too long to be written. -/
def HasLongDefault (e : Endpoint) : Prop := (fieldsOf e).any Field.hasLongDefault = true

section Module

variable {name : String} {e : Endpoint} {bindings : List Binding} {d : Defect}

theorem emit_singleton (name : String) (e : Endpoint) :
    emit (NameMap.empty.insert name e) = bindingsOf e := by
  have hall : emit (NameMap.empty.insert name e) =
      (do return (← bindingsOf e) ++ (← emitAll [])) := rfl
  rw [hall]
  cases bindingsOf e with
  | error d => rfl
  | ok bindings => exact congrArg Except.ok (List.append_nil bindings)

theorem moduleOf_eq (h : IsEmittable name e) :
    moduleOf e = moduleText e ((Verb.canonical e.verbs).map (bindingOf name e)) := by
  rw [moduleOf, emit_singleton, bindingsOf_eq h]
  rfl

theorem moduleText_eq_error_iff (hname : e.name = some name) :
    moduleText e bindings = .error d ↔ d = .tooManyDigits ∧ HasLongDefault e := by
  rw [moduleText, bind_eq_error, paramsClass, hname, HasLongDefault]
  dsimp only
  split
  · rename_i hlong
    simp [hlong, eq_comm]
  · rename_i hlong
    simp [hlong, pure, Except.pure]

theorem moduleOf_eq_error_iff (h : IsEmittable name e) :
    moduleOf e = .error d ↔ d = .tooManyDigits ∧ HasLongDefault e := by
  rw [moduleOf_eq h, moduleText_eq_error_iff h.1]

end Module

theorem canonical_eq_of_mem_iff {verbs verbs' : List Verb} (h : ∀ v, v ∈ verbs ↔ v ∈ verbs') :
    Verb.canonical verbs = Verb.canonical verbs' :=
  List.filter_congr fun v _ => decide_eq_decide.mpr (h v)

theorem sortTypingNames_eq_of_mem_iff {l m : List String} (h : ∀ n, n ∈ l ↔ n ∈ m) :
    sortTypingNames l = sortTypingNames m :=
  List.filter_congr fun n _ => decide_eq_decide.mpr (h n)

section Names

variable {taken names : List String}

theorem nameModules_endpoints : (nameModules taken names).map (·.endpoint) = names := by
  rw [nameModules, map_nameInTurn_eq_map id fun _ _ => by rfl, List.map_id]

theorem endpoint_mem_of_mem_nameModules {m : ModuleName} (hm : m ∈ nameModules taken names) :
    m.endpoint ∈ names := by
  have hmem : m.endpoint ∈ (nameModules taken names).map (·.endpoint) := List.mem_map_of_mem hm
  rwa [nameModules_endpoints] at hmem

theorem exists_mem_nameModules {name : String} (hname : name ∈ names) :
    ∃ m ∈ nameModules taken names, m.endpoint = name := by
  have hmem : name ∈ (nameModules taken names).map (·.endpoint) := by rwa [nameModules_endpoints]
  exact List.mem_map.mp hmem

theorem nameModules_names : (nameModules taken names).map (·.name) =
    uniqueIdentifiers taken (names.map moduleName) := by
  rw [nameModules, map_nameInTurn, uniqueIdentifiers, nameInTurn_map]

theorem nameModules_names_nodup :
    ((nameModules taken names).map (·.name)).Nodup ∧
      ∀ m ∈ nameModules taken names, m.name ∉ taken := by
  have hnames := @uniqueIdentifiers_nodup taken (names.map moduleName)
  rw [← nameModules_names] at hnames
  exact ⟨hnames.1, fun m hm => hnames.2 _ (List.mem_map_of_mem hm)⟩

theorem fileName_injective : Function.Injective fileName := by
  intro a b h
  have hlist := congrArg String.toList h
  simp only [fileName, String.toList_append, List.append_cancel_right_eq] at hlist
  exact String.toList_inj.mp hlist

end Names

section Package

variable {r : Registry} {name : String} {e : Endpoint} {modules : List ModuleName}
  {files : List (String × String)} {d : Defect}

/-- The bindings under one name are those of its endpoint. -/
theorem bindingsFor_filter (he : r.get? name = some e) :
    (bindingsFor r).filter (·.endpoint == name) =
      (Verb.canonical e.verbs).map (bindingOf name e) := by
  have hother : ∀ entries : List (String × Endpoint), (∀ d ∈ entries, d.1 ≠ name) →
      (entries.flatMap fun d => (Verb.canonical d.2.verbs).map (bindingOf d.1 d.2)).filter
        (·.endpoint == name) = [] := by
    intro entries hentries
    apply List.filter_eq_nil_iff.mpr
    intro b hb
    obtain ⟨d, hd, hb⟩ := List.mem_flatMap.mp hb
    obtain ⟨verb, -, rfl⟩ := List.mem_map.mp hb
    simpa [bindingOf] using hentries d hd
  have hown : ((Verb.canonical e.verbs).map (bindingOf name e)).filter (·.endpoint == name) =
      (Verb.canonical e.verbs).map (bindingOf name e) := by
    apply List.filter_eq_self.mpr
    intro b hb
    obtain ⟨verb, -, rfl⟩ := List.mem_map.mp hb
    simp [bindingOf]
  have hmem := NameMap.mem_entries_iff.mpr he
  have hordered := r.ordered
  rw [bindingsFor]
  generalize r.entries = entries at hmem hordered
  obtain ⟨before, after, rfl⟩ := List.append_of_mem hmem
  obtain ⟨-, hafter, hbefore⟩ := List.pairwise_append.mp hordered
  rw [List.flatMap_append, List.flatMap_cons, List.filter_append, List.filter_append, hown,
    hother before, hother after, List.nil_append, List.append_nil]
  · rintro d hd rfl
    exact String.lt_irrefl _ ((List.pairwise_cons.mp hafter).1 d hd)
  · rintro d hd rfl
    exact String.lt_irrefl _ (hbefore d hd (d.1, e) List.mem_cons_self)

theorem moduleFiles_names {bindings : List Binding}
    (h : moduleFiles r bindings modules = .ok files) :
    (files.map (·.1)).Sublist (modules.map fun m => fileName m.name) := by
  induction modules generalizing files with
  | nil =>
      obtain rfl := Except.ok.inj h
      exact .slnil
  | cons m rest ih =>
      rw [moduleFiles] at h
      split at h
      · exact (ih h).cons _
      · obtain ⟨text, -, h⟩ := bind_eq_ok.mp h
        obtain ⟨more, hmore, h⟩ := bind_eq_ok.mp h
        obtain rfl := Except.ok.inj h
        exact (ih hmore).cons_cons _

theorem fileNames_sublist (hfiles : package r = .ok files) : (files.map (·.1)).Sublist
    ((transportModule :: (nameModules reservedModules r.names).map (·.name) ++
      ["__init__"]).map fileName) := by
  obtain ⟨bindings, -, hfiles⟩ := bind_eq_ok.mp hfiles
  obtain ⟨own, hown, hfiles⟩ := bind_eq_ok.mp hfiles
  obtain rfl := Except.ok.inj hfiles
  have hnames := moduleFiles_names hown
  simp only [List.map_append, List.map_cons, List.map_nil, List.map_map, List.cons_append]
  exact (hnames.append (List.Sublist.refl _)).cons_cons _

theorem fileNames_nodup (hfiles : package r = .ok files) : (files.map (·.1)).Nodup := by
  obtain ⟨hnodup, hreserved⟩ := @nameModules_names_nodup reservedModules r.names
  have hall : (transportModule :: (nameModules reservedModules r.names).map (·.name) ++
      ["__init__"]).Nodup := by
    simp only [reservedModules, List.mem_cons, List.not_mem_nil, or_false, not_or] at hreserved
    have htransport : transportModule ∉ (nameModules reservedModules r.names).map (·.name) := by
      intro hmem
      obtain ⟨m, hm, hname⟩ := List.mem_map.mp hmem
      exact (hreserved m hm).1 hname
    have hinit : "__init__" ∉ (nameModules reservedModules r.names).map (·.name) := by
      intro hmem
      obtain ⟨m, hm, hname⟩ := List.mem_map.mp hmem
      exact (hreserved m hm).2 hname
    have hdifferent : transportModule ≠ "__init__" := by decide
    rw [List.cons_append, List.nodup_cons, List.mem_append, List.mem_singleton]
    refine ⟨by simp [htransport, hdifferent], hnodup.append (List.nodup_singleton _) ?_⟩
    simpa using hinit
  exact (hall.map fileName_injective).sublist (fileNames_sublist hfiles)

variable (hr : ∀ name e, r.get? name = some e → IsEmittable name e)
include hr

theorem moduleFiles_eq_ok_iff (hmodules : ∀ m ∈ modules, m.endpoint ∈ r.names) :
    moduleFiles r (bindingsFor r) modules = .ok files ↔
      List.Forall₂ (fun m f => f.1 = fileName m.name ∧
        ∃ e, r.get? m.endpoint = some e ∧ moduleOf e = .ok f.2) modules files := by
  induction modules generalizing files with
  | nil => simp [moduleFiles, eq_comm]
  | cons m rest ih =>
      obtain ⟨e, he⟩ := NameMap.mem_names_iff.mp (hmodules m List.mem_cons_self)
      have hrest := fun files => @ih files fun m hm => hmodules m (List.mem_cons_of_mem _ hm)
      have hmodule := moduleOf_eq (hr _ _ he)
      rw [moduleFiles, he]
      dsimp only
      rw [bindingsFor_filter he, ← hmodule]
      simp only [bind_eq_ok, hrest, List.forall₂_cons_left_iff, pure, Except.pure,
        Except.ok.injEq]
      constructor
      · rintro ⟨text, htext, more, hmore, rfl⟩
        exact ⟨_, more, ⟨rfl, e, he, htext⟩, hmore, rfl⟩
      · rintro ⟨⟨file, text⟩, more, ⟨rfl, e', he', htext⟩, hmore, rfl⟩
        obtain rfl := Option.some.inj (he.symm.trans he')
        exact ⟨text, htext, more, hmore, rfl⟩

theorem moduleFiles_eq_error_iff (hmodules : ∀ m ∈ modules, m.endpoint ∈ r.names) :
    moduleFiles r (bindingsFor r) modules = .error d ↔ d = .tooManyDigits ∧
      ∃ m ∈ modules, ∃ e, r.get? m.endpoint = some e ∧ HasLongDefault e := by
  induction modules with
  | nil => simp [moduleFiles]
  | cons m rest ih =>
      obtain ⟨e, he⟩ := NameMap.mem_names_iff.mp (hmodules m List.mem_cons_self)
      have hrest := ih fun m hm => hmodules m (List.mem_cons_of_mem _ hm)
      have hmodule := moduleOf_eq (hr _ _ he)
      have hfirst : (∃ e', r.get? m.endpoint = some e' ∧ HasLongDefault e') ↔ HasLongDefault e := by
        simp [he]
      rw [moduleFiles, he]
      dsimp only
      rw [bindingsFor_filter he, ← hmodule, List.exists_mem_cons_iff, hfirst]
      simp only [bind_eq_error, hrest, moduleOf_eq_error_iff (hr _ _ he), pure, Except.pure,
        reduceCtorEq, and_false, exists_false, or_false]
      constructor
      · rintro (⟨hd, hlong⟩ | ⟨text, -, hd, hlong⟩)
        · exact ⟨hd, .inl hlong⟩
        · exact ⟨hd, .inr hlong⟩
      · rintro ⟨hd, hlong⟩
        cases htext : moduleOf e with
        | error d' => exact .inl ⟨hd, ((moduleOf_eq_error_iff (hr _ _ he)).mp htext).2⟩
        | ok text =>
            refine .inr ⟨text, rfl, hd, hlong.resolve_left fun hfirst => ?_⟩
            have herror := (moduleOf_eq_error_iff (hr _ _ he)).mpr ⟨hd, hfirst⟩
            simp [htext] at herror

theorem emit_eq : emit r = .ok (bindingsFor r) :=
  emitAll_eq fun d hd => hr d.1 d.2 (NameMap.mem_entries_iff.mp hd)

/-- A package is not written for an integer that is too long, and for nothing else. -/
theorem package_eq_error_iff : package r = .error d ↔
    d = .tooManyDigits ∧ ∃ name e, r.get? name = some e ∧ HasLongDefault e := by
  rw [package, emit_eq hr, bind_eq_error]
  have hmodules : ∀ m ∈ nameModules reservedModules r.names, m.endpoint ∈ r.names :=
    fun m hm => endpoint_mem_of_mem_nameModules hm
  have hfiles := moduleFiles_eq_error_iff (d := d) hr hmodules
  simp only [reduceCtorEq, false_or, Except.ok.injEq, exists_eq_left', bind_eq_error, hfiles, pure,
    Except.pure, and_false, exists_false, or_false]
  refine and_congr_right fun _ => ⟨?_, ?_⟩
  · rintro ⟨m, -, e, he, hlong⟩
    exact ⟨_, e, he, hlong⟩
  · rintro ⟨name, e, he, hlong⟩
    obtain ⟨m, hm, rfl⟩ := exists_mem_nameModules (NameMap.mem_names_iff.mpr ⟨e, he⟩)
    exact ⟨m, hm, e, he, hlong⟩

/-- The files of a package: the transport, a file for each module, and the list of the modules. -/
theorem package_eq_ok_iff : package r = .ok files ↔ ∃ own,
    files = (fileName transportModule, transportText) :: own ++
      [(fileName "__init__", packageInitText (nameModules reservedModules r.names))] ∧
    List.Forall₂ (fun m f => f.1 = fileName m.name ∧
      ∃ e, r.get? m.endpoint = some e ∧ moduleOf e = .ok f.2)
      (nameModules reservedModules r.names) own := by
  rw [package, emit_eq hr]
  simp only [bind_eq_ok, Except.ok.injEq, exists_eq_left', pure, Except.pure,
    moduleFiles_eq_ok_iff hr fun m hm => endpoint_mem_of_mem_nameModules hm]
  constructor
  · rintro ⟨own, hown, rfl⟩
    exact ⟨own, rfl, hown⟩
  · rintro ⟨own, rfl, hown⟩
    exact ⟨own, hown, rfl⟩

/-- Each endpoint has a file of its own, with the module that it is emitted as by itself. -/
theorem exists_module_of_package (hfiles : package r = .ok files) (he : r.get? name = some e) :
    ∃ m ∈ nameModules reservedModules r.names, m.endpoint = name ∧
      ∃ text, (fileName m.name, text) ∈ files ∧ moduleOf e = .ok text := by
  obtain ⟨own, rfl, hown⟩ := (package_eq_ok_iff hr).mp hfiles
  obtain ⟨m, hm, rfl⟩ := exists_mem_nameModules (NameMap.mem_names_iff.mpr ⟨e, he⟩)
  obtain ⟨⟨file, text⟩, hf, rfl, e', he', htext⟩ := exists_of_mem_forall₂ hown hm
  obtain rfl := Option.some.inj (he.symm.trans he')
  exact ⟨m, hm, rfl, text, by simp [hf], htext⟩

end Package

end EndpointBindings.Emission
