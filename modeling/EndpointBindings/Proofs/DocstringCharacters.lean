import EndpointBindings.Proofs.DefaultTyping
import EndpointBindings.Proofs.PackageFiles
import EndpointBindings.Proofs.TransportCall

/-!
What a package has besides blanks and printable characters of ASCII: the characters of the texts
that stand in its docstrings, which may be any. Texts in literals are escaped and those in names are
left out, so a package is free of NUL where no text of a docstring has it, and only there.
-/

namespace EndpointBindings

open Emission Naming Text

/-- The texts of an endpoint that stand in docstrings of its module. -/
def Endpoint.docTexts (e : Endpoint) : List String :=
  e.name.toList ++ e.documentation.toList ++
    (NameMap.ofPairs e.params).values.filterMap (·.description) ++
    e.paths.map (·.raw) ++ e.parts.filterMap (·.description) ++
    (if e.verbs.any (acceptsBody · e.body) then (e.body.bind (·.description)).toList else [])

namespace Emission

/-- Neither a blank nor a printable character of ASCII. -/
structure IsForeign (c : Char) : Prop where
  shown : Escaped.isAsciiShown c = false
  blank : isBlank c = false

instance (c : Char) : Decidable (IsForeign c) :=
  decidable_of_iff (Escaped.isAsciiShown c = false ∧ isBlank c = false)
    ⟨fun h => ⟨h.1, h.2⟩, fun h => ⟨h.shown, h.blank⟩⟩

section Foreign

variable {c : Char} {texts : List String} {text : String}

theorem IsForeign.ne_newline (hc : IsForeign c) : c ≠ '\n' := by
  rintro rfl
  exact absurd hc (by decide)

theorem IsForeign.mem_docstringText_iff (hc : IsForeign c) :
    c ∈ (docstringText text).toList ↔ c ∈ text.toList := by
  rw [Emission.mem_docstringText_iff hc.shown, and_iff_left hc.blank]

theorem IsForeign.occurs_docstrings (hc : IsForeign c) :
    Occurs c (texts.map docstringText) ↔ Occurs c texts := by
  simp only [Occurs, List.mem_map, exists_exists_and_eq_and, hc.mem_docstringText_iff]

end Foreign

section Functions

variable {c : Char} {e : Endpoint} {name cls : String} {verb : Verb} {taken : List String}
  {path : PathTemplate} {paths : List PathTemplate} {f : Function} {b : Binding}

theorem IsForeign.mem_render_iff (hc : IsForeign c) (h : f.IsNamed) :
    c ∈ f.render.toList ↔ Occurs c f.docTexts := by
  have hlines : c ∈ f.render.toList ↔ Occurs c f.lines :=
    mem_toList_intercalate (by simpa using hc.ne_newline)
  rw [hlines, occurs_functionLines h hc.shown, hc.occurs_docstrings]

theorem IsForeign.mem_body_iff (hc : IsForeign c) (h : ∀ f ∈ b.functions, f.IsNamed) :
    c ∈ b.body.toList ↔ Occurs c (b.functions.flatMap Function.docTexts) := by
  rw [Binding.body, mem_toList_intercalate (by simpa using hc.ne_newline), occurs_flatMap]
  simp only [Occurs, List.mem_map, exists_exists_and_eq_and]
  exact exists_congr fun f => and_congr_right fun hf => hc.mem_render_iff (h f hf)

/-- The texts that a verb and a path of an endpoint bring into docstrings. -/
def docTextsOf (e : Endpoint) (verb : Verb) (path : PathTemplate) : List String :=
  (verb.token ++ " " ++ path.raw) :: (path.parts.filterMap (·.description) ++
    ((if acceptsBody verb e.body then e.body else none).bind (·.description)).toList)

theorem functionsOf_docTexts :
    (functionsOf e cls verb taken paths).flatMap Function.docTexts =
      paths.flatMap (docTextsOf e verb) := by
  have hdocs : ∀ path name,
      (functionOf e cls verb path name).docTexts = docTextsOf e verb path := by
    intro path name
    have hparts : (partArguments reservedArguments path.parts).filterMap (·.part.description) =
        path.parts.filterMap (·.description) := by
      conv_rhs => rw [← @partArguments_parts reservedArguments path.parts, List.filterMap_map]
      rfl
    rw [docTextsOf, ← hparts]
    rfl
  rw [List.flatMap_def, List.flatMap_def, functionsOf, map_nameInTurn_eq_map _ hdocs]

theorem isShown_token : IsShown (verb.token ++ " ") := by
  cases verb <;> decide

theorem IsForeign.occurs_docTextsOf (hc : IsForeign c) :
    Occurs c (docTextsOf e verb path) ↔
      (c ∈ path.raw.toList ∨ Occurs c (path.parts.filterMap (·.description))) ∨
        acceptsBody verb e.body = true ∧ Occurs c (e.body.bind (·.description)).toList := by
  rw [docTextsOf, occurs_cons, occurs_append, isShown_token.mem_append_iff hc.shown, or_assoc]
  cases acceptsBody verb e.body with
  | true => simp
  | false => simp [Occurs]

theorem occurs_partDescriptions : Occurs c (e.parts.filterMap (·.description)) ↔
    ∃ path ∈ e.paths, Occurs c (path.parts.filterMap (·.description)) := by
  rw [← occurs_flatMap, Endpoint.parts, List.filterMap_flatMap]

/-- What all functions of an endpoint bring in: some function has each path, and some function sends
the body if a verb does. -/
theorem IsForeign.occurs_functionsFor (hc : IsForeign c) (h : IsEmittable name e) :
    Occurs c ((functionsFor name e).flatMap Function.docTexts) ↔
      Occurs c (e.paths.map (·.raw) ++ e.parts.filterMap (·.description) ++
        (if e.verbs.any (acceptsBody · e.body) then (e.body.bind (·.description)).toList
          else [])) := by
  obtain ⟨-, hverbs, hpaths⟩ := h
  obtain ⟨v, hv⟩ := List.exists_mem_of_ne_nil _ hverbs
  obtain ⟨p, hp⟩ := List.exists_mem_of_ne_nil _ hpaths
  have hraw : Occurs c (e.paths.map (·.raw)) ↔ ∃ path ∈ e.paths, c ∈ path.raw.toList := by
    simp only [Occurs, List.mem_map, exists_exists_and_eq_and]
  rw [functionsFor, List.flatMap_assoc, occurs_flatMap, occurs_append, occurs_append, hraw,
    occurs_partDescriptions]
  simp only [functionsOf_docTexts, occurs_flatMap, hc.occurs_docTextsOf, Verb.mem_canonical]
  constructor
  · rintro ⟨verb, hverb, path, hpath, (hmem | hmem) | ⟨haccepts, hmem⟩⟩
    · exact .inl (.inl ⟨path, hpath, hmem⟩)
    · exact .inl (.inr ⟨path, hpath, hmem⟩)
    · have hany : e.verbs.any (acceptsBody · e.body) = true :=
        List.any_eq_true.mpr ⟨verb, hverb, haccepts⟩
      rw [if_pos hany]
      exact .inr hmem
  · rintro ((⟨path, hpath, hmem⟩ | ⟨path, hpath, hmem⟩) | hmem)
    · exact ⟨v, hv, path, hpath, .inl (.inl hmem)⟩
    · exact ⟨v, hv, path, hpath, .inl (.inr hmem)⟩
    · split at hmem
      · rename_i hany
        obtain ⟨verb, hverb, haccepts⟩ := List.any_eq_true.mp hany
        exact ⟨verb, hverb, p, hp, .inr ⟨haccepts, hmem⟩⟩
      · exact absurd hmem not_occurs_nil

end Functions

section Modules

variable {c : Char} {e : Endpoint} {name cls text : String} {modules : List ModuleName}

theorem IsForeign.occurs_fieldDocs (hc : IsForeign c) :
    Occurs c ((fieldsOf e).map Field.doc) ↔
      Occurs c ((NameMap.ofPairs e.params).values.filterMap (·.description)) := by
  have hdoc : ∀ f : Field, c ∈ f.doc.toList ↔ ∃ text ∈ f.param.description, c ∈ text.toList := by
    intro f
    rw [Field.doc, hc.mem_docstringText_iff]
    cases f.param.description <;> simp
  constructor
  · rintro ⟨doc, hmem, hoccurs⟩
    obtain ⟨f, hf, rfl⟩ := List.mem_map.mp hmem
    obtain ⟨text, htext, hoccurs⟩ := (hdoc f).mp hoccurs
    have hentry := of_mem_nameFields (mem_fieldsOf_iff.mp hf)
    have hvalue := NameMap.mem_values_iff.mpr ⟨_, NameMap.mem_entries_iff.mp hentry⟩
    exact ⟨text, List.mem_filterMap.mpr ⟨_, hvalue, htext⟩, hoccurs⟩
  · rintro ⟨text, hmem, hoccurs⟩
    obtain ⟨p, hp, htext⟩ := List.mem_filterMap.mp hmem
    obtain ⟨wire, hwire⟩ := NameMap.mem_values_iff.mp hp
    obtain ⟨f, hf, -, rfl⟩ := exists_field_of_mem reservedFields
      (NameMap.mem_entries_iff.mpr hwire)
    have hfield := List.mem_map_of_mem (f := Field.doc) (mem_fieldsOf_iff.mpr hf)
    exact ⟨f.doc, hfield, (hdoc f).mpr ⟨text, htext, hoccurs⟩⟩

theorem IsForeign.mem_paramsClass_iff (hc : IsForeign c) (hname : e.name = some name)
    (h : paramsClass e = .ok cls) : c ∈ cls.toList ↔
      c ∈ name.toList ∨ Occurs c ((NameMap.ofPairs e.params).values.filterMap (·.description)) := by
  rw [paramsClass, hname] at h
  dsimp only at h
  split at h
  · simp at h
  · obtain rfl := Except.ok.inj h
    have hlines : c ∈ (joinLines (paramsClassLines name (fieldsOf e))).toList ↔
        Occurs c (paramsClassLines name (fieldsOf e)) :=
      mem_toList_intercalate (by simpa using hc.ne_newline)
    rw [hlines, occurs_paramsClassLines (fun f hf => isNameText_of_mem_fieldsOf hf) hc.shown,
      hc.mem_docstringText_iff, hc.occurs_fieldDocs]

theorem IsForeign.occurs_documentationLines (hc : IsForeign c) :
    Occurs c (documentationLines e) ↔ Occurs c e.documentation.toList := by
  have htext : c ∈ (docstringText (e.documentation.getD "")).toList ↔
      Occurs c e.documentation.toList := by
    rw [hc.mem_docstringText_iff]
    cases e.documentation <;> simp [Occurs]
  rw [← htext]
  unfold documentationLines
  dsimp only
  split
  · rename_i hempty
    rw [String.isEmpty_iff.mp hempty]
    simp [Occurs]
  · have hempty : c ∉ "".toList := (by decide : IsShown "").not_mem hc.shown
    rw [occurs_cons, or_iff_right hempty, occurs_cons, or_iff_left not_occurs_nil,
      (by decide : IsShown "Documentation: ").mem_append_iff hc.shown]

theorem isShown_importLines : ∀ l ∈ importLines e, IsShown l := by
  have himport : IsShown ("from typing import " ++ ", ".intercalate (typingImports e)) := by
    apply (by decide : IsShown "from typing import ").append
    apply isShown_intercalate (by decide)
    intro n hn
    have hall : ∀ n ∈ typingOrder, IsShown n := by decide
    exact hall n (List.mem_filter.mp hn).1
  simp only [importLines, List.forall_mem_cons, himport]
  decide

theorem IsForeign.occurs_moduleLines (hc : IsForeign c) (hname : e.name = some name) :
    Occurs c (moduleLines e cls) ↔
      c ∈ name.toList ∨ Occurs c e.documentation.toList ∨ c ∈ cls.toList := by
  have hcode : ∀ {lines : List String}, (∀ l ∈ lines, IsShown l) → ¬Occurs c lines :=
    fun hlines => not_occurs_of_isShown hlines hc.shown
  have hopening : Occurs c ["" ++ "\"\"\"" ++ ("Client bindings for the \x60\x60" ++
      docstringText (e.name.getD "") ++ "\x60\x60 endpoint.")] ↔ c ∈ name.toList := by
    rw [occurs_cons, or_iff_left not_occurs_nil, hname,
      (by decide : IsShown ("" ++ "\"\"\"")).mem_append_iff hc.shown,
      (by decide : IsShown "\x60\x60 endpoint.").mem_append_iff_left hc.shown,
      (by decide : IsShown "Client bindings for the \x60\x60").mem_append_iff hc.shown,
      hc.mem_docstringText_iff]
    rfl
  have hgenerated : ¬Occurs c ["", "Generated by " ++ generator ++ ". Do not edit."] :=
    hcode (by decide)
  have hclosing : ¬Occurs c ["" ++ "\"\"\""] := hcode (by decide)
  rw [moduleLines_eq]
  simp only [occurs_append]
  rw [or_iff_left (hcode isShown_importLines), or_iff_left hclosing, or_iff_left hgenerated,
    hopening, hc.occurs_documentationLines, occurs_cons, or_iff_left not_occurs_nil, or_assoc]

/-- A module has a character of this kind where a text of its endpoint has it. -/
theorem IsForeign.mem_moduleOf_iff (hc : IsForeign c) (h : IsEmittable name e)
    (htext : moduleOf e = .ok text) : c ∈ text.toList ↔ Occurs c e.docTexts := by
  rw [moduleOf_eq h] at htext
  obtain ⟨cls, hcls, htext⟩ := bind_eq_ok.mp htext
  obtain rfl := Except.ok.inj htext
  have hempty : c ∉ "".toList := (by decide : IsShown "").not_mem hc.shown
  have hbodies : Occurs c (((Verb.canonical e.verbs).map (bindingOf name e)).flatMap
      fun b => ["", "", b.body]) ↔ Occurs c ((functionsFor name e).flatMap Function.docTexts) := by
    rw [functionsFor, List.flatMap_assoc, List.flatMap_map, occurs_flatMap, occurs_flatMap]
    apply exists_congr
    intro verb
    apply and_congr_right
    intro _
    rw [occurs_cons, or_iff_right hempty, occurs_cons, or_iff_right hempty, occurs_cons,
      or_iff_left not_occurs_nil, hc.mem_body_iff]
    · rfl
    · exact fun f hf => isNamed_of_mem_functionsOf isNameText_className hf
  have hown : Occurs c e.name.toList ↔ c ∈ name.toList := by
    rw [h.1]
    simp [Occurs]
  rw [mem_endLines_iff hc.ne_newline, occurs_append, hc.occurs_moduleLines h.1,
    hc.mem_paramsClass_iff h.1 hcls, hbodies, hc.occurs_functionsFor h, Endpoint.docTexts]
  simp only [occurs_append, hown]
  by_cases hmem : c ∈ name.toList <;> simp [hmem, or_assoc]

/-- The list of the modules has a docstring with the names of the endpoints. -/
theorem IsForeign.mem_packageInitText_iff (hc : IsForeign c)
    (h : ∀ m ∈ modules, IsNameText m.name) :
    c ∈ (packageInitText modules).toList ↔ Occurs c (modules.map (·.endpoint)) := by
  have hexports : ∀ l ∈ "" :: "__all__ = [" :: (initExports modules ++ ["]"]), IsShown l := by
    rw [List.forall_mem_cons, List.forall_mem_cons, List.forall_mem_append]
    exact ⟨by decide, by decide, isShown_initExports h, by decide⟩
  rw [packageInitText_eq, mem_endLines_iff hc.ne_newline, occurs_append, occurs_append,
    or_iff_left (not_occurs_of_isShown hexports hc.shown),
    or_iff_left (not_occurs_of_isShown (isShown_initImports h) hc.shown),
    occurs_initHead h hc.shown, hc.occurs_docstrings]

theorem IsForeign.not_mem_transportText (hc : IsForeign c) : c ∉ transportText.toList := by
  have hgenerated : IsShown ("Generated by " ++ generator ++ ". Do not edit.") := by decide
  rw [transportText, mem_endLines_iff hc.ne_newline]
  refine not_occurs_of_isShown ?_ hc.shown
  simp only [List.forall_mem_cons, hgenerated, List.not_mem_nil, false_implies, implies_true,
    and_true, true_and]
  and_intros
  all_goals exact isShown_ofList (by decide +kernel)

end Modules

section Package

variable {c : Char} {r : Registry} {files : List (String × String)} {name : String} {e : Endpoint}

theorem IsForeign.occurs_package (hc : IsForeign c)
    (hr : ∀ name e, r.get? name = some e → IsEmittable name e) (hfiles : package r = .ok files) :
    Occurs c (files.map (·.2)) ↔ ∃ name e, r.get? name = some e ∧ Occurs c e.docTexts := by
  have hinit := @IsForeign.mem_packageInitText_iff c (nameModules reservedModules r.names) hc
    fun m hm => isNameText_of_mem_nameModules hm
  rw [nameModules_endpoints] at hinit
  constructor
  · intro hoccurs
    obtain ⟨own, rfl, hown⟩ := (package_eq_ok_iff hr).mp hfiles
    rw [List.map_append, List.map_cons, occurs_append, occurs_cons,
      or_iff_right hc.not_mem_transportText, List.map_singleton, occurs_cons,
      or_iff_left not_occurs_nil, hinit] at hoccurs
    rcases hoccurs with ⟨text, hmem, hoccurs⟩ | ⟨name, hname, hoccurs⟩
    · obtain ⟨f, hf, rfl⟩ := List.mem_map.mp hmem
      obtain ⟨m, -, -, e, he, htext⟩ := exists_of_mem_forall₂ hown.flip hf
      exact ⟨_, e, he, (hc.mem_moduleOf_iff (hr _ _ he) htext).mp hoccurs⟩
    · obtain ⟨e, he⟩ := NameMap.mem_names_iff.mp hname
      refine ⟨name, e, he, name, ?_, hoccurs⟩
      simp [Endpoint.docTexts, (hr _ _ he).1]
  · rintro ⟨name, e, he, hoccurs⟩
    obtain ⟨m, -, -, text, hmem, htext⟩ := exists_module_of_package hr hfiles he
    refine ⟨text, List.mem_map_of_mem (f := (·.2)) hmem, ?_⟩
    exact (hc.mem_moduleOf_iff (hr _ _ he) htext).mpr hoccurs

/-- An endpoint assembled from a JSON document, under the name of the document or one it was given
because the document has none. -/
def IsAssembled (name : String) (e : Endpoint) : Prop :=
  e.name = some name ∧ ∃ document d, Json.Decoded (.mapping document) ∧
    assemble document = .ok d ∧ e = d.orNamed name

theorem IsAssembled.isReady (h : IsAssembled name e) : IsReady name e := by
  obtain ⟨hname, document, d, hdocument, hassemble, rfl⟩ := h
  obtain ⟨hverbs, hpaths⟩ := Assembly.isEmittable_of_assemble hassemble
  have hcanonical : Verb.canonical d.verbs = d.verbs := verbs_eq_canonical hassemble
  have hshort : ¬HasLongDefault d :=
    not_hasLongDefault (not_isLong_of_assemble hdocument hassemble)
  exact ⟨⟨hname, hverbs, hpaths⟩, hcanonical, hshort⟩

/-- What JSON documents give is written without NUL if no text has it that stands in a docstring,
and only then. -/
theorem package_without_nul_iff
    (hr : ∀ name e, r.get? name = some e → IsAssembled name e) :
    ∃ files, package r = .ok files ∧
      ((∀ f ∈ files, '\x00' ∉ f.2.toList) ↔
        ∀ name e, r.get? name = some e → ∀ text ∈ e.docTexts, '\x00' ∉ text.toList) := by
  obtain ⟨files, hfiles⟩ := exists_package fun name e he => (hr name e he).isReady
  have hnul : IsForeign '\x00' := by decide
  have hoccurs := hnul.occurs_package (fun name e he => (hr name e he).isReady.emittable) hfiles
  refine ⟨files, hfiles, ?_, ?_⟩
  · intro hfree name e he text htext hmem
    obtain ⟨file, hfile, hmem⟩ := hoccurs.mpr ⟨name, e, he, text, htext, hmem⟩
    obtain ⟨f, hf, rfl⟩ := List.mem_map.mp hfile
    exact hfree f hf hmem
  · intro hfree f hf hmem
    obtain ⟨name, e, he, text, htext, hmem⟩ := hoccurs.mp ⟨f.2, List.mem_map_of_mem hf, hmem⟩
    exact hfree name e he text htext hmem

/-- The registry of one JSON document, whose endpoint gets the given name if it has none. -/
def registryOf? (name document : String) : Option Registry :=
  match Document.parse (.text document) .json with
  | .ok e =>
    if e.name.getD name = name then some (NameMap.empty.insert name (e.orNamed name)) else none
  | .error _ => none

theorem isAssembled_of_registryOf? {given document : String}
    (h : registryOf? given document = some r) (he : r.get? name = some e) :
    IsAssembled name e := by
  unfold registryOf? at h
  split at h
  · rename_i d hd
    split at h
    · rename_i hname
      obtain rfl := Option.some.inj h
      obtain ⟨fields, hload, hassemble⟩ := bind_eq_ok.mp hd
      rw [NameMap.get?_insert] at he
      split at he
      · rename_i heq
        subst heq
        obtain rfl := Option.some.inj he
        exact ⟨congrArg some hname, fields, d, Document.decoded_load hload, hassemble, rfl⟩
      · simp at he
    · simp at h
  · simp at h

/-- The name of a parameter, its options and its default have a NUL, and so has the hint on how to
write the body. -/
def hiddenText : String :=
  "\x7b\"methods\":[\"POST\"],\"url\":\x7b\"path\":\"/\",\"params\":\x7b\"a\\u0000\":\x7b" ++
    "\"type\":\"enum\",\"options\":[\"\\u0000\"],\"default\":\"\\u0000\"\x7d\x7d\x7d," ++
    "\"body\":\x7b\"serialize\":\"\\u0000\"\x7d\x7d"

theorem package_without_nul_hidden :
    ∃ r e files, registryOf? "hidden" hiddenText = some r ∧ r.get? "hidden" = some e ∧
      Occurs '\x00' (e.params.map (·.1)) ∧ package r = .ok files ∧
      ∀ f ∈ files, '\x00' ∉ f.2.toList := by
  have hchecked : (match registryOf? "hidden" hiddenText with
      | some r => r.names == ["hidden"] && r.values.all fun e =>
        e.params.any (·.1.toList.contains '\x00') &&
          e.docTexts.all fun text => !text.toList.contains '\x00'
      | none => false) = true := by decide +kernel
  cases hr : registryOf? "hidden" hiddenText with
  | none => simp [hr] at hchecked
  | some r =>
      simp only [hr, Bool.and_eq_true, beq_iff_eq, List.all_eq_true] at hchecked
      obtain ⟨hnames, hall⟩ := hchecked
      obtain ⟨e, he⟩ := NameMap.mem_names_iff.mp (hnames ▸ List.mem_singleton_self "hidden")
      obtain ⟨files, hfiles, hnul⟩ := package_without_nul_iff fun name e he =>
        isAssembled_of_registryOf? hr he
      obtain ⟨hparams, -⟩ := hall e (NameMap.mem_values_iff.mpr ⟨_, he⟩)
      obtain ⟨p, hp, hmem⟩ := List.any_eq_true.mp hparams
      refine ⟨r, e, files, rfl, he, ⟨p.1, List.mem_map_of_mem hp, by simpa using hmem⟩, hfiles, ?_⟩
      apply hnul.mpr
      intro name e he text htext
      simpa using (hall e (NameMap.mem_values_iff.mpr ⟨name, he⟩)).2 text htext

/-- The documentation has a NUL. -/
def nulText : String :=
  "\x7b\"methods\":[\"GET\"],\"url\":\x7b\"path\":\"/\"\x7d,\"documentation\":\"a\\u0000b\"\x7d"

/-- A NUL in the documentation is in the module. -/
theorem package_with_nul :
    ∃ r files, registryOf? "ping" nulText = some r ∧
      (∀ name e, r.get? name = some e → IsAssembled name e) ∧ package r = .ok files ∧
      ∃ f ∈ files, '\x00' ∈ f.2.toList := by
  have hchecked : (match registryOf? "ping" nulText with
      | some r => r.values.any fun e => e.docTexts.any (·.toList.contains '\x00')
      | none => false) = true := by decide +kernel
  cases hr : registryOf? "ping" nulText with
  | none => simp [hr] at hchecked
  | some r =>
      simp only [hr, List.any_eq_true] at hchecked
      obtain ⟨e, he, text, htext, hmem⟩ := hchecked
      obtain ⟨name, he⟩ := NameMap.mem_values_iff.mp he
      have hassembled : ∀ name e, r.get? name = some e → IsAssembled name e :=
        fun _ _ he => isAssembled_of_registryOf? hr he
      obtain ⟨files, hfiles⟩ := exists_package fun name e he => (hassembled name e he).isReady
      have hnul : IsForeign '\x00' := by decide
      obtain ⟨file, hfile, hmem⟩ := (hnul.occurs_package
        (fun name e he => (hassembled name e he).isReady.emittable) hfiles).mpr
        ⟨name, e, he, text, htext, by simpa using hmem⟩
      obtain ⟨f, hf, rfl⟩ := List.mem_map.mp hfile
      exact ⟨r, files, rfl, hassembled, hfiles, f, hf, hmem⟩

end Package

end Emission

end EndpointBindings
