import EndpointBindings.Proofs.DeclarationGrammar
import EndpointBindings.Proofs.TemplateGrammar

/-!
The grammar of endpoint documents. What a document has to be is said of its values alone, without
the order in which they are looked at; a document decoded from JSON is assembled exactly when it is
that.
-/

namespace EndpointBindings.Grammar

open EndpointBindings.Assembly EndpointBindings.Number EndpointBindings.Json

/-- One of the fields that mark an object as the body of an endpoint. -/
def HasBodyField (document : Fields) : Prop :=
  ∃ e ∈ document, e.1 = .text "methods" ∨ e.1 = .text "url" ∨ e.1 = .text "documentation" ∨
    e.1 = .text "body"

/-- A document is the body of its endpoint, or one name over the body. -/
def Unwraps (document fields : Fields) : Prop :=
  HasBodyField document ∧ IsOptionalText (Value.field "name" document) ∧ fields = document ∨
    ¬HasBodyField document ∧ ∃ key, document = [(key, .mapping fields)]

def AreMethods (v : Value) : Prop :=
  ∃ items, v = .list items ∧ items ≠ [] ∧
    ∀ m ∈ items, ∃ s ∈ ["HEAD", "GET", "POST", "PUT", "DELETE"], m = .text s

/-- The part of a brace group, without the blanks around its name. -/
def IsDeclaredPart (parts : Fields) (group : List Char) : Prop :=
  Text.trim group ≠ [] ∧
    ∃ declaration, Value.field (String.ofList (Text.trim group)) parts = .mapping declaration ∧
      IsDeclaration declaration

/-- The listed paths, or else the single one. -/
def ListsPaths (url : Fields) (texts : List String) : Prop :=
  Value.field "paths" url = .list (texts.map .text) ∨
    Value.field "paths" url = .null ∧ ∃ s, Value.field "path" url = .text s ∧ texts = [s]

structure IsRoute (url : Fields) : Prop where
  parts : IsObjectOrBlank (Value.field "parts" url)
  params : IsObjectOrBlank (Value.field "params" url)
  paths : ∃ texts, ListsPaths url texts ∧ texts ≠ [] ∧
    ∀ raw ∈ texts, ∃ names, PathTemplate.IsTemplate raw.toList names ∧
      ∀ group ∈ names, IsDeclaredPart (entriesOf (Value.field "parts" url)) group
  declared : ∀ e ∈ entriesOf (Value.field "params" url), ∃ declaration, e.2 = .mapping declaration ∧
    IsDeclaration declaration ∧ IsFlag (Value.field "required" declaration)

/-- A body says how its endpoint is reached. -/
structure IsRouted (fields : Fields) : Prop where
  methods : AreMethods (Value.field "methods" fields)
  url : ∃ url, Value.field "url" fields = .mapping url ∧ IsRoute url

/-- A link, or an object with a link or else a description. -/
def IsDocumentation (v : Value) : Prop :=
  IsOptionalText v ∨ ∃ entries, v = .mapping entries ∧
    IsOptionalText (if (Value.field "url" entries).isBlank then Value.field "description" entries
      else Value.field "url" entries)

def IsBodySchema (v : Value) : Prop :=
  v = .null ∨ ∃ entries, v = .mapping entries ∧ IsFlag (Value.field "required" entries) ∧
    IsOptionalText (Value.field "description" entries) ∧
    IsOptionalText (Value.field "serialize" entries)

/-- What a body says beside the route is of the right kind. -/
structure IsCompleted (fields : Fields) : Prop where
  defaults : ∀ url, Value.field "url" fields = .mapping url →
    ∀ e ∈ entriesOf (Value.field "params" url), ∀ declaration, e.2 = .mapping declaration →
      HasFittingDefault declaration
  documentation : IsDocumentation (Value.field "documentation" fields)
  body : IsBodySchema (Value.field "body" fields)

section Routes

variable {parts url declared declaration : Fields} {raw name : String} {group : List Char}
  {names : List (List Char)} {texts : List String} {v : Value}

theorem exists_part_iff (h : Decoded (.mapping parts)) :
    (∃ p, part parts raw group = .ok p) ↔ IsDeclaredPart parts group := by
  have hname : String.ofList (Text.trim group) ≠ "" ↔ Text.trim group ≠ [] := by
    rw [← String.ofList_nil, ne_eq, String.ofList_inj]
  have hfield := h.field (String.ofList (Text.trim group))
  simp only [part_eq_ok]
  constructor
  · rintro ⟨p, hp, hne, declaration, hdeclaration, htype, hdescription⟩
    rw [hp] at hne hdeclaration
    rw [hfield.unfold_eq] at hdeclaration
    refine ⟨hname.mp hne, declaration, hdeclaration, ?_⟩
    rw [hdeclaration] at hfield
    exact (isDeclaration_iff _ hfield).mpr ⟨⟨_, htype⟩, _, hdescription⟩
  · rintro ⟨hne, declaration, hdeclaration, hd⟩
    rw [hdeclaration] at hfield
    obtain ⟨⟨type, htype⟩, description, hdescription⟩ :=
      (isDeclaration_iff ("url.parts." ++ String.ofList (Text.trim group)) hfield).mp hd
    refine ⟨⟨String.ofList (Text.trim group), type, description⟩, rfl, hname.mpr hne, declaration,
      ?_, htype, hdescription⟩
    rw [hdeclaration]
    rfl

theorem mem_groups_iff {chunks : List PathTemplate.Chunk} :
    group ∈ PathTemplate.groups chunks ↔ .group group ∈ chunks := by
  unfold PathTemplate.groups
  rw [List.mem_filterMap]
  constructor
  · rintro ⟨chunk, hchunk, hgroup⟩
    cases chunk with
    | literal text => simp at hgroup
    | group g => exact Option.some.inj hgroup ▸ hchunk
  · intro h
    exact ⟨_, h, rfl⟩

theorem exists_pathTemplate_iff (h : Decoded (.mapping parts)) :
    (∃ t, pathTemplate raw parts = .ok t) ↔ ∃ names, PathTemplate.IsTemplate raw.toList names ∧
      ∀ group ∈ names, IsDeclaredPart parts group := by
  have htemplate : (∃ t, pathTemplate raw parts = .ok t) ↔
      ∀ chunk ∈ PathTemplate.chunks raw.toList, ∃ s, segment parts raw chunk = .ok s := by
    simp only [pathTemplate_eq_ok]
    rw [← exists_forall₂_iff]
    constructor
    · rintro ⟨t, -, ht⟩
      exact ⟨t.segments, ht⟩
    · rintro ⟨segments, hsegments⟩
      exact ⟨⟨raw, segments⟩, rfl, hsegments⟩
  rw [htemplate]
  simp only [PathTemplate.isTemplate_iff, and_assoc]
  constructor
  · intro hchunks
    refine ⟨_, fun text htext => ?_, rfl, fun group hgroup => ?_⟩
    · obtain ⟨s, hs⟩ := hchunks _ htext
      obtain ⟨hopening, hclosing, -⟩ := segment_literal_eq_ok.mp hs
      exact ⟨hopening, hclosing⟩
    · obtain ⟨s, hs⟩ := hchunks _ (mem_groups_iff.mp hgroup)
      obtain ⟨p, hp, -⟩ := segment_group_eq_ok.mp hs
      exact (exists_part_iff h).mp ⟨p, hp⟩
  · rintro ⟨names, hliterals, rfl, hgroups⟩ chunk hchunk
    cases chunk with
    | literal text =>
        obtain ⟨hopening, hclosing⟩ := hliterals text hchunk
        exact ⟨_, segment_literal_eq_ok.mpr ⟨hopening, hclosing, rfl⟩⟩
    | group g =>
        obtain ⟨p, hp⟩ := (exists_part_iff h).mpr (hgroups g (mem_groups_iff.mpr hchunk))
        exact ⟨_, segment_group_eq_ok.mpr ⟨p, hp, rfl⟩⟩

theorem rawPaths_iff (h : Decoded (.mapping url)) (hne : texts ≠ []) :
    (rawPaths url).unfold = .list (texts.map .text) ↔ ListsPaths url texts := by
  have hpaths := h.field "paths"
  unfold rawPaths ListsPaths
  split
  · rename_i hnull
    simp only [hnull, reduceCtorEq, false_or, true_and]
    split
    · rename_i hnone
      simp [hnone, Value.unfold, hne]
    · constructor
      · intro hsingle
        obtain ⟨s, rest, rfl, hs, hrest⟩ :=
          List.map_eq_cons_iff.mp (Value.list.inj hsingle).symm
        rw [List.map_eq_nil_iff] at hrest
        exact ⟨s, hs.symm, by rw [hrest]⟩
      · rintro ⟨s, hs, rfl⟩
        rw [hs]
        rfl
  · rename_i hnull
    have hnull : Value.field "paths" url ≠ .null := hnull
    rw [hpaths.unfold_eq]
    simp [hnull]

theorem exists_paths_iff (hurl : Decoded (.mapping url)) (hparts : Decoded (.mapping parts)) :
    (∃ ts, paths url parts = .ok ts) ↔ ∃ texts, ListsPaths url texts ∧ texts ≠ [] ∧
      ∀ raw ∈ texts, ∃ names, PathTemplate.IsTemplate raw.toList names ∧
        ∀ group ∈ names, IsDeclaredPart parts group := by
  simp only [paths_eq_ok, ← exists_pathTemplate_iff hparts]
  constructor
  · rintro ⟨ts, texts, hne, hlisted, hts⟩
    refine ⟨texts, (rawPaths_iff hurl hne).mp hlisted, hne, fun raw hraw => ?_⟩
    exact exists_forall₂_iff.mp ⟨ts, hts⟩ raw (List.mem_eraseDups.mpr hraw)
  · rintro ⟨texts, hlisted, hne, heach⟩
    obtain ⟨ts, hts⟩ := exists_forall₂_iff.mpr fun raw hraw =>
      heach raw (List.mem_eraseDups.mp hraw)
    exact ⟨ts, texts, hne, (rawPaths_iff hurl hne).mpr hlisted, hts⟩

theorem exists_defaults_iff {type : ValueType} (hv : Decoded v)
    (htype : ValueType.resolve? name texts = some type) :
    (∃ default, Defaults type v default) ↔ v = .null ∨ Represents texts v name := by
  rw [← exists_fit_iff hv htype]
  unfold Defaults
  constructor
  · rintro ⟨_, ⟨hnull, -⟩ | ⟨-, d, -, hd⟩⟩
    · exact .inl hnull
    · exact .inr ⟨d, hd⟩
  · intro h
    by_cases hnull : v = .null
    · exact ⟨none, .inl ⟨hnull, rfl⟩⟩
    · obtain ⟨d, hd⟩ := h.resolve_left hnull
      exact ⟨some d, .inr ⟨hnull, d, rfl, hd⟩⟩

theorem exists_param_iff (name : String) (hv : Decoded v) : (∃ p, param name v = .ok p) ↔
    ∃ declaration, v = .mapping declaration ∧ (IsDeclaration declaration ∧
      IsFlag (Value.field "required" declaration)) ∧ HasFittingDefault declaration := by
  simp only [param_eq_ok, hv.unfold_eq]
  constructor
  · rintro ⟨p, declaration, rfl, htype, hrequired, hdescription, hdefault⟩
    refine ⟨declaration, rfl, ⟨?_, isFlag_iff.mpr ⟨_, hrequired⟩⟩, ?_⟩
    · exact (isDeclaration_iff _ hv).mpr ⟨⟨_, htype⟩, _, hdescription⟩
    · obtain ⟨-, -, hresolve⟩ := (declaredType_iff hv).mp htype
      exact (exists_defaults_iff (hv.field "default") hresolve).mp ⟨_, hdefault⟩
  · rintro ⟨declaration, rfl, ⟨hd, hrequired⟩, hdefault⟩
    obtain ⟨⟨type, htype⟩, description, hdescription⟩ :=
      (isDeclaration_iff ("url.params." ++ name) hv).mp hd
    obtain ⟨required, hrequired⟩ := isFlag_iff.mp hrequired
    obtain ⟨-, -, hresolve⟩ := (declaredType_iff hv).mp htype
    obtain ⟨default, hdefault⟩ := (exists_defaults_iff (hv.field "default") hresolve).mpr hdefault
    exact ⟨⟨type, required, default, description⟩, declaration, rfl, htype, hrequired,
      hdescription, hdefault⟩

theorem exists_params_iff (h : Decoded (.mapping declared)) : (∃ ps, params declared = .ok ps) ↔
    ∀ e ∈ declared, ∃ declaration, e.2 = .mapping declaration ∧ (IsDeclaration declaration ∧
      IsFlag (Value.field "required" declaration)) ∧ HasFittingDefault declaration := by
  simp only [params_eq_ok, exists_forall₂_iff, Prod.exists, exists_and_left]
  refine forall₂_congr fun e he => ?_
  obtain ⟨key, hkey⟩ := h.key_of_mem he
  rw [← exists_param_iff key (h.of_mem_mapping he), hkey]
  constructor
  · rintro ⟨other, hother, hp⟩
    exact Value.text.inj hother ▸ hp
  · intro hp
    exact ⟨key, rfl, hp⟩

end Routes

section Rest

variable {v : Value} {document fields url : Fields}

theorem exists_verbs_iff (hv : Decoded v) : (∃ vs, verbs v = .ok vs) ↔ AreMethods v := by
  have htokens : ∀ s, s ∈ ["HEAD", "GET", "POST", "PUT", "DELETE"] ↔
      ∃ verb : Verb, verb.token = s := by
    intro s
    constructor
    · intro hs
      simp only [List.mem_cons, List.not_mem_nil, or_false] at hs
      rcases hs with rfl | rfl | rfl | rfl | rfl
      exacts [⟨.head, rfl⟩, ⟨.get, rfl⟩, ⟨.post, rfl⟩, ⟨.put, rfl⟩, ⟨.delete, rfl⟩]
    · rintro ⟨verb, rfl⟩
      cases verb <;> simp [Verb.token]
  simp only [verbs_eq_ok, hv.unfold_eq]
  constructor
  · rintro ⟨_, listed, hne, rfl, -⟩
    refine ⟨_, rfl, by simpa using hne, fun m hm => ?_⟩
    obtain ⟨verb, -, rfl⟩ := List.mem_map.mp hm
    exact ⟨_, (htokens _).mpr ⟨verb, rfl⟩, rfl⟩
  · rintro ⟨items, rfl, hne, heach⟩
    have hverbs : ∀ m ∈ items, ∃ verb : Verb, m = .text verb.token := by
      intro m hm
      obtain ⟨s, hs, rfl⟩ := heach m hm
      obtain ⟨verb, rfl⟩ := (htokens s).mp hs
      exact ⟨verb, rfl⟩
    obtain ⟨listed, hlisted⟩ := exists_forall₂_iff.mpr hverbs
    have hitems : items = listed.map fun verb => Value.text verb.token := by
      rwa [← List.forall₂_eq_eq_eq, List.forall₂_map_right_iff]
    refine ⟨_, listed, ?_, by rw [hitems], rfl⟩
    rintro rfl
    exact hne hitems

theorem isBody_iff (h : Decoded (.mapping document)) :
    isBody document = true ↔ HasBodyField document := by
  have hfield : ∀ name, (Value.field? name document).isSome = true ↔
      ∃ e ∈ document, e.1 = .text name := by
    intro name
    rw [Value.field?, Option.isSome_map, List.find?_isSome]
    refine exists_congr fun e => and_congr_right fun he => ?_
    obtain ⟨key, hkey⟩ := h.key_of_mem he
    rw [hkey, sameKey_text, beq_iff_eq, Value.text.injEq]
  unfold isBody bodyFields HasBodyField
  simp only [List.any_cons, List.any_nil, Bool.or_false, Bool.or_eq_true, hfield, ← exists_or,
    ← and_or_left]

theorem exists_unwrap_iff (h : Decoded (.mapping document)) :
    (∃ name, unwrap document = .ok (name, fields)) ↔ Unwraps document fields := by
  simp only [unwrap_eq_ok]
  unfold Unwraps
  rw [isOptionalText_iff, ← isBody_iff h, Bool.not_eq_true]
  constructor
  · rintro ⟨name, ⟨hbody, hname, rfl⟩ | ⟨hbody, key, v, rfl, hfields, -⟩⟩
    · exact .inl ⟨hbody, ⟨name, hname⟩, rfl⟩
    · rw [(h.of_mem_mapping List.mem_cons_self).unfold_eq] at hfields
      exact .inr ⟨hbody, .text key, by rw [← hfields]⟩
  · rintro (⟨hbody, ⟨name, hname⟩, rfl⟩ | ⟨hbody, key, rfl⟩)
    · exact ⟨name, .inl ⟨hbody, hname, rfl⟩⟩
    · obtain ⟨s, rfl⟩ := h.key_of_mem List.mem_cons_self
      exact ⟨some s, .inr ⟨hbody, s, _, rfl, rfl, rfl⟩⟩

theorem exists_documentation_iff (hv : Decoded v) :
    (∃ text, documentation v = .ok text) ↔ IsDocumentation v := by
  unfold IsDocumentation
  simp only [documentation_eq_ok, hv.unfold_eq, exists_or, isOptionalText_iff, Value.orElse]
  refine or_congr_right ?_
  constructor
  · rintro ⟨text, entries, rfl, htext⟩
    exact ⟨entries, rfl, text, htext⟩
  · rintro ⟨entries, rfl, text, htext⟩
    exact ⟨text, entries, rfl, htext⟩

theorem exists_body_iff (hv : Decoded v) : (∃ b, body v = .ok b) ↔ IsBodySchema v := by
  simp only [body_eq_ok, hv.unfold_eq, IsBodySchema, isOptionalText_iff, isFlag_iff]
  constructor
  · rintro ⟨_, ⟨hnull, -⟩ | ⟨fields, schema, rfl, -, h⟩⟩
    · exact .inl hnull
    · exact .inr ⟨fields, rfl, ⟨_, h.required⟩, ⟨_, h.description⟩, _, h.serialize⟩
  · rintro (hnull | ⟨fields, rfl, ⟨required, hrequired⟩, ⟨description, hdescription⟩, serialize,
      hserialize⟩)
    · exact ⟨none, .inl ⟨hnull, rfl⟩⟩
    · exact ⟨_, .inr ⟨fields, ⟨required, description, serialize⟩, rfl, rfl, hrequired,
        hdescription, hserialize⟩⟩

/-- A document is assembled exactly when it is of the grammar. -/
theorem assemble_iff (h : Decoded (.mapping document)) :
    (∃ e, assemble document = .ok e) ↔
      ∃ fields, Unwraps document fields ∧ IsRouted fields ∧ IsCompleted fields := by
  have hfields : ∀ {fields}, Unwraps document fields → Decoded (.mapping fields) := by
    rintro fields (⟨-, -, rfl⟩ | ⟨-, key, rfl⟩)
    · exact h
    · exact h.of_mem_mapping List.mem_cons_self
  simp only [assemble_eq_ok]
  constructor
  · rintro ⟨e, fields, url, parts, declared, hunwrap, he⟩
    have hunwraps := (exists_unwrap_iff h).mp ⟨_, hunwrap⟩
    have hbody := hfields hunwraps
    have hurl := hbody.field "url"
    have hisUrl : Value.field "url" fields = .mapping url := hurl.unfold_eq ▸ he.url_eq
    rw [hisUrl] at hurl
    obtain ⟨hparts, rfl⟩ := (orElse_unfold_iff (hurl.field "parts")).mp he.parts_eq
    obtain ⟨hdeclared, rfl⟩ := (orElse_unfold_iff (hurl.field "params")).mp he.declared_eq
    have hpaths := (exists_paths_iff hurl (decoded_entriesOf (hurl.field "parts"))).mp
      ⟨_, he.paths_eq⟩
    have hparams := (exists_params_iff (decoded_entriesOf (hurl.field "params"))).mp
      ⟨_, he.params_eq⟩
    refine ⟨fields, hunwraps,
      ⟨?_, url, hisUrl, hparts, hdeclared, hpaths, fun d hd => ?_⟩, ?_, ?_, ?_⟩
    · exact (exists_verbs_iff (hbody.field "methods")).mp ⟨_, he.verbs_eq⟩
    · obtain ⟨declaration, hentry, hdeclaration, -⟩ := hparams d hd
      exact ⟨declaration, hentry, hdeclaration⟩
    · intro other hother d hd declaration hentry
      obtain rfl := Value.mapping.inj (hisUrl.symm.trans hother)
      obtain ⟨other, hother, -, hdefault⟩ := hparams d hd
      obtain rfl := Value.mapping.inj (hentry.symm.trans hother)
      exact hdefault
    · exact (exists_documentation_iff (hbody.field "documentation")).mp ⟨_, he.documentation_eq⟩
    · exact (exists_body_iff (hbody.field "body")).mp ⟨_, he.body_eq⟩
  · rintro ⟨fields, hunwraps, ⟨hmethods, url, hisUrl, hroute⟩, hcompleted⟩
    have hbody := hfields hunwraps
    have hurl := hisUrl ▸ hbody.field "url"
    obtain ⟨name, hunwrap⟩ := (exists_unwrap_iff h).mpr hunwraps
    obtain ⟨verbs, hverbs⟩ := (exists_verbs_iff (hbody.field "methods")).mpr hmethods
    obtain ⟨paths, hpaths⟩ :=
      (exists_paths_iff hurl (decoded_entriesOf (hurl.field "parts"))).mpr hroute.paths
    obtain ⟨params, hparams⟩ :=
      (exists_params_iff (decoded_entriesOf (hurl.field "params"))).mpr fun d hd => by
        obtain ⟨declaration, hentry, hdeclaration⟩ := hroute.declared d hd
        exact ⟨declaration, hentry, hdeclaration, hcompleted.defaults url hisUrl d hd _ hentry⟩
    obtain ⟨documentation, hdocumentation⟩ :=
      (exists_documentation_iff (hbody.field "documentation")).mpr hcompleted.documentation
    obtain ⟨schema, hschema⟩ := (exists_body_iff (hbody.field "body")).mpr hcompleted.body
    refine ⟨⟨name, documentation, verbs, paths, params, schema⟩, fields, url, _, _, hunwrap, hverbs,
      ?_, ?_, hpaths, ?_, hparams, hdocumentation, hschema⟩
    · rw [hisUrl]
      rfl
    · exact (orElse_unfold_iff (hurl.field "parts")).mpr ⟨hroute.parts, rfl⟩
    · exact (orElse_unfold_iff (hurl.field "params")).mpr ⟨hroute.params, rfl⟩

/-- A search over one index or over all. -/
def searching : Fields :=
  [(.text "search", .mapping
    [(.text "methods", .list [.text "POST", .text "GET"]),
     (.text "url", .mapping
      [(.text "paths", .list [.text "/_search", .text "/\x7b index \x7d/_search", .text "/_search"]),
       (.text "parts", .mapping [(.text "index", .mapping [(.text "type", .text "list")])]),
       (.text "params", .mapping [(.text "expand", .mapping
        [(.text "type", .text "enum"), (.text "options", .list [.bool true, .text "open"]),
         (.text "default", .text "True")])])]),
     (.text "documentation", .mapping [(.text "url", .text "")]),
     (.text "body", .mapping [(.text "required", .null)])])]

theorem assemble_searching : Decoded (.mapping searching) ∧
    ∃ fields, Unwraps searching fields ∧ IsRouted fields ∧ IsCompleted fields := by
  have hdecoded : Decoded (.mapping searching) := by
    simp [searching, Decoded.mapping_iff, Decoded.list_iff, Decoded.null, Decoded.bool, Decoded.text]
  have hok : (assemble searching).isOk = true := by decide +kernel
  cases he : assemble searching with
  | error failure => simp [he, Except.isOk, Except.toBool] at hok
  | ok e => exact ⟨hdecoded, (assemble_iff hdecoded).mp ⟨e, he⟩⟩

/-- A body with one route; its parameters, documentation and schema are given. -/
def ping (declared : Fields) (documentation schema : Value) : Fields :=
  [(.text "methods", .list [.text "GET"]),
   (.text "url", .mapping [(.text "path", .text "/"), (.text "params", .mapping declared)]),
   (.text "documentation", documentation), (.text "body", schema)]

theorem isRouted_ping {declared : Fields} {documentation schema : Value}
    (h : ∀ e ∈ declared, ∃ declaration, e.2 = .mapping declaration ∧ IsDeclaration declaration ∧
      IsFlag (Value.field "required" declaration)) :
    IsRouted (ping declared documentation schema) where
  methods := ⟨[.text "GET"], rfl, by simp, by simp⟩
  url := by
    refine ⟨_, rfl, .inl rfl, .inr ⟨declared, rfl⟩, ⟨["/"], .inr ⟨rfl, "/", rfl, rfl⟩, by simp, ?_⟩,
      h⟩
    intro raw hraw
    obtain rfl := List.mem_singleton.mp hraw
    have hplain : PathTemplate.IsBraceless ['/'] := ⟨by decide, by decide⟩
    exact ⟨[], ⟨[.literal ['/']], rfl, by simpa [PathTemplate.Chunk.content] using hplain, rfl⟩,
      by simp⟩

theorem decoded_ping {declared : Fields} {documentation schema : Value}
    (hdeclared : Decoded (.mapping declared)) (hdocumentation : Decoded documentation)
    (hschema : Decoded schema) : Decoded (.mapping (ping declared documentation schema)) := by
  have hmethods : Decoded (.list [.text "GET"]) := .list (by simpa using .text "GET")
  have hurl : Decoded (.mapping [(.text "path", .text "/"), (.text "params", .mapping declared)]) :=
    .mapping (by simp) (by simp) (by simpa using ⟨.text "/", hdeclared⟩)
  exact .mapping (by simp [ping]) (by simp [ping])
    (by simpa [ping] using ⟨hmethods, hurl, hdocumentation, hschema⟩)

/-- The declaration of an integer whose default is a text. -/
def worded : Fields := [(.text "type", .text "integer"), (.text "default", .text "ten")]

/-- A body says how its endpoint is reached and gives no endpoint for all that. -/
structure IsRoutedInVain (fields : Fields) : Prop where
  decoded : Decoded (.mapping fields)
  unwraps : Unwraps fields fields
  routed : IsRouted fields
  not_assembled : ∀ e, assemble fields ≠ .ok e

/-- What a body says beside the route is looked at as well. -/
theorem not_assembled_though_routed :
    IsRoutedInVain (ping [(.text "size", .mapping worded)] .null .null) ∧
      IsRoutedInVain (ping [] (.int 5) .null) ∧ IsRoutedInVain (ping [] .null (.text "bulk")) := by
  have hworded : Decoded (.mapping worded) :=
    .mapping (by simp [worded]) (by simp [worded])
      (by simpa [worded] using ⟨.text "integer", .text "ten"⟩)
  have hunwraps : ∀ declared documentation schema, Unwraps (ping declared documentation schema)
      (ping declared documentation schema) := fun declared documentation schema =>
    .inl ⟨⟨_, List.mem_cons_self, .inl rfl⟩, .inl rfl, rfl⟩
  refine ⟨⟨?_, hunwraps _ _ _, isRouted_ping ?_, ?_⟩, ⟨?_, hunwraps _ _ _, isRouted_ping ?_, ?_⟩,
    ⟨?_, hunwraps _ _ _, isRouted_ping ?_, ?_⟩⟩
  · exact decoded_ping (.mapping (by simp) (by simp) (by simpa using hworded)) .null .null
  · intro e he
    obtain rfl := List.mem_singleton.mp he
    exact ⟨worded, rfl, ⟨by simp [worded, Value.field, Value.field?], .inl rfl, by decide, .inl rfl⟩,
      .inl rfl⟩
  · exact fun e he => by cases he
  · exact decoded_ping .nil_mapping (.int (by decide +kernel)) .null
  · simp
  · exact fun e he => by cases he
  · exact decoded_ping .nil_mapping .null (.text "bulk")
  · simp
  · exact fun e he => by cases he

end Rest

end EndpointBindings.Grammar
