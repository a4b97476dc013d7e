import EndpointBindings.Proofs.DocumentGrammar
import EndpointBindings.Proofs.ModuleOrder
import EndpointBindings.Proofs.Reordering

/-!
Documents that declare the same in another order are assembled as the same endpoint, but for the
order of its parameters and the names of types that are not known. An option of a choice is taken as
the text that is shown of it, so that the texts of options have to stay the same.
-/

namespace EndpointBindings.Assembly

open EndpointBindings.Value

/-- The texts of the options of a declaration. -/
def optionTexts (declaration : Fields) : List String :=
  match (field "options" declaration).unfold with
  | .list items => items.map toText
  | _ => []

/-- Where the first of two declarations is of a choice, the options of both have the same texts. -/
def KeepsOptions (declaration declaration' : Fields) : Prop :=
  (field "type" declaration).toText = ValueType.choiceName →
    optionTexts declaration = optionTexts declaration'

section Types

variable {v v' : Value} {name name' : String} {texts texts' : List String} {type type' : ValueType}
  {declaration declaration' : Fields}

theorem eraseName_eq_of_resolve (hv : Reordered v v')
    (htexts : v.toText = ValueType.choiceName → texts = texts')
    (h : ValueType.resolve? v.toText texts = some type)
    (h' : ValueType.resolve? v'.toText texts' = some type') : type.eraseName = type'.eraseName := by
  -- A collection names no known type, whatever the order that its text shows.
  rcases hv.eq_or_collections with rfl | ⟨hcollection, hcollection'⟩
  · by_cases hchoice : v.toText = ValueType.choiceName
    · rw [htexts hchoice, h'] at h
      rw [Option.some.inj h]
    · rw [ValueType.resolve?, if_neg hchoice] at h h'
      rw [← Option.some.inj h, ← Option.some.inj h']
  · rw [resolve?_of_endsInBracket hcollection.endsInBracket] at h
    rw [resolve?_of_endsInBracket hcollection'.endsInBracket] at h'
    rw [← Option.some.inj h, ← Option.some.inj h']
    rfl

theorem options_eq (h : options declaration name = .ok texts) :
    texts = optionTexts declaration := by
  rw [optionTexts]
  rcases options_eq_ok.mp h with ⟨hnull, rfl⟩ | ⟨items, hitems, -, rfl⟩
  · rw [hnull]
    rfl
  · rw [hitems]

theorem eraseName_eq_of_declaredType (hd : Keyed (fun _ => Reordered) declaration declaration')
    (hoptions : KeepsOptions declaration declaration')
    (h : declaredType declaration name = .ok type)
    (h' : declaredType declaration' name' = .ok type') : type.eraseName = type'.eraseName := by
  obtain ⟨-, -, texts, htexts, htype⟩ := declaredType_eq_ok.mp h
  obtain ⟨-, -, texts', htexts', htype'⟩ := declaredType_eq_ok.mp h'
  obtain rfl := options_eq htexts
  obtain rfl := options_eq htexts'
  exact eraseName_eq_of_resolve (Reordered.field hd "type") hoptions htype htype'

end Types

section Defaults

variable {v v' : Value} {expected : String} {d d' : Default} {type type' : ValueType}
  {default default' : Option Default}

/-- What a value is a default for does not hang on how a type that is not known is named. -/
theorem fit_eraseName (h : Default.fit type v = .ok d) : Default.fit type.eraseName v = .ok d := by
  have hlist : ∀ {a b}, Default.fitList a v = .ok d → Default.fitList b v = .ok d :=
    fun h => fitList_eq_ok.mpr (fitList_eq_ok.mp h)
  cases type with
  | other rawName =>
      cases v with
      | bool | int | float | text => exact h
      | _ => exact hlist h
  | _ => exact h

theorem holdsTexts_of_fitList (hv : v.IsCollection) (h : Default.fitList expected v = .ok d) :
    ∃ texts, d = .list texts ∧ v.HoldsTexts texts := by
  obtain ⟨texts, rfl, hlist | htuple | ⟨s, -, hs⟩⟩ := fitList_eq_ok.mp h
  · exact ⟨texts, rfl, .inl hlist⟩
  · exact ⟨texts, rfl, .inr htuple⟩
  · rw [IsCollection, hs] at hv
    exact hv.elim

/-- A collection is a default as a list of texts only. -/
theorem holdsTexts_of_fit (hv : v.IsCollection) (h : Default.fit type v = .ok d) :
    ∃ texts, d = .list texts ∧ v.HoldsTexts texts := by
  cases type with
  | list => exact holdsTexts_of_fitList hv h
  | other rawName =>
      cases v with
      | bool | int | float | text => exact hv.elim
      | _ => exact holdsTexts_of_fitList hv h
  | string | time =>
      obtain ⟨s, rfl⟩ := Grammar.exists_fitText_iff.mp ⟨d, h⟩
      exact hv.elim
  | boolean =>
      obtain ⟨b, rfl⟩ := Grammar.exists_fitFlag_iff.mp ⟨d, h⟩
      exact hv.elim
  | choice options =>
      obtain ⟨s, -, rfl⟩ := Grammar.exists_fitChoice_iff.mp ⟨d, h⟩
      exact hv.elim
  | number kind =>
      rw [Default.fit, Default.fitNumber.eq_def] at h
      split at h
      case h_5 => simp [Default.mismatch] at h
      all_goals exact hv.elim

theorem default_eq (hv : Reordered v v') (htype : type.eraseName = type'.eraseName)
    (h : Defaults type v default) (h' : Defaults type' v' default') : default = default' := by
  rcases hv.eq_or_collections with rfl | ⟨hcollection, hcollection'⟩
  · rcases h with ⟨rfl, rfl⟩ | ⟨hnull, d, rfl, hd⟩
    · rcases h' with ⟨-, rfl⟩ | ⟨hnull, -⟩
      · rfl
      · exact absurd rfl hnull
    · rcases h' with ⟨rfl, -⟩ | ⟨-, d', rfl, hd'⟩
      · exact absurd rfl hnull
      · have hfit := fit_eraseName hd
        rw [htype, fit_eraseName hd'] at hfit
        rw [Except.ok.inj hfit]
  · rcases h with ⟨rfl, -⟩ | ⟨-, d, rfl, hd⟩
    · exact hcollection.elim
    · rcases h' with ⟨rfl, -⟩ | ⟨-, d', rfl, hd'⟩
      · exact hcollection'.elim
      · obtain ⟨texts, rfl, htexts⟩ := holdsTexts_of_fit hcollection hd
        obtain ⟨texts', rfl, htexts'⟩ := holdsTexts_of_fit hcollection' hd'
        rw [hv.texts_eq_of_holdsTexts htexts htexts']

end Defaults

section Declarations

variable {v v' : Value} {text text' : Option String} {b b' : Bool} {name raw : String}
  {group : List Char} {p p' : Param} {parts parts' declared declared' : Fields} {q q' : PathPart}
  {t t' : PathTemplate} {ps ps' : List (String × Param)}

theorem optional_eq (hv : Reordered v v') (h : v = Assembly.optional text)
    (h' : v' = Assembly.optional text') : text = text' := by
  rw [h, h'] at hv
  exact hv.optional_inj

theorem flag_eq (hv : Reordered v v') (h : v = .bool b ∨ v = .null ∧ b = false)
    (h' : v' = .bool b' ∨ v' = .null ∧ b' = false) : b = b' := by
  have hscalar : ¬v.IsCollection := by
    rcases h with rfl | ⟨rfl, -⟩
    · exact id
    · exact id
  rw [hv.eq_of_not_isCollection hscalar] at h'
  rcases h with rfl | ⟨rfl, rfl⟩
  · simpa using h'
  · simpa [eq_comm] using h'

theorem contents_eq {entries : Fields} (h : v.unfold = .mapping entries) :
    v.contents = entries := by
  rw [contents, h]

theorem eraseTypeName_eq_of_param (hv : Reordered v v')
    (hoptions : KeepsOptions v.contents v'.contents) (h : param name v = .ok p)
    (h' : param name v' = .ok p') : p.eraseTypeName = p'.eraseTypeName := by
  obtain ⟨declaration, hd, htype, hrequired, hdescription, hdefault⟩ := param_eq_ok.mp h
  obtain ⟨declaration', hd', htype', hrequired', hdescription', hdefault'⟩ := param_eq_ok.mp h'
  have hentries := hv.contents
  rw [contents_eq hd, contents_eq hd'] at hentries hoptions
  have hfield := Reordered.field hentries
  have htype := eraseName_eq_of_declaredType hentries hoptions htype htype'
  rw [Param.eraseTypeName, Param.eraseTypeName, htype,
    flag_eq (hfield "required") hrequired hrequired',
    optional_eq (hfield "description") hdescription hdescription',
    default_eq (hfield "default") htype hdefault hdefault']

theorem names_eq_of_params (h : params declared = .ok ps) : names declared = ps.map (·.1) := by
  have hall := params_eq_ok.mp h
  clear h
  induction hall with
  | nil => rfl
  | cons hfirst _ ih =>
      rename_i e p _ _ _
      obtain ⟨hname, -⟩ := hfirst
      rw [List.map_cons, ← ih, names, List.filterMap_cons, hname]
      rfl

/-- Parameters come out the same, or in another order under different names. -/
theorem eraseTypeNames_eq_of_params (hdeclared : Keyed (fun _ => Reordered) declared declared')
    (hoptions : ∀ name, KeepsOptions (field name declared).contents (field name declared').contents)
    (h : params declared = .ok ps) (h' : params declared' = .ok ps') :
    ps.map (fun p => (p.1, p.2.eraseTypeName)) = ps'.map (fun p => (p.1, p.2.eraseTypeName)) ∨
      (ps.map fun p => (p.1, p.2.eraseTypeName)).Perm
        (ps'.map fun p => (p.1, p.2.eraseTypeName)) ∧
      ((ps.map fun p => (p.1, p.2.eraseTypeName)).map (·.1)).Nodup := by
  -- The entries that are just the same need not have different names.
  rcases hdeclared with rfl | ⟨hnames, hentries⟩
  · rw [h] at h'
    rw [Except.ok.inj h']
    exact .inl rfl
  · have hnames' := (names_perm (hentries.imp fun _ _ he => he.1)).nodup hnames
    have hall := hentries.mem.results (params_eq_ok.mp h) (params_eq_ok.mp h')
      (S := fun p p' => p.1 = p'.1 ∧ p.2.eraseTypeName = p'.2.eraseTypeName) ?_
    · refine .inr ⟨hall.map_perm fun p p' hp => Prod.ext hp.1 hp.2, ?_⟩
      rw [List.map_map]
      rwa [names_eq_of_params h] at hnames
    · rintro ⟨key, v⟩ ⟨key', v'⟩ ⟨name, p⟩ ⟨name', p'⟩ ⟨⟨hmem, hmem'⟩, hkey, hv⟩ ⟨hname, hp⟩
        ⟨hname', hp'⟩
      dsimp only at hkey hv hname hp hname' hp'
      subst hname hname'
      obtain rfl := Value.text.inj hkey
      have hkept := hoptions name
      rw [field, field, (field?_eq_some_iff hnames).mpr hmem,
        (field?_eq_some_iff hnames').mpr hmem'] at hkept
      exact ⟨rfl, eraseTypeName_eq_of_param hv hkept hp hp'⟩

theorem null_iff (hv : Reordered v v') : v = .null ↔ v' = .null := by
  rcases hv.eq_or_collections with rfl | ⟨hcollection, hcollection'⟩
  · rfl
  · constructor
    · rintro rfl
      exact hcollection.elim
    · rintro rfl
      exact hcollection'.elim

theorem rawPaths_of_ne_null {url : Fields} (h : field "paths" url ≠ .null) :
    rawPaths url = field "paths" url := by
  rw [rawPaths]
  split
  · contradiction
  · rfl

theorem reordered_rawPaths {url url' : Fields}
    (hpaths : Reordered (field "paths" url) (field "paths" url'))
    (hpath : Reordered (field "path" url) (field "path" url')) :
    Reordered (rawPaths url) (rawPaths url') := by
  by_cases hnull : field "paths" url = .null
  · rw [rawPaths, rawPaths, hnull, (null_iff hpaths).mp hnull]
    dsimp only
    by_cases hnone : field "path" url = .null
    · rw [hnone, (null_iff hpath).mp hnone]
      exact .refl _
    · have hnone' := mt (null_iff hpath).mpr hnone
      split
      · contradiction
      · exact .of_step (.list rfl rfl (.cons hpath .nil))
  · rw [rawPaths_of_ne_null hnull, rawPaths_of_ne_null (mt (null_iff hpaths).mpr hnull)]
    exact hpaths

/-- The texts of the paths are the same, when each is taken once. -/
theorem eraseDups_eq_of_rawPaths {url url' : Fields} {texts texts' : List String}
    (hurl : Keyed UrlEntryAlike url url') (h : (rawPaths url).unfold = .list (texts.map .text))
    (h' : (rawPaths url').unfold = .list (texts'.map .text)) :
    texts.eraseDups = texts'.eraseDups := by
  have hrefl : ∀ k v, UrlEntryAlike k v v := fun _ v => .inl (.refl v)
  have hpath : Reordered (field "path" url) (field "path" url') :=
    (hurl.field hrefl "path").resolve_right (by simp)
  rcases hurl.field hrefl "paths" with hpaths | ⟨-, listed, listed', hlisted, hlisted', heq⟩
  · rw [(reordered_rawPaths hpaths hpath).texts_eq_of_holdsTexts (.inl h) (.inl h')]
  · have hinj : Function.Injective (List.map Value.text) :=
      List.map_injective_iff.mpr fun _ _ => Value.text.inj
    have hne : ∀ {v : Value} {items : List Value}, v.unfold = .list items → v ≠ .null := by
      rintro v items hv rfl
      simp [Value.unfold] at hv
    rw [rawPaths_of_ne_null (hne hlisted), hlisted] at h
    rw [rawPaths_of_ne_null (hne hlisted'), hlisted'] at h'
    rw [← hinj (Value.list.inj h), ← hinj (Value.list.inj h'), heq]

variable (hparts : Keyed (fun _ => Reordered) parts parts')
  (hoptions : ∀ name, KeepsOptions (field name parts).contents (field name parts').contents)
include hparts hoptions

theorem eraseTypeName_eq_of_part (h : part parts raw group = .ok q)
    (h' : part parts' raw group = .ok q') : q.eraseTypeName = q'.eraseTypeName := by
  obtain ⟨hname, -, declaration, hd, htype, hdescription⟩ := part_eq_ok.mp h
  obtain ⟨hname', -, declaration', hd', htype', hdescription'⟩ := part_eq_ok.mp h'
  have hsame : q.name = q'.name := hname.trans hname'.symm
  rw [← hsame] at hd'
  have hentries := (Reordered.field hparts q.name).contents
  have hkept := hoptions q.name
  rw [contents_eq hd, contents_eq hd'] at hentries hkept
  rw [PathPart.eraseTypeName, PathPart.eraseTypeName, hsame,
    eraseName_eq_of_declaredType hentries hkept htype htype',
    optional_eq (Reordered.field hentries "description") hdescription hdescription']

theorem eraseTypeNames_eq_of_pathTemplate (h : pathTemplate raw parts = .ok t)
    (h' : pathTemplate raw parts' = .ok t') : t.eraseTypeNames = t'.eraseTypeNames := by
  obtain ⟨hraw, hsegments⟩ := pathTemplate_eq_ok.mp h
  obtain ⟨hraw', hsegments'⟩ := pathTemplate_eq_ok.mp h'
  have hall := forall₂_results (List.forall₂_same.mpr fun _ _ => rfl) hsegments hsegments'
    (S := fun s s' => s.eraseTypeName = s'.eraseTypeName) ?_
  · rw [PathTemplate.eraseTypeNames, PathTemplate.eraseTypeNames, hraw, hraw',
      map_eq_of_forall₂ hall fun _ _ hs => hs]
  · rintro chunk _ s s' rfl hs hs'
    cases chunk with
    | literal text =>
        obtain ⟨-, -, rfl⟩ := segment_literal_eq_ok.mp hs
        obtain ⟨-, -, rfl⟩ := segment_literal_eq_ok.mp hs'
        rfl
    | group g =>
        obtain ⟨q, hq, rfl⟩ := segment_group_eq_ok.mp hs
        obtain ⟨q', hq', rfl⟩ := segment_group_eq_ok.mp hs'
        exact congrArg Segment.part (eraseTypeName_eq_of_part hparts hoptions hq hq')

theorem eraseTypeNames_eq_of_paths {url url' : Fields} {ts ts' : List PathTemplate}
    (hurl : Keyed UrlEntryAlike url url') (h : paths url parts = .ok ts)
    (h' : paths url' parts' = .ok ts') :
    ts.map PathTemplate.eraseTypeNames = ts'.map PathTemplate.eraseTypeNames := by
  obtain ⟨texts, -, hraws, hts⟩ := paths_eq_ok.mp h
  obtain ⟨texts', -, hraws', hts'⟩ := paths_eq_ok.mp h'
  rw [← eraseDups_eq_of_rawPaths hurl hraws hraws'] at hts'
  have hall := forall₂_results (List.forall₂_same.mpr fun _ _ => rfl) hts hts'
    (S := fun t t' => t.eraseTypeNames = t'.eraseTypeNames) ?_
  · exact map_eq_of_forall₂ hall fun _ _ ht => ht
  · rintro raw _ t t' rfl ht ht'
    exact eraseTypeNames_eq_of_pathTemplate hparts hoptions ht ht'

end Declarations

/-- The body of the endpoint in a document, which may stand under its name. -/
def bodyOf (document : Fields) : Fields :=
  if isBody document then document else document.flatMap fun e => e.2.contents

/-- What a document declares under a name among the parts or the parameters of its URL. -/
def declarationAt (document : Fields) (kind name : String) : Fields :=
  (field name (field kind (field "url" (bodyOf document)).contents).contents).contents

/-- The options of the choices in two documents have the same texts. -/
def KeepsChoices (document document' : Fields) : Prop :=
  ∀ kind ∈ ["parts", "params"], ∀ name,
    KeepsOptions (declarationAt document kind name) (declarationAt document' kind name)

section Documents

variable {v v' : Value} {text text' name name' : Option String} {vs vs' : List Verb}
  {b b' : Option Body} {document document' fields fields' url url' entries : Fields}
  {e e' : Endpoint}

theorem token_injective : Function.Injective Verb.token := by
  intro verb other h
  have htoken := Verb.ofToken?_token verb
  rw [h, Verb.ofToken?_token] at htoken
  exact (Option.some.inj htoken).symm

theorem verbs_eq (hv : BodyEntryAlike (.text "methods") v v') (h : verbs v = .ok vs)
    (h' : verbs v' = .ok vs') : vs = vs' := by
  obtain ⟨listed, -, hlist, rfl⟩ := verbs_eq_ok.mp h
  obtain ⟨listed', -, hlist', rfl⟩ := verbs_eq_ok.mp h'
  apply Emission.canonical_eq_of_mem_iff
  intro verb
  rw [← List.mem_map_of_injective token_injective, ← List.mem_map_of_injective token_injective]
  rcases hv with hv | ⟨-, items, items', hitems, hitems', hmem⟩ | ⟨hkey, -⟩
  · have htexts : v.HoldsTexts (listed.map Verb.token) := .inl (by rw [hlist, List.map_map]; rfl)
    have htexts' : v'.HoldsTexts (listed'.map Verb.token) :=
      .inl (by rw [hlist', List.map_map]; rfl)
    rw [hv.texts_eq_of_holdsTexts htexts htexts']
  · rw [Value.list.inj (hitems.symm.trans hlist),
      Value.list.inj (hitems'.symm.trans hlist')] at hmem
    simpa using hmem (.text verb.token)
  · simp at hkey

theorem documentation_eq (hv : Reordered v v') (h : documentation v = .ok text)
    (h' : documentation v' = .ok text') : text = text' := by
  rcases documentation_eq_ok.mp h with htext | ⟨entries, hentries, htext⟩
  · have hsame : v' = v := hv.eq_of_not_isCollection (htext ▸ Reordered.not_isCollection_optional)
    rw [hsame, h] at h'
    exact Except.ok.inj h'
  · rcases documentation_eq_ok.mp h' with htext' | ⟨entries', hentries', htext'⟩
    · rcases hv.eq_or_collections with rfl | ⟨-, hcollection⟩
      · rw [h] at h'
        exact Except.ok.inj h'
      · rw [htext'] at hcollection
        exact absurd hcollection Reordered.not_isCollection_optional
    · have hkeyed := hv.contents
      rw [contents_eq hentries, contents_eq hentries'] at hkeyed
      have hfield := Reordered.field hkeyed
      exact optional_eq ((hfield "url").orElse (hfield "description")) htext htext'

theorem body_eq (hv : Reordered v v') (h : body v = .ok b) (h' : body v' = .ok b') : b = b' := by
  rcases body_eq_ok.mp h with ⟨hnull, rfl⟩ | ⟨fields, schema, hfields, rfl, hof⟩
  · rw [(null_iff hv).mp hnull] at h'
    exact Except.ok.inj h'
  · rcases body_eq_ok.mp h' with ⟨hnull, -⟩ | ⟨fields', schema', hfields', rfl, hof'⟩
    · rw [(null_iff hv).mpr hnull] at hfields
      simp [Value.unfold] at hfields
    · have hkeyed := hv.contents
      rw [contents_eq hfields, contents_eq hfields'] at hkeyed
      have hfield := Reordered.field hkeyed
      have hrequired := flag_eq (hfield "required") hof.required hof'.required
      have hdescription := optional_eq (hfield "description") hof.description hof'.description
      have hserialize := optional_eq (hfield "serialize") hof.serialize hof'.serialize
      obtain ⟨required, description, serialize⟩ := schema
      subst hrequired hdescription hserialize
      rfl

theorem contents_eq_of_orElse (h : (v.orElse (.mapping [])).unfold = .mapping entries) :
    v.contents = entries := by
  rw [Value.orElse] at h
  split at h
  · rename_i hblank
    obtain rfl := Value.mapping.inj h
    rw [contents]
    split
    · rename_i entries hentries
      rw [← isBlank_unfold, hentries] at hblank
      simpa [isBlank] using hblank
    · rfl
  · exact contents_eq h

theorem keyed_url (hv : BodyEntryAlike (.text "url") v v') (h : v.unfold = .mapping url)
    (h' : v'.unfold = .mapping url') : Keyed UrlEntryAlike url url' := by
  rcases hv with hv | ⟨hkey, -⟩ | ⟨-, entries, entries', hentries, hentries', hkeyed⟩
  · have hkeyed := hv.contents
    rw [contents_eq h, contents_eq h'] at hkeyed
    exact hkeyed.mono fun _ _ _ => .inl
  · simp at hkey
  · rwa [Value.mapping.inj (hentries.symm.trans h), Value.mapping.inj (hentries'.symm.trans h')]
      at hkeyed

theorem isBody_eq {R : Value → Value → Value → Prop} (h : Keyed R document document')
    (hrefl : ∀ k v, R k v v) : isBody document = isBody document' := by
  have hsome : ∀ name, (field? name document).isSome = (field? name document').isSome := by
    intro name
    have hrel := h.field? hrefl name
    generalize field? name document = found at hrel ⊢
    generalize field? name document' = found' at hrel ⊢
    cases hrel <;> rfl
  simp only [isBody, hsome]

theorem bodyEntryAlike_refl (key v : Value) : BodyEntryAlike key v v := .inl (.refl v)

theorem unwrap_eq (hd : DocumentAlike document document') (h : unwrap document = .ok (name, fields))
    (h' : unwrap document' = .ok (name', fields')) :
    name = name' ∧ bodyOf document = fields ∧ bodyOf document' = fields' ∧
      Keyed BodyEntryAlike fields fields' := by
  rcases hd with ⟨hbody, hkeyed⟩ | ⟨hbody, key, v, v', entries, entries', rfl, rfl, hv, hv', hkeyed⟩
  · have hbody' := isBody_eq hkeyed bodyEntryAlike_refl ▸ hbody
    rcases unwrap_eq_ok.mp h with ⟨-, hname, rfl⟩ | ⟨hnot, -⟩
    · rcases unwrap_eq_ok.mp h' with ⟨-, hname', rfl⟩ | ⟨hnot, -⟩
      · have hreordered : Reordered (field "name" fields) (field "name" fields') :=
          (hkeyed.field bodyEntryAlike_refl "name").resolve_right (by simp)
        refine ⟨optional_eq hreordered hname hname', ?_, ?_, hkeyed⟩
        · rw [bodyOf, if_pos hbody]
        · rw [bodyOf, if_pos hbody']
      · simp [hbody'] at hnot
    · simp [hbody] at hnot
  · have hbody' : isBody [(key, v')] = false := by
      rw [← hbody]
      refine isBody_eq (R := fun _ _ _ => True) (.inr ⟨?_, [(key, v')], .refl _, ?_⟩)
        fun _ _ => trivial
      · cases key <;> simp [names, text?]
      · simp
    rcases unwrap_eq_ok.mp h with ⟨hnot, -⟩ | ⟨-, s, w, hentry, hw, rfl⟩
    · simp [hbody] at hnot
    · rcases unwrap_eq_ok.mp h' with ⟨hnot, -⟩ | ⟨-, s', w', hentry', hw', rfl⟩
      · simp [hbody'] at hnot
      · obtain ⟨rfl, rfl⟩ := by simpa using hentry
        obtain ⟨hkey, rfl⟩ := by simpa using hentry'
        obtain rfl := Value.mapping.inj (hv.symm.trans hw)
        obtain rfl := Value.mapping.inj (hv'.symm.trans hw')
        refine ⟨by rw [hkey], ?_, ?_, hkeyed⟩
        · rw [bodyOf, if_neg (by simp [hbody]), List.flatMap_singleton, contents_eq hv]
        · rw [bodyOf, if_neg (by simp [hbody']), List.flatMap_singleton, contents_eq hv']

/-- Documents that declare the same in another order give the same endpoint but for its order and
for the names of types that are not known. -/
theorem rearranged_of_assemble (hd : DocumentAlike document document')
    (hchoices : KeepsChoices document document') (h : assemble document = .ok e)
    (h' : assemble document' = .ok e') :
    Emission.Rearranged e.eraseTypeNames e'.eraseTypeNames := by
  obtain ⟨fields, url, parts, declared, hunwrap, hof⟩ := assemble_eq_ok.mp h
  obtain ⟨fields', url', parts', declared', hunwrap', hof'⟩ := assemble_eq_ok.mp h'
  obtain ⟨hname, hbody, hbody', hkeyed⟩ := unwrap_eq hd hunwrap hunwrap'
  have hfield := hkeyed.field bodyEntryAlike_refl
  have hurl := keyed_url (hfield "url") hof.url_eq hof'.url_eq
  have hurlField := hurl.field fun _ v => .inl (.refl v)
  have hparts := ((hurlField "parts").resolve_right (by simp)).contents
  have hdeclared := ((hurlField "params").resolve_right (by simp)).contents
  have hkept : ∀ kind ∈ ["parts", "params"], ∀ name,
      KeepsOptions (field name (field kind url).contents).contents
        (field name (field kind url').contents).contents := by
    intro kind hkind name
    have hoptions := hchoices kind hkind name
    rwa [declarationAt, declarationAt, hbody, hbody', contents_eq hof.url_eq,
      contents_eq hof'.url_eq] at hoptions
  have hkeptParts := hkept "parts" (by simp)
  have hkeptParams := hkept "params" (by simp)
  rw [contents_eq_of_orElse hof.parts_eq, contents_eq_of_orElse hof'.parts_eq] at hparts hkeptParts
  rw [contents_eq_of_orElse hof.declared_eq, contents_eq_of_orElse hof'.declared_eq]
    at hdeclared hkeptParams
  exact {
    name := hname
    documentation := documentation_eq ((hfield "documentation").resolve_right (by simp))
      hof.documentation_eq hof'.documentation_eq
    verbs := fun verb => by
      rw [Endpoint.eraseTypeNames, Endpoint.eraseTypeNames,
        verbs_eq (hfield "methods") hof.verbs_eq hof'.verbs_eq]
    paths := eraseTypeNames_eq_of_paths hparts hkeptParts hurl hof.paths_eq hof'.paths_eq
    params := eraseTypeNames_eq_of_params hdeclared hkeptParams hof.params_eq hof'.params_eq
    body := body_eq ((hfield "body").resolve_right (by simp)) hof.body_eq hof'.body_eq }

end Documents

end EndpointBindings.Assembly
