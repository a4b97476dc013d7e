import EndpointBindings.Proofs.ConfigDefects
import EndpointBindings.Proofs.JsonDecoded

/-!
Patterns that are skipped besides the configured ones. They are joined to the configured value as it
stands, before it is checked. A list stays the list that it was, with more items; but the items of a
text are its characters and those of an object its keys, so a value that is no list becomes one.
-/

namespace EndpointBindings

namespace Setting

variable {patterns : List String}

theorem readTexts_texts (position : Nat) :
    readTexts position (patterns.map Value.text) = .ok patterns := by
  induction patterns generalizing position with
  | nil => rfl
  | cons p ps ih => simp [readTexts, ih, Except.map]

/-- Texts behind the items of a list are read too, and put nothing right in it. -/
theorem readTexts_append (position : Nat) (vs : List Value) :
    readTexts position (vs ++ patterns.map Value.text) =
      (readTexts position vs).map (· ++ patterns) := by
  induction vs generalizing position with
  | nil => exact readTexts_texts position
  | cons v rest ih =>
      have hrest := ih (position + 1)
      cases v with
      | text s =>
          simp only [List.cons_append, readTexts, hrest]
          cases readTexts (position + 1) rest <;> rfl
      | _ =>
          simp only [List.cons_append, readTexts, hrest]
          cases readTexts (position + 1) rest <;> rfl

end Setting

namespace Layer

variable {l l' : Layer} {below : CompilerConfig} {patterns : List String} {v : Value}

/-- The items to which patterns are added: of the layer's value, or else of the one below it. -/
def known (l : Layer) (below : CompilerConfig) : Except Defect (List Value) :=
  match l .excluded with
  | none => .ok (below.excluded.map Value.text)
  | some v => items v

theorem exclude_eq (hpatterns : patterns ≠ []) : l.exclude below patterns =
    (l.known below).map fun vs =>
      (single .excluded (.list (vs ++ patterns.map Value.text))).above l := by
  cases patterns with
  | nil => exact absurd rfl hpatterns
  | cons p ps =>
      unfold exclude known
      cases l .excluded with
      | none => rfl
      | some v => cases items v <;> rfl

theorem valueOn_single_above {s t : Setting} (h : s ≠ t) :
    ((single t v).above l).valueOn below s = l.valueOn below s := by
  rw [valueOn, valueOn, read, read, above_eq_of_none]
  simp [single, h]

theorem valueOn_list_above {vs : List Value} :
    ((single .excluded (.list vs)).above l).valueOn below .excluded =
      (Setting.readTexts 0 vs).under "exclude" := by
  rw [valueOn, read, above_eq_some (v := .list vs) rfl]
  rfl

/-- Where only the skipped patterns differ, by more of them, so do the settings. -/
theorem resolve_append (hothers : ∀ s ≠ .excluded, l'.valueOn below s = l.valueOn below s)
    (hexcluded : l'.valueOn below .excluded =
      (l.valueOn below .excluded).map (· ++ patterns)) :
    l'.resolve below = (l.resolve below).map fun config =>
      { config with excluded := config.excluded ++ patterns } := by
  cases hresolve : l.resolve below with
  | ok config =>
      apply resolve_eq_ok_iff.mpr
      intro s
      have hs := resolve_eq_ok_iff.mp hresolve s
      cases s with
      | excluded => rw [hexcluded, hs]; rfl
      | _ => exact (hothers _ (by decide)).trans hs
  | error places =>
      obtain ⟨⟨s, error, hs⟩, rfl⟩ := resolve_eq_error_iff.mp hresolve
      refine resolve_eq_error_iff.mpr ⟨⟨s, error, ?_⟩, ?_⟩
      · by_cases hs' : s = .excluded
        · subst hs'
          rw [hexcluded, hs]
          rfl
        · exact (hothers s hs').trans hs
      · congr 1
        funext s
        by_cases hs' : s = .excluded
        · subst hs'
          rw [hexcluded]
          cases l.valueOn below .excluded <;> rfl
        · rw [hothers s hs']

/-- A configured list, or none, takes the patterns at its end. -/
theorem exists_exclude_of_list (hpatterns : patterns ≠ [])
    (hlist : ∀ v, l .excluded = some v → ∃ vs, v = .list vs) :
    ∃ l', l.exclude below patterns = .ok l' ∧
      l'.resolve below = (l.resolve below).map fun config =>
        { config with excluded := config.excluded ++ patterns } := by
  have happend : ∀ vs, l.known below = .ok vs →
      l.valueOn below .excluded = (Setting.readTexts 0 vs).under "exclude" →
      ∃ l', l.exclude below patterns = .ok l' ∧
        l'.resolve below = (l.resolve below).map fun config =>
          { config with excluded := config.excluded ++ patterns } := by
    intro vs hknown hvalue
    refine ⟨_, by rw [exclude_eq hpatterns, hknown]; rfl, ?_⟩
    refine resolve_append (fun s hs => valueOn_single_above hs) ?_
    rw [valueOn_list_above, Setting.readTexts_append, hvalue]
    cases Setting.readTexts 0 vs <;> rfl
  cases hl : l .excluded with
  | none =>
      refine happend (below.excluded.map Value.text) (by rw [known, hl]) ?_
      rw [valueOn, read, hl, Setting.readTexts_texts]
      rfl
  | some v =>
      obtain ⟨vs, rfl⟩ := hlist v hl
      refine happend vs (by rw [known, hl]; rfl) ?_
      rw [valueOn, read, hl]
      rfl

/-- The items of a JSON value that is no list are texts: characters, or keys. -/
theorem exists_items_eq_texts (h : Json.Decoded v) (hspread : IsSpreadable v)
    (hlist : ∀ vs, v ≠ .list vs) : ∃ names : List String, items v = .ok (names.map Value.text) := by
  have hblank : ∀ w : Value, w.isBlank = true →
      (if w.isBlank then Except.ok [] else .error .notSequence : Except Defect (List Value)) =
        .ok (([] : List String).map Value.text) := by
    intro w hw
    rw [if_pos hw]
    rfl
  cases h with
  | null | bool | int | float => exact ⟨[], hblank _ hspread⟩
  | text s => exact ⟨s.toList.map Char.toString, by simp [items]⟩
  | list => exact absurd rfl (hlist _)
  | @mapping entries keys distinct each =>
      choose! name hname using keys
      refine ⟨entries.map name, ?_⟩
      rw [items, List.map_map]
      exact congrArg _ (List.map_congr_left hname)

/-- A value that is no list cannot be read, whatever the other values are. -/
theorem exists_resolve_eq_error (hl : l .excluded = some v) (hlist : ∀ vs, v ≠ .list vs) :
    ∃ places, l.resolve below = .error places := by
  have hrefuse : Setting.readPatterns v = Checked.refuse := by
    cases v with
    | list vs => exact absurd rfl (hlist vs)
    | _ => rfl
  obtain ⟨error, hvalue⟩ : ∃ error, l.valueOn below .excluded = .error error :=
    exists_fault_iff.mpr ⟨v, _, hl, hrefuse⟩
  exact ⟨_, resolve_eq_error_iff.mpr ⟨⟨.excluded, error, hvalue⟩, rfl⟩⟩

/-- With patterns a JSON value that is no list can be read, and only the other values count. -/
theorem exists_exclude_of_decoded (hpatterns : patterns ≠ []) (hl : l .excluded = some v)
    (h : Json.Decoded v) (hspread : IsSpreadable v) (hlist : ∀ vs, v ≠ .list vs) :
    ∃ l', l.exclude below patterns = .ok l' ∧
      ((∃ places, l'.resolve below = .error places) ↔
        ∃ s ≠ .excluded, ∃ value places, l s = some value ∧ s.reader value = .error places) := by
  obtain ⟨names, hnames⟩ := exists_items_eq_texts h hspread hlist
  have hknown : l.known below = .ok (names.map Value.text) := by rw [known, hl, ← hnames]
  refine ⟨_, by rw [exclude_eq hpatterns, hknown]; rfl, ?_⟩
  have hvalue : ((single .excluded
      (.list (names.map Value.text ++ patterns.map Value.text))).above l).valueOn below .excluded =
        .ok (names ++ patterns) := by
    rw [valueOn_list_above, Setting.readTexts_append, Setting.readTexts_texts]
    rfl
  constructor
  · rintro ⟨places, hplaces⟩
    obtain ⟨⟨s, error, hs⟩, -⟩ := resolve_eq_error_iff.mp hplaces
    have hne : s ≠ .excluded := by
      rintro rfl
      rw [hvalue] at hs
      cases hs
    rw [valueOn_single_above hne] at hs
    exact ⟨s, hne, exists_fault_iff.mp ⟨error, hs⟩⟩
  · rintro ⟨s, hne, hfault⟩
    obtain ⟨error, hs⟩ : ∃ error, l.valueOn below s = .error error := exists_fault_iff.mpr hfault
    rw [← valueOn_single_above hne] at hs
    exact ⟨_, resolve_eq_error_iff.mpr ⟨⟨s, error, hs⟩, rfl⟩⟩

end Layer

namespace Config

variable {w : World} {commandLine l : Layer} {patterns : List String} {user : GlobalConfig}
  {project : Option (List (Value × Value))} {entries : List (Value × Value)} {v : Value}

/-- The settings of a run without the patterns and with them: the same but for the patterns, or of
one kind of failure. -/
def AddsPatterns (patterns : List String) :
    Except Failure CompilerConfig → Except Failure CompilerConfig → Prop
  | .ok config, .ok config' =>
    config' = { config with excluded := config.excluded ++ patterns }
  | .error (.config _), .error (.config _) => True
  | .error (.defect d), .error (.defect d') => d = d'
  | _, _ => False

theorem addsPatterns_error (failure : Failure) :
    AddsPatterns patterns (.error failure) (.error failure) := by
  cases failure with
  | config fault => trivial
  | defect d => rfl

theorem decoded_readJson {octets : List UInt8} (h : readJson octets = .ok (.ok v)) :
    Json.Decoded v := by
  unfold readJson at h
  dsimp only at h
  split at h
  · simp at h
  · rename_i cs _
    split at h
    · rename_i hread
      obtain rfl := by simpa using h
      apply Json.decoded_readText (s := String.ofList (Text.unifyLineEnds cs))
      rwa [Json.readText, String.toList_ofList]
    · simp at h
    · simp at h
    · simp at h

theorem decoded_projectEntries (h : projectEntries w = .ok (some entries)) :
    Json.Decoded (.mapping entries) := by
  obtain ⟨file, -, h⟩ := bind_eq_ok.mp h
  cases file with
  | none => simp [pure, Except.pure] at h
  | some octets =>
      obtain ⟨json, hjson, h⟩ := bind_eq_ok.mp h
      split at h
      · simp at h
      · obtain rfl := by simpa using h
        exact decoded_readJson (mapError_eq_ok.mp hjson)
      · simp at h

theorem decoded_field? {name : String} (h : Json.Decoded (.mapping entries))
    (hv : Value.field? name entries = some v) : Json.Decoded v := by
  obtain ⟨e, he, rfl⟩ := Option.map_eq_some_iff.mp hv
  exact h.of_mem_mapping (List.mem_of_find?_eq_some he)

theorem overUser_excluded (hcommand : commandLine .excluded = none) :
    overUser w commandLine project .excluded = Value.field? "exclude" (project.getD []) := by
  simp [overUser, Layer.above, hcommand, environmentLayer, variableFor, Layer.ofEntries,
    Setting.key]

theorem resolve_of_exclude (huser : globalConfig w = .ok user)
    (hproject : projectEntries w = .ok project)
    (h : (overUser w commandLine project).exclude user.compiler patterns = .ok l) :
    resolve w commandLine patterns = (l.resolve user.compiler).mapError
      fun places => .config (.invalidSettings places) := by
  rw [resolve_eq_bind huser hproject, h]
  rfl

theorem resolve_without (huser : globalConfig w = .ok user)
    (hproject : projectEntries w = .ok project) :
    resolve w commandLine [] =
      ((overUser w commandLine project).resolve user.compiler).mapError
        fun places => .config (.invalidSettings places) :=
  resolve_of_exclude huser hproject rfl

theorem addsPatterns_of_list (huser : globalConfig w = .ok user)
    (hproject : projectEntries w = .ok project) (hpatterns : patterns ≠ [])
    (hlist : ∀ v, overUser w commandLine project .excluded = some v → ∃ vs, v = .list vs) :
    AddsPatterns patterns (resolve w commandLine []) (resolve w commandLine patterns) := by
  obtain ⟨l', hexclude, hresolve⟩ :=
    @Layer.exists_exclude_of_list _ user.compiler _ hpatterns hlist
  rw [resolve_without huser hproject, resolve_of_exclude huser hproject hexclude, hresolve]
  cases (overUser w commandLine project).resolve user.compiler with
  | ok config => rfl
  | error places => trivial

/-- A value that is no list lets a run fail without the patterns, so it has to fail with them. -/
theorem addsPatterns_iff_of_not_list (huser : globalConfig w = .ok user)
    (hproject : projectEntries w = .ok project) (hpatterns : patterns ≠ [])
    (hl : overUser w commandLine project .excluded = some v) (hv : Json.Decoded v)
    (hlist : ∀ vs, v ≠ .list vs) :
    AddsPatterns patterns (resolve w commandLine []) (resolve w commandLine patterns) ↔
      Layer.IsSpreadable v ∧ ∃ s ≠ .excluded, ∃ value places,
        overUser w commandLine project s = some value ∧ s.reader value = .error places := by
  obtain ⟨places, hplaces⟩ := @Layer.exists_resolve_eq_error _ user.compiler _ hl hlist
  rw [resolve_without huser hproject, hplaces, mapError_error]
  by_cases hspread : Layer.IsSpreadable v
  · obtain ⟨l, hexclude, hfault⟩ :=
      @Layer.exists_exclude_of_decoded _ user.compiler _ _ hpatterns hl hv hspread hlist
    rw [resolve_of_exclude huser hproject hexclude, ← hfault, and_iff_right hspread]
    cases l.resolve user.compiler with
    | ok config => simp [AddsPatterns]
    | error places => simp [AddsPatterns]
  · rw [resolve_eq_defect_iff.mpr (.patterns huser hproject hpatterns hl hspread)]
    simp [AddsPatterns, hspread]

/-- Patterns of the command line do nothing but add to the configured ones, whatever else is
configured, as long as the project's file gives a list of patterns or none. Given another value they
do so only where the run has no settings anyway: the value has items, and some other value cannot be
read. -/
theorem addsPatterns_iff (hcommand : commandLine .excluded = none) (hpatterns : patterns ≠ []) :
    AddsPatterns patterns (resolve w commandLine []) (resolve w commandLine patterns) ↔
      ∀ user entries v, globalConfig w = .ok user → projectEntries w = .ok (some entries) →
        Value.field? "exclude" entries = some v →
        (∃ vs, v = .list vs) ∨
          Layer.IsSpreadable v ∧ ∃ s ≠ .excluded, ∃ value places,
            overUser w commandLine (some entries) s = some value ∧
              s.reader value = .error places := by
  have hfails : ∀ failure, (∀ ps, resolve w commandLine ps = .error failure) →
      AddsPatterns patterns (resolve w commandLine []) (resolve w commandLine patterns) := by
    intro failure hresolve
    rw [hresolve, hresolve]
    exact addsPatterns_error failure
  cases huser : globalConfig w with
  | error failure =>
      refine iff_of_true (hfails failure fun ps => ?_) (by simp)
      rw [resolve, huser]
      rfl
  | ok user =>
      cases hproject : projectEntries w with
      | error failure =>
          refine iff_of_true (hfails failure fun ps => ?_) (by simp)
          rw [resolve, huser, hproject]
          rfl
      | ok project =>
          by_cases hlists : ∀ v, Value.field? "exclude" (project.getD []) = some v →
              ∃ vs, v = .list vs
          · refine iff_of_true (addsPatterns_of_list huser hproject hpatterns fun v hl => ?_) ?_
            · exact hlists v ((overUser_excluded hcommand).symm.trans hl)
            · intro _ entries v _ hentries hv
              obtain rfl := Except.ok.inj hentries
              exact .inl (hlists v hv)
          · push Not at hlists
            obtain ⟨v, hv, hlist⟩ := hlists
            obtain ⟨entries, rfl⟩ : ∃ entries, project = some entries := by
              cases project with
              | none => simp [Value.field?] at hv
              | some entries => exact ⟨entries, rfl⟩
            rw [addsPatterns_iff_of_not_list huser hproject hpatterns
              ((overUser_excluded hcommand).trans hv)
              (decoded_field? (decoded_projectEntries hproject) hv) hlist]
            constructor
            · intro h _ entries' v' _ hentries hv'
              obtain rfl := Option.some.inj (Except.ok.inj hentries)
              obtain rfl := Option.some.inj (hv.symm.trans hv')
              exact .inr h
            · intro h
              refine (h user entries v rfl rfl hv).resolve_left ?_
              rintro ⟨vs, heq⟩
              exact hlist vs heq

/-- The octets of a project's file that gives one pattern in a list. -/
def listed : List UInt8 := Text.Utf8.encode "\x7b\"exclude\":[\"a\"]\x7d".toList

theorem read_listed : (match readJson listed with
    | .ok (.ok (.mapping [(.text a, .list [.text b])])) => decide ((a, b) = ("exclude", "a"))
    | _ => false) = true := by
  decide +kernel

theorem addsPatterns_listed :
    noOptions .excluded = none ∧ ["*.tmp"] ≠ [] ∧
      AddsPatterns ["*.tmp"] (resolve (onlyProject listed) noOptions [])
        (resolve (onlyProject listed) noOptions ["*.tmp"]) := by
  have hread := read_listed
  split at hread
  · rename_i a b heq
    obtain ⟨rfl, rfl⟩ := by simpa using hread
    refine ⟨rfl, by decide, (addsPatterns_iff rfl (by decide)).mpr ?_⟩
    intro _ entries v _ hentries hv
    rw [projectEntries_onlyProject heq] at hentries
    obtain rfl := Option.some.inj (Except.ok.inj hentries)
    obtain rfl := Option.some.inj hv
    exact .inl ⟨_, rfl⟩
  · simp at hread

/-- The octets of a project's file that gives a text for patterns. -/
def spelled : List UInt8 := Text.Utf8.encode "\x7b\"exclude\":\"ab\"\x7d".toList

theorem read_spelled : (match readJson spelled with
    | .ok (.ok (.mapping [(.text a, .text b)])) => decide ((a, b) = ("exclude", "ab"))
    | _ => false) = true := by
  decide +kernel

/-- A text is refused as a list of patterns, but with one more pattern its characters are taken. -/
theorem resolve_spelled :
    resolve (onlyProject spelled) noOptions [] =
        .error (.config (.invalidSettings [["exclude"]])) ∧
      resolve (onlyProject spelled) noOptions ["c"] =
        .ok { CompilerConfig.default with excluded := ["a", "b", "c"] } ∧
      ¬AddsPatterns ["c"] (resolve (onlyProject spelled) noOptions [])
        (resolve (onlyProject spelled) noOptions ["c"]) := by
  have hread := read_spelled
  split at hread
  · rename_i a b heq
    obtain ⟨rfl, rfl⟩ := by simpa using hread
    have hproject := projectEntries_onlyProject heq
    have hwithout : resolve (onlyProject spelled) noOptions [] =
        .error (.config (.invalidSettings [["exclude"]])) := by
      rw [resolve_without globalConfig_onlyProject hproject]
      rfl
    have hwith : resolve (onlyProject spelled) noOptions ["c"] =
        .ok { CompilerConfig.default with excluded := ["a", "b", "c"] } := by
      rw [resolve_of_exclude globalConfig_onlyProject hproject rfl]
      rfl
    exact ⟨hwithout, hwith, by simp [hwithout, hwith, AddsPatterns]⟩
  · simp at hread

end Config

end EndpointBindings
