import EndpointBindings.Proofs.AssemblyOrder

/-!
Families of documents that declare the same in another order have one package. What is shown of an
option that is an object is the one place where the order of its keys is seen.
-/

namespace EndpointBindings

namespace Registry

variable {r r' : Registry} {e : Endpoint} {es es' : List Endpoint} {name : String}

/-- An endpoint with its name. -/
def named (e : Endpoint) : String × Endpoint := (e.name.getD "", e)

/-- The names are new beside one more name if they are new and none of them is that name. -/
theorem forall_new_insert_iff :
    (∀ d ∈ es, ∃ other, d.name = some other ∧ (r.insert name e).get? other = none) ↔
      (∀ d ∈ es, ∃ other, d.name = some other ∧ r.get? other = none) ∧
        some name ∉ es.map (·.name) := by
  simp only [NameMap.get?_insert, List.mem_map, not_exists, not_and]
  constructor
  · intro h
    refine ⟨fun d hd => ?_, fun d hd hsame => ?_⟩
    · obtain ⟨other, hother, hnone⟩ := h d hd
      split at hnone
      · simp at hnone
      · exact ⟨other, hother, hnone⟩
    · obtain ⟨other, hother, hnone⟩ := h d hd
      obtain rfl := Option.some.inj (hother.symm.trans hsame)
      simp at hnone
  · rintro ⟨h, hfresh⟩ d hd
    obtain ⟨other, hother, hnone⟩ := h d hd
    have hne : name ≠ other := by
      rintro rfl
      exact hfresh d hd hother
    exact ⟨other, hother, by rw [if_neg hne, hnone]⟩

theorem add_eq_ok : add r es = .ok r' ↔
    (∀ e ∈ es, ∃ name, e.name = some name ∧ r.get? name = none) ∧ (es.map (·.name)).Nodup ∧
      r' = (es.map named).foldl (fun m p => m.insert p.1 p.2) r := by
  induction es generalizing r with
  | nil => simp [add, eq_comm]
  | cons e rest ih =>
      rw [add]
      cases hname : e.name with
      | none => simp [hname]
      | some name =>
          have hnamed : named e = (name, e) := by rw [named, hname]; rfl
          dsimp only
          split
          · rename_i hbound
            simp only [reduceCtorEq, List.forall_mem_cons, hname, Option.some.injEq,
              exists_eq_left', false_iff, not_and]
            rintro ⟨hnone, -⟩
            simp [NameMap.contains, hnone] at hbound
          · rename_i hbound
            have hnone : r.get? name = none := by simpa [NameMap.contains] using hbound
            rw [ih, forall_new_insert_iff]
            simp only [List.forall_mem_cons, hname, Option.some.injEq, exists_eq_left', hnone,
              true_and, List.map_cons, List.nodup_cons, List.foldl_cons, hnamed, and_assoc]

/-- Endpoints make a registry if each has a name of its own. -/
theorem ofEndpoints_eq_ok : ofEndpoints es = .ok r ↔
    none ∉ es.map (·.name) ∧ (es.map (·.name)).Nodup ∧ r = .ofPairs (es.map named) := by
  have hnames : (∀ e ∈ es, ∃ name, e.name = some name ∧
      (NameMap.empty : Registry).get? name = none) ↔ none ∉ es.map (·.name) := by
    simp only [NameMap.get?_empty, and_true, List.mem_map, not_exists, not_and]
    exact forall₂_congr fun e _ => Option.ne_none_iff_exists'.symm
  rw [ofEndpoints, add_eq_ok, hnames]
  rfl

theorem get?_of_ofEndpoints (h : ofEndpoints es = .ok r) :
    r.get? name = some e ↔ e ∈ es ∧ e.name = some name := by
  obtain ⟨hnone, hnodup, rfl⟩ := ofEndpoints_eq_ok.mp h
  have hname : ∀ d ∈ es, d.name = some (named d).1 := by
    intro d hd
    rw [named]
    cases hname : d.name with
    | none => exact absurd (List.mem_map.mpr ⟨d, hd, hname⟩) hnone
    | some name => rfl
  have hnodup : ((es.map named).map (·.1)).Nodup := by
    apply List.Nodup.of_map some
    rw [List.map_congr_left hname] at hnodup
    rwa [List.map_map, List.map_map]
  rw [NameMap.get?_ofPairs_iff hnodup, List.mem_map]
  constructor
  · rintro ⟨d, hd, heq⟩
    obtain ⟨rfl, rfl⟩ := Prod.mk.inj heq
    exact ⟨hd, hname d hd⟩
  · rintro ⟨he, heq⟩
    refine ⟨e, he, Prod.ext ?_ rfl⟩
    exact Option.some.inj ((hname e he).symm.trans heq)

/-- Whether endpoints make a registry does not hang on their order. -/
theorem exists_ofEndpoints (hes : InSomeOrder (fun e e' => e.name = e'.name) es es')
    (h : ofEndpoints es = .ok r) : ∃ r', ofEndpoints es' = .ok r' := by
  obtain ⟨hnone, hnodup, -⟩ := ofEndpoints_eq_ok.mp h
  have hperm := hes.map_perm fun _ _ hname => hname
  exact ⟨_, ofEndpoints_eq_ok.mpr ⟨mt hperm.mem_iff.mpr hnone, hperm.nodup hnodup, rfl⟩⟩

end Registry

open Assembly Emission Value

/-- The endpoint of a document, named by what stands first where the document names none. -/
def Gives (f : String × Fields) (e : Endpoint) : Prop :=
  ∃ d, assemble f.2 = .ok d ∧ e = d.orNamed f.1

theorem Gives.isEmittable {f : String × Fields} {e : Endpoint} {name : String} (h : Gives f e)
    (hname : e.name = some name) : IsEmittable name e := by
  obtain ⟨d, hd, rfl⟩ := h
  obtain ⟨hverbs, hpaths⟩ := isEmittable_of_assemble hd
  exact ⟨hname, hverbs, hpaths⟩

theorem Gives.moduleOf_eq {f f' : String × Fields} {e e' : Endpoint} (hname : f.1 = f'.1)
    (hd : DocumentAlike f.2 f'.2) (hchoices : KeepsChoices f.2 f'.2) (h : Gives f e)
    (h' : Gives f' e') : e.name = e'.name ∧ moduleOf e = moduleOf e' := by
  obtain ⟨d, hassemble, rfl⟩ := h
  obtain ⟨d', hassemble', rfl⟩ := h'
  have hsame := rearranged_of_assemble hd hchoices hassemble hassemble'
  have hnames : d.name.getD f.1 = d'.name.getD f'.1 := by
    have hown : d.name = d'.name := hsame.name
    rw [hown, hname]
  refine ⟨congrArg some hnames, ?_⟩
  -- The names of unknown types may show the order of keys, so they are erased on both sides first.
  rw [← moduleOf_eraseTypeNames (d.orNamed f.1), ← moduleOf_eraseTypeNames (d'.orNamed f'.1)]
  exact moduleOf_eq_of_rearranged ⟨congrArg some hnames, hsame.documentation, hsame.verbs,
    hsame.paths, hsame.params, hsame.body⟩

section Families

variable {family family' : List (String × Fields)} {es es' : List Endpoint} {r : Registry}

/-- A package does not tell the order in which its documents declare things and are added, as long
as the options of choices are shown as the same texts. -/
theorem package_eq_of_alike
    (hfamily : InSomeOrder (fun f f' => f.1 = f'.1 ∧ DocumentAlike f.2 f'.2 ∧ KeepsChoices f.2 f'.2)
      family family')
    (hes : List.Forall₂ Gives family es) (hes' : List.Forall₂ Gives family' es')
    (hr : Registry.ofEndpoints es = .ok r) :
    ∃ r', Registry.ofEndpoints es' = .ok r' ∧ package r = package r' := by
  have hall : InSomeOrder (fun e e' => e.name = e'.name ∧ moduleOf e = moduleOf e') es es' :=
    hfamily.results hes hes' fun f f' e e' ⟨hname, hd, hchoices⟩ =>
      Gives.moduleOf_eq hname hd hchoices
  obtain ⟨r', hr'⟩ := Registry.exists_ofEndpoints (hall.imp fun _ _ h => h.1) hr
  refine ⟨r', hr', package_eq_of_modules ?_ ?_ ?_ ?_⟩
  · intro name e he
    obtain ⟨hmem, hname⟩ := (Registry.get?_of_ofEndpoints hr).mp he
    obtain ⟨f, -, hf⟩ := exists_of_mem_forall₂ hes.flip hmem
    exact Gives.isEmittable hf hname
  · intro name e he
    obtain ⟨hmem, hname⟩ := (Registry.get?_of_ofEndpoints hr').mp he
    obtain ⟨f, -, hf⟩ := exists_of_mem_forall₂ hes'.flip hmem
    exact Gives.isEmittable hf hname
  · apply NameMap.names_eq_of_mem_iff
    intro name
    rw [NameMap.mem_names_iff, NameMap.mem_names_iff]
    simp only [Registry.get?_of_ofEndpoints hr, Registry.get?_of_ofEndpoints hr']
    constructor
    · rintro ⟨e, hmem, hname⟩
      obtain ⟨e', hmem', hsame, -⟩ := hall.exists_right hmem
      exact ⟨e', hmem', hsame ▸ hname⟩
    · rintro ⟨e', hmem', hname⟩
      obtain ⟨e, hmem, hsame, -⟩ := hall.exists_left hmem'
      exact ⟨e, hmem, hsame ▸ hname⟩
  · intro name e e' he he'
    obtain ⟨hmem, hname⟩ := (Registry.get?_of_ofEndpoints hr).mp he
    obtain ⟨d, hd, hsame, hmodules⟩ := hall.exists_right hmem
    have hbound := (Registry.get?_of_ofEndpoints hr').mpr ⟨hd, hsame ▸ hname⟩
    obtain rfl := Option.some.inj (he'.symm.trans hbound)
    exact hmodules

end Families

/-- A document with the entries of its URL, which is sent by the listed methods. -/
def documentOf (methods : List String) (url : Fields) : Fields :=
  [(.text "methods", .list (methods.map .text)), (.text "url", .mapping url)]

/-- The entry of a parameter that is a choice. -/
def choiceOf (name : String) (options : List Value) : Value × Value :=
  (.text name, .mapping [(.text "type", .text "enum"), (.text "options", .list options)])

def expandParam : Value × Value := choiceOf "expand" [.text "open", .text "closed"]

def formatParam : Value × Value := choiceOf "format" [.text "json", .bool true]

def pingDocument : Fields := documentOf ["HEAD"] [(.text "path", .text "/")]

def searchDocument : Fields :=
  documentOf ["GET", "POST"] [(.text "paths", .list (["/", "/all"].map .text)),
    (.text "params", .mapping [expandParam, formatParam])]

/-- The same search in another order. -/
def shuffledSearchDocument : Fields :=
  documentOf ["POST", "GET", "POST"] [(.text "params", .mapping [formatParam, expandParam]),
    (.text "paths", .list (["/", "/all", "/"].map .text))]

theorem package_eq_of_alike_searching :
    ∃ d e e' r r', Gives ("ping", pingDocument) d ∧ Gives ("search", searchDocument) e ∧
      Gives ("search", shuffledSearchDocument) e' ∧ Registry.ofEndpoints [e, d] = .ok r ∧
      Registry.ofEndpoints [d, e'] = .ok r' ∧ package r = package r' := by
  obtain ⟨d, hd, hping⟩ : ∃ d, Gives ("ping", pingDocument) d ∧ d.name = some "ping" :=
    ⟨_, ⟨_, rfl, rfl⟩, rfl⟩
  obtain ⟨e, he, hsearch⟩ : ∃ e, Gives ("search", searchDocument) e ∧ e.name = some "search" :=
    ⟨_, ⟨_, rfl, rfl⟩, rfl⟩
  obtain ⟨e', he'⟩ : ∃ e', Gives ("search", shuffledSearchDocument) e' := ⟨_, _, rfl, rfl⟩
  have hdeclared : ∀ {R : Value → Value → Value → Prop}, (∀ k v, R k v v) →
      Keyed R [expandParam, formatParam] [formatParam, expandParam] := fun hrefl =>
    .inr ⟨by decide, _, .swap _ _ _, .cons ⟨rfl, hrefl _ _⟩ (.cons ⟨rfl, hrefl _ _⟩ .nil)⟩
  have hparams : Reordered (.mapping [expandParam, formatParam])
      (.mapping [formatParam, expandParam]) :=
    .of_keyed (hdeclared fun _ => .refl)
  have hpaths : SamePaths (.list (["/", "/all"].map .text))
      (.list (["/", "/all", "/"].map .text)) :=
    ⟨_, _, rfl, rfl, by decide⟩
  have hmethods : SameMethods (.list (["GET", "POST"].map .text))
      (.list (["POST", "GET", "POST"].map .text)) :=
    ⟨_, _, rfl, rfl, fun m => by simp only [List.map, List.mem_cons, List.not_mem_nil]; tauto⟩
  have halike : DocumentAlike searchDocument shuffledSearchDocument := by
    refine .inl ⟨rfl, .of_forall₂ (by decide) (.cons ⟨rfl, .inr (.inl ⟨rfl, hmethods⟩)⟩
      (.cons ⟨rfl, .inr (.inr ⟨rfl, _, _, rfl, rfl, ?_⟩)⟩ .nil))⟩
    exact .inr ⟨by decide, _, .swap _ _ _,
      .cons ⟨rfl, .inl hparams⟩ (.cons ⟨rfl, .inr ⟨rfl, hpaths⟩⟩ .nil)⟩
  have hchoices : KeepsChoices searchDocument shuffledSearchDocument := by
    intro kind hkind name
    rcases List.mem_cons.mp hkind with rfl | hkind
    · exact fun _ => rfl
    · obtain rfl := List.mem_singleton.mp hkind
      have hfield : field name [expandParam, formatParam] = field name [formatParam, expandParam] :=
        (hdeclared fun _ _ => rfl).field (fun _ _ => rfl) name
      have hown : declarationAt searchDocument "params" name =
          (field name [expandParam, formatParam]).contents := rfl
      have hown' : declarationAt shuffledSearchDocument "params" name =
          (field name [formatParam, expandParam]).contents := rfl
      rw [hown, hown', hfield]
      exact fun _ => rfl
  have hfamily : InSomeOrder
      (fun f f' => f.1 = f'.1 ∧ DocumentAlike f.2 f'.2 ∧ KeepsChoices f.2 f'.2)
      [("search", searchDocument), ("ping", pingDocument)]
      [("ping", pingDocument), ("search", shuffledSearchDocument)] :=
    ⟨_, .swap _ _ _, .cons ⟨rfl, .inl ⟨rfl, .inl rfl⟩, fun _ _ _ _ => rfl⟩
      (.cons ⟨rfl, halike, hchoices⟩ .nil)⟩
  have hr : Registry.ofEndpoints [e, d] = .ok (.ofPairs [Registry.named e, Registry.named d]) :=
    Registry.ofEndpoints_eq_ok.mpr ⟨by simp [hping, hsearch], by simp [hping, hsearch], rfl⟩
  obtain ⟨r', hr', hpackage⟩ := package_eq_of_alike hfamily (.cons he (.cons hd .nil))
    (.cons hd (.cons he' .nil)) hr
  exact ⟨d, e, e', _, r', hd, he, he', hr, hr', hpackage⟩

/-- The entries of a URL with one choice. -/
def choiceUrl (option : Value) : Fields :=
  [(.text "path", .text "/"), (.text "params", .mapping [choiceOf "q" [option]])]

/-- A document with one choice, under its name. -/
def choiceDocument (option : Value) : Fields :=
  [(.text "a", .mapping (documentOf ["GET"] (choiceUrl option)))]

/-- The endpoint of such a document, by the text of its option. -/
def choiceEndpoint (option : String) : Endpoint :=
  { name := some "a", documentation := none, verbs := [.get]
    paths := [⟨"/", [.literal "/"]⟩]
    params := [("q", ⟨.choice ⟨[option], List.cons_ne_nil _ _⟩, false, none, none⟩)], body := none }

def choiceRegistry (option : String) : Registry := NameMap.empty.insert "a" (choiceEndpoint option)

/-- The option of the first document, and the same option in another order. -/
def flagsOption : Value := .mapping [(.text "x", .bool true), (.text "y", .bool false)]

def shuffledFlagsOption : Value := .mapping [(.text "y", .bool false), (.text "x", .bool true)]

def flagsText : String := "\x7b'x': True, 'y': False\x7d"

def shuffledFlagsText : String := "\x7b'y': False, 'x': True\x7d"

theorem flags_packages_ne :
    package (choiceRegistry flagsText) ≠ package (choiceRegistry shuffledFlagsText) := by
  decide +kernel

/-- An option that is an object is shown with its keys in their order. -/
theorem package_tells_keys_of_option :
    DocumentAlike (choiceDocument flagsOption) (choiceDocument shuffledFlagsOption) ∧
      Gives ("a", choiceDocument flagsOption) (choiceEndpoint flagsText) ∧
      Gives ("a", choiceDocument shuffledFlagsOption) (choiceEndpoint shuffledFlagsText) ∧
      Registry.ofEndpoints [choiceEndpoint flagsText] = .ok (choiceRegistry flagsText) ∧
      Registry.ofEndpoints [choiceEndpoint shuffledFlagsText] =
        .ok (choiceRegistry shuffledFlagsText) ∧
      package (choiceRegistry flagsText) ≠ package (choiceRegistry shuffledFlagsText) := by
  have hoption : Reordered flagsOption shuffledFlagsOption := .of_keyed
    (.inr ⟨by decide, _, .swap _ _ _, .cons ⟨rfl, .refl _⟩ (.cons ⟨rfl, .refl _⟩ .nil)⟩)
  have hoptions : Reordered (.list [flagsOption]) (.list [shuffledFlagsOption]) :=
    .of_step (.list rfl rfl (.cons hoption .nil))
  have hchoice : Reordered (choiceOf "q" [flagsOption]).2 (choiceOf "q" [shuffledFlagsOption]).2 :=
    .of_keyed (.of_forall₂ (by decide) (.cons ⟨rfl, .refl _⟩ (.cons ⟨rfl, hoptions⟩ .nil)))
  have hparams : Reordered (.mapping [choiceOf "q" [flagsOption]])
      (.mapping [choiceOf "q" [shuffledFlagsOption]]) :=
    .of_keyed (.of_forall₂ (by decide) (.cons ⟨rfl, hchoice⟩ .nil))
  have hurl : Reordered (.mapping (choiceUrl flagsOption))
      (.mapping (choiceUrl shuffledFlagsOption)) :=
    .of_keyed (.of_forall₂ (by decide) (.cons ⟨rfl, .refl _⟩ (.cons ⟨rfl, hparams⟩ .nil)))
  have hbody : Keyed BodyEntryAlike (documentOf ["GET"] (choiceUrl flagsOption))
      (documentOf ["GET"] (choiceUrl shuffledFlagsOption)) :=
    .of_forall₂ (by decide) (.cons ⟨rfl, .inl (.refl _)⟩ (.cons ⟨rfl, .inl hurl⟩ .nil))
  have halike : DocumentAlike (choiceDocument flagsOption) (choiceDocument shuffledFlagsOption) :=
    .inr ⟨rfl, _, _, _, _, _, rfl, rfl, rfl, rfl, hbody⟩
  exact ⟨halike, ⟨_, rfl, rfl⟩, ⟨_, rfl, rfl⟩, rfl, rfl, flags_packages_ne⟩

end EndpointBindings
