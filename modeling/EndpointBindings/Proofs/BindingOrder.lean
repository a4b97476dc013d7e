import EndpointBindings.Emission
import EndpointBindings.Proofs.ExceptResults
import EndpointBindings.Proofs.FunctionNames
import EndpointBindings.Proofs.NameMapLookup

/-!
The bindings of a registry: one for each endpoint and verb, in order, with one function for each
path. The names of functions are taken anew for every verb, and do not clash for all that, since
each tells its verb.
-/

namespace EndpointBindings.Emission

open EndpointBindings.Naming

/-- An endpoint under its own name, with verbs and paths. -/
def IsEmittable (name : String) (e : Endpoint) : Prop :=
  e.name = some name ∧ e.verbs ≠ [] ∧ e.paths ≠ []

/-- The binding of an endpoint and a verb. -/
def bindingOf (name : String) (e : Endpoint) (verb : Verb) : Binding :=
  ⟨name, verb, functionsOf e (className name) verb [] e.paths⟩

/-- The order of bindings, by endpoint and then by verb. -/
def Precedes (a b : Binding) : Prop :=
  a.endpoint < b.endpoint ∨ a.endpoint = b.endpoint ∧ a.verb.rank < b.verb.rank

section Functions

variable {e : Endpoint} {cls : String} {verb : Verb} {taken : List String}
  {paths : List PathTemplate} {f : Function}

theorem functionsOf_paths :
    (functionsOf e cls verb taken paths).map (·.path) = paths := by
  rw [functionsOf, map_nameInTurn_eq_map id fun _ _ => by rfl, List.map_id]

/-- The function of a path, under a name that its parts tell. -/
theorem exists_functionOf_eq (hf : f ∈ functionsOf e cls verb taken paths) :
    ∃ path ∈ paths, ∃ k, f = functionOf e cls verb path
      (numbered (functionName verb (path.parts.map (·.name))) k) := by
  obtain ⟨path, hpath, before, -, rfl⟩ := exists_of_mem_nameInTurn hf
  obtain ⟨k, hk⟩ : ∃ k, uniqueFunctionName _ before = numbered _ k := exists_fresh_eq
  exact ⟨path, hpath, k, congrArg _ hk⟩

theorem verb_of_mem_functionsOf (hf : f ∈ functionsOf e cls verb taken paths) :
    f.verb = verb := by
  obtain ⟨path, -, k, rfl⟩ := exists_functionOf_eq hf
  rfl

theorem name_of_mem_functionsOf (hf : f ∈ functionsOf e cls verb taken paths) :
    ∃ k, f.name = numbered (functionName verb (f.path.parts.map (·.name))) k := by
  obtain ⟨path, -, k, rfl⟩ := exists_functionOf_eq hf
  exact ⟨k, rfl⟩

/-- The functions of a verb are named in turn, in the order of the paths. -/
theorem functionsOf_names :
    (functionsOf e cls verb taken paths).map (·.name) = answers taken
      (paths.map fun path => .number (functionName verb (path.parts.map (·.name)))) := by
  rw [functionsOf, map_nameInTurn, answers, nameInTurn_map]
  rfl

theorem functionsOf_names_nodup :
    ((functionsOf e cls verb taken paths).map (·.name)).Nodup ∧
      ∀ f ∈ functionsOf e cls verb taken paths, f.name ∉ taken := by
  have hnames : ((functionsOf e cls verb taken paths).map (·.name)).Nodup ∧
      ∀ name ∈ (functionsOf e cls verb taken paths).map (·.name), name ∉ taken := by
    rw [functionsOf_names]
    exact answers_nodup
  exact ⟨hnames.1, fun f hf => hnames.2 f.name (List.mem_map_of_mem hf)⟩

theorem startsWith_of_mem_functionsOf (hf : f ∈ functionsOf e cls verb taken paths) :
    StartsWith verb f.name := by
  obtain ⟨k, hname⟩ := name_of_mem_functionsOf hf
  rw [hname]
  exact startsWith_functionName.numbered k

end Functions

section Bindings

variable {r : Registry} {name : String} {e : Endpoint} {b : Binding}
  {entries : List (String × Endpoint)}

theorem bindingsOf_eq (h : IsEmittable name e) :
    bindingsOf e = .ok ((Verb.canonical e.verbs).map (bindingOf name e)) := by
  obtain ⟨hname, hverbs, hpaths⟩ := h
  have hverbs : e.verbs.isEmpty = false := by simpa using hverbs
  have hpaths : e.paths.isEmpty = false := by simpa using hpaths
  unfold bindingsOf
  rw [hname, hverbs, hpaths]
  rfl

theorem emitAll_eq (h : ∀ d ∈ entries, IsEmittable d.1 d.2) :
    emitAll (entries.map (·.2)) =
      .ok (entries.flatMap fun d => (Verb.canonical d.2.verbs).map (bindingOf d.1 d.2)) := by
  induction entries with
  | nil => rfl
  | cons d rest ih =>
      rw [List.map_cons, emitAll, bindingsOf_eq (h d List.mem_cons_self),
        ih fun d hd => h d (List.mem_cons_of_mem _ hd)]
      rfl

/-- The bindings of a registry that has endpoints fit for emission only. -/
def bindingsFor (r : Registry) : List Binding :=
  r.entries.flatMap fun d => (Verb.canonical d.2.verbs).map (bindingOf d.1 d.2)

theorem mem_bindingsFor_iff :
    b ∈ bindingsFor r ↔ ∃ e, r.get? b.endpoint = some e ∧ b.verb ∈ e.verbs ∧
      b = bindingOf b.endpoint e b.verb := by
  unfold bindingsFor
  rw [List.mem_flatMap]
  constructor
  · rintro ⟨⟨name, e⟩, hmem, hb⟩
    obtain ⟨verb, hverb, rfl⟩ := List.mem_map.mp hb
    exact ⟨e, NameMap.mem_entries_iff.mp hmem, Verb.mem_canonical.mp hverb, rfl⟩
  · rintro ⟨e, he, hverb, hb⟩
    refine ⟨(b.endpoint, e), NameMap.mem_entries_iff.mpr he, ?_⟩
    exact List.mem_map.mpr ⟨b.verb, Verb.mem_canonical.mpr hverb, hb.symm⟩

theorem canonical_pairwise (verbs : List Verb) :
    (Verb.canonical verbs).Pairwise fun v w => v.rank < w.rank := by
  have hall : Verb.all.Pairwise fun v w => v.rank < w.rank := by decide
  exact hall.filter _

theorem bindingsFor_pairwise : (bindingsFor r).Pairwise Precedes := by
  unfold bindingsFor
  rw [List.pairwise_flatMap]
  constructor
  · intro d _
    refine List.pairwise_map.mpr ((canonical_pairwise _).imp fun hrank => ?_)
    exact .inr ⟨rfl, hrank⟩
  · apply r.ordered.imp
    intro _ _ hlt a ha b hb
    obtain ⟨v, -, rfl⟩ := List.mem_map.mp ha
    obtain ⟨w, -, rfl⟩ := List.mem_map.mp hb
    exact .inl hlt

theorem names_nodup_of_mem_bindingsFor (hb : b ∈ bindingsFor r) : b.functionNames.Nodup := by
  obtain ⟨e, -, -, hb⟩ := mem_bindingsFor_iff.mp hb
  rw [hb]
  exact functionsOf_names_nodup.1

theorem startsWith_of_mem_bindingsFor (hb : b ∈ bindingsFor r) {f : String}
    (hf : f ∈ b.functionNames) : StartsWith b.verb f := by
  obtain ⟨e, -, -, hb⟩ := mem_bindingsFor_iff.mp hb
  rw [hb] at hf
  obtain ⟨g, hg, rfl⟩ := List.mem_map.mp hf
  exact startsWith_of_mem_functionsOf hg

/-- The functions of one endpoint have different names, whatever their verbs. -/
theorem module_names_nodup :
    (((bindingsFor r).filter (·.endpoint == name)).flatMap Binding.functionNames).Nodup := by
  rw [List.nodup_flatMap]
  constructor
  · intro b hb
    exact names_nodup_of_mem_bindingsFor (List.mem_filter.mp hb).1
  · refine List.Pairwise.imp_of_mem ?_ (bindingsFor_pairwise.filter _)
    intro a b ha hb hprecedes f hfa hfb
    obtain ⟨ha, haname⟩ := List.mem_filter.mp ha
    obtain ⟨hb, hbname⟩ := List.mem_filter.mp hb
    have hsame : a.endpoint = b.endpoint := (beq_iff_eq.mp haname).trans (beq_iff_eq.mp hbname).symm
    have hverbs : a.verb = b.verb :=
      (startsWith_of_mem_bindingsFor ha hfa).unique (startsWith_of_mem_bindingsFor hb hfb)
    rcases hprecedes with hlt | ⟨-, hrank⟩
    · exact String.lt_irrefl _ (hsame ▸ hlt)
    · rw [hverbs] at hrank
      exact Nat.lt_irrefl _ hrank

/-- A registry is emitted as one binding for each endpoint and verb in order, with a function for
each path under a name that no other function of the endpoint has. -/
theorem emit_binds_each_verb_once (hr : ∀ name e, r.get? name = some e → IsEmittable name e) :
    ∃ bindings, emit r = .ok bindings ∧ bindings.Pairwise Precedes ∧
      (∀ name e verb, r.get? name = some e → verb ∈ e.verbs →
        ∃! b, b ∈ bindings ∧ b.endpoint = name ∧ b.verb = verb) ∧
      (∀ b ∈ bindings, ∃ e, r.get? b.endpoint = some e ∧ b.verb ∈ e.verbs ∧
        b.functions.map (·.path) = e.paths ∧ ∀ f ∈ b.functions, f.verb = b.verb ∧
          ∃ k, f.name = numbered (functionName b.verb (f.path.parts.map (·.name))) k) ∧
      (∀ name,
        ((bindings.filter (·.endpoint == name)).flatMap Binding.functionNames).Nodup) ∧
      ∀ b ∈ bindings, ∀ f ∈ b.functionNames, IsIdentifier f := by
  have hemit : emit r = .ok (bindingsFor r) :=
    emitAll_eq fun d hd => hr d.1 d.2 (NameMap.mem_entries_iff.mp hd)
  refine ⟨bindingsFor r, hemit, bindingsFor_pairwise, fun name e verb he hverb => ?_,
    fun b hb => ?_, fun name => module_names_nodup, fun b hb f hf => ?_⟩
  · refine ⟨bindingOf name e verb, ⟨?_, rfl, rfl⟩, ?_⟩
    · exact mem_bindingsFor_iff.mpr ⟨e, he, hverb, rfl⟩
    · rintro b ⟨hb, rfl, rfl⟩
      obtain ⟨e', he', -, hb⟩ := mem_bindingsFor_iff.mp hb
      obtain rfl : e = e' := Option.some.inj (he.symm.trans he')
      exact hb
  · obtain ⟨e, he, hverb, hb⟩ := mem_bindingsFor_iff.mp hb
    refine ⟨e, he, hverb, ?_, fun f hf => ?_⟩
    · rw [hb]
      exact functionsOf_paths
    · rw [hb] at hf
      exact ⟨verb_of_mem_functionsOf hf, name_of_mem_functionsOf hf⟩
  · exact (startsWith_of_mem_bindingsFor hb hf).isIdentifier

/-- An endpoint with two paths whose parts have one identifier. -/
def clashing : Endpoint :=
  let part (name : String) : Segment := .part ⟨name, .string, none⟩
  { name := some "docs.get", documentation := none, verbs := [.get, .head]
    paths :=
      [⟨"/\x7bid\x7d", [.literal "/", part "id"]⟩,
       ⟨"/\x7bID\x7d", [.literal "/", part "ID"]⟩]
    params := [], body := none }

theorem emit_clashing :
    ∃ bindings, emit (NameMap.empty.insert "docs.get" clashing) = .ok bindings ∧
      (∃! b, b ∈ bindings ∧ b.endpoint = "docs.get" ∧ b.verb = .head) ∧
      ((bindings.filter (·.endpoint == "docs.get")).flatMap Binding.functionNames).Nodup := by
  have hr : ∀ name e, (NameMap.empty.insert "docs.get" clashing).get? name = some e →
      IsEmittable name e := by
    intro name e he
    rw [NameMap.get?_insert] at he
    split at he
    · rename_i hname
      obtain rfl := Option.some.inj he
      exact ⟨by rw [← hname]; rfl, by decide, by decide⟩
    · simp at he
  obtain ⟨bindings, hemit, -, hunique, -, hnodup, -⟩ := emit_binds_each_verb_once hr
  have hget : (NameMap.empty.insert "docs.get" clashing).get? "docs.get" = some clashing := by
    rw [NameMap.get?_insert, if_pos rfl]
  exact ⟨bindings, hemit, hunique _ _ .head hget (by decide), hnodup _⟩

end Bindings

end EndpointBindings.Emission
