import EndpointBindings.Proofs.AssemblyDefects

/-!
The two shapes of a document. A body under a name and a body that holds the name itself are the same
document: an endpoint takes no more from its body than four fields, and where a body has none of
them either shape lacks the first.
-/

namespace EndpointBindings

section Fields

variable {name other : String} {value : Value} {entries : Fields} {e : Value × Value}

/-- A field that is set leaves the others as they are. -/
theorem Value.field?_insertEntry_of_ne (h : other ≠ name) :
    Value.field? other (Value.insertEntry (.text name) value entries) =
      Value.field? other entries := by
  have hne : (Value.text name).sameKey (.text other) = false := by simpa using h.symm
  induction entries with
  | nil => simp [Value.insertEntry, Value.field?, hne]
  | cons d rest ih =>
      obtain ⟨k, v⟩ := d
      rw [Value.insertEntry]
      split
      · rename_i hk
        obtain rfl := Json.sameKey_text_iff.mp hk
        simp [Value.field?, hne]
      · unfold Value.field? at ih ⊢
        rw [List.find?_cons, List.find?_cons]
        cases k.sameKey (.text other) with
        | true => rfl
        | false => exact ih

theorem Value.eq_of_insertEntry_eq_singleton
    (h : Value.insertEntry (.text name) value entries = [e]) : e.2 = value := by
  cases entries with
  | nil =>
      obtain rfl := List.singleton_inj.mp h
      rfl
  | cons d rest =>
      obtain ⟨k, v⟩ := d
      rw [Value.insertEntry] at h
      split at h
      · obtain ⟨rfl, -⟩ := List.cons.inj h
        rfl
      · obtain ⟨-, hrest⟩ := List.cons.inj h
        have hset := Value.field?_insertEntry name value rest
        rw [hrest] at hset
        simp [Value.field?] at hset

end Fields

namespace Assembly

section Shapes

variable {document fields fields' body : Fields} {name : String}

/-- The endpoint of a body under a name. -/
def assembleBody (name : Option String) (fields : Fields) : Except Failure Endpoint := do
  let verbs ← verbs (Value.field "methods" fields)
  let url ← requireUrl fields
  let parts ← requireMapping ((Value.field "parts" url).orElse (.mapping [])) "url.parts"
  let paths ← paths url parts
  let declared ← requireMapping ((Value.field "params" url).orElse (.mapping [])) "url.params"
  let params ← params declared
  let documentation ← documentation (Value.field "documentation" fields)
  let body ← Assembly.body (Value.field "body" fields)
  return { name, documentation, verbs, paths, params, body }

theorem assemble_eq_assembleBody {name : Option String} (h : unwrap document = .ok (name, fields)) :
    assemble document = assembleBody name fields := by
  rw [assemble_eq, h]
  rfl

theorem assemble_eq_error {failure : Failure} (h : unwrap document = .error failure) :
    assemble document = .error failure := by
  rw [assemble_eq, h]
  rfl

theorem assembleBody_congr {name : Option String}
    (h : ∀ field ∈ bodyFields, Value.field field fields = Value.field field fields') :
    assembleBody name fields = assembleBody name fields' := by
  unfold assembleBody requireUrl
  rw [h "methods" (by decide), h "url" (by decide), h "documentation" (by decide),
    h "body" (by decide)]

theorem field?_eq_none_of_not_isBody (h : isBody fields = false) :
    ∀ field ∈ bodyFields, Value.field? field fields = none := by
  intro field hfield
  simpa using List.any_eq_false.mp h field hfield

/-- A body with none of its fields lacks the methods before all else. -/
theorem assembleBody_of_not_isBody {name : Option String} (h : isBody fields = false) :
    assembleBody name fields = fail (.missingField "methods") := by
  have hmethods : Value.field "methods" fields = .null := by
    rw [Value.field, field?_eq_none_of_not_isBody h _ (by decide)]
    rfl
  rw [assembleBody, hmethods]
  rfl

theorem unwrap_wrapped (hname : name ∉ bodyFields) :
    unwrap [(.text name, .mapping body)] = .ok (some name, body) := by
  have hnone : isBody [(.text name, .mapping body)] = false := by
    apply List.any_eq_false.mpr
    intro field hfield
    have hne : name ≠ field := by
      rintro rfl
      exact hname hfield
    simp [Value.field?, hne]
  unfold unwrap
  rw [hnone, if_neg (by simp)]
  rfl

/-- A body that is told its name. -/
def named (name : String) (body : Fields) : Fields :=
  Value.insertEntry (.text "name") (.text name) body

theorem field?_named {field : String} (h : field ∈ bodyFields) :
    Value.field? field (named name body) = Value.field? field body := by
  apply Value.field?_insertEntry_of_ne
  rintro rfl
  exact absurd h (by decide)

theorem isBody_named : isBody (named name body) = isBody body := by
  rw [Bool.eq_iff_iff, isBody, isBody, List.any_eq_true, List.any_eq_true]
  apply exists_congr
  intro field
  exact and_congr_right fun hfield => by rw [field?_named hfield]

theorem unwrap_named (h : isBody body = true) :
    unwrap (named name body) = .ok (some name, named name body) := by
  have hname : Value.field "name" (named name body) = .text name := by
    rw [Value.field, named, Value.field?_insertEntry]
    rfl
  unfold unwrap
  rw [isBody_named, h, if_pos rfl, hname]

theorem unwrap_named_of_not_isBody (h : isBody body = false) :
    unwrap (named name body) = fail (.missingField "methods") := by
  unfold unwrap
  rw [isBody_named, h, if_neg (by simp)]
  split
  · rename_i key v hsingle
    obtain rfl : v = .text name := Value.eq_of_insertEntry_eq_singleton hsingle
    rfl
  · rfl

/-- A body under a name and the body that holds the name are one document: they are the same
endpoint, or fail for the same reason. -/
theorem assemble_wrapped_eq_named (hname : name ∉ bodyFields) (body : Fields) :
    assemble [(.text name, .mapping body)] = assemble (named name body) := by
  rw [assemble_eq_assembleBody (unwrap_wrapped hname)]
  cases hbody : isBody body with
  | true =>
      rw [assemble_eq_assembleBody (unwrap_named hbody)]
      apply assembleBody_congr
      intro field hfield
      rw [Value.field, Value.field, field?_named hfield]
  | false =>
      rw [assembleBody_of_not_isBody hbody, assemble_eq_error (unwrap_named_of_not_isBody hbody)]
      rfl

end Shapes

/-- A body that has a name of its own, which is no text. -/
def numberedBody : Fields :=
  [(.text "name", .int 5), (.text "methods", .list [.text "GET"]),
    (.text "url", .mapping [(.text "path", .text "/")])]

theorem assemble_wrapped_eq_named_ping :
    assemble [(.text "ping", .mapping numberedBody)] = assemble (named "ping" numberedBody) ∧
      ∃ e, assemble (named "ping" numberedBody) = .ok e ∧ e.name = some "ping" := by
  refine ⟨assemble_wrapped_eq_named (by decide) numberedBody, ?_⟩
  have hname : (match assemble (named "ping" numberedBody) with
      | .ok e => e.name == some "ping"
      | .error _ => false) = true := by decide +kernel
  split at hname
  · rename_i e he
    exact ⟨e, he, beq_iff_eq.mp hname⟩
  · exact absurd hname Bool.false_ne_true

end Assembly

end EndpointBindings
