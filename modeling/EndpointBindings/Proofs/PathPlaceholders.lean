import Mathlib.Data.List.DropRight
import EndpointBindings.Proofs.TemplateGrammar
import EndpointBindings.Proofs.TransportCall

/-!
The placeholders of a path, and the parts that a call has for them. A path is handed on as its
template is written, while a part has the name that stands between the braces without the blanks
around it; so the two agree exactly when there are no such blanks.
-/

namespace EndpointBindings

open Emission Text

section Blanks

variable {cs ds : List Char}

theorem trimLeft_of_prefix (h : cs <+: ds) (hds : trimLeft ds = ds) : trimLeft cs = cs := by
  obtain ⟨rest, rfl⟩ := h
  cases cs with
  | nil => rfl
  | cons c more =>
      have hc : ¬isBlank c = true := by simpa using List.dropWhile_eq_self_iff.mp hds (by simp)
      rw [trimLeft, List.dropWhile_cons_of_neg hc]

/-- Text without blanks at its ends stays as it is. -/
theorem trim_trim : trim (trim cs) = trim cs := by
  have hleft : trimLeft (trim cs) = trim cs :=
    trimLeft_of_prefix (List.rdropWhile_prefix isBlank _) (List.dropWhile_idempotent isBlank _)
  rw [trim, hleft]
  exact List.rdropWhile_idempotent isBlank _

end Blanks

section Templates

open PathTemplate

variable {raw path : String} {parts : Fields} {t : PathTemplate} {chunks : List Chunk}
  {segments : List Segment}

theorem names_of_segments
    (h : List.Forall₂ (fun chunk s => Assembly.segment parts raw chunk = .ok s) chunks segments) :
    (PathTemplate.mk path segments).parts.map (·.name) =
      (groups chunks).map fun group => String.ofList (trim group) := by
  induction h with
  | nil => rfl
  | @cons chunk s chunks segments hfirst _ ih =>
      cases chunk with
      | literal text =>
          obtain ⟨-, -, rfl⟩ := Assembly.segment_literal_eq_ok.mp hfirst
          exact ih
      | group g =>
          obtain ⟨p, hp, rfl⟩ := Assembly.segment_group_eq_ok.mp hfirst
          obtain ⟨hname, -⟩ := Assembly.part_eq_ok.mp hp
          exact congrArg₂ List.cons hname ih

/-- The parts of a template are named by what stands between its braces. -/
theorem names_of_pathTemplate (h : Assembly.pathTemplate raw parts = .ok t) :
    ∃ names, IsTemplate t.raw.toList names ∧
      t.parts.map (·.name) = names.map fun name => String.ofList (trim name) := by
  obtain ⟨hraw, hsegments⟩ := Assembly.pathTemplate_eq_ok.mp h
  refine ⟨groups (PathTemplate.chunks raw.toList), isTemplate_iff.mpr ⟨?_, by rw [hraw]⟩,
    names_of_segments hsegments⟩
  intro text htext
  rw [hraw] at htext
  obtain ⟨s, -, hs⟩ := exists_of_mem_forall₂ hsegments htext
  obtain ⟨hopening, hclosing, -⟩ := Assembly.segment_literal_eq_ok.mp hs
  exact ⟨hopening, hclosing⟩

end Templates

namespace Emission

open PathTemplate

/-- The texts between each opening brace and the next closing one. Behind an opening brace, `group`
is what stands there so far. -/
def placeholdersFrom (group : Option (List Nat)) : List Nat → List (List Nat)
  | [] => []
  | n :: rest =>
    match group with
    | none => placeholdersFrom (if n = '{'.toNat then some [] else none) rest
    | some g =>
      if n = '}'.toNat then g :: placeholdersFrom none rest
      else placeholdersFrom (some (g ++ [n])) rest

/-- The texts between the braces of a path. -/
def placeholders (path : List Nat) : List (List Nat) := placeholdersFrom none path

section Placeholders

variable {ns rest group : List Nat} {c : Char} {cs raw : List Char} {names : List (List Char)}
  {chunks : List Chunk}

theorem placeholdersFrom_literal (h : '{'.toNat ∉ ns) :
    placeholdersFrom none (ns ++ rest) = placeholdersFrom none rest := by
  induction ns with
  | nil => rfl
  | cons n ns ih =>
      obtain ⟨hn, hns⟩ := not_or.mp (List.mem_cons.not.mp h)
      rw [List.cons_append, placeholdersFrom, if_neg (Ne.symm hn), ih hns]

theorem placeholdersFrom_group (h : '}'.toNat ∉ ns) :
    placeholdersFrom (some group) (ns ++ '}'.toNat :: rest) =
      (group ++ ns) :: placeholdersFrom none rest := by
  induction ns generalizing group with
  | nil =>
      rw [List.nil_append, placeholdersFrom, if_pos rfl, List.append_nil]
  | cons n ns ih =>
      obtain ⟨hn, hns⟩ := not_or.mp (List.mem_cons.not.mp h)
      rw [List.cons_append, placeholdersFrom, if_neg (Ne.symm hn), ih hns, List.append_assoc]
      rfl

/-- No unit of another character is that of a brace. -/
theorem toNat_mem_flatMap_unitsOf (hc : c.toNat < 0xd800) (h : c.toNat ∈ cs.flatMap unitsOf) :
    c ∈ cs := by
  obtain ⟨d, hd, hunit⟩ := List.mem_flatMap.mp h
  unfold unitsOf at hunit
  split at hunit
  · obtain rfl := Char.toNat_inj.mp (List.mem_singleton.mp hunit)
    exact hd
  · simp only [List.mem_cons, List.not_mem_nil, or_false] at hunit
    omega

theorem placeholders_chunks (h : ∀ chunk ∈ chunks, IsBraceless chunk.content) :
    placeholders ((chunks.flatMap Chunk.render).flatMap unitsOf) =
      (groups chunks).map (·.flatMap unitsOf) := by
  unfold placeholders
  induction chunks with
  | nil => rfl
  | cons chunk rest ih =>
      obtain ⟨hfirst, hrest⟩ := List.forall_mem_cons.mp h
      rw [List.flatMap_cons, List.flatMap_append]
      cases chunk with
      | literal text =>
          have hopening : '{'.toNat ∉ text.flatMap unitsOf := fun hmem =>
            hfirst.1 (toNat_mem_flatMap_unitsOf (by decide) hmem)
          rw [Chunk.render, placeholdersFrom_literal hopening]
          exact ih hrest
      | group name =>
          have hclosing : '}'.toNat ∉ name.flatMap unitsOf := fun hmem =>
            hfirst.2 (toNat_mem_flatMap_unitsOf (by decide) hmem)
          have hrender : (Chunk.render (.group name)).flatMap unitsOf =
              '{'.toNat :: (name.flatMap unitsOf ++ ['}'.toNat]) := by
            rw [Chunk.render, List.cons_append, List.flatMap_cons, List.flatMap_append]
            rfl
          rw [hrender, List.cons_append, List.append_assoc, placeholdersFrom, if_pos rfl,
            List.singleton_append, placeholdersFrom_group hclosing, ih hrest]
          rfl

theorem placeholders_of_isTemplate (h : IsTemplate raw names) :
    placeholders (raw.flatMap unitsOf) = names.map (·.flatMap unitsOf) := by
  obtain ⟨chunks, rfl, hplain, rfl⟩ := h
  exact placeholders_chunks hplain

end Placeholders

section Documents

variable {document : Fields} {e : Endpoint} {path : PathTemplate} {names : List (List Char)}

theorem names_of_assemble (h : assemble document = .ok e) (hpath : path ∈ e.paths) :
    ∃ names, IsTemplate path.raw.toList names ∧
      path.parts.map (·.name) = names.map fun name => String.ofList (trim name) := by
  obtain ⟨fields, url, parts, declared, -, he⟩ := Assembly.assemble_eq_ok.mp h
  obtain ⟨texts, -, -, hpaths⟩ := Assembly.paths_eq_ok.mp he.paths_eq
  obtain ⟨raw, -, hraw⟩ := exists_of_mem_forall₂ hpaths.flip hpath
  exact names_of_pathTemplate hraw

theorem units_ofList (cs : List Char) : units (String.ofList cs) = cs.flatMap unitsOf := by
  rw [units, String.toList_ofList]

theorem flatMap_unitsOf_injective : Function.Injective (List.flatMap unitsOf) := by
  intro cs ds h
  have hunits : units (String.ofList cs) = units (String.ofList ds) := by
    rw [units_ofList, units_ofList, h]
  exact String.ofList_inj.mp (units_injective hunits)

/-- A text between braces is a key when its blanks at the ends are none. -/
theorem trim_eq_of_mem_keys {name : List Char}
    (h : name.flatMap unitsOf ∈ names.map fun name => (trim name).flatMap unitsOf) :
    trim name = name := by
  obtain ⟨other, -, hother⟩ := List.mem_map.mp h
  rw [← flatMap_unitsOf_injective hother]
  exact trim_trim

/-- The path of a call has the groups of its template as placeholders. The following are the same:
the placeholders are the keys of the call's mapping, every placeholder is one of the keys, the
placeholders are the keys one by one, and no group has blanks at its ends. -/
theorem placeholders_filled_tfae (named : String → Option Nat)
    (hassemble : assemble document = .ok e) (stem : String) :
    ∃ bindings, bindingsOf (e.orNamed stem) = .ok bindings ∧
      ∀ b ∈ bindings, ∀ f ∈ b.functions, f.path ∈ e.paths ∧
        ∃ call names, readCall? named f.render = some call ∧
          IsTemplate f.path.raw.toList names ∧
          [∀ text, text ∈ placeholders call.path ↔ text ∈ call.parts.map (·.1),
            ∀ text ∈ placeholders call.path, text ∈ call.parts.map (·.1),
            placeholders call.path = call.parts.map (·.1),
            ∀ name ∈ names, trim name = name].TFAE := by
  obtain ⟨bindings, hbindings, -, hplanned⟩ := exists_planned_functions hassemble stem
  refine ⟨bindings, hbindings, fun b hb f hf => ?_⟩
  have h := hplanned b hb f hf
  obtain ⟨names, htemplate, hnames⟩ := names_of_assemble hassemble h.path
  have hkeys : (f.parts.map PartArgument.pair).map (·.1) =
      names.map fun name => (trim name).flatMap unitsOf := by
    rw [h.keys, hnames, List.map_map]
    exact List.map_congr_left fun name _ => units_ofList _
  have hplaceholders : placeholders (units f.path.raw) = names.map (·.flatMap unitsOf) :=
    placeholders_of_isTemplate htemplate
  refine ⟨h.path, _, names, readCall?_render h.named, htemplate, ?_⟩
  rw [hkeys, hplaceholders]
  tfae_have 3 → 1 := by
    intro heq text
    rw [heq]
  tfae_have 1 → 2 := fun hsame text htext => (hsame text).mp htext
  tfae_have 2 → 4 := fun hfilled name hname =>
    trim_eq_of_mem_keys (hfilled _ (List.mem_map_of_mem hname))
  tfae_have 4 → 3 := by
    intro htrim
    apply List.map_congr_left
    intro name hname
    rw [htrim name hname]
  tfae_finish

/-- Blanks inside of a name are a part of it. -/
theorem placeholders_filled_spaced :
    ∃ e bindings, assemble (routed "/\x7ba b\x7d/é\x7b😀\x7d" ["a b", "😀"]) = .ok e ∧
      bindingsOf (e.orNamed "spaced") = .ok bindings ∧
      ∃ b ∈ bindings, ∃ f ∈ b.functions, ∃ call, readCall? (fun _ => none) f.render = some call ∧
        placeholders call.path = call.parts.map (·.1) := by
  have hchecked : isOkWith (fun e => e.paths.all fun path =>
      (groups (PathTemplate.chunks path.raw.toList)).all fun name => trim name == name)
      (assemble (routed "/\x7ba b\x7d/é\x7b😀\x7d" ["a b", "😀"])) = true := by decide +kernel
  obtain ⟨e, bindings, he, hbindings, b, hb, f, hf, -, htrim⟩ :=
    exists_checked_function hchecked "spaced"
  obtain ⟨_, hsame, hfilled⟩ := placeholders_filled_tfae (fun _ => none) he "spaced"
  obtain rfl := Except.ok.inj (hsame.symm.trans hbindings)
  obtain ⟨-, call, names, hcall, htemplate, htfae⟩ := hfilled b hb f hf
  obtain ⟨-, rfl⟩ := isTemplate_iff.mp htemplate
  simp only [List.all_eq_true, beq_iff_eq] at htrim
  exact ⟨e, _, he, hbindings, b, hb, f, hf, call, hcall, (htfae.out 2 3).mpr htrim⟩

/-- Blanks around a name stay in the path, so its placeholder has no key. -/
theorem placeholder_not_filled :
    ∃ e bindings, assemble (routed "/\x7b x \x7d" ["x"]) = .ok e ∧
      bindingsOf (e.orNamed "padded") = .ok bindings ∧
      ∃ b ∈ bindings, ∃ f ∈ b.functions, ∃ call, readCall? (fun _ => none) f.render = some call ∧
        placeholders call.path = [units " x "] ∧ call.parts.map (·.1) = [units "x"] ∧
        ¬∀ text, text ∈ placeholders call.path ↔ text ∈ call.parts.map (·.1) := by
  have hchecked : isOkWith (fun e => e.paths.all fun path =>
      path.raw == "/\x7b x \x7d" && path.parts.map (·.name) == ["x"])
      (assemble (routed "/\x7b x \x7d" ["x"])) = true := by decide +kernel
  obtain ⟨e, bindings, he, hbindings, b, hb, f, hf, h, hpath⟩ :=
    exists_checked_function hchecked "padded"
  simp only [Bool.and_eq_true, beq_iff_eq] at hpath
  have hplaceholders : placeholders (units f.path.raw) = [units " x "] := by
    rw [hpath.1]
    decide
  have hkeys : (f.parts.map PartArgument.pair).map (·.1) = [units "x"] := by
    rw [h.keys, hpath.2]
    rfl
  refine ⟨e, bindings, he, hbindings, b, hb, f, hf, _, readCall?_render h.named,
    hplaceholders, hkeys, fun hsame => ?_⟩
  rw [hplaceholders, hkeys] at hsame
  exact absurd ((hsame (units " x ")).mp List.mem_cons_self) (by decide)

end Documents

end Emission

end EndpointBindings
