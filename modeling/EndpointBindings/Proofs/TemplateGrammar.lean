import Mathlib.Data.List.Basic
import EndpointBindings.Path

/-!
The grammar of path templates: literal text and groups in braces, in any order, where neither holds
a brace of its own. Cutting a template finds its groups, and leaves a brace in a literal exactly
when the text is no template.
-/

namespace EndpointBindings.PathTemplate

/-- What stands in a chunk, without the braces around a group. -/
def Chunk.content : Chunk → List Char
  | literal text => text
  | group name => name

def IsBraceless (cs : List Char) : Prop := '\x7b' ∉ cs ∧ '\x7d' ∉ cs

/-- What stands in the groups among chunks. -/
def groups (chunks : List Chunk) : List (List Char) :=
  chunks.filterMap fun
    | .literal _ => none
    | .group name => some name

/-- A text is a template with groups: its braces are in pairs that do not nest, and the groups are
what stands between them. -/
def IsTemplate (raw : List Char) (names : List (List Char)) : Prop :=
  ∃ chunks : List Chunk, chunks.flatMap Chunk.render = raw ∧
    (∀ chunk ∈ chunks, IsBraceless chunk.content) ∧ groups chunks = names

section Braces

variable {text group cs rest : List Char} {chunk : Chunk} {chunks : List Chunk}

theorem isBraceless_append : IsBraceless (text ++ cs) ↔ IsBraceless text ∧ IsBraceless cs := by
  simp only [IsBraceless, List.mem_append]
  tauto

theorem isBraceless_cons {c : Char} :
    IsBraceless (c :: cs) ↔ c ≠ '\x7b' ∧ c ≠ '\x7d' ∧ IsBraceless cs := by
  simp only [IsBraceless, List.mem_cons]
  tauto

@[simp] theorem isBraceless_nil : IsBraceless [] := by
  simp [IsBraceless]

@[simp] theorem groups_literalChunk : groups (literalChunk text) = [] := by
  unfold literalChunk
  split <;> rfl

@[simp] theorem groups_append (cs ds : List Chunk) : groups (cs ++ ds) = groups cs ++ groups ds :=
  List.filterMap_append

theorem eq_of_mem_literalChunk (h : chunk ∈ literalChunk text) : chunk = .literal text := by
  unfold literalChunk at h
  split at h
  · simp at h
  · simpa using h

theorem cut_literal (h : IsBraceless cs) :
    cut text none (cs ++ rest) = cut (text ++ cs) none rest := by
  induction cs generalizing text with
  | nil => simp
  | cons c cs ih =>
      obtain ⟨hopen, -, hcs⟩ := isBraceless_cons.mp h
      rw [List.cons_append, cut]
      rw [if_neg hopen, ih hcs, List.append_assoc, List.singleton_append]

theorem cut_group (h : IsBraceless cs) : cut text (some group) (cs ++ '\x7d' :: rest) =
    literalChunk text ++ .group (group ++ cs) :: cut [] none rest := by
  induction cs generalizing group with
  | nil => simp [cut]
  | cons c cs ih =>
      obtain ⟨hopen, hclose, hcs⟩ := isBraceless_cons.mp h
      rw [List.cons_append, cut]
      rw [if_neg hopen, if_neg hclose, ih hcs, List.append_assoc, List.singleton_append]

/-- Cutting what chunks without braces render to gives these chunks, with literals that follow each
other joined. -/
theorem cut_render (hchunks : ∀ chunk ∈ chunks, IsBraceless chunk.content)
    (htext : IsBraceless text) :
    groups (cut text none (chunks.flatMap Chunk.render)) = groups chunks ∧
      ∀ chunk ∈ cut text none (chunks.flatMap Chunk.render), IsBraceless chunk.content := by
  induction chunks generalizing text with
  | nil =>
      refine ⟨groups_literalChunk, fun chunk hchunk => ?_⟩
      rw [eq_of_mem_literalChunk hchunk]
      exact htext
  | cons first rest ih =>
      obtain ⟨hfirst, hrest⟩ := List.forall_mem_cons.mp hchunks
      rw [List.flatMap_cons]
      cases first with
      | literal more =>
          have hmore : IsBraceless more := hfirst
          rw [Chunk.render, cut_literal hmore]
          exact ih hrest (isBraceless_append.mpr ⟨htext, hmore⟩)
      | group name =>
          have hcut : cut text none (Chunk.render (.group name) ++ rest.flatMap Chunk.render) =
              literalChunk text ++ .group name :: cut [] none (rest.flatMap Chunk.render) := by
            rw [Chunk.render, List.append_assoc, List.cons_append, cut]
            exact cut_group hfirst
          obtain ⟨hgroups, hplain⟩ := ih hrest isBraceless_nil
          rw [hcut]
          constructor
          · rw [groups_append, groups_literalChunk, List.nil_append]
            exact congrArg (name :: ·) hgroups
          · intro chunk hchunk
            rcases List.mem_append.mp hchunk with h | h
            · rw [eq_of_mem_literalChunk h]
              exact htext
            · rcases List.mem_cons.mp h with rfl | h
              · exact hfirst
              · exact hplain chunk h

/-- A group that is cut out has no brace in it. -/
theorem isBraceless_of_group_mem_cut {name : List Char} {open? : Option (List Char)}
    (hopen : ∀ g ∈ open?, IsBraceless g) (h : .group name ∈ cut text open? cs) :
    IsBraceless name := by
  induction cs generalizing text open? with
  | nil =>
      cases open? <;> exact absurd (eq_of_mem_literalChunk h) (by simp)
  | cons c cs ih =>
      cases open? with
      | none =>
          rw [cut] at h
          split at h
          · exact ih (by simp) h
          · exact ih (by simp) h
      | some g =>
          have hg := hopen g rfl
          rw [cut] at h
          split at h
          · exact ih (by simp) h
          · rename_i hc
            split at h
            · rcases List.mem_append.mp h with h | h
              · exact absurd (eq_of_mem_literalChunk h) (by simp)
              · rcases List.mem_cons.mp h with h | h
                · obtain rfl := Chunk.group.inj h
                  exact hg
                · exact ih (by simp) h
            · rename_i hc'
              refine ih (fun g' hg' => ?_) h
              obtain rfl := Option.some.inj hg'
              exact isBraceless_append.mpr ⟨hg, isBraceless_cons.mpr ⟨hc, hc', isBraceless_nil⟩⟩

end Braces

/-- A text is a template when no literal that is cut out of it holds a brace, and its groups are
those that are cut out. -/
theorem isTemplate_iff {raw : List Char} {names : List (List Char)} : IsTemplate raw names ↔
    (∀ text, .literal text ∈ chunks raw → IsBraceless text) ∧ groups (chunks raw) = names := by
  constructor
  · rintro ⟨cs, rfl, hplain, rfl⟩
    obtain ⟨hgroups, hcut⟩ := cut_render hplain isBraceless_nil
    exact ⟨fun text htext => hcut _ htext, hgroups⟩
  · rintro ⟨hliterals, rfl⟩
    refine ⟨chunks raw, flatMap_render_chunks raw, fun chunk hchunk => ?_, rfl⟩
    cases chunk with
    | literal text => exact hliterals text hchunk
    | group name => exact isBraceless_of_group_mem_cut (by simp) hchunk

end EndpointBindings.PathTemplate
