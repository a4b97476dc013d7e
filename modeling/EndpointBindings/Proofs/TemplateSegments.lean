import Mathlib.Data.List.Chain
import EndpointBindings.Proofs.DocumentGrammar

/-!
The segments of a path template. A text that is a template has exactly one cut into its groups and
the literals between them in which no literal could be longer, and the segments of the template are
the chunks of that cut, one by one.
-/

namespace EndpointBindings.PathTemplate

open EndpointBindings.Grammar EndpointBindings.Json

def Chunk.isLiteral : Chunk → Bool
  | literal _ => true
  | group _ => false

/-- Whether two chunks may stand side by side: two literals would be a longer one. -/
def AreApart (a b : Chunk) : Prop := ¬(a.isLiteral = true ∧ b.isLiteral = true)

/-- A text as groups and literals in turn. No literal is empty or could be longer: around it are the
braces of groups, or the ends of the text. -/
structure IsCut (raw : List Char) (chunks : List Chunk) : Prop where
  render_eq : chunks.flatMap Chunk.render = raw
  braceless : ∀ chunk ∈ chunks, IsBraceless chunk.content
  nonempty : .literal [] ∉ chunks
  apart : chunks.IsChain AreApart

/-- What a chunk is in a template: a literal as it is written, a group as a part under its name
without the blanks around it. -/
inductive Chunk.IsShownBy : Chunk → Segment → Prop
  | literal (text : List Char) : IsShownBy (.literal text) (.literal (String.ofList text))
  | group {name : List Char} {p : PathPart} (h : p.name = String.ofList (Text.trim name)) :
      IsShownBy (.group name) (.part p)

section Cuts

variable {raw text name cs : List Char} {chunk : Chunk} {parsed : List Chunk}
  {group : Option (List Char)}

theorem nil_notMem_literalChunk : .literal [] ∉ literalChunk text := by
  intro h
  obtain rfl := Chunk.literal.inj (eq_of_mem_literalChunk h)
  exact absurd h List.not_mem_nil

theorem isChain_literalChunk : (literalChunk text).IsChain AreApart := by
  unfold literalChunk
  split
  · exact .nil
  · exact .singleton _

/-- A literal in front of a group stands beside no literal. -/
theorem isChain_literalChunk_append (h : parsed.IsChain AreApart) :
    (literalChunk text ++ .group name :: parsed).IsChain AreApart := by
  have hgroup : (Chunk.group name :: parsed).IsChain AreApart :=
    h.cons fun _ _ hboth => Bool.false_ne_true hboth.1
  unfold literalChunk
  split
  · exact hgroup
  · exact List.isChain_cons_cons.mpr ⟨fun hboth => Bool.false_ne_true hboth.2, hgroup⟩

theorem isChain_cut : (cut text group cs).IsChain AreApart := by
  fun_induction cut text group cs with
  | case1 => exact isChain_literalChunk
  | case2 => exact isChain_literalChunk
  | case3 _ _ ih => exact ih
  | case4 _ _ _ _ ih => exact ih
  | case5 _ _ _ ih => exact ih
  | case6 _ _ _ _ ih => exact isChain_literalChunk_append ih
  | case7 _ _ _ _ _ _ ih => exact ih

theorem nil_notMem_cut : .literal [] ∉ cut text group cs := by
  fun_induction cut text group cs with
  | case1 => exact nil_notMem_literalChunk
  | case2 => exact nil_notMem_literalChunk
  | case3 _ _ ih => exact ih
  | case4 _ _ _ _ ih => exact ih
  | case5 _ _ _ ih => exact ih
  | case6 _ _ _ _ ih => simpa [nil_notMem_literalChunk] using ih
  | case7 _ _ _ _ _ _ ih => exact ih

/-- The chunks of a template are a cut of it. -/
theorem isCut_chunks (h : ∀ text, .literal text ∈ chunks raw → IsBraceless text) :
    IsCut raw (chunks raw) where
  render_eq := flatMap_render_chunks raw
  braceless := by
    intro chunk hchunk
    cases chunk with
    | literal text => exact h text hchunk
    | group name => exact isBraceless_of_group_mem_cut (by simp) hchunk
  nonempty := nil_notMem_cut
  apart := isChain_cut

/-- Behind some text, the chunks of a cut are found again, unless the text goes on in a literal. -/
theorem cut_flatMap_render (hplain : ∀ chunk ∈ parsed, IsBraceless chunk.content)
    (hnonempty : .literal [] ∉ parsed) (hapart : parsed.IsChain AreApart)
    (htext : text = [] ∨ ∀ chunk ∈ parsed.head?, chunk.isLiteral = false) :
    cut text none (parsed.flatMap Chunk.render) = literalChunk text ++ parsed := by
  induction parsed generalizing text with
  | nil => simp [cut]
  | cons first rest ih =>
      obtain ⟨hfirst, hrest⟩ := List.forall_mem_cons.mp hplain
      obtain ⟨hne, hrestNonempty⟩ := not_or.mp (List.mem_cons.not.mp hnonempty)
      obtain ⟨hbeside, hrestApart⟩ := List.isChain_cons.mp hapart
      rw [List.flatMap_cons]
      cases first with
      | literal more =>
          have hmore : IsBraceless more := hfirst
          have hsome : literalChunk more = [.literal more] := by
            have hmore : more ≠ [] := fun h => hne (by rw [h])
            simp [literalChunk, hmore]
          have hnext : ∀ chunk ∈ rest.head?, chunk.isLiteral = false := by
            intro chunk hchunk
            simpa [AreApart, Chunk.isLiteral] using hbeside chunk hchunk
          obtain rfl := htext.resolve_right fun h => absurd (h _ rfl) (by simp [Chunk.isLiteral])
          rw [Chunk.render, cut_literal hmore, List.nil_append,
            ih hrest hrestNonempty hrestApart (.inr hnext), hsome]
          rfl
      | group name =>
          have hname : IsBraceless name := hfirst
          rw [Chunk.render, List.append_assoc, List.cons_append, cut, if_pos rfl,
            List.singleton_append, cut_group hname, ih hrest hrestNonempty hrestApart (.inl rfl)]
          rfl

/-- A text has no cut but its chunks. -/
theorem IsCut.eq_chunks (h : IsCut raw parsed) : parsed = chunks raw := by
  have hcut := cut_flatMap_render h.braceless h.nonempty h.apart (.inl rfl)
  rw [h.render_eq] at hcut
  exact hcut.symm

end Cuts

section Templates

variable {raw : String} {parts : Fields} {chunk : Chunk} {s : Segment}

theorem isShownBy_of_segment (h : Assembly.segment parts raw chunk = .ok s) :
    chunk.IsShownBy s := by
  cases chunk with
  | literal text =>
      obtain ⟨-, -, rfl⟩ := Assembly.segment_literal_eq_ok.mp h
      exact .literal text
  | group name =>
      obtain ⟨p, hp, rfl⟩ := Assembly.segment_group_eq_ok.mp h
      obtain ⟨hname, -⟩ := Assembly.part_eq_ok.mp hp
      exact .group hname

/-- A text gives a template exactly when its braces are in pairs that do not nest and every group is
a declared part. The segments of the template show, one by one, the chunks of the only cut of the
text. -/
theorem segments_show_cut (raw : String) (h : Decoded (.mapping parts)) :
    ((∃ t, Assembly.pathTemplate raw parts = .ok t) ↔
        ∃ names, IsTemplate raw.toList names ∧ ∀ name ∈ names, IsDeclaredPart parts name) ∧
      ∀ t, Assembly.pathTemplate raw parts = .ok t → ∃ chunks, IsCut raw.toList chunks ∧
        (∀ other, IsCut raw.toList other → other = chunks) ∧
        List.Forall₂ Chunk.IsShownBy chunks t.segments := by
  refine ⟨exists_pathTemplate_iff h, fun t ht => ⟨chunks raw.toList, ?_, ?_, ?_⟩⟩
  · obtain ⟨names, htemplate, -⟩ := (exists_pathTemplate_iff h).mp ⟨t, ht⟩
    exact isCut_chunks (isTemplate_iff.mp htemplate).1
  · exact fun other hother => hother.eq_chunks
  · exact (Assembly.pathTemplate_eq_ok.mp ht).2.imp fun _ _ => isShownBy_of_segment

/-- The parts of a search over indices and types. -/
def searchParts : Fields :=
  [(.text "index", .mapping [(.text "type", .text "list")]),
    (.text "type", .mapping [(.text "type", .text "string")])]

/-- Two groups stand beside each other, one with blanks around its name. -/
def searchCut : List Chunk :=
  [.literal ['/'], .group " index ".toList, .group "type".toList, .literal "/_search".toList]

def searchText : String := String.ofList (searchCut.flatMap Chunk.render)

theorem segments_show_cut_search : Decoded (.mapping searchParts) ∧
    (∃ t, Assembly.pathTemplate searchText searchParts = .ok t) ∧
    ∀ t, Assembly.pathTemplate searchText searchParts = .ok t →
      List.Forall₂ Chunk.IsShownBy searchCut t.segments := by
  have hdecoded : Decoded (.mapping searchParts) := by
    simp [searchParts, Decoded.mapping_iff, Decoded.text]
  have hcut : IsCut searchText.toList searchCut := by
    refine ⟨by rw [searchText, String.toList_ofList], ?_, by simp [searchCut], ?_⟩
    · simp [searchCut, IsBraceless, Chunk.content]
    · simp [searchCut, AreApart, Chunk.isLiteral]
  have hdeclared : ∀ name ∈ groups searchCut, IsDeclaredPart searchParts name := by
    have hvalid : ∀ type, type = "list" ∨ type = "string" →
        IsDeclaration [(.text "type", .text type)] := by
      rintro _ (rfl | rfl) <;>
        exact ⟨by simp [Value.field, Value.field?], .inl rfl, by decide, .inl rfl⟩
    intro name hname
    have hnames : name = " index ".toList ∨ name = "type".toList := by
      simpa [groups, searchCut] using hname
    rcases hnames with rfl | rfl
    · exact ⟨by decide, _, by rfl, hvalid "list" (.inl rfl)⟩
    · exact ⟨by decide, _, by rfl, hvalid "string" (.inr rfl)⟩
  obtain ⟨hiff, hshow⟩ := segments_show_cut searchText hdecoded
  refine ⟨hdecoded, hiff.mpr ⟨_, ⟨_, hcut.render_eq, hcut.braceless, rfl⟩, hdeclared⟩, ?_⟩
  intro t ht
  obtain ⟨chunks, -, honly, hsegments⟩ := hshow t ht
  rw [honly _ hcut]
  exact hsegments

end Templates

end EndpointBindings.PathTemplate
