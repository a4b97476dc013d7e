import EndpointBindings.Proofs.BoundNames
import EndpointBindings.Proofs.DefaultTyping
import EndpointBindings.Proofs.ExpressionNames

/-!
The body of the class of parameters, statement by statement. Every declaration calls into one module
that is imported, and a default that is no finite number calls a builtin besides. A field hides a
name from the declarations that follow it, so the class is created exactly when no field of the
builtin's name stands before such a default.
-/

namespace EndpointBindings.Emission

open EndpointBindings.Naming EndpointBindings.Number EndpointBindings.Text

/-- A statement of a class body: the name that it binds, and those that it evaluates first. -/
structure Declaration where
  name : String
  reads : List String
  deriving DecidableEq, Repr

/-- The statement on a line. Its type hint, between the colon and the first equals sign, is kept as
text by the module and not evaluated. -/
def readDeclaration (line : String) : Declaration :=
  let code := (skeletonFrom .code line.toList).dropWhile (· = ' ')
  ⟨String.ofList (code.takeWhile (!isNameEnd ·)),
    namesFrom false [] ((code.dropWhile (· ≠ '=')).drop 1)⟩

/-- The statements of a class behind its docstring. -/
def declarations (source : String) : List Declaration :=
  ((((sourceLines source).dropWhile (· ≠ "    \"\"\"")).drop 1).filter (· ≠ "")).map readDeclaration

section Declarations

variable {a name cls : String} {r : List Char} {type : ValueType} {hint : TypeHint} {f : Field}
  {fields : List Field} {e : Endpoint}

theorem equals_notMem_ofType :
    '=' ∉ skeletonFrom .code (TypeHint.ofType type).render.toList := by
  have hbare : ∀ a : String, IsBare a → '=' ∉ a.toList → '=' ∉ skeletonFrom .code a.toList := by
    intro a ha hmem
    have hskeleton := skeletonFrom_code_bare ha []
    rw [List.append_nil, skeletonFrom, List.append_nil] at hskeleton
    rwa [hskeleton]
  cases type with
  | string | time | boolean | list => exact hbare _ (by decide) (by decide)
  | other name => exact hbare "Any" (by decide) (by decide)
  | number kind =>
      rw [TypeHint.ofType]
      split <;> exact hbare _ (by decide) (by decide)
  | choice options =>
      have hlist : (TypeHint.literal options.texts).render.toList = "Literal[".toList ++
          ((", ".intercalate (options.texts.map Escaped.ascii)).toList ++ [']']) := by
        simp [TypeHint.render]
      obtain ⟨signs, hsigns, hskeleton⟩ :=
        @skeletonFrom_code_texts [']'] options.texts (by simp)
      rw [TypeHint.ofType, hlist, skeletonFrom_code_bare (by decide), hskeleton]
      simp only [List.mem_append, not_or]
      exact ⟨by decide, fun hmem => (hsigns _ hmem).2.2 rfl, by decide⟩

theorem equals_notMem_optional {inner : TypeHint} (hsafe : inner.IsSafe)
    (h : '=' ∉ skeletonFrom .code inner.render.toList) :
    '=' ∉ skeletonFrom .code (TypeHint.optional inner).render.toList := by
  have hlist : (TypeHint.optional inner).render.toList =
      "Optional[".toList ++ (inner.render.toList ++ [']']) := by
    simp [TypeHint.render]
  rw [hlist, skeletonFrom_code_bare (by decide), (oneLine_render hsafe).skeletonFrom_append]
  simp only [List.mem_append, not_or]
  exact ⟨by decide, h, by decide⟩

theorem equals_notMem_hint : '=' ∉ skeletonFrom .code f.hint.render.toList := by
  rw [Field.hint]
  split
  · exact equals_notMem_ofType
  · exact equals_notMem_optional isSafe_ofType equals_notMem_ofType

/-- Whether a field may be left out for a default that is no finite number. -/
def Field.readsFloat (f : Field) : Bool := !f.param.required && f.param.default.any isCalled

def Field.declared (f : Field) : Declaration :=
  ⟨f.name, "dataclasses" :: if f.readsFloat then ["float"] else []⟩

theorem toList_metadata : (f.metadata ++ ")").toList = "metadata=\x7b".toList ++
    ((Escaped.ascii "wire").toList ++ (": ".toList ++ ((Escaped.ascii f.wire).toList ++
      ['}', ')']))) := by
  rw [Field.metadata_eq]
  simp only [String.toList_append, List.append_assoc]
  rfl

theorem namesFrom_metadata :
    namesFrom false [] (skeletonFrom .code (f.metadata ++ ")").toList) = [] := by
  have hopen : IsBare "metadata=\x7b" := by decide
  have hcolon : IsBare ": " := by decide
  rw [toList_metadata, skeletonFrom_code_bare hopen, skeletonFrom_code_ascii (by simp),
    skeletonFrom_code_bare hcolon, skeletonFrom_code_ascii (by simp)]
  rfl

theorem namesFrom_arguments : namesFrom false []
    (skeletonFrom .code (f.defaultArgument ++ (f.metadata ++ ")")).toList) =
      if f.readsFloat then ["float"] else [] := by
  have hlabel : IsBare "default=" := by decide
  have hnone : IsBare "default=None, " := by decide
  have hspace : ∀ r, namesFrom false [] (skeletonFrom .code (' ' :: r)) =
      namesFrom false [] (skeletonFrom .code r) := by
    intro r
    rw [skeletonFrom_code_cons (by decide)]
    rfl
  have hkeyword : ∀ r, namesFrom false [] ("default=".toList ++ r) = namesFrom false [] r :=
    fun r => rfl
  have hnull : ∀ r, namesFrom false [] ("default=None, ".toList ++ r) = namesFrom false [] r :=
    fun r => rfl
  rw [Field.defaultArgument, Field.defaultText?, Field.readsFloat]
  cases f.param.required with
  | true => exact namesFrom_metadata
  | false =>
      cases f.param.default with
      | none =>
          have hlist : ("default=" ++ "None" ++ ", " ++ (f.metadata ++ ")")).toList =
              "default=None, ".toList ++ (f.metadata ++ ")").toList := String.toList_append
          exact (congrArg _ (congrArg _ hlist)).trans
            (by rw [skeletonFrom_code_bare hnone, hnull, namesFrom_metadata]; rfl)
      | some d =>
          have hlist : ("default=" ++ literal d ++ ", " ++ (f.metadata ++ ")")).toList =
              "default=".toList ++ ((literal d).toList ++ ',' :: ' ' ::
                (f.metadata ++ ")").toList) := by
            simp
          have hnames : namesFrom false [] (skeletonFrom .code
              ("default=" ++ literal d ++ ", " ++ (f.metadata ++ ")")).toList) =
                if isCalled d then ["float"] else [] := by
            rw [hlist, skeletonFrom_code_bare hlabel, hkeyword, namesFrom_literal, hspace,
              namesFrom_metadata, List.append_nil]
          exact hnames

theorem toList_line : f.line.toList = "    ".toList ++ (f.name.toList ++ (": ".toList ++
    (f.hint.render.toList ++ (" = dataclasses.field(".toList ++
      (f.defaultArgument ++ (f.metadata ++ ")")).toList)))) := by
  rw [Field.line_eq, Field.code]
  simp only [String.toList_append, List.append_assoc]

theorem skeletonFrom_code_line_eq (h : IsNameText f.name) :
    skeletonFrom .code f.line.toList = ' ' :: ' ' :: ' ' :: ' ' :: (f.name.toList ++ ':' :: ' ' ::
      (skeletonFrom .code f.hint.render.toList ++ ' ' :: '=' :: (" dataclasses.field(".toList ++
        skeletonFrom .code (f.defaultArgument ++ (f.metadata ++ ")")).toList))) := by
  have hindent : IsBare "    " := by decide
  have hcolon : IsBare ": " := by decide
  have hcall : IsBare " = dataclasses.field(" := by decide
  rw [toList_line, skeletonFrom_code_bare hindent, skeletonFrom_code_bare h.isBare,
    skeletonFrom_code_bare hcolon, (oneLine_render isSafe_fieldHint).skeletonFrom_append,
    skeletonFrom_code_bare hcall]
  rfl

theorem drop_hint {before hint : List Char} (hbefore : '=' ∉ before) (hhint : '=' ∉ hint) :
    ((before ++ ':' :: ' ' :: (hint ++ ' ' :: '=' :: r)).dropWhile (· ≠ '=')).drop 1 = r := by
  have hall : ∀ c ∈ before ++ ':' :: ' ' :: (hint ++ [' ']), decide (c ≠ '=') = true := by
    intro c hmem
    have hne : c ≠ '=' := by
      rintro rfl
      simp [hbefore, hhint] at hmem
    simpa using hne
  have hsplit : before ++ ':' :: ' ' :: (hint ++ ' ' :: '=' :: r) =
      before ++ ':' :: ' ' :: (hint ++ [' ']) ++ '=' :: r := by simp
  rw [hsplit, List.dropWhile_append_of_pos hall]
  simp

theorem readDeclaration_line (h : IsNameText f.name) (hne : f.name ≠ "") :
    readDeclaration f.line = f.declared := by
  have hnotMem : ∀ c, isNameEnd c = true → c ∉ f.name.toList := by
    intro c hc hmem
    rcases h c hmem with hname | hname <;> simp [isNameEnd, hname] at hc
  have hlist : f.name.toList ≠ [] := fun hnil => hne (String.toList_eq_nil_iff.mp hnil)
  obtain ⟨c, more, hc⟩ := List.exists_cons_of_ne_nil hlist
  have hfirst : c ≠ ' ' := by
    rintro rfl
    exact hnotMem ' ' (by decide) (hc ▸ List.mem_cons_self)
  -- The indentation ends at the name, which has no blank.
  have hindent : ∀ r, (' ' :: ' ' :: ' ' :: ' ' :: (f.name.toList ++ r)).dropWhile (· = ' ') =
      f.name.toList ++ r := by
    intro r
    simp [hc, hfirst]
  have hcall : ∀ r, namesFrom false [] (" dataclasses.field(".toList ++ r) =
      "dataclasses" :: namesFrom false [] r := fun r => rfl
  rw [readDeclaration, skeletonFrom_code_line_eq h, hindent,
    drop_hint (hnotMem '=' (by decide)) equals_notMem_hint, (span_name h (by decide) _).1, hcall,
    namesFrom_arguments, String.ofList_toList]
  rfl

theorem of_mem_nameFields_name {taken : List String} {params : List (String × Param)}
    (hf : f ∈ nameFields taken params) : f.name ≠ "" ∧ f.name ∉ taken := by
  obtain ⟨p, -, before, hbefore, rfl⟩ := exists_of_mem_nameInTurn hf
  refine ⟨fun hempty => ?_, fun hmem => uniqueIdentifier_not_mem (hbefore hmem)⟩
  have hname : IsLowerIdentifier (uniqueIdentifier (identifier p.1) before) :=
    (isLowerIdentifier_identifier p.1).uniqueIdentifier
  obtain ⟨c, more, hc, -⟩ := hname.start
  exact List.cons_ne_nil _ _ (hc.symm.trans (congrArg String.toList hempty))

theorem append_ne {a b r : String} (h : ¬a.toList <+: b.toList) : a ++ r ≠ b := by
  rintro rfl
  exact h (String.toList_append ▸ List.prefix_append _ _)

theorem close_notMem_attributeLines : "    \"\"\"" ∉ attributeLines fields := by
  intro hmem
  unfold attributeLines at hmem
  split at hmem
  · exact absurd hmem List.not_mem_nil
  · rcases List.mem_append.mp hmem with hmem | hmem
    · exact absurd hmem (by decide)
    · obtain ⟨f, -, hf⟩ := List.mem_map.mp hmem
      rw [Field.docLine, String.append_assoc, String.append_assoc] at hf
      exact append_ne (by decide) hf

/-- The first line of the docstring of a class is not its last one. -/
theorem openingLine_ne {a b : String} :
    "    " ++ "\"\"\"" ++ ("Query parameters accepted by \x60\x60" ++ a ++ b) ≠ "    \"\"\"" := by
  have hline : "    " ++ "\"\"\"" ++ ("Query parameters accepted by \x60\x60" ++ a ++ b) =
      "    \"\"\"Query" ++ (" parameters accepted by \x60\x60" ++ a ++ b) := by
    apply String.toList_inj.mp
    simp
  rw [hline]
  exact append_ne (by decide)

theorem filter_fieldLines : (fieldLines fields).filter (· ≠ "") = fields.map Field.line := by
  have hne : (fields.map Field.line).filter (· ≠ "") = fields.map Field.line := by
    apply List.filter_eq_self.mpr
    intro l hl
    obtain ⟨f, -, rfl⟩ := List.mem_map.mp hl
    rw [Field.line_eq]
    exact decide_eq_true (append_ne (by decide))
  unfold fieldLines
  split
  · rename_i hempty
    rw [List.isEmpty_iff.mp hempty]
    rfl
  · rw [List.filter_cons_of_neg (by simp), hne]

/-- The lines of a class behind its docstring are its fields, in their order. -/
theorem bodyLines_paramsClass (hname : e.name = some name) (h : paramsClass e = .ok cls) :
    (((sourceLines cls).dropWhile (· ≠ "    \"\"\"")).drop 1).filter (· ≠ "") =
      (fieldsOf e).map Field.line := by
  have hbefore : ∀ l ∈ ["@dataclasses.dataclass(frozen=True)", "class " ++ className name ++ ":"] ++
      (["    " ++ "\"\"\"" ++ ("Query parameters accepted by \x60\x60" ++ docstringText name ++
        "\x60\x60.")] ++ attributeLines (fieldsOf e)), decide (l ≠ "    \"\"\"") = true := by
    have hattributes : ∀ l ∈ attributeLines (fieldsOf e), l ≠ "    \"\"\"" :=
      fun l hl => ne_of_mem_of_not_mem hl close_notMem_attributeLines
    have hclass : "class " ++ className name ++ ":" ≠ "    \"\"\"" := by
      rw [String.append_assoc]
      exact append_ne (by decide)
    simp only [List.forall_mem_append, List.forall_mem_cons, decide_eq_true_eq]
    exact ⟨⟨by decide, hclass, by simp⟩, ⟨openingLine_ne, by simp⟩, hattributes⟩
  have hclose : "    " ++ "\"\"\"" = "    \"\"\"" := by decide
  rw [sourceLines_paramsClass hname h, paramsClassLines_eq, ← List.append_assoc,
    List.append_assoc _ _ (fieldLines _), List.dropWhile_append_of_pos hbefore, hclose,
    List.singleton_append, List.dropWhile_cons_of_neg (by simp), List.drop_one, List.tail_cons,
    filter_fieldLines]

/-- The statements of a class are its fields, in their order. -/
theorem declarations_paramsClass (hname : e.name = some name) (h : paramsClass e = .ok cls) :
    declarations cls = (fieldsOf e).map Field.declared := by
  have hread : ∀ f ∈ fieldsOf e, readDeclaration f.line = f.declared := fun f hf =>
    readDeclaration_line (isNameText_of_mem_fieldsOf hf)
      (of_mem_nameFields_name (mem_fieldsOf_iff.mp hf)).1
  rw [declarations, bodyLines_paramsClass hname h, List.map_map]
  exact List.map_congr_left hread

end Declarations

/-- Where a name in a class body is found. -/
inductive Origin where
  | field
  | module
  | builtin
  deriving DecidableEq, Repr

/-- A class body finds a name among the fields bound so far, then in its module, and takes it for a
builtin otherwise. -/
def originOf (module fields : List String) (name : String) : Origin :=
  if name ∈ fields then .field else if name ∈ module then .module else .builtin

/-- The names that a class body evaluates, and where each of them is found: a statement evaluates
its expression before it binds its own name. -/
def resolved (module fields : List String) : List Declaration → List (String × Origin)
  | [] => []
  | d :: rest =>
    d.reads.map (fun name => (name, originOf module fields name)) ++
      resolved module (d.name :: fields) rest

section Resolution

variable {module fields : List String} {name text cls : String} {ds : List Declaration}
  {read : String × Origin} {e : Endpoint} {fs : List Field} {document : Fields}

theorem originOf_eq_field_iff : originOf module fields name = .field ↔ name ∈ fields := by
  unfold originOf
  split
  · simpa
  · split <;> simpa

/-- A name is taken for a field once a field before binds it. -/
theorem resolved_kept_iff : (∀ read ∈ resolved module fields ds, read.2 ≠ .field) ↔
    (∀ d ∈ ds, ∀ name ∈ d.reads, name ∉ fields) ∧ ds.Pairwise fun a b => a.name ∉ b.reads := by
  induction ds generalizing fields with
  | nil => simp [resolved]
  | cons d rest ih =>
      have hfirst : (∀ read ∈ d.reads.map fun name => (name, originOf module fields name),
          read.2 ≠ .field) ↔ ∀ name ∈ d.reads, name ∉ fields := by
        rw [List.forall_mem_map]
        exact forall₂_congr fun name _ => not_congr originOf_eq_field_iff
      have hrest : (∀ b ∈ rest, ∀ name ∈ b.reads, name ∉ d.name :: fields) ↔
          (∀ b ∈ rest, ∀ name ∈ b.reads, name ∉ fields) ∧ ∀ b ∈ rest, d.name ∉ b.reads := by
        constructor
        · intro h
          refine ⟨fun b hb name hname => List.not_mem_of_not_mem_cons (h b hb name hname), ?_⟩
          exact fun b hb hread => h b hb _ hread List.mem_cons_self
        · rintro ⟨hfields, hname⟩ b hb name hread hmem
          rcases List.mem_cons.mp hmem with rfl | hmem
          · exact hname b hb hread
          · exact hfields b hb name hread hmem
      rw [resolved, List.forall_mem_append, hfirst, ih, hrest, List.forall_mem_cons,
        List.pairwise_cons]
      tauto

theorem exists_of_mem_resolved (h : read ∈ resolved module fields ds) :
    ∃ d ∈ ds, ∃ name ∈ d.reads, ∃ bound, read = (name, originOf module bound name) := by
  induction ds generalizing fields with
  | nil => exact absurd h List.not_mem_nil
  | cons d rest ih =>
      rcases List.mem_append.mp h with h | h
      · obtain ⟨name, hname, rfl⟩ := List.mem_map.mp h
        exact ⟨d, List.mem_cons_self, name, hname, fields, rfl⟩
      · obtain ⟨b, hb, hread⟩ := ih h
        exact ⟨b, List.mem_cons_of_mem _ hb, hread⟩

/-- What the declarations of a class evaluate, found where it belongs. -/
def callees : List (String × Origin) := [("dataclasses", .module), ("float", .builtin)]

theorem mem_reads_declared {f : Field} (h : name ∈ f.declared.reads) :
    name = "dataclasses" ∨ name = "float" := by
  rcases List.mem_cons.mp h with rfl | h
  · exact .inl rfl
  · split at h
    · exact .inr (List.mem_singleton.mp h)
    · exact absurd h List.not_mem_nil

/-- Where the module has the one callee and not the other, each is found where it belongs unless a
field hides it. -/
theorem resolved_callees_iff (hmodule : "dataclasses" ∈ module) (hfloat : "float" ∉ module) :
    (∀ read ∈ resolved module [] (fs.map Field.declared), read ∈ callees) ↔
      (fs.map Field.declared).Pairwise fun a b => a.name ∉ b.reads := by
  have hkept := @resolved_kept_iff module [] (fs.map Field.declared)
  have hcallees : (∀ read ∈ resolved module [] (fs.map Field.declared), read ∈ callees) ↔
      ∀ read ∈ resolved module [] (fs.map Field.declared), read.2 ≠ .field := by
    apply forall₂_congr
    intro read hread
    obtain ⟨d, hd, name, hname, bound, rfl⟩ := exists_of_mem_resolved hread
    obtain ⟨f, -, rfl⟩ := List.mem_map.mp hd
    rcases mem_reads_declared hname with rfl | rfl
    · by_cases hbound : "dataclasses" ∈ bound <;> simp [callees, originOf, hbound, hmodule]
    · by_cases hbound : "float" ∈ bound <;> simp [callees, originOf, hbound, hfloat]
  rw [hcallees, hkept]
  simp

/-- A field hides a callee from a later one only if it has the name of the builtin. -/
theorem pairwise_declared_iff : ((fieldsOf e).map Field.declared).Pairwise
      (fun a b => a.name ∉ b.reads) ↔
    (fieldsOf e).Pairwise fun f g => ¬(f.name = "float" ∧ g.readsFloat = true) := by
  rw [List.pairwise_map]
  apply List.Pairwise.iff_of_mem
  intro f g hf _
  have hdataclasses : f.name ≠ "dataclasses" := by
    have htaken := (of_mem_nameFields_name (mem_fieldsOf_iff.mp hf)).2
    simpa [reservedFields] using htaken
  cases hg : g.readsFloat <;> simp [Field.declared, hg, hdataclasses]

/-- The names that a module binds before its class. -/
def boundBefore (cls text : String) : List String := (boundNames text).takeWhile (· ≠ cls)

theorem boundBefore_moduleOf (h : IsEmittable name e) (htext : moduleOf e = .ok text) :
    boundBefore (className name) text =
      ["annotations", "dataclasses"] ++ typingImports e ++ ["Transport"] := by
  have hbound : boundNames text = ["annotations", "dataclasses"] ++ typingImports e ++
      ["Transport"] ++ className name :: (functionsFor name e).map (·.name) := by
    rw [boundNames_moduleOf h htext]
    simp
  have honce := count_className h htext
  rw [hbound, List.count_append, List.count_cons_self] at honce
  have hnone : className name ∉ ["annotations", "dataclasses"] ++ typingImports e ++
      ["Transport"] := List.count_eq_zero.mp (by omega)
  rw [boundBefore, hbound, List.takeWhile_append_of_pos, List.takeWhile_cons_of_neg (by simp),
    List.append_nil]
  intro n hn
  simpa using ne_of_mem_of_not_mem hn hnone

theorem boundBefore_callees (h : IsEmittable name e) (htext : moduleOf e = .ok text) :
    "dataclasses" ∈ boundBefore (className name) text ∧
      "float" ∉ boundBefore (className name) text := by
  have htyping : "float" ∉ typingImports e := by
    intro hmem
    exact absurd (List.mem_filter.mp hmem).1 (by decide)
  rw [boundBefore_moduleOf h htext]
  exact ⟨by simp, by simpa using htyping⟩

/-- The class of a document is written unless an optional parameter of an unknown type has an
integer too long to be written as its default. If it is written, its statements are its fields. No
field binds what a later one evaluates, and all that they evaluate is the imported module and the
builtin, exactly if no field called `float` stands before a default that is no finite number. -/
theorem callees_resolved_tfae (hassemble : assemble document = .ok e) (stem : String) :
    (HasLongUnknown e → ∀ cls, paramsClass (e.orNamed stem) ≠ .ok cls) ∧
      (¬HasLongUnknown e → ∃ cls text, paramsClass (e.orNamed stem) = .ok cls ∧
        moduleOf (e.orNamed stem) = .ok text ∧ sourceLines cls <:+: sourceLines text ∧
        declarations cls = (fieldsOf e).map Field.declared ∧
        [(declarations cls).Pairwise fun a b => a.name ∉ b.reads,
          ∀ read ∈ resolved (boundBefore (className (e.name.getD stem)) text) []
            (declarations cls), read ∈ callees,
          (fieldsOf e).Pairwise fun f g =>
            ¬(f.name = "float" ∧ g.readsFloat = true)].TFAE) := by
  obtain ⟨hverbs, hpaths⟩ := Assembly.isEmittable_of_assemble hassemble
  have hemittable : IsEmittable (e.name.getD stem) (e.orNamed stem) := ⟨rfl, hverbs, hpaths⟩
  have herror := fun d => moduleOf_eq_error_iff (d := d) hemittable
  simp only [hasLongDefault_iff hassemble] at herror
  refine ⟨fun hlong cls hcls => ?_, fun hshort => ?_⟩
  · have htext := (herror _).mpr ⟨rfl, hlong⟩
    rw [moduleOf_eq hemittable, moduleText, hcls] at htext
    cases htext
  · cases htext : moduleOf (e.orNamed stem) with
    | error d => exact absurd ((herror d).mp htext).2 hshort
    | ok text =>
        obtain ⟨cls, hcls, hlines⟩ :=
          infix_sourceLines_moduleText ((moduleOf_eq hemittable).symm.trans htext)
        have hdeclared : declarations cls = (fieldsOf e).map Field.declared :=
          declarations_paramsClass (e := e.orNamed stem) hemittable.1 hcls
        obtain ⟨hmodule, hfloat⟩ := boundBefore_callees hemittable htext
        refine ⟨cls, text, hcls, rfl, hlines, hdeclared, ?_⟩
        rw [hdeclared]
        tfae_have 2 ↔ 1 := resolved_callees_iff hmodule hfloat
        tfae_have 1 ↔ 3 := pairwise_declared_iff
        tfae_finish

/-- A document with a text that may be left out, and an infinite number where the other one is. -/
def limitsDocument (text number : String) : Fields :=
  [(.text "methods", .list [.text "GET"]),
   (.text "url", .mapping [(.text "path", .text "/"), (.text "params", .mapping
     [(.text text, .mapping [(.text "type", .text "string")]),
      (.text number, .mapping [(.text "type", .text "double"),
        (.text "default", .float (.infinite false))])])])]

theorem callees_resolved_before :
    ∃ e cls text, assemble (limitsDocument "float" "cap") = .ok e ∧
      paramsClass (e.orNamed "limits") = .ok cls ∧ moduleOf (e.orNamed "limits") = .ok text ∧
      declarations cls = [⟨"cap", ["dataclasses", "float"]⟩, ⟨"float", ["dataclasses"]⟩] ∧
      ∀ read ∈ resolved (boundBefore (className (e.name.getD "limits")) text) []
        (declarations cls), read ∈ callees := by
  have hassembled : isOkWith (fun e =>
      e.params == [("float", ⟨.string, false, none, none⟩),
        ("cap", ⟨.number .double, false, some (.float (.infinite false)), none⟩)])
      (assemble (limitsDocument "float" "cap")) = true := by decide +kernel
  obtain ⟨e, he, hsame⟩ := exists_of_isOkWith hassembled
  have hentries := beq_iff_eq.mp hsame
  have hshort : ¬HasLongUnknown e := by
    rintro ⟨wire, p, name, i, hwire, -, htype, -⟩
    have hmem : (wire, p) ∈ e.params :=
      NameMap.mem_of_mem_ofPairs (NameMap.mem_entries_iff.mpr hwire)
    rw [hentries] at hmem
    simp only [List.mem_cons, List.not_mem_nil, or_false, Prod.mk.injEq] at hmem
    rcases hmem with ⟨-, rfl⟩ | ⟨-, rfl⟩ <;> cases htype
  obtain ⟨cls, text, hcls, htext, -, hdeclared, htfae⟩ :=
    (callees_resolved_tfae he "limits").2 hshort
  have hfields : (fieldsOf e).map Field.declared =
      [⟨"cap", ["dataclasses", "float"]⟩, ⟨"float", ["dataclasses"]⟩] := by
    rw [fieldsOf, hentries]
    decide +kernel
  rw [hfields] at hdeclared
  refine ⟨e, cls, text, he, hcls, htext, hdeclared, (htfae.out 0 1).mp ?_⟩
  rw [hdeclared]
  decide

/-- The same fields the other way around: the builtin is hidden from the default that calls it. -/
theorem callee_hidden :
    ∃ e cls, assemble (limitsDocument "float" "size") = .ok e ∧
      paramsClass (e.orNamed "limits") = .ok cls ∧
      declarations cls = [⟨"float", ["dataclasses"]⟩, ⟨"size", ["dataclasses", "float"]⟩] ∧
      ∀ module, ("float", Origin.field) ∈ resolved module [] (declarations cls) := by
  have hassembled : isOkWith (fun e => !(fieldsOf e).any Field.hasLongDefault &&
      (fieldsOf e).map Field.declared ==
        [⟨"float", ["dataclasses"]⟩, ⟨"size", ["dataclasses", "float"]⟩])
      (assemble (limitsDocument "float" "size")) = true := by decide +kernel
  obtain ⟨e, he, hchecked⟩ := exists_of_isOkWith hassembled
  obtain ⟨hshort, hfields⟩ := Bool.and_eq_true_iff.mp hchecked
  have hwritten : ¬(fieldsOf e).any Field.hasLongDefault = true := by simpa using hshort
  have hcls : paramsClass (e.orNamed "limits") =
      .ok (joinLines (paramsClassLines (e.name.getD "limits") (fieldsOf e))) := if_neg hwritten
  have hdeclared := (declarations_paramsClass (e := e.orNamed "limits") rfl hcls).trans
    (beq_iff_eq.mp hfields)
  refine ⟨e, _, he, hcls, hdeclared, fun module => ?_⟩
  rw [hdeclared]
  simp [resolved, originOf]

end Resolution

end EndpointBindings.Emission
