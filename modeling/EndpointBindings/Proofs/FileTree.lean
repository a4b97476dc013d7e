import Mathlib.Data.List.Basic
import Mathlib.Data.List.Dedup
import Mathlib.Data.List.Induction
import Mathlib.Data.List.Nodup
import EndpointBindings.FileSystem

/-!
File systems as trees. Every place holds one thing, under a name that has no slash, and lies in a
directory; so the way to a place can be read off its path.
-/

namespace EndpointBindings

/-- A name that an entry of a directory can have. -/
def IsEntryName (name : String) : Prop :=
  name ≠ "" ∧ name ≠ "." ∧ name ≠ ".." ∧ '/' ∉ name.toList

instance (name : String) : Decidable (IsEntryName name) :=
  inferInstanceAs (Decidable (_ ∧ _ ∧ _ ∧ _))

namespace FileSystem

structure WellFormed (fs : FileSystem) : Prop where
  distinct : (fs.nodes.map (·.1)).Nodup
  parent : ∀ e ∈ fs.nodes, ∃ l name, e.1 = l ++ [name] ∧ IsEntryName name ∧
    fs.isDirectoryAt l = true

/-- The names of all entries of a directory, each once, in whatever order. -/
structure Lists (fs : FileSystem) (directory : Location) (names : List String) : Prop where
  nodup : names.Nodup
  mem_iff : ∀ name, name ∈ names ↔ ∃ n, fs.get? (directory ++ [name]) = some n

end FileSystem

section Paths

variable {way other : Location}

open FileSystem

/-- The way to a place is told by its path. -/
theorem FilePath.parts_ofString_joinNames (h : ∀ name ∈ way, IsEntryName name) :
    (FilePath.ofString (joinNames way)).parts = way := by
  have htexts : ((way.map String.toList).map String.ofList) = way := by simp
  have hfilter : way.filter (fun p => p != "" && p != ".") = way := by
    apply List.filter_eq_self.mpr
    intro name hname
    obtain ⟨hempty, hdot, -⟩ := h name hname
    simp [hempty, hdot]
  cases way with
  | nil => rfl
  | cons first rest =>
      have hsplit : FilePath.splitSlashes (joinNames (first :: rest)).toList =
          (first :: rest).map String.toList := by
        rw [joinNames, String.toList_intercalate]
        apply List.splitOn_intercalate
        · intro cs hcs
          obtain ⟨name, hname, rfl⟩ := List.mem_map.mp hcs
          exact (h name hname).2.2.2
        · simp
      rw [FilePath.ofString]
      dsimp only
      rw [hsplit, htexts, hfilter]

theorem joinNames_inj (h : ∀ name ∈ way, IsEntryName name) (h' : ∀ name ∈ other, IsEntryName name)
    (heq : joinNames way = joinNames other) : way = other := by
  rw [← FilePath.parts_ofString_joinNames h, heq, FilePath.parts_ofString_joinNames h']

end Paths

namespace FileSystem

variable {fs : FileSystem} {l way directory : Location} {name : String} {n : Node}
  {octets : List UInt8}

theorem lookup_eq_some_iff_mem {nodes : List (Location × Node)} (h : (nodes.map (·.1)).Nodup) :
    nodes.lookup l = some n ↔ (l, n) ∈ nodes := by
  induction nodes with
  | nil => simp
  | cons e rest ih =>
      obtain ⟨m, k⟩ := e
      obtain ⟨hfirst, hrest⟩ := List.nodup_cons.mp h
      rw [List.lookup_cons, List.mem_cons, Prod.mk.injEq]
      by_cases hm : l = m
      · subst hm
        have hnone : (l, n) ∉ rest := by
          intro hmem
          apply hfirst
          exact List.mem_map.mpr ⟨_, hmem, rfl⟩
        simp [hnone, eq_comm]
      · rw [beq_eq_false_iff_ne.mpr hm]
        simp [hm, ih hrest]

@[simp] theorem get?_nil : fs.get? [] = some .directory := rfl

@[simp] theorem isDirectoryAt_iff : fs.isDirectoryAt l = true ↔ fs.get? l = some .directory := by
  simp [isDirectoryAt]

theorem relative?_eq_some_iff : relative? directory l = some way ↔ l = directory ++ way := by
  rw [relative?]
  split
  · rename_i hbegins
    obtain ⟨tail, rfl⟩ := List.isPrefixOf_iff_prefix.mp hbegins
    simp
  · rename_i hbegins
    simp only [reduceCtorEq, false_iff]
    rintro rfl
    exact hbegins (List.isPrefixOf_iff_prefix.mpr (List.prefix_append _ _))

namespace WellFormed

theorem ne_nil_of_mem (h : fs.WellFormed) (hmem : (l, n) ∈ fs.nodes) : l ≠ [] := by
  obtain ⟨m, name, hl, -⟩ := h.parent _ hmem
  have hl : l = m ++ [name] := hl
  simp [hl]

theorem get?_eq_some_iff (h : fs.WellFormed) (hl : l ≠ []) :
    fs.get? l = some n ↔ (l, n) ∈ fs.nodes := by
  rw [get?, if_neg hl, lookup_eq_some_iff_mem h.distinct]

/-- What stands in a directory by a name, stands in a directory. -/
theorem of_get?_append (h : fs.WellFormed) (hget : fs.get? (l ++ [name]) = some n) :
    fs.get? l = some .directory ∧ IsEntryName name := by
  obtain ⟨m, other, heq, hname, hm⟩ := h.parent _ ((h.get?_eq_some_iff (by simp)).mp hget)
  obtain ⟨rfl, hother⟩ := List.append_inj' heq rfl
  obtain rfl := List.singleton_inj.mp hother
  exact ⟨isDirectoryAt_iff.mp hm, hname⟩

/-- All places on the way to a place are directories, and all names on the way are names. -/
theorem of_get?_way (h : fs.WellFormed) (hget : fs.get? (l ++ way) = some n) (hway : way ≠ []) :
    fs.get? l = some .directory ∧ ∀ name ∈ way, IsEntryName name := by
  induction way using List.reverseRecOn generalizing n with
  | nil => exact absurd rfl hway
  | append_singleton rest name ih =>
      rw [← List.append_assoc] at hget
      obtain ⟨hparent, hname⟩ := h.of_get?_append hget
      cases rest with
      | nil => exact ⟨by simpa using hparent, by simpa using hname⟩
      | cons first more =>
          obtain ⟨hl, hnames⟩ := ih hparent (by simp)
          refine ⟨hl, fun other hother => ?_⟩
          rcases List.mem_append.mp hother with hother | hother
          · exact hnames other hother
          · rwa [List.mem_singleton.mp hother]

theorem mem_filesUnder_iff (h : fs.WellFormed) :
    (way, octets) ∈ fs.filesUnder directory ↔
      fs.get? (directory ++ way) = some (.file octets) := by
  have hmem : (way, octets) ∈ fs.filesUnder directory ↔
      (directory ++ way, Node.file octets) ∈ fs.nodes := by
    rw [filesUnder, List.mem_filterMap]
    constructor
    · rintro ⟨⟨l, n⟩, hmem, hway⟩
      cases n with
      | directory => simp at hway
      | file found =>
          obtain ⟨r, hr, heq⟩ := Option.map_eq_some_iff.mp hway
          obtain ⟨rfl, rfl⟩ := Prod.mk.inj heq
          rwa [← relative?_eq_some_iff.mp hr]
    · intro hmem
      exact ⟨_, hmem, Option.map_eq_some_iff.mpr ⟨way, relative?_eq_some_iff.mpr rfl, rfl⟩⟩
  rw [hmem]
  constructor
  · intro hnode
    exact (h.get?_eq_some_iff (h.ne_nil_of_mem hnode)).mpr hnode
  · intro hget
    refine (h.get?_eq_some_iff ?_).mp hget
    intro hnil
    rw [hnil] at hget
    simp at hget

theorem filesUnder_nodup (h : fs.WellFormed) :
    ((fs.filesUnder directory).map (·.1)).Nodup := by
  have hpairwise : fs.nodes.Pairwise fun a b => a.1 ≠ b.1 := List.pairwise_map.mp h.distinct
  rw [List.Nodup, List.pairwise_map, filesUnder]
  apply hpairwise.filterMap
  rintro ⟨l, n⟩ ⟨l', n'⟩ hne f hf g hg
  cases n with
  | directory => simp at hf
  | file octets =>
      cases n' with
      | directory => simp at hg
      | file octets' =>
          obtain ⟨r, hr, rfl⟩ := Option.map_eq_some_iff.mp hf
          obtain ⟨r', hr', rfl⟩ := Option.map_eq_some_iff.mp hg
          rintro rfl
          apply hne
          exact (relative?_eq_some_iff.mp hr).trans (relative?_eq_some_iff.mp hr').symm

end WellFormed

theorem mem_nodes_of_get? (hget : fs.get? l = some n) (hl : l ≠ []) : (l, n) ∈ fs.nodes := by
  rw [get?, if_neg hl, List.lookup_eq_some_iff] at hget
  obtain ⟨before, after, hnodes, -⟩ := hget
  simp [hnodes]

theorem exists_lists (fs : FileSystem) (directory : Location) :
    ∃ names, fs.Lists directory names := by
  -- The names that follow on the directory in some place, as far as something stands there.
  let names := (fs.nodes.filterMap fun e => (relative? directory e.1).bind List.head?).dedup
  refine ⟨names.filter fun name => (fs.get? (directory ++ [name])).isSome,
    (List.nodup_dedup _).filter _, fun name => ?_⟩
  rw [List.mem_filter, Option.isSome_iff_exists, and_iff_right_iff_imp]
  rintro ⟨n, hn⟩
  apply List.mem_dedup.mpr
  apply List.mem_filterMap.mpr
  refine ⟨_, mem_nodes_of_get? hn (by simp), ?_⟩
  rw [relative?_eq_some_iff.mpr rfl]
  rfl

theorem exists_depth (fs : FileSystem) : ∃ k, ∀ l n, fs.get? l = some n → l.length ≤ k := by
  have hnodes : ∀ nodes : List (Location × Node), ∃ k, ∀ e ∈ nodes, e.1.length ≤ k := by
    intro nodes
    induction nodes with
    | nil => simp
    | cons e rest ih =>
        obtain ⟨k, hk⟩ := ih
        refine ⟨max e.1.length k, fun d hd => ?_⟩
        rcases List.mem_cons.mp hd with rfl | hd
        · exact Nat.le_max_left _ _
        · exact Nat.le_trans (hk d hd) (Nat.le_max_right _ _)
  obtain ⟨k, hk⟩ := hnodes fs.nodes
  refine ⟨k, fun l n hget => ?_⟩
  by_cases hl : l = []
  · simp [hl]
  · exact hk _ (mem_nodes_of_get? hget hl)

section Ways

variable {m cwd : Location} {parts : List String} {p : FilePath}

theorem follow_cons_eq_ok {name : String} (h : fs.follow l (name :: parts) = .ok m) :
    fs.get? l = some .directory ∧
      fs.follow (if name = ".." then l.dropLast else l ++ [name]) parts = .ok m := by
  rw [follow] at h
  split at h
  · rename_i hl
    split at h
    · simp at h
    · exact ⟨hl, h⟩
  · simp at h
  · simp at h

theorem locate_eq_ok (h : fs.locate cwd p = .ok l) :
    fs.follow (if p.root.isEmpty then cwd else []) p.parts = .ok l := by
  rw [locate] at h
  split at h
  · simp at h
  · split at h
    · simp at h
    · exact h

theorem locate_eq (hparts : ∀ part ∈ p.parts, '\x00' ∉ part.toList)
    (hlength : p.text.utf8ByteSize < pathLimit) :
    fs.locate cwd p = fs.follow (if p.root.isEmpty then cwd else []) p.parts := by
  have hnul : p.parts.any (·.contains '\x00') = false := by
    apply List.any_eq_false.mpr
    intro part hpart
    simpa [String.contains_char_eq] using hparts part hpart
  rw [locate, hnul, if_neg (by simp), if_neg (by omega)]

theorem octets?_of_locate (hl : fs.get? l = some (.file octets)) (h : fs.locate cwd p = .ok l) :
    fs.octets? cwd p = .ok (some octets) := by
  simp [octets?, lookup, h, hl, bind, Except.bind, pure, Except.pure]

end Ways

end FileSystem

end EndpointBindings
