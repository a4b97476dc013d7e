/-!
Maps from names to values, in the order of the names. `get?_insert` says what a name is bound to
after an insertion; the order is part of the type.
-/

namespace EndpointBindings

structure NameMap (α : Type) where
  entries : List (String × α)
  ordered : entries.Pairwise fun a b => a.1 < b.1

namespace NameMap

variable {α : Type}

def empty : NameMap α := ⟨[], List.Pairwise.nil⟩

instance : Inhabited (NameMap α) := ⟨empty⟩

def names (m : NameMap α) : List String := m.entries.map (·.1)

def values (m : NameMap α) : List α := m.entries.map (·.2)

def size (m : NameMap α) : Nat := m.entries.length

def isEmpty (m : NameMap α) : Bool := m.entries.isEmpty

/-- What a name is bound to among entries. -/
def lookup (name : String) : List (String × α) → Option α
  | [] => none
  | (n, value) :: rest => if n = name then some value else lookup name rest

def get? (name : String) (m : NameMap α) : Option α := lookup name m.entries

def contains (name : String) (m : NameMap α) : Bool := (m.get? name).isSome

/-- Puts an entry at its place among entries in order; an entry of the same name gives way. -/
def insertEntry (name : String) (value : α) : List (String × α) → List (String × α)
  | [] => [(name, value)]
  | e :: rest =>
    if name < e.1 then (name, value) :: e :: rest
    else if name = e.1 then (name, value) :: rest
    else e :: insertEntry name value rest

theorem mem_insertEntry {name : String} {value : α} {e : String × α} {l : List (String × α)}
    (h : e ∈ insertEntry name value l) : e = (name, value) ∨ e ∈ l := by
  induction l with
  | nil => simpa [insertEntry] using h
  | cons d rest ih =>
    unfold insertEntry at h
    split at h
    · simpa using h
    · split at h
      · rcases List.mem_cons.1 h with h | h
        · exact .inl h
        · exact .inr (List.mem_cons_of_mem _ h)
      · rcases List.mem_cons.1 h with h | h
        · exact .inr (h ▸ List.mem_cons_self)
        · rcases ih h with h | h
          · exact .inl h
          · exact .inr (List.mem_cons_of_mem _ h)

theorem lt_of_not_lt_of_ne {a b : String} (h : ¬a < b) (hne : a ≠ b) : b < a := by
  have hle : b ≤ a := String.not_lt.1 h
  rcases Classical.em (b < a) with hlt | hlt
  · exact hlt
  · exact absurd (String.le_antisymm (String.not_lt.1 hlt) hle) hne

theorem ordered_insertEntry {name : String} {value : α} {l : List (String × α)}
    (h : l.Pairwise fun a b => a.1 < b.1) :
    (insertEntry name value l).Pairwise fun a b => a.1 < b.1 := by
  induction l with
  | nil => simp [insertEntry]
  | cons d rest ih =>
    obtain ⟨hd, hrest⟩ := List.pairwise_cons.1 h
    unfold insertEntry
    split
    · rename_i hlt
      refine List.pairwise_cons.2 ⟨fun e he => ?_, h⟩
      rcases List.mem_cons.1 he with rfl | he
      · exact hlt
      · exact String.lt_trans hlt (hd e he)
    · split
      · rename_i heq
        exact List.pairwise_cons.2 ⟨fun e he => heq ▸ hd e he, hrest⟩
      · rename_i hlt hne
        refine List.pairwise_cons.2 ⟨fun e he => ?_, ih hrest⟩
        rcases mem_insertEntry he with rfl | he
        · exact lt_of_not_lt_of_ne hlt hne
        · exact hd e he

/-- Binds a name, whether it was bound before or not. -/
def insert (name : String) (value : α) (m : NameMap α) : NameMap α :=
  ⟨insertEntry name value m.entries, ordered_insertEntry m.ordered⟩

/-- The map of pairs, in which the last pair of a name counts. -/
def ofPairs (pairs : List (String × α)) : NameMap α :=
  pairs.foldl (fun m p => m.insert p.1 p.2) empty

theorem lookup_insertEntry (name other : String) (value : α) (l : List (String × α)) :
    lookup other (insertEntry name value l) =
      if name = other then some value else lookup other l := by
  induction l with
  | nil => simp [insertEntry, lookup]
  | cons d rest ih =>
    unfold insertEntry
    split
    · simp [lookup]
    · split <;> grind [lookup]

theorem get?_insert (name other : String) (value : α) (m : NameMap α) :
    (m.insert name value).get? other = if name = other then some value else m.get? other :=
  lookup_insertEntry name other value m.entries

@[simp] theorem get?_empty (name : String) : (empty : NameMap α).get? name = none := rfl

end NameMap

end EndpointBindings
