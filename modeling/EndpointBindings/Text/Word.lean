/-!
Words of a text: the longest runs between the characters that separate them. Cutting a text into its
words loses its separators and nothing else.
-/

namespace EndpointBindings.Text

/-- Puts a character in front of the first word, or makes a word of it when `joins` is false. -/
def consWord (c : Char) (joins : Bool) : List (List Char) → List (List Char)
  | [] => [[c]]
  | w :: ws => if joins then (c :: w) :: ws else [c] :: w :: ws

/-- The longest runs of characters that do not separate words. -/
def runs (separates : Char → Bool) : List Char → List (List Char)
  | [] => []
  | c :: rest =>
    if separates c then runs separates rest
    else consWord c (rest.head?.any (!separates ·)) (runs separates rest)

variable {separates : Char → Bool} {c d : Char} {cs w : List Char} {joins : Bool}
  {ws : List (List Char)}

theorem runs_cons_of_separates (hc : separates c = true) :
    runs separates (c :: cs) = runs separates cs := by
  rw [runs, if_pos hc]

theorem consWord_ne_nil : consWord c joins ws ≠ [] := by
  cases ws with
  | nil => exact List.cons_ne_nil _ _
  | cons w ws => cases joins <;> exact List.cons_ne_nil _ _

theorem runs_cons (hc : separates c = false) :
    runs separates (c :: cs) = consWord c (cs.head?.any (!separates ·)) (runs separates cs) := by
  rw [runs, if_neg (by simp [hc])]

theorem runs_cons_ne_nil (hc : separates c = false) : runs separates (c :: cs) ≠ [] := by
  rw [runs_cons hc]
  exact consWord_ne_nil

theorem flatten_consWord : (consWord c joins ws).flatten = c :: ws.flatten := by
  cases ws with
  | nil => rfl
  | cons w ws => cases joins <;> rfl

/-- Nothing is lost between words but what separates them. -/
theorem flatten_runs : (runs separates cs).flatten = cs.filter (!separates ·) := by
  induction cs with
  | nil => rfl
  | cons c rest ih =>
      cases hc : separates c with
      | true => rw [runs_cons_of_separates hc, ih, List.filter_cons_of_neg (by simp [hc])]
      | false =>
          rw [runs_cons hc, flatten_consWord, ih, List.filter_cons_of_pos (by simp [hc])]

theorem of_mem_runs (hw : w ∈ runs separates cs) (hd : d ∈ w) : d ∈ cs ∧ separates d = false := by
  have hmem : d ∈ cs.filter (!separates ·) := by
    rw [← flatten_runs]
    exact List.mem_flatten_of_mem hw hd
  simpa using hmem

theorem ne_nil_of_mem_consWord (hws : [] ∉ ws) (hw : w ∈ consWord c joins ws) : w ≠ [] := by
  rintro rfl
  cases ws with
  | nil => simp [consWord] at hw
  | cons v vs => cases joins <;> simp_all [consWord]

theorem ne_nil_of_mem_runs (hw : w ∈ runs separates cs) : w ≠ [] := by
  induction cs generalizing w with
  | nil => simp [runs] at hw
  | cons c rest ih =>
      cases hc : separates c with
      | true => exact ih (by rwa [runs_cons_of_separates hc] at hw)
      | false =>
          rw [runs_cons hc] at hw
          exact ne_nil_of_mem_consWord (fun hnil => ih hnil rfl) hw

end EndpointBindings.Text
