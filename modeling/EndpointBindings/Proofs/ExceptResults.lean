import Mathlib.Logic.Basic

/-!
What it takes for a computation that may fail to end in a given way.
-/

namespace EndpointBindings

variable {ε ε' α β : Type}

theorem bind_eq_ok {x : Except ε α} {f : α → Except ε β} {b : β} :
    (x >>= f) = .ok b ↔ ∃ a, x = .ok a ∧ f a = .ok b := by
  cases x with
  | error e => simp [bind, Except.bind]
  | ok a => simp [bind, Except.bind]

theorem bind_eq_error {x : Except ε α} {f : α → Except ε β} {e : ε} :
    (x >>= f) = .error e ↔ x = .error e ∨ ∃ a, x = .ok a ∧ f a = .error e := by
  cases x with
  | error e => simp [bind, Except.bind]
  | ok a => simp [bind, Except.bind]

theorem map_eq_ok {f : α → β} {x : Except ε α} {b : β} :
    f <$> x = .ok b ↔ ∃ a, x = .ok a ∧ f a = b := by
  cases x <;> simp [Functor.map, Except.map]

theorem map_eq_error {f : α → β} {x : Except ε α} {e : ε} :
    f <$> x = .error e ↔ x = .error e := by
  cases x <;> simp [Functor.map, Except.map]

@[simp] theorem mapError_ok {f : ε → ε'} {a : α} :
    (Except.ok a : Except ε α).mapError f = .ok a := rfl

@[simp] theorem mapError_error {f : ε → ε'} {e : ε} :
    (Except.error e : Except ε α).mapError f = .error (f e) := rfl

theorem mapError_eq_ok {f : ε → ε'} {x : Except ε α} {a : α} :
    x.mapError f = .ok a ↔ x = .ok a := by
  cases x <;> simp

theorem mapError_eq_error {f : ε → ε'} {x : Except ε α} {e : ε'} :
    x.mapError f = .error e ↔ ∃ e', x = .error e' ∧ f e' = e := by
  cases x <;> simp

/-- Whether a computation has a result and the result passes a check. -/
def isOkWith (check : α → Bool) : Except ε α → Bool
  | .ok a => check a
  | .error _ => false

theorem exists_of_isOkWith {check : α → Bool} {x : Except ε α} (h : isOkWith check x = true) :
    ∃ a, x = .ok a ∧ check a = true := by
  cases x with
  | error e => exact absurd h Bool.false_ne_true
  | ok a => exact ⟨a, rfl, h⟩

/-- The second of two computations ends as the first does, unless the first runs into a limit. -/
def AgreesUnless (limit : ε → Prop) (x y : Except ε α) : Prop :=
  y = x ∨ ∃ e, limit e ∧ x = .error e

section Limits

variable {limit : ε → Prop} {x y : Except ε α} {e : ε}

theorem AgreesUnless.refl (x : Except ε α) : AgreesUnless limit x x := .inl rfl

theorem AgreesUnless.of_limit (h : limit e) (y : Except ε α) : AgreesUnless limit (.error e) y :=
  .inr ⟨e, h, rfl⟩

theorem AgreesUnless.bind {f g : α → Except ε β} (hx : AgreesUnless limit x y)
    (hf : ∀ a, AgreesUnless limit (f a) (g a)) : AgreesUnless limit (x >>= f) (y >>= g) := by
  rcases hx with rfl | ⟨e, he, rfl⟩
  · cases y with
    | error e => exact .refl _
    | ok a => exact hf a
  · exact .of_limit he _

theorem AgreesUnless.eq (h : AgreesUnless limit x y) (hx : ∀ e, x = .error e → ¬limit e) :
    y = x := by
  rcases h with rfl | ⟨e, he, rfl⟩
  · rfl
  · exact absurd he (hx e rfl)

end Limits

end EndpointBindings
