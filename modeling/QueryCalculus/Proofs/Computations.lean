import Mathlib.Logic.Basic

/-!
# Computations that may fail

- `bind_eq_ok_iff`, `bind_eq_error` : how two computations in a row end
- `error_of_bind_pure`, `error_of_bind_bind_pure` : putting results together does not fail
- `exists_ok_of_map` : a result that is known through what a function gives for it

The statements are about any type of errors: each compiler and the reader of queries have their own.
-/

namespace QueryCalculus

variable {ε α β γ : Type} {err : ε}

theorem bind_eq_ok_iff {x : Except ε α} {k : α → Except ε β} {b : β} :
    (x >>= k) = .ok b ↔ ∃ a, x = .ok a ∧ k a = .ok b := by
  cases x with
  | error e => exact iff_of_false nofun nofun
  | ok a =>
    constructor
    · exact fun h => ⟨a, rfl, h⟩
    · rintro ⟨_, ⟨⟩, h⟩
      exact h

theorem pure_eq_ok_iff {a b : α} : (pure a : Except ε α) = .ok b ↔ b = a :=
  ⟨fun h => (Except.ok.inj h).symm, fun h => congrArg Except.ok h.symm⟩

theorem bind_eq_error {x : Except ε α} {k : α → Except ε β} (h : (x >>= k) = .error err) :
    x = .error err ∨ ∃ a, x = .ok a ∧ k a = .error err := by
  cases x with
  | error e =>
    cases h
    exact .inl rfl
  | ok a => exact .inr ⟨a, rfl, h⟩

theorem error_of_bind_pure {x : Except ε α} {g : α → β}
    (h : (x >>= fun a => pure (g a)) = .error err) : x = .error err := by
  rcases bind_eq_error h with failed | ⟨a, -, h⟩
  · exact failed
  · cases h

/-- Results that are put together at the end fail with the first or with the second of them. -/
theorem error_of_bind_bind_pure {x : Except ε α} {y : Except ε β} {g : α → β → γ}
    (h : (x >>= fun a => y >>= fun b => pure (g a b)) = .error err) :
    x = .error err ∨ y = .error err := by
  rcases bind_eq_error h with failed | ⟨a, -, h⟩
  · exact .inl failed
  · exact .inr (error_of_bind_pure h)

theorem mapError_ok_iff {ε' : Type} {f : ε → ε'} {x : Except ε α} {a : α} :
    x.mapError f = .ok a ↔ x = .ok a := by
  cases x with
  | error e => exact iff_of_false nofun nofun
  | ok b =>
    constructor
    · intro h
      cases h
      rfl
    · intro h
      cases h
      rfl

theorem exists_ok_of_map {x : Except ε α} {f : α → β} {b : β}
    (h : x.toOption.map f = some b) : ∃ a, x = .ok a ∧ f a = b := by
  cases x with
  | error e => cases h
  | ok a => exact ⟨a, rfl, Option.some.inj h⟩

end QueryCalculus
