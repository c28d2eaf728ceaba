import Mathlib

/-!
Taking apart a computation that returned a result.
-/

namespace Drob

universe u v

variable {ε : Type u} {α β : Type v}

/-- A sequence of two computations that returned has run both of them. -/
theorem bind_ok {first : Except ε α} {next : α → Except ε β} {result : β}
    (returned : first >>= next = .ok result) :
    ∃ value, first = .ok value ∧ next value = .ok result := by
  cases first with
  | error failure => cases returned
  | ok value => exact ⟨value, rfl, returned⟩

theorem map_ok {first : Except ε α} {f : α → β} {result : β}
    (returned : first.map f = .ok result) : ∃ value, first = .ok value ∧ f value = result := by
  cases first with
  | error failure => cases returned
  | ok value => exact ⟨value, rfl, Except.ok.inj returned⟩

theorem ite_ok {condition : Prop} [Decidable condition] {first : Except ε α} {failure : ε}
    {result : α} (returned : (if condition then first else .error failure) = .ok result) :
    condition ∧ first = .ok result := by
  by_cases holds : condition
  · rw [if_pos holds] at returned
    exact ⟨holds, returned⟩
  · rw [if_neg holds] at returned
    cases returned

theorem ite_error {condition : Prop} [Decidable condition] {first : Except ε α} {failure : ε}
    {result : α} (returned : (if condition then .error failure else first) = .ok result) :
    ¬ condition ∧ first = .ok result := by
  by_cases holds : condition
  · rw [if_pos holds] at returned
    cases returned
  · rw [if_neg holds] at returned
    exact ⟨holds, returned⟩

end Drob
