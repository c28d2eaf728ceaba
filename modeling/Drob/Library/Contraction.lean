import Mathlib

/-!
Taking one element out of a relation: every path through it is kept as a direct step.
-/

namespace Contraction

variable {α : Type} {r : α → α → Prop} {b x y : α}

/-- The relation on the other elements, with the steps through the removed one. -/
def Contracted (r : α → α → Prop) (b x y : α) : Prop :=
  x ≠ b ∧ y ≠ b ∧ (r x y ∨ r x b ∧ r b y)

theorem Contracted.transGen (step : Contracted r b x y) : Relation.TransGen r x y := by
  obtain ⟨_, _, direct | ⟨first, second⟩⟩ := step
  · exact .single direct
  · exact .tail (.single first) second

theorem transGen_of_contracted (path : Relation.TransGen (Contracted r b) x y) :
    Relation.TransGen r x y := by
  induction path with
  | single step => exact step.transGen
  | tail _ step ih => exact ih.trans step.transGen

/-- A path to the removed element ends with a step from another one. -/
theorem contracted_of_transGen (start : x ≠ b) (path : Relation.TransGen r x y) :
    (y ≠ b → Relation.TransGen (Contracted r b) x y) ∧
      (y = b → ∃ w, Relation.ReflTransGen (Contracted r b) x w ∧ w ≠ b ∧ r w b) := by
  induction path with
  | single step =>
      refine ⟨fun other => .single ⟨start, other, Or.inl step⟩, ?_⟩
      rintro rfl
      exact ⟨x, .refl, start, step⟩
  | @tail z y _ step ih =>
      by_cases middle : z = b
      · obtain ⟨w, before, other, last⟩ := ih.2 middle
        refine ⟨?_, fun _ => ⟨w, before, other, last⟩⟩
        intro outside
        exact Relation.TransGen.tail' before ⟨other, outside, Or.inr ⟨last, middle ▸ step⟩⟩
      · have before := ih.1 middle
        refine ⟨fun outside => before.tail ⟨middle, outside, Or.inl step⟩, ?_⟩
        rintro rfl
        exact ⟨z, before.to_reflTransGen, middle, step⟩

theorem transGen_contracted_iff (left : x ≠ b) (right : y ≠ b) :
    Relation.TransGen (Contracted r b) x y ↔ Relation.TransGen r x y :=
  ⟨transGen_of_contracted, fun path => (contracted_of_transGen left path).1 right⟩

theorem reflTransGen_contracted_iff (left : x ≠ b) (right : y ≠ b) :
    Relation.ReflTransGen (Contracted r b) x y ↔ Relation.ReflTransGen r x y := by
  rw [Relation.reflTransGen_iff_eq_or_transGen, Relation.reflTransGen_iff_eq_or_transGen,
    transGen_contracted_iff left right]

theorem ne_of_transGen_contracted (path : Relation.TransGen (Contracted r b) x y) :
    x ≠ b ∧ y ≠ b := by
  induction path with
  | single step => exact ⟨step.1, step.2.1⟩
  | tail _ step ih => exact ⟨ih.1, step.2.1⟩

/-- Cycles survive as long as the removed element is not a cycle of its own. -/
theorem acyclic_contracted_iff {next : α} (step : r b next) (other : next ≠ b)
    (unique : ∀ y, r b y → y = next) :
    (∀ x, ¬ Relation.TransGen (Contracted r b) x x) ↔ ∀ x, ¬ Relation.TransGen r x x := by
  constructor
  · intro acyclic x cycle
    by_cases removed : x = b
    · subst removed
      obtain ⟨y, first, rest⟩ := Relation.TransGen.head'_iff.mp cycle
      rw [unique y first] at rest
      have around : Relation.TransGen r next next := Relation.TransGen.tail' rest step
      exact acyclic next ((transGen_contracted_iff other other).mpr around)
    · exact acyclic x ((transGen_contracted_iff removed removed).mpr cycle)
  · intro acyclic x cycle
    exact acyclic x (transGen_of_contracted cycle)

end Contraction
