import Mathlib

/-!
Least solutions of monotone equations, reached by updates of single unknowns in any order,
and runs with fuel of a step that may fail.
-/

namespace FixedPoints

universe u v

/-! ### Updates of single unknowns -/

section Updates

variable {ι : Type u} {α : Type v} [DecidableEq ι] [PartialOrder α]
variable {eval : (ι → α) → ι → α} {values : ι → α}

/-- Values below every solution that no update lowers. -/
structure Ascending (eval : (ι → α) → ι → α) (values : ι → α) : Prop where
  below : ∀ other, (∀ b, eval other b ≤ other b) → values ≤ other
  grows : ∀ b, values b ≤ eval values b

omit [DecidableEq ι] in
theorem Ascending.bot [OrderBot α] : Ascending eval (fun _ => ⊥) where
  below := fun _ _ _ => bot_le
  grows := fun _ => bot_le

theorem le_update (ascending : Ascending eval values) (b : ι) :
    values ≤ Function.update values b (eval values b) := by
  intro c
  by_cases here : c = b
  · subst here
    rw [Function.update_self]
    exact ascending.grows c
  · rw [Function.update_of_ne here]

theorem Ascending.update (mono : Monotone eval) (ascending : Ascending eval values) (b : ι) :
    Ascending eval (Function.update values b (eval values b)) := by
  constructor
  · intro other solution c
    by_cases here : c = b
    · subst here
      rw [Function.update_self]
      exact le_trans (mono (ascending.below other solution) c) (solution c)
    · rw [Function.update_of_ne here]
      exact ascending.below other solution c
  · intro c
    have step := mono (le_update ascending b) c
    by_cases here : c = b
    · subst here
      rw [Function.update_self]
      exact step
    · rw [Function.update_of_ne here]
      exact le_trans (ascending.grows c) step

end Updates

/-! ### Runs of a step that may fail -/

section Run

variable {σ : Type u} {ε : Type v} (step : σ → Except ε (Option σ))

/-- The last state, `none` if the fuel is not enough. -/
def run : ℕ → σ → Except ε (Option σ)
  | 0, _ => .ok none
  | fuel + 1, state =>
      match step state with
      | .error failure => .error failure
      | .ok none => .ok (some state)
      | .ok (some later) => run fuel later

variable {step}

/-- A run ends without failing if the steps keep an invariant under which they do not fail,
and a potential falls with each of them. -/
theorem exists_run {α : Type*} [Preorder α] [WellFoundedLT α] {motive : σ → Prop}
    (potential : σ → α)
    (keeps : ∀ state, motive state → step state = .ok none ∨
      ∃ later, step state = .ok (some later) ∧ motive later ∧ potential later < potential state)
    (state : σ) (start : motive state) :
    ∃ fuel final, run step fuel state = .ok (some final) ∧ motive final ∧
      step final = .ok none := by
  induction bound : potential state using WellFoundedLT.induction generalizing state with
  | _ bound ih =>
      rcases keeps state start with finished | ⟨later, steps, holds, less⟩
      · refine ⟨1, state, ?_, start, finished⟩
        unfold run
        rw [finished]
      · obtain ⟨fuel, final, ran, finalHolds, finished⟩ := ih _ (bound ▸ less) later holds rfl
        refine ⟨fuel + 1, final, ?_, finalHolds, finished⟩
        unfold run
        rw [steps]
        exact ran

/-- A run ends, if only by failing, where a potential falls with each step. -/
theorem run_ends {α : Type*} [Preorder α] [WellFoundedLT α] {motive : σ → Prop}
    (potential : σ → α)
    (keeps : ∀ state later, motive state → step state = .ok (some later) →
      motive later ∧ potential later < potential state)
    (state : σ) (start : motive state) :
    ∃ fuel, (∃ final, run step fuel state = .ok (some final)) ∨
      ∃ failure, run step fuel state = .error failure := by
  induction bound : potential state using WellFoundedLT.induction generalizing state with
  | _ bound ih =>
      cases stepped : step state with
      | error failure =>
          refine ⟨1, Or.inr ⟨failure, ?_⟩⟩
          unfold run
          rw [stepped]
      | ok next =>
          cases next with
          | none =>
              refine ⟨1, Or.inl ⟨state, ?_⟩⟩
              unfold run
              rw [stepped]
          | some later =>
              obtain ⟨holds, less⟩ := keeps state later start stepped
              obtain ⟨fuel, ended⟩ := ih _ (bound ▸ less) later holds rfl
              refine ⟨fuel + 1, ?_⟩
              unfold run
              rw [stepped]
              exact ended

theorem run_error {motive : σ → Prop}
    (keeps : ∀ state later, motive state → step state = .ok (some later) → motive later)
    {fuel : ℕ} {state : σ} {failure : ε} (start : motive state)
    (ran : run step fuel state = .error failure) :
    ∃ last, motive last ∧ step last = .error failure := by
  induction fuel generalizing state with
  | zero => cases ran
  | succ fuel ih =>
      unfold run at ran
      cases stepped : step state with
      | error other =>
          rw [stepped] at ran
          cases ran
          exact ⟨state, start, stepped⟩
      | ok next =>
          rw [stepped] at ran
          cases next with
          | none => cases ran
          | some later => exact ih (keeps state later start stepped) ran

theorem run_keeps {motive : σ → Prop}
    (keeps : ∀ state later, motive state → step state = .ok (some later) → motive later)
    {fuel : ℕ} {state final : σ} (start : motive state)
    (ran : run step fuel state = .ok (some final)) : motive final ∧ step final = .ok none := by
  induction fuel generalizing state with
  | zero => cases ran
  | succ fuel ih =>
      unfold run at ran
      cases stepped : step state with
      | error failure =>
          rw [stepped] at ran
          cases ran
      | ok next =>
          rw [stepped] at ran
          cases next with
          | none =>
              cases ran
              exact ⟨start, stepped⟩
          | some later => exact ih (keeps state later start stepped) ran

end Run

end FixedPoints
