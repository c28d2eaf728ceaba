import Mathlib

/-!
Traces of labelled transition systems with silent steps, and simulations that keep them.
-/

namespace Traces

variable {σ τ α : Type*} {step : σ → Option α → σ → Prop} {other : τ → Option α → τ → Prop}

/-- The labels along a finite run; silent steps have none. -/
inductive Trace (step : σ → Option α → σ → Prop) : σ → List α → Prop where
  | nil (s : σ) : Trace step s []
  | silent {s t : σ} {labels : List α} (first : step s none t) (rest : Trace step t labels) :
      Trace step s labels
  | visible {s t : σ} {label : α} {labels : List α} (first : step s (some label) t)
      (rest : Trace step t labels) : Trace step s (label :: labels)

/-- A finite run with its labels and the state it ends in. -/
inductive Run (step : σ → Option α → σ → Prop) : σ → List α → σ → Prop where
  | nil (s : σ) : Run step s [] s
  | silent {s t u : σ} {labels : List α} (first : step s none t) (rest : Run step t labels u) :
      Run step s labels u
  | visible {s t u : σ} {label : α} {labels : List α} (first : step s (some label) t)
      (rest : Run step t labels u) : Run step s (label :: labels) u

theorem Run.append {s t u : σ} {labels more : List α} (first : Run step s labels t)
    (second : Run step t more u) : Run step s (labels ++ more) u := by
  induction first with
  | nil s => exact second
  | silent step _ ih => exact .silent step (ih second)
  | visible step _ ih => exact .visible step (ih second)

/-- Silent steps and then a step with the label, if there is one. -/
inductive Weak (step : σ → Option α → σ → Prop) : σ → Option α → σ → Prop where
  | stay (s : σ) : Weak step s none s
  | single {s t : σ} {label : Option α} (last : step s label t) : Weak step s label t
  | silent {s t u : σ} {label : Option α} (first : step s none t) (rest : Weak step t label u) :
      Weak step s label u

theorem Trace.of_weak {s t : σ} {label : Option α} {labels : List α}
    (weak : Weak step s label t) (rest : Trace step t labels) :
    Trace step s (label.toList ++ labels) := by
  induction weak with
  | stay s => exact rest
  | @single s t label last =>
      cases label with
      | none => exact .silent last rest
      | some value => exact .visible last rest
  | silent first _ ih => exact .silent first (ih rest)

theorem Run.of_weak {s t u : σ} {label : Option α} {labels : List α}
    (weak : Weak step s label t) (rest : Run step t labels u) :
    Run step s (label.toList ++ labels) u := by
  induction weak with
  | stay s => exact rest
  | @single s t label last =>
      cases label with
      | none => exact .silent last rest
      | some value => exact .visible last rest
  | silent first _ ih => exact .silent first (ih rest)

theorem weak_of_run {s t u : σ} {label : Option α} (silent : Run step s [] t)
    (last : step t label u) : Weak step s label u := by
  generalize none : ([] : List α) = labels at silent
  induction silent with
  | nil s => exact .single last
  | silent first _ ih => exact .silent first (ih last none)
  | visible _ _ _ => cases none

theorem weak_of_silent {s t : σ} (silent : Run step s [] t) : Weak step s none t := by
  generalize none : ([] : List α) = labels at silent
  induction silent with
  | nil s => exact .stay s
  | silent first _ ih => exact .silent first (ih none)
  | visible _ _ _ => cases none

/-- Every step of the first system is matched by the second one. -/
def Simulates (step : σ → Option α → σ → Prop) (other : τ → Option α → τ → Prop)
    (related : σ → τ → Prop) : Prop :=
  ∀ s t s' label, related s t → step s label s' → ∃ t', related s' t' ∧ Weak other t label t'

theorem Simulates.trace {related : σ → τ → Prop} (simulates : Simulates step other related)
    {s : σ} {t : τ} (start : related s t) {labels : List α} (trace : Trace step s labels) :
    Trace other t labels := by
  induction trace generalizing t with
  | nil s => exact .nil t
  | silent first _ ih =>
      obtain ⟨t', next, weak⟩ := simulates _ t _ none start first
      exact Trace.of_weak weak (ih next)
  | visible first _ ih =>
      obtain ⟨t', next, weak⟩ := simulates _ t _ (some _) start first
      exact Trace.of_weak weak (ih next)

theorem Simulates.run {related : σ → τ → Prop} (simulates : Simulates step other related)
    {s s' : σ} {t : τ} (start : related s t) {labels : List α} (run : Run step s labels s') :
    ∃ t', related s' t' ∧ Run other t labels t' := by
  induction run generalizing t with
  | nil s => exact ⟨t, start, .nil t⟩
  | silent first _ ih =>
      obtain ⟨t', next, weak⟩ := simulates _ t _ none start first
      obtain ⟨last, ends, rest⟩ := ih next
      exact ⟨last, ends, Run.of_weak weak rest⟩
  | visible first _ ih =>
      obtain ⟨t', next, weak⟩ := simulates _ t _ (some _) start first
      obtain ⟨last, ends, rest⟩ := ih next
      exact ⟨last, ends, Run.of_weak weak rest⟩

/-- Two states that make the same steps, to states that are related again. -/
structure Lockstep (step : σ → Option α → σ → Prop) (other : τ → Option α → τ → Prop)
    (related : σ → τ → Prop) (s : σ) (t : τ) : Prop where
  forth : ∀ label s', step s label s' → ∃ t', related s' t' ∧ other t label t'
  back : ∀ label t', other t label t' → ∃ s', related s' t' ∧ step s label s'

/-- Two systems that simulate each other have the same traces. -/
theorem trace_iff {related : σ → τ → Prop} (forth : Simulates step other related)
    (back : Simulates other step (fun t s => related s t)) {s : σ} {t : τ}
    (start : related s t) (labels : List α) : Trace other t labels ↔ Trace step s labels :=
  ⟨back.trace start, forth.trace start⟩

end Traces
