import Mathlib

/-!
A search of a graph with marks and a list of nodes that wait: where the search is at its end
depends on the marks it started with, and not on the order of the list.
-/

namespace Worklist

universe u

/-! ### Runs with fuel -/

section Run

variable {σ : Type u} (step : σ → Option σ)

def run : ℕ → σ → Option σ
  | 0, _ => none
  | fuel + 1, state =>
      match step state with
      | none => some state
      | some later => run fuel later

variable {step}

theorem run_induct {motive : σ → Prop}
    (keeps : ∀ state later, motive state → step state = some later → motive later)
    {fuel : ℕ} {state final : σ} (start : motive state)
    (finished : run step fuel state = some final) : motive final ∧ step final = none := by
  induction fuel generalizing state with
  | zero => cases finished
  | succ fuel ih =>
      unfold run at finished
      cases next : step state with
      | none =>
          rw [next] at finished
          cases finished
          exact ⟨start, next⟩
      | some later =>
          rw [next] at finished
          exact ih (keeps state later start next) finished

theorem run_mono {fuel more : ℕ} (le : fuel ≤ more) {state final : σ}
    (finished : run step fuel state = some final) : run step more state = some final := by
  induction fuel generalizing state more with
  | zero => cases finished
  | succ fuel ih =>
      obtain ⟨more, rfl⟩ := Nat.exists_eq_succ_of_ne_zero (by omega : more ≠ 0)
      unfold run at finished ⊢
      cases next : step state with
      | none =>
          rw [next] at finished
          exact finished
      | some later =>
          rw [next] at finished
          exact ih (Nat.le_of_succ_le_succ le) finished

/-- Runs that correspond step by step end in corresponding states. -/
theorem run_map {motive : σ → Prop} (image : σ → σ)
    (keeps : ∀ state later, motive state → step state = some later → motive later)
    (same : ∀ state, motive state → step (image state) = (step state).map image)
    (fuel : ℕ) (state : σ) (start : motive state) :
    run step fuel (image state) = (run step fuel state).map image := by
  induction fuel generalizing state with
  | zero => rfl
  | succ fuel ih =>
      unfold run
      rw [same state start]
      cases next : step state with
      | none => rfl
      | some later => exact ih later (keeps state later start next)

theorem exists_run {α : Type*} [Preorder α] [WellFoundedLT α] {motive : σ → Prop}
    (potential : σ → α)
    (keeps : ∀ state later, motive state → step state = some later →
      motive later ∧ potential later < potential state)
    (state : σ) (start : motive state) : ∃ fuel final, run step fuel state = some final := by
  induction bound : potential state using WellFoundedLT.induction generalizing state with
  | _ bound ih =>
      cases next : step state with
      | none =>
          refine ⟨1, state, ?_⟩
          unfold run
          rw [next]
      | some later =>
          obtain ⟨holds, less⟩ := keeps state later start next
          obtain ⟨fuel, final, ran⟩ := ih _ (bound ▸ less) later holds rfl
          refine ⟨fuel + 1, final, ?_⟩
          unfold run
          rw [next]
          exact ran

end Run

/-! ### The search -/

variable {ν : Type u} {succ : ν → ν → Prop} {root x : ν} {marks : ν → Prop}
variable {handled waiting later : List ν}

/-- A node that was found: it is marked, handled or waits. -/
def Found (marks : ν → Prop) (handled waiting : List ν) (x : ν) : Prop :=
  marks x ∨ x ∈ handled ∨ x ∈ waiting

/-- A search that handles the nodes without a mark. -/
structure Explores (succ : ν → ν → Prop) (root : ν) (marks : ν → Prop)
    (handled waiting : List ν) : Prop where
  nodup : handled.Nodup
  unmarked : ∀ x ∈ handled, ¬ marks x
  handledReached : ∀ x ∈ handled, Relation.ReflTransGen succ root x
  waitingReached : ∀ x ∈ waiting, Relation.ReflTransGen succ root x
  start : Found marks handled waiting root
  closed : ∀ x ∈ handled, ∀ y, succ x y → Found marks handled waiting y

theorem Explores.initial (succ : ν → ν → Prop) (root : ν) (marks : ν → Prop) :
    Explores succ root marks [] [root] where
  nodup := List.nodup_nil
  unmarked := fun _ impossible => absurd impossible List.not_mem_nil
  handledReached := fun _ impossible => absurd impossible List.not_mem_nil
  waitingReached := by
    intro x member
    rw [List.mem_singleton.mp member]
  start := Or.inr (Or.inr List.mem_cons_self)
  closed := fun _ impossible => absurd impossible List.not_mem_nil

/-- A node that need not be handled is dropped; successors of it may take its place. -/
theorem Explores.drop (explores : Explores succ root marks handled waiting)
    (waits : x ∈ waiting) (known : marks x ∨ x ∈ handled)
    (kept : ∀ y ∈ waiting, y = x ∨ y ∈ later)
    (fresh : ∀ y ∈ later, y ∈ waiting ∨ succ x y) :
    Explores succ root marks handled later := by
  have found (y : ν) (before : Found marks handled waiting y) : Found marks handled later y := by
    rcases before with marked | inHandled | inWaiting
    · exact Or.inl marked
    · exact Or.inr (Or.inl inHandled)
    · rcases kept y inWaiting with rfl | inLater
      · exact known.imp_right Or.inl
      · exact Or.inr (Or.inr inLater)
  refine ⟨explores.nodup, explores.unmarked, explores.handledReached, ?_, found root explores.start,
    fun y inHandled z step => found z (explores.closed y inHandled z step)⟩
  intro y inLater
  rcases fresh y inLater with before | step
  · exact explores.waitingReached y before
  · exact (explores.waitingReached x waits).tail step

/-- A node is handled, and its successors wait from then on. -/
theorem Explores.visit (explores : Explores succ root marks handled waiting)
    (waits : x ∈ waiting) (unmarked : ¬ marks x) (unhandled : x ∉ handled)
    (kept : ∀ y ∈ waiting, y = x ∨ y ∈ later)
    (fresh : ∀ y ∈ later, y ∈ waiting ∨ succ x y)
    (found : ∀ y, succ x y → Found marks (x :: handled) later y) :
    Explores succ root marks (x :: handled) later := by
  have still (y : ν) (before : Found marks handled waiting y) :
      Found marks (x :: handled) later y := by
    rcases before with marked | inHandled | inWaiting
    · exact Or.inl marked
    · exact Or.inr (Or.inl (List.mem_cons_of_mem x inHandled))
    · rcases kept y inWaiting with rfl | inLater
      · exact Or.inr (Or.inl List.mem_cons_self)
      · exact Or.inr (Or.inr inLater)
  constructor
  · exact List.nodup_cons.mpr ⟨unhandled, explores.nodup⟩
  · intro y member
    rcases List.mem_cons.mp member with rfl | before
    · exact unmarked
    · exact explores.unmarked y before
  · intro y member
    rcases List.mem_cons.mp member with rfl | before
    · exact explores.waitingReached y waits
    · exact explores.handledReached y before
  · intro y inLater
    rcases fresh y inLater with before | step
    · exact explores.waitingReached y before
    · exact (explores.waitingReached x waits).tail step
  · exact still root explores.start
  · intro y member z step
    rcases List.mem_cons.mp member with rfl | before
    · exact found z step
    · exact still z (explores.closed y before z step)

/-- A finished search handled the nodes that can be reached, each once, if and only if none of
them was marked. -/
theorem Explores.exact_iff (explores : Explores succ root marks handled []) :
    (handled.Nodup ∧ ∀ x, x ∈ handled ↔ Relation.ReflTransGen succ root x) ↔
      ∀ x, Relation.ReflTransGen succ root x → ¬ marks x := by
  constructor
  · rintro ⟨-, exact⟩ x reached
    exact explores.unmarked x ((exact x).mpr reached)
  · intro clear
    have inHandled {y : ν} (reached : Relation.ReflTransGen succ root y)
        (found : Found marks handled [] y) : y ∈ handled := by
      rcases found with marked | member | impossible
      · exact absurd marked (clear y reached)
      · exact member
      · exact absurd impossible List.not_mem_nil
    refine ⟨explores.nodup, fun x => ⟨explores.handledReached x, fun reached => ?_⟩⟩
    induction reached with
    | refl => exact inHandled .refl explores.start
    | tail path step ih => exact inHandled (path.tail step) (explores.closed _ ih _ step)

end Worklist
