import Mathlib

/-!
Footprints of instructions: what an instruction reads and writes of a store, and what
follows for two stores that agree on a set.
-/

namespace Footprints

variable {ρ α μ ω : Type*}

structure Result (ρ α μ ω : Type*) where
  store : ρ → α
  memory : μ
  output : Option ω
  taken : Bool

def Result.idle (store : ρ → α) (memory : μ) : Result ρ α μ ω :=
  { store, memory, output := none, taken := false }

structure Footprint (ρ : Type*) where
  /-- Read if the instruction executes. -/
  reads : Set ρ
  /-- Read to find out whether it executes. -/
  decides : Set ρ
  writes : Set ρ
  /-- Possibly written if it executes. -/
  mayWrite : Set ρ
  silent : Prop
  always : Prop
  never : Prop

namespace Footprint

variable (footprint : Footprint ρ) (exec : (ρ → α) → μ → Result ρ α μ ω)

/-- The part of the store that the result depends on. -/
def needs : Set ρ :=
  { x | x ∈ footprint.decides ∨ ¬ footprint.never ∧ x ∈ footprint.reads }

/-- What has to agree before an instruction for a set to agree after it. -/
def before (live : Set ρ) : Set ρ :=
  footprint.needs ∪ { x | x ∈ live ∧ ¬ (footprint.always ∧ x ∈ footprint.writes) }

/-- The footprint tells the truth in a state, and in the states that agree with it where the
instruction reads. -/
structure Truthful (store : ρ → α) (memory : μ) : Prop where
  same : ∀ other, Set.EqOn store other footprint.needs →
    (exec other memory).memory = (exec store memory).memory ∧
      (exec other memory).output = (exec store memory).output ∧
        (exec other memory).taken = (exec store memory).taken
  frame : ∀ x, x ∉ footprint.writes → x ∉ footprint.mayWrite →
    (exec store memory).store x = store x
  written : footprint.always → ∀ other, Set.EqOn store other footprint.needs →
    ∀ x ∈ footprint.writes, (exec store memory).store x = (exec other memory).store x
  kept : ∀ other, Set.EqOn store other footprint.needs → ∀ x, store x = other x →
    (exec store memory).store x = (exec other memory).store x
  silent : footprint.silent → (exec store memory).memory = memory ∧
    (exec store memory).output = none ∧ (exec store memory).taken = false
  idle : footprint.never → exec store memory = .idle store memory

variable {footprint exec} {store other : ρ → α} {memory : μ} {live : Set ρ}

theorem needs_subset_before : footprint.needs ⊆ footprint.before live :=
  Set.subset_union_left

theorem Truthful.agree (truthful : footprint.Truthful exec store memory)
    (agree : Set.EqOn store other (footprint.before live)) :
    Set.EqOn (exec store memory).store (exec other memory).store live := by
  have needed : Set.EqOn store other footprint.needs := agree.mono needs_subset_before
  intro x isLive
  by_cases overwritten : footprint.always ∧ x ∈ footprint.writes
  · exact truthful.written overwritten.1 other needed x overwritten.2
  · exact truthful.kept other needed x (agree (Or.inr ⟨isLive, overwritten⟩))

/-- A silent instruction that writes outside a set is as good as none. -/
theorem Truthful.dead (truthful : footprint.Truthful exec store memory)
    (silent : footprint.silent) (apart : Disjoint live (footprint.writes ∪ footprint.mayWrite)) :
    Set.EqOn (exec store memory).store store live ∧
      (exec store memory).memory = memory ∧ (exec store memory).output = none ∧
        (exec store memory).taken = false := by
  refine ⟨?_, truthful.silent silent⟩
  intro x isLive
  have outside := Set.disjoint_left.mp apart isLive
  exact truthful.frame x (fun writes => outside (Or.inl writes))
    (fun mayWrite => outside (Or.inr mayWrite))

end Footprint

end Footprints
