import Drob.Passes.LivenessAnalysis

/-!
The queue of the liveness analysis: each block is in it at most once, none of them is valid, and
all of them are found from a return.
-/

namespace Drob

variable {ι : Type}

/-! ### The queue -/

namespace LivenessState

variable [DecidableEq ι] {state : LivenessState ι}

/-- The queued blocks are the ones in the queue, each once, and none of them is valid. -/
structure Queue (state : LivenessState ι) : Prop where
  nodup : state.blocksToProcess.Nodup
  listed : ∀ b, state.queued b = true ↔ b ∈ state.blocksToProcess
  invalid : ∀ b ∈ state.blocksToProcess, state.livenessAnalysisValid b = false

theorem Queue.enqueue (queue : Queue state) {b : ι}
    (invalid : state.livenessAnalysisValid b = false) : Queue (state.enqueue b) := by
  unfold LivenessState.enqueue
  by_cases queued : state.queued b = true
  · rw [if_pos queued]
    exact queue
  · rw [if_neg queued]
    have fresh : b ∉ state.blocksToProcess := fun member => queued ((queue.listed b).mpr member)
    constructor
    · refine queue.nodup.append (List.nodup_singleton b) ?_
      intro c member single
      rw [List.mem_singleton.mp single] at member
      exact fresh member
    · intro c
      change Function.update state.queued b true c = true ↔ c ∈ state.blocksToProcess ++ [b]
      rw [List.mem_append, List.mem_singleton, ← queue.listed c, Function.update_apply]
      by_cases here : c = b
      · simp [here]
      · simp [here]
    · intro c member
      rcases List.mem_append.mp member with old | new
      · exact queue.invalid c old
      · rw [List.mem_singleton.mp new]
        exact invalid

def invalidated (state : LivenessState ι) (b : ι) : LivenessState ι :=
  { state with livenessAnalysisValid := Function.update state.livenessAnalysisValid b false }

theorem tellPredecessor_false (state : LivenessState ι) (prev : ι) :
    state.tellPredecessor false prev =
      if state.livenessAnalysisValid prev then state else state.enqueue prev := rfl

theorem tellPredecessor_true (state : LivenessState ι) (prev : ι) :
    state.tellPredecessor true prev = (state.invalidated prev).enqueue prev := by
  have invalid : (state.invalidated prev).livenessAnalysisValid prev = false :=
    Function.update_self _ _ _
  change (if (state.invalidated prev).livenessAnalysisValid prev then state.invalidated prev
    else (state.invalidated prev).enqueue prev) = _
  rw [invalid, if_neg Bool.false_ne_true]

theorem Queue.invalidated (queue : Queue state) (b : ι) : Queue (state.invalidated b) where
  nodup := queue.nodup
  listed := queue.listed
  invalid := by
    intro c member
    unfold LivenessState.invalidated
    dsimp only
    rw [Function.update_apply]
    split
    · rfl
    · exact queue.invalid c member

theorem Queue.tellPredecessor (queue : Queue state) (changed : Bool) (prev : ι) :
    Queue (state.tellPredecessor changed prev) := by
  cases changed with
  | false =>
      rw [tellPredecessor_false]
      cases valid : state.livenessAnalysisValid prev with
      | true => exact queue
      | false => exact queue.enqueue valid
  | true =>
      rw [tellPredecessor_true]
      exact (queue.invalidated prev).enqueue (Function.update_self _ _ _)

theorem Queue.tellPredecessors (queue : Queue state) (changed : Bool) (prevs : List ι) :
    Queue (prevs.foldl (LivenessState.tellPredecessor changed) state) := by
  induction prevs generalizing state with
  | nil => exact queue
  | cons prev rest ih => exact ih (queue.tellPredecessor changed prev)

theorem tellPredecessor_spec (changed : Bool) (state : LivenessState ι) (prev : ι) :
    (state.tellPredecessor changed prev).livenessAnalysisValid =
      (if changed then Function.update state.livenessAnalysisValid prev false
        else state.livenessAnalysisValid) ∧
      (state.tellPredecessor changed prev).hasData = state.hasData := by
  cases changed with
  | false =>
      rw [tellPredecessor_false]
      cases state.livenessAnalysisValid prev with
      | true => exact ⟨rfl, rfl⟩
      | false => exact ⟨valid_enqueue _ _, hasData_enqueue _ _⟩
  | true =>
      rw [tellPredecessor_true]
      exact ⟨valid_enqueue _ _, hasData_enqueue _ _⟩

theorem hasData_tellPredecessors (changed : Bool) (state : LivenessState ι) (prevs : List ι) :
    (prevs.foldl (tellPredecessor changed) state).hasData = state.hasData := by
  induction prevs generalizing state with
  | nil => rfl
  | cons prev rest ih => exact (ih _).trans (tellPredecessor_spec changed state prev).2

theorem valid_unchanged (state : LivenessState ι) (prevs : List ι) :
    (prevs.foldl (tellPredecessor false) state).livenessAnalysisValid =
      state.livenessAnalysisValid := by
  induction prevs generalizing state with
  | nil => rfl
  | cons prev rest ih => exact (ih _).trans (tellPredecessor_spec false state prev).1

theorem valid_changed (state : LivenessState ι) (prevs : List ι) (b : ι) :
    (prevs.foldl (tellPredecessor true) state).livenessAnalysisValid b = true ↔
      state.livenessAnalysisValid b = true ∧ b ∉ prevs := by
  induction prevs generalizing state with
  | nil => simp
  | cons prev rest ih =>
      have told := (tellPredecessor_spec true state prev).1
      rw [List.foldl_cons, ih, told, if_pos rfl, Function.update_apply, List.mem_cons]
      by_cases here : b = prev
      · simp [here]
      · simp [here]

theorem Queue.dequeue (queue : Queue state) {b : ι} {rest : List ι}
    (found : state.blocksToProcess = b :: rest) :
    Queue { state with
      queued := Function.update state.queued b false
      blocksToProcess := rest } ∧ b ∉ rest := by
  have nodup := queue.nodup
  rw [found, List.nodup_cons] at nodup
  refine ⟨⟨nodup.2, ?_, ?_⟩, nodup.1⟩
  · intro c
    change Function.update state.queued b false c = true ↔ c ∈ rest
    have listed := queue.listed c
    rw [found, List.mem_cons] at listed
    rw [Function.update_apply]
    by_cases here : c = b
    · subst here
      simp [nodup.1]
    · rw [if_neg here, listed]
      simp [here]
  · intro c member
    apply queue.invalid c
    rw [found]
    exact List.mem_cons_of_mem b member

theorem queue_start {returning : List ι} (nodup : returning.Nodup) :
    Queue (start returning) where
  nodup := nodup
  listed := fun _ => decide_eq_true_iff
  invalid := fun _ _ => rfl

/-! ### The blocks that the analysis gets to -/

variable {block : ι → SuperBlock ι} {later : LivenessState ι}

structure Found (block : ι → SuperBlock ι) (state : LivenessState ι) : Prop where
  queued : ∀ b ∈ state.blocksToProcess, FoundFromReturn block b
  hasData : ∀ b, state.hasData b = true → FoundFromReturn block b

theorem Found.enqueue (found : Found block state) {b : ι} (returns : FoundFromReturn block b) :
    Found block (state.enqueue b) := by
  unfold LivenessState.enqueue
  split
  · exact found
  · refine ⟨?_, found.hasData⟩
    intro c member
    rcases List.mem_append.mp member with old | new
    · exact found.queued c old
    · rw [List.mem_singleton.mp new]
      exact returns

theorem Found.tellPredecessors (found : Found block state) (changed : Bool) (prevs : List ι)
    (returns : ∀ prev ∈ prevs, FoundFromReturn block prev) :
    Found block (prevs.foldl (LivenessState.tellPredecessor changed) state) := by
  induction prevs generalizing state with
  | nil => exact found
  | cons prev rest ih =>
      refine ih ?_ (fun other member => returns other (List.mem_cons_of_mem prev member))
      have own := returns prev List.mem_cons_self
      cases changed with
      | false =>
          rw [tellPredecessor_false]
          split
          · exact found
          · exact found.enqueue own
      | true =>
          rw [tellPredecessor_true]
          have invalidated : Found block (state.invalidated prev) :=
            ⟨found.queued, found.hasData⟩
          exact invalidated.enqueue own

theorem Found.step (found : Found block state) (steps : Steps block state later) :
    Found block later := by
  obtain ⟨changed, stepped⟩ := steps
  unfold LivenessState.step at stepped
  cases queue : state.blocksToProcess with
  | nil =>
      rw [queue] at stepped
      cases stepped
  | cons b rest =>
      rw [queue] at stepped
      have own : FoundFromReturn block b := found.queued b (queue ▸ List.mem_cons_self)
      have dequeued : Found block
          { state with
            queued := Function.update state.queued b false
            blocksToProcess := rest } :=
        ⟨fun c member => found.queued c (queue ▸ List.mem_cons_of_mem b member), found.hasData⟩
      have goesOn {c : ι} (goes : GoesOn block b c) : FoundFromReturn block c := by
        obtain ⟨last, returns, path⟩ := own
        exact ⟨last, returns, path.tail goes⟩
      dsimp only at stepped
      split at stepped
      · cases stepped
      · split at stepped
        · rename_i next waits
          split at stepped
          · cases stepped
          · cases stepped
            exact dequeued.enqueue (goesOn (Or.inr (Option.eq_some_of_filter_eq_some waits)))
        · cases stepped
          refine Found.tellPredecessors ?_ changed _ (fun prev member => goesOn (Or.inl member))
          refine ⟨dequeued.queued, ?_⟩
          intro c has
          dsimp only at has
          rw [Function.update_apply] at has
          split at has
          · rename_i here
            rw [here]
            exact own
          · exact found.hasData c has

theorem found_of_reached {returning : List ι} (returns : ReturnBlocks block returning)
    (reached : Relation.ReflTransGen (Steps block) (start returning) state) :
    Found block state := by
  induction reached with
  | refl =>
      refine ⟨fun b member => ⟨b, (returns b).mp member, .refl⟩, ?_⟩
      exact fun _ has => absurd has Bool.false_ne_true
  | tail _ steps ih => exact ih.step steps

end LivenessState

end Drob
