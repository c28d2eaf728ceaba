import Drob.Instruction.Bounds
import Drob.StackAnalysis.Pass

/-!
What one step of the stack analysis can do, and what every step keeps: all entry
states have their registers and a tracked stack within reach.
-/

namespace Drob

namespace StackAnalysis

variable {ι : Type} [DecidableEq ι]

/-! ### Blocks -/

namespace AnalysisState

theorem block_setBlock (state : AnalysisState ι) (b c : ι) (blockState : BlockState) :
    (state.setBlock b blockState).block c = if c = b then blockState else state.block c :=
  Function.update_apply state.block b blockState c

theorem block_requeue (state : AnalysisState ι) (b c : ι) :
    (state.requeue b).block c =
      if c = b then { state.block b with stackAnalysisValid := false, queued := true }
      else state.block c := by
  unfold requeue
  split
  · rename_i queued
    rw [block_setBlock]
    split
    · exact congrArg _ queued
    · rfl
  · exact block_setBlock state b c _

theorem entryState_requeue (state : AnalysisState ι) (b c : ι) :
    ((state.requeue b).block c).entryState = (state.block c).entryState := by
  rw [block_requeue]
  split
  · rename_i same
    rw [same]
  · rfl

theorem entryState_setEntryState (state : AnalysisState ι) (b c : ι)
    (entryState : ProgramState) :
    ((state.setEntryState b entryState).block c).entryState =
      if c = b then some entryState else (state.block c).entryState := by
  unfold setEntryState
  rw [block_setBlock]
  split <;> rfl

theorem requeuePredecessor_cases (state : AnalysisState ι) (prev : ι) :
    state.requeuePredecessor prev = state ∨
      (state.block prev).entryState.isSome = true ∧
        state.requeuePredecessor prev = state.requeue prev := by
  unfold requeuePredecessor
  split
  · rename_i holds
    exact Or.inr ⟨holds.2, rfl⟩
  · exact Or.inl rfl

/-- The cases of `forwardStateToBlock`. -/
theorem forwardStateToBlock_cases {state forwarded : AnalysisState ι} {b : ι}
    {curState grown : ProgramState}
    (returned : state.forwardStateToBlock b curState = .ok (grown, forwarded)) :
    ((state.block b).entryState = none ∧ grown = curState ∧
      forwarded = (state.setEntryState b curState).requeue b) ∨
    ∃ entryState merged diff, (state.block b).entryState = some entryState ∧
      entryState.merge curState = .ok (merged, grown, diff) ∧
      forwarded =
        if diff then (state.setEntryState b merged).requeue b
        else state.setEntryState b merged := by
  unfold forwardStateToBlock at returned
  split at returned
  · rename_i entryState found
    obtain ⟨⟨merged, grownState, diff⟩, first, returned⟩ := bind_ok returned
    right
    refine ⟨entryState, merged, diff, found, ?_⟩
    cases diff with
    | true =>
        cases returned
        exact ⟨first, rfl⟩
    | false =>
        cases returned
        exact ⟨first, rfl⟩
  · rename_i missing
    cases returned
    exact Or.inl ⟨missing, rfl, rfl⟩

theorem position_requeue (state : AnalysisState ι) (b : ι) :
    (state.requeue b).position = state.position := by
  unfold requeue
  split <;> rfl

end AnalysisState

/-! ### One step -/

variable {cfg : FunctionCfg ι} {context : Context} {host : Host}
  {state later : AnalysisState ι}

inductive StepCase (cfg : FunctionCfg ι) (context : Context) (host : Host)
    (state later : AnalysisState ι) : Prop where
  | push (b : ι) (instr : BlockInstruction ι) (rest : List (BlockInstruction ι))
      (curState pushed : ProgramState)
      (here : state.position = some { block := b, rest := instr :: rest, curState })
      (handled : pushInstruction context host instr curState = .ok (pushed, none))
      (result : later = { state with position := some { block := b, rest, curState := pushed } })
  | branch (b : ι) (instr : BlockInstruction ι) (rest : List (BlockInstruction ι))
      (curState pushed grown : ProgramState) (forward : Forward ι) (forwarded : AnalysisState ι)
      (here : state.position = some { block := b, rest := instr :: rest, curState })
      (handled : pushInstruction context host instr curState = .ok (pushed, some forward))
      (merged : state.forwardStateToBlock forward.target pushed = .ok (grown, forwarded))
      (result : later = { forwarded with
        position :=
          if forward.certain then none else some { block := b, rest, curState := grown } })
  | fallthrough (b next : ι) (curState grown : ProgramState) (forwarded : AnalysisState ι)
      (here : state.position = some { block := b, rest := [], curState })
      (hasNext : (cfg.block b).next = some next)
      (merged : state.forwardStateToBlock next curState = .ok (grown, forwarded))
      (result : later = { forwarded with position := none })
  | finish (b : ι) (curState : ProgramState)
      (here : state.position = some { block := b, rest := [], curState })
      (noNext : (cfg.block b).next = none) (result : later = { state with position := none })
  | dequeue (b : ι) (rest : List ι) (idle : state.position = none)
      (front : state.blocksToProcess = b :: rest)
      (result : later = (state.dequeue b rest).processBlock cfg b)

theorem Steps.cases (steps : Steps cfg context host state later) :
    StepCase cfg context host state later := by
  unfold Steps step at steps
  split at steps
  · rename_i b instr rest curState here
    obtain ⟨handled, returned, same⟩ := bind_ok steps
    cases same
    obtain ⟨⟨pushed, forward⟩, handles, returned⟩ := bind_ok returned
    cases forward with
    | none =>
        cases returned
        exact .push b instr rest curState pushed here handles rfl
    | some forward =>
        obtain ⟨⟨grown, forwarded⟩, merges, same⟩ := bind_ok returned
        cases same
        exact .branch b instr rest curState pushed grown forward forwarded here handles merges rfl
  · rename_i b curState here
    obtain ⟨finished, returned, same⟩ := bind_ok steps
    cases same
    unfold finishBlock at returned
    split at returned
    · rename_i next hasNext
      obtain ⟨⟨grown, forwarded⟩, merges, same⟩ := bind_ok returned
      cases same
      exact .fallthrough b next curState grown forwarded here hasNext merges rfl
    · rename_i noNext
      cases returned
      exact .finish b curState here noNext rfl
  · rename_i idle
    split at steps
    · cases steps
    · rename_i b rest front
      cases steps
      exact .dequeue b rest idle front rfl

def nextForward (cfg : FunctionCfg ι) (context : Context) (host : Host)
    (state : AnalysisState ι) : Option (ι × ProgramState) :=
  match state.position with
  | some { block := _, rest := instr :: _, curState } =>
      match pushInstruction context host instr curState with
      | .ok (pushed, some forward) => some (forward.target, pushed)
      | _ => none
  | some { block := b, rest := [], curState } =>
      (cfg.block b).next.map (fun next => (next, curState))
  | none => none

/-! ### The tracked stack stays within reach -/

section Within

variable {bound : Int} {ps marked : ProgramState}

theorem markDead_within {livenessData : LivenessData} {reg : Register}
    {type : RegisterAccessType} (within : ps.Within bound)
    (returned : markDead livenessData reg type ps = .ok marked) : marked.Within bound := by
  obtain ⟨dead, _, returned⟩ := bind_ok returned
  split at returned
  · exact within.setRegister returned
  · cases returned
    exact within

theorem markComparand_within {livenessData : LivenessData} {comparand : PredComparand}
    (within : ps.Within bound)
    (returned : markComparand livenessData comparand ps = .ok marked) : marked.Within bound := by
  cases comparand with
  | reg reg => exact markDead_within within returned
  | imm imm =>
      cases returned
      exact within

theorem markComparisons_within {livenessData : LivenessData} {comparisons : List PredComparison}
    (within : ps.Within bound)
    (returned : markComparisons livenessData comparisons ps = .ok marked) :
    marked.Within bound := by
  induction comparisons generalizing ps with
  | nil =>
      cases returned
      exact within
  | cons comparison rest ih =>
      obtain ⟨left, first, returned⟩ := bind_ok returned
      obtain ⟨right, second, returned⟩ := bind_ok returned
      exact ih (markComparand_within (markComparand_within within first) second) returned

theorem markAddressRegister_within {livenessData : LivenessData} {reg : Option Register}
    (within : ps.Within bound)
    (returned : markAddressRegister livenessData reg ps = .ok marked) : marked.Within bound := by
  cases reg with
  | some reg => exact markDead_within within returned
  | none =>
      cases returned
      exact within

theorem markIf_within {condition : Bool} {livenessData : LivenessData} {reg : Register}
    {type : RegisterAccessType} (within : ps.Within bound)
    (returned : markIf condition livenessData reg type ps = .ok marked) :
    marked.Within bound := by
  unfold markIf at returned
  split at returned
  · exact markDead_within within returned
  · cases returned
    exact within

theorem markOperand_within {livenessData : LivenessData} {op : OperandInfo}
    (within : ps.Within bound) (returned : markOperand livenessData op ps = .ok marked) :
    marked.Within bound := by
  unfold markOperand at returned
  split at returned
  · obtain ⟨read, first, returned⟩ := bind_ok returned
    exact markIf_within (markIf_within within first) returned
  · split at returned
    · obtain ⟨base, first, returned⟩ := bind_ok returned
      exact markAddressRegister_within (markAddressRegister_within within first) returned
    · cases returned
      exact within
  · cases returned
    exact within

theorem markOperands_within {livenessData : LivenessData} {operands : List OperandInfo}
    (within : ps.Within bound) (returned : markOperands livenessData operands ps = .ok marked) :
    marked.Within bound := by
  induction operands generalizing ps with
  | nil =>
      cases returned
      exact within
  | cons op rest ih =>
      obtain ⟨next, first, returned⟩ := bind_ok returned
      exact ih (markOperand_within within first) returned

omit [DecidableEq ι] in
theorem pushInstruction_within {instr : BlockInstruction ι} {curState pushed : ProgramState}
    {forward : Option (Forward ι)} (large : stackBound ≤ bound) (within : curState.Within bound)
    (returned : pushInstruction context host instr curState = .ok (pushed, forward)) :
    pushed.Within bound := by
  obtain ⟨info, _, returned⟩ := bind_ok returned
  split at returned
  · cases returned
    exact within
  · obtain ⟨⟨dynInfo, emulated⟩, first, returned⟩ := bind_ok returned
    obtain ⟨marked, second, returned⟩ := bind_ok returned
    obtain ⟨comparisons, third, fourth⟩ := bind_ok second
    have kept := markOperands_within
      (markComparisons_within (Instruction.emulate_within large within first) third) fourth
    split at returned
    · obtain ⟨called, nasty, same⟩ := bind_ok returned
      cases same
      exact kept.nastyInstruction nasty
    · split at returned
      · cases returned
        exact kept
      · cases returned
        exact kept

structure AllWithin (bound : Int) (state : AnalysisState ι) : Prop where
  entry : ∀ b entryState, (state.block b).entryState = some entryState → entryState.Within bound
  current : ∀ position, state.position = some position → position.curState.Within bound

theorem AllWithin.setEntryState (all : AllWithin bound state) {b : ι}
    {entryState : ProgramState} (within : entryState.Within bound) :
    AllWithin bound (state.setEntryState b entryState) where
  entry := by
    intro c other found
    rw [AnalysisState.entryState_setEntryState] at found
    split at found
    · cases found
      exact within
    · exact all.entry c other found
  current := all.current

theorem AllWithin.requeue (all : AllWithin bound state) (b : ι) :
    AllWithin bound (state.requeue b) where
  entry := by
    intro c entryState found
    rw [AnalysisState.entryState_requeue] at found
    exact all.entry c entryState found
  current := by
    rw [AnalysisState.position_requeue]
    exact all.current

theorem AllWithin.forwardStateToBlock {forwarded : AnalysisState ι} {b : ι}
    {curState grown : ProgramState} (all : AllWithin bound state)
    (within : curState.Within bound)
    (returned : state.forwardStateToBlock b curState = .ok (grown, forwarded)) :
    grown.Within bound ∧ AllWithin bound forwarded := by
  rcases AnalysisState.forwardStateToBlock_cases returned with
    ⟨_, rfl, rfl⟩ | ⟨entryState, merged, diff, found, merges, rfl⟩
  · exact ⟨within, (all.setEntryState within).requeue b⟩
  · obtain ⟨mergedWithin, grownWithin⟩ := (all.entry b entryState found).merge within merges
    refine ⟨grownWithin, ?_⟩
    split
    · exact (all.setEntryState mergedWithin).requeue b
    · exact all.setEntryState mergedWithin

theorem AllWithin.requeuePredecessors (all : AllWithin bound state) (predecessors : List ι) :
    AllWithin bound (predecessors.foldl AnalysisState.requeuePredecessor state) := by
  induction predecessors generalizing state with
  | nil => exact all
  | cons prev rest ih =>
      apply ih
      rcases state.requeuePredecessor_cases prev with same | ⟨_, same⟩
      · rw [same]
        exact all
      · rw [same]
        exact all.requeue prev

theorem AllWithin.setBlock (all : AllWithin bound state) {b : ι} {blockState : BlockState}
    (same : blockState.entryState = (state.block b).entryState) :
    AllWithin bound (state.setBlock b blockState) where
  entry := by
    intro c entryState found
    rw [AnalysisState.block_setBlock] at found
    split at found
    · exact all.entry b entryState (same ▸ found)
    · exact all.entry c entryState found
  current := all.current

theorem AllWithin.processBlock (all : AllWithin bound state) (b : ι) :
    AllWithin bound (state.processBlock cfg b) := by
  unfold AnalysisState.processBlock
  split
  · exact all
  · have valid : AllWithin bound
        (state.setBlock b { state.block b with stackAnalysisValid := true }) :=
      all.setBlock rfl
    dsimp only
    split
    · exact valid.requeuePredecessors _
    · rename_i curState found
      refine ⟨valid.entry, ?_⟩
      rintro position same
      cases same
      exact all.entry b curState found

theorem AllWithin.step (all : AllWithin bound state) (large : stackBound ≤ bound)
    (steps : Steps cfg context host state later) : AllWithin bound later := by
  cases steps.cases with
  | push b instr rest curState pushed here handled result =>
      subst result
      refine ⟨all.entry, ?_⟩
      rintro position same
      cases same
      exact pushInstruction_within large (all.current _ here) handled
  | branch b instr rest curState pushed grown forward forwarded here handled merged result =>
      subst result
      have within := pushInstruction_within large (all.current _ here) handled
      obtain ⟨grownWithin, kept⟩ := all.forwardStateToBlock within merged
      refine ⟨kept.entry, ?_⟩
      intro position same
      dsimp only at same
      split at same
      · cases same
      · cases same
        exact grownWithin
  | fallthrough b next curState grown forwarded here hasNext merged result =>
      subst result
      obtain ⟨_, kept⟩ := all.forwardStateToBlock (all.current _ here) merged
      exact ⟨kept.entry, fun position same => by cases same⟩
  | finish b curState here noNext result =>
      subst result
      exact ⟨all.entry, fun position same => by cases same⟩
  | dequeue b rest idle front result =>
      subst result
      have dequeued : AllWithin bound (state.dequeue b rest) := by
        have kept : AllWithin bound (state.setBlock b { state.block b with queued := false }) :=
          all.setBlock rfl
        exact ⟨kept.entry, kept.current⟩
      exact dequeued.processBlock b

theorem allWithin_start {entryState : ProgramState} (within : entryState.Within bound)
    (order : List ι) : AllWithin bound (start cfg entryState order) := by
  have fresh : AllWithin bound (fresh cfg entryState) := by
    refine ⟨?_, fun position same => by cases same⟩
    intro b other found
    unfold StackAnalysis.fresh at found
    dsimp only at found
    split at found
    · cases found
      exact within
    · cases found
  unfold start
  generalize StackAnalysis.fresh cfg entryState = state at fresh
  induction order generalizing state with
  | nil => exact fresh
  | cons b rest ih =>
      apply ih
      unfold handleBlock
      split
      · exact fresh
      · have kept : AllWithin bound (state.setBlock b { state.block b with queued := true }) :=
          fresh.setBlock rfl
        exact ⟨kept.entry, kept.current⟩

end Within

end StackAnalysis

end Drob
