import Drob.Validity.Analyses

/-!
A completed run flags the blocks that are reachable from the entry block: for the stack
analysis if no stale mark stops the walk, for the liveness analysis if it gets to all of
them from the blocks that return.
-/

namespace Drob

variable {ι : Type}

namespace FunctionNode

def Leads (block : ι → SuperBlock ι) (b n : ι) : Prop :=
  (block b).next = some n ∨ n ∈ (block b).outgoingEdges

def Reachable (function : FunctionNode ι) (b : ι) : Prop :=
  ∃ entry, function.entryBlock = some entry ∧
    Relation.ReflTransGen (Leads function.block) entry b

theorem Reachable.induct {function : FunctionNode ι} {motive : ι → Prop}
    (entry : ∀ b, function.entryBlock = some b → motive b)
    (step : ∀ b n, motive b → Leads function.block b n → motive n) {b : ι}
    (reachable : function.Reachable b) : motive b := by
  obtain ⟨start, isEntry, path⟩ := reachable
  induction path with
  | refl => exact entry start isEntry
  | tail _ leads ih => exact step _ _ ih leads

theorem Reachable.step {function : FunctionNode ι} {b n : ι} (reachable : function.Reachable b)
    (leads : Leads function.block b n) : function.Reachable n := by
  obtain ⟨entry, isEntry, path⟩ := reachable
  exact ⟨entry, isEntry, path.tail leads⟩

theorem reachable_entry {function : FunctionNode ι} {b : ι}
    (entry : function.entryBlock = some b) : function.Reachable b :=
  ⟨b, entry, .refl⟩

variable [DecidableEq ι]

structure Covers (block : ι → SuperBlock ι) (entry : ι) (walk : FunctionCfg.Walk ι) : Prop where
  start : entry ∈ walk.visited ∨ walk.current = some entry ∨ entry ∈ walk.blocks
  leads : ∀ b ∈ walk.visited, ∀ n, Leads block b n →
    n ∈ walk.visited ∨ walk.current = some n ∨ n ∈ walk.blocks

theorem Covers.step {function : FunctionNode ι} {entry : ι} {walk later : FunctionCfg.Walk ι}
    (covers : Covers function.block entry walk)
    (steps : walk.step (function.cfg entry) (fun edges queue => queue ++ edges) = some later) :
    Covers function.block entry later := by
  obtain ⟨current, blocks, visited⟩ := walk
  unfold FunctionCfg.Walk.step at steps
  -- a block is left behind only if it is visited
  have keep {old : ι} (place : old ∈ visited ∨ current = some old ∨ old ∈ blocks) :
      old ∈ later.visited ∨ later.current = some old ∨ old ∈ later.blocks := by
    cases current with
    | some b =>
        dsimp only at steps
        split at steps
        · rename_i seen
          cases steps
          rcases place with inside | same | queued
          · exact Or.inl inside
          · cases same
            exact Or.inl seen
          · exact Or.inr (Or.inr queued)
        · cases steps
          rcases place with inside | same | queued
          · exact Or.inl (List.mem_cons_of_mem b inside)
          · cases same
            exact Or.inl List.mem_cons_self
          · exact Or.inr (Or.inr (List.mem_append_left _ queued))
    | none =>
        cases blocks with
        | nil => cases steps
        | cons b rest =>
            dsimp only at steps
            rcases place with inside | same | queued
            · split at steps <;> cases steps <;> exact Or.inl inside
            · cases same
            · split at steps
              · rename_i seen
                cases steps
                rcases List.mem_cons.mp queued with rfl | queued
                · exact Or.inl seen
                · exact Or.inr (Or.inr queued)
              · cases steps
                rcases List.mem_cons.mp queued with rfl | queued
                · exact Or.inr (Or.inl rfl)
                · exact Or.inr (Or.inr queued)
  have visitedCases (b : ι) (member : b ∈ later.visited) : b ∈ visited ∨
      later.visited = b :: visited ∧ later.current = (function.block b).next ∧
        ∀ n ∈ (function.block b).outgoingEdges, n ∉ b :: visited → n ∈ later.blocks := by
    cases current with
    | some c =>
        dsimp only at steps
        split at steps
        · cases steps
          exact Or.inl member
        · cases steps
          rcases List.mem_cons.mp member with rfl | member
          · refine Or.inr ⟨rfl, rfl, fun n edge unseen => ?_⟩
            apply List.mem_append_right
            exact List.mem_filter.mpr ⟨edge, decide_eq_true unseen⟩
          · exact Or.inl member
    | none =>
        cases blocks with
        | nil => cases steps
        | cons c rest =>
            dsimp only at steps
            split at steps <;> cases steps <;> exact Or.inl member
  constructor
  · exact keep covers.start
  · intro b member n leads
    rcases visitedCases b member with old | ⟨visitedEq, currentEq, pushed⟩
    · exact keep (covers.leads b old n leads)
    · rcases leads with next | edge
      · exact Or.inr (Or.inl (currentEq.trans next))
      · by_cases seen : n ∈ b :: visited
        · exact Or.inl (visitedEq ▸ seen)
        · exact Or.inr (Or.inr (pushed n edge seen))

theorem handled_of_reachable {function : FunctionNode ι} {entry b : ι} {fuel : ℕ}
    {walk : FunctionCfg.Walk ι} (isEntry : function.entryBlock = some entry)
    (unmarked : function.staleMarks entry = []) (walked : function.bfs entry fuel = some walk)
    (reachable : function.Reachable b) : b ∈ function.handled entry walk := by
  unfold bfs at walked
  obtain ⟨covers, stopped⟩ := FunctionCfg.Walk.run_induct
    (motive := Covers function.block entry) (fun _ _ covers steps => covers.step steps)
    (by
      constructor
      · exact Or.inr (Or.inr List.mem_cons_self)
      · intro b member
        rw [unmarked] at member
        cases member)
    walked
  have done (n : ι) (place : n ∈ walk.visited ∨ walk.current = some n ∨ n ∈ walk.blocks) :
      n ∈ walk.visited := by
    obtain ⟨atNone, noneWait⟩ := FunctionCfg.Walk.waiting_of_finished stopped
    rw [atNone, noneWait] at place
    simpa using place
  unfold handled
  rw [unmarked, List.length_nil, List.drop_zero, List.mem_reverse]
  apply Reachable.induct ?_ ?_ reachable
  · intro start same
    cases isEntry.symm.trans same
    exact done entry covers.start
  · exact fun x n seen leads => done n (covers.leads x seen n leads)

end FunctionNode

/-! ### Stack analysis -/

namespace StackAnalysis

variable [DecidableEq ι]

structure Waiting (blocks : ι → Prop) (state : AnalysisState ι) : Prop where
  listed : ∀ b, (state.block b).queued = true → b ∈ state.blocksToProcess
  waiting : ∀ b, blocks b →
    (state.block b).stackAnalysisValid = true ∨ b ∈ state.blocksToProcess

namespace Waiting

variable {blocks : ι → Prop} {state : AnalysisState ι}

theorem requeue (waits : Waiting blocks state) (b : ι) : Waiting blocks (state.requeue b) := by
  have grows (c : ι) : c ∈ (state.requeue b).blocksToProcess ↔
      c ∈ state.blocksToProcess ∨ c = b := by
    unfold AnalysisState.requeue
    split
    · rename_i queued
      refine ⟨Or.inl, fun either => either.elim id ?_⟩
      rintro rfl
      exact waits.listed c queued
    · exact List.mem_append.trans (or_congr_right List.mem_singleton)
  constructor
  · intro c queued
    rw [grows]
    rw [AnalysisState.block_requeue] at queued
    split at queued
    · exact Or.inr ‹_›
    · exact Or.inl (waits.listed c queued)
  · intro c member
    rw [grows, AnalysisState.block_requeue]
    split
    · exact Or.inr (Or.inr ‹_›)
    · exact (waits.waiting c member).imp_right Or.inl

theorem setEntryState (waits : Waiting blocks state) (b : ι) (entryState : ProgramState) :
    Waiting blocks (state.setEntryState b entryState) := by
  have same (c : ι) : ((state.setEntryState b entryState).block c).queued = (state.block c).queued ∧
      ((state.setEntryState b entryState).block c).stackAnalysisValid =
        (state.block c).stackAnalysisValid := by
    unfold AnalysisState.setEntryState
    rw [AnalysisState.block_setBlock]
    split
    · rename_i here
      rw [here]
      exact ⟨rfl, rfl⟩
    · exact ⟨rfl, rfl⟩
  constructor
  · intro c queued
    exact waits.listed c ((same c).1 ▸ queued)
  · intro c member
    rw [(same c).2]
    exact waits.waiting c member

theorem forward (waits : Waiting blocks state) {b : ι} {curState grown : ProgramState}
    {forwarded : AnalysisState ι}
    (returned : state.forwardStateToBlock b curState = .ok (grown, forwarded)) :
    Waiting blocks forwarded := by
  rcases AnalysisState.forwardStateToBlock_cases returned with
    ⟨_, _, rfl⟩ | ⟨_, _, diff, _, _, rfl⟩
  · exact (waits.setEntryState b curState).requeue b
  · cases diff with
    | true => exact (waits.setEntryState b _).requeue b
    | false => exact waits.setEntryState b _

omit [DecidableEq ι] in
theorem at_position (waits : Waiting blocks state) (position : Option (Position ι)) :
    Waiting blocks { state with position } :=
  ⟨waits.listed, waits.waiting⟩

theorem requeuePredecessors (waits : Waiting blocks state) (prevs : List ι) :
    Waiting blocks (prevs.foldl AnalysisState.requeuePredecessor state) := by
  induction prevs generalizing state with
  | nil => exact waits
  | cons prev rest ih =>
      apply ih
      rcases state.requeuePredecessor_cases prev with same | ⟨_, same⟩
      · rw [same]
        exact waits
      · rw [same]
        exact waits.requeue prev

theorem process (waits : Waiting blocks state) (cfg : FunctionCfg ι) {b : ι} {rest : List ι}
    (front : state.blocksToProcess = b :: rest) :
    Waiting blocks ((state.dequeue b rest).processBlock cfg b) := by
  have others {c : ι} (other : c ≠ b) (member : c ∈ state.blocksToProcess) : c ∈ rest := by
    rw [front] at member
    exact (List.mem_cons.mp member).resolve_left other
  have sameBlock : (state.dequeue b rest).block b = { state.block b with queued := false } := by
    unfold AnalysisState.dequeue
    dsimp only
    rw [AnalysisState.block_setBlock, if_pos rfl]
  have otherBlock {c : ι} (other : c ≠ b) : (state.dequeue b rest).block c = state.block c := by
    unfold AnalysisState.dequeue
    dsimp only
    rw [AnalysisState.block_setBlock, if_neg other]
  unfold AnalysisState.processBlock
  split
  · rename_i valid
    constructor
    · intro c queued
      by_cases here : c = b
      · rw [here, sameBlock] at queued
        cases queued
      · rw [otherBlock here] at queued
        exact others here (waits.listed c queued)
    · intro c member
      by_cases here : c = b
      · rw [here]
        exact Or.inl valid
      · rw [otherBlock here]
        exact (waits.waiting c member).imp_right (others here)
  · have valid : Waiting blocks ((state.dequeue b rest).setBlock b
        { (state.dequeue b rest).block b with stackAnalysisValid := true }) := by
      constructor
      · intro c queued
        rw [AnalysisState.block_setBlock] at queued
        split at queued
        · rw [sameBlock] at queued
          cases queued
        · rename_i here
          rw [otherBlock here] at queued
          exact others here (waits.listed c queued)
      · intro c member
        rw [AnalysisState.block_setBlock]
        split
        · exact Or.inl rfl
        · rename_i here
          rw [otherBlock here]
          exact (waits.waiting c member).imp_right (others here)
    dsimp only
    split
    · exact valid.requeuePredecessors _
    · exact valid.at_position _

theorem step {cfg : FunctionCfg ι} {context : Context} {host : Host} {later : AnalysisState ι}
    (waits : Waiting blocks state) (steps : Steps cfg context host state later) :
    Waiting blocks later := by
  cases Steps.cases steps with
  | push b instr rest curState pushed here handled result =>
      rw [result]
      exact waits.at_position _
  | branch b instr rest curState pushed grown forward forwarded here handled merged result =>
      rw [result]
      exact (waits.forward merged).at_position _
  | fallthrough b next curState grown forwarded here hasNext merged result =>
      rw [result]
      exact (waits.forward merged).at_position _
  | finish b curState here noNext result =>
      rw [result]
      exact waits.at_position _
  | dequeue b rest idle front result =>
      rw [result]
      exact waits.process cfg front

theorem handleBlock (waits : Waiting blocks state) (b : ι) :
    Waiting (fun c => blocks c ∨ c = b) (StackAnalysis.handleBlock state b) := by
  unfold StackAnalysis.handleBlock
  split
  · rename_i either
    refine ⟨waits.listed, ?_⟩
    rintro c (member | rfl)
    · exact waits.waiting c member
    · exact either.symm.imp_right (waits.listed c)
  · constructor
    · intro c queued
      change ((state.setBlock b _).block c).queued = true at queued
      rw [AnalysisState.block_setBlock] at queued
      apply List.mem_append.mpr
      split at queued
      · exact Or.inr (List.mem_singleton.mpr ‹_›)
      · exact Or.inl (waits.listed c queued)
    · intro c member
      change ((state.setBlock b _).block c).stackAnalysisValid = true ∨ c ∈ state.blocksToProcess ++ [b]
      rw [AnalysisState.block_setBlock, List.mem_append, List.mem_singleton]
      split
      · exact Or.inr (Or.inr ‹_›)
      · rename_i other
        exact (waits.waiting c (member.resolve_right other)).imp_right Or.inl

theorem handleBlocks (waits : Waiting blocks state) (order : List ι) :
    Waiting (fun c => blocks c ∨ c ∈ order) (order.foldl StackAnalysis.handleBlock state) := by
  induction order generalizing blocks state with
  | nil =>
      refine ⟨waits.listed, fun c member => waits.waiting c (member.resolve_right ?_)⟩
      exact List.not_mem_nil
  | cons b rest ih =>
      have later := ih (waits.handleBlock b)
      refine ⟨later.listed, fun c member => later.waiting c ?_⟩
      rw [List.mem_cons] at member
      exact or_assoc.mpr member

end Waiting

theorem Completes.valid {context : Context} {host : Host} {initial : ProgramState}
    {function : FunctionNode ι} {entry : ι} {walk : FunctionCfg.Walk ι} {final : AnalysisState ι}
    (completes : Completes context host initial function entry walk final) {b : ι}
    (member : b ∈ function.handled entry walk) :
    (final.block b).stackAnalysisValid = true := by
  have start : Waiting (fun c => False ∨ c ∈ function.handled entry walk)
      (resume function entry initial (function.handled entry walk)) := by
    apply Waiting.handleBlocks
    exact ⟨fun _ queued => (by cases queued), fun _ impossible => impossible.elim⟩
  have waits : Waiting (fun c => False ∨ c ∈ function.handled entry walk) final := by
    have ran := completes.ran
    clear completes
    induction ran with
    | refl => exact start
    | tail _ steps ih => exact ih.step steps
  have empty : final.blocksToProcess = [] := by
    have finished := completes.finished
    unfold step at finished
    split at finished
    · obtain ⟨_, _, impossible⟩ := bind_ok finished
      cases impossible
    · obtain ⟨_, _, impossible⟩ := bind_ok finished
      cases impossible
    · split at finished
      · assumption
      · cases finished
  refine (waits.waiting b (Or.inr member)).resolve_right ?_
  rw [empty]
  exact List.not_mem_nil

end StackAnalysis

/-! ### Liveness analysis -/

/-- The fallthrough chains agree in both directions. -/
def Linked (block : ι → SuperBlock ι) : Prop :=
  ∀ b n, (block b).next = some n ↔ (block n).prev = some b

/-- From a block that is processed the analysis goes on to its predecessors, and to the
fallthrough block that it waits for. -/
def GoesOn (block : ι → SuperBlock ι) (b n : ι) : Prop :=
  n ∈ LivenessState.predecessors (block b) ∨ (block b).next = some n

/-- The analysis gets to a block from one that returns. -/
def FoundFromReturn (block : ι → SuperBlock ι) (b : ι) : Prop :=
  ∃ last, (∃ instr ∈ (block last).instrs, instr.instruction.isRet = true) ∧
    Relation.ReflTransGen (GoesOn block) last b

namespace LivenessState

variable [DecidableEq ι] {block : ι → SuperBlock ι} {state later : LivenessState ι}

theorem mem_enqueue (listed : ∀ b, state.queued b = true → b ∈ state.blocksToProcess) (b c : ι) :
    c ∈ (state.enqueue b).blocksToProcess ↔ c ∈ state.blocksToProcess ∨ c = b := by
  unfold enqueue
  split
  · rename_i queued
    refine ⟨Or.inl, fun either => either.elim id ?_⟩
    rintro rfl
    exact listed c queued
  · exact List.mem_append.trans (or_congr_right List.mem_singleton)

theorem listed_enqueue (listed : ∀ b, state.queued b = true → b ∈ state.blocksToProcess) (b : ι) :
    ∀ c, (state.enqueue b).queued c = true → c ∈ (state.enqueue b).blocksToProcess := by
  intro c queued
  rw [mem_enqueue listed]
  unfold enqueue at queued
  split at queued
  · exact Or.inl (listed c queued)
  · change Function.update state.queued b true c = true at queued
    rw [Function.update_apply] at queued
    split at queued
    · exact Or.inr ‹_›
    · exact Or.inl (listed c queued)

theorem valid_enqueue (state : LivenessState ι) (b : ι) :
    (state.enqueue b).livenessAnalysisValid = state.livenessAnalysisValid := by
  unfold enqueue
  split <;> rfl

theorem hasData_enqueue (state : LivenessState ι) (b : ι) :
    (state.enqueue b).hasData = state.hasData := by
  unfold enqueue
  split <;> rfl

/-- What telling a predecessor changes: it ends up valid or queued. -/
structure Told (state later : LivenessState ι) (prev : ι) : Prop where
  listed : ∀ b, later.queued b = true → b ∈ later.blocksToProcess
  hasData : later.hasData = state.hasData
  queue : ∀ b, b ∈ state.blocksToProcess → b ∈ later.blocksToProcess
  queued : ∀ b, b ∈ later.blocksToProcess → b ∈ state.blocksToProcess ∨ b = prev
  valid : ∀ b, later.livenessAnalysisValid b = true → state.livenessAnalysisValid b = true
  others : ∀ b, b ≠ prev → later.livenessAnalysisValid b = state.livenessAnalysisValid b
  done : later.livenessAnalysisValid prev = true ∨ prev ∈ later.blocksToProcess

theorem told_enqueue (listed : ∀ b, state.queued b = true → b ∈ state.blocksToProcess) (prev : ι) :
    Told state (state.enqueue prev) prev where
  listed := listed_enqueue listed prev
  hasData := hasData_enqueue state prev
  queue := fun b member => (mem_enqueue listed prev b).mpr (Or.inl member)
  queued := fun b member => (mem_enqueue listed prev b).mp member
  valid := fun b => by rw [valid_enqueue]; exact id
  others := fun b _ => by rw [valid_enqueue]
  done := Or.inr ((mem_enqueue listed prev prev).mpr (Or.inr rfl))

theorem told_tellPredecessor (listed : ∀ b, state.queued b = true → b ∈ state.blocksToProcess)
    (changed : Bool) (prev : ι) : Told state (state.tellPredecessor changed prev) prev := by
  cases changed with
  | false =>
      change Told state (if state.livenessAnalysisValid prev then state else state.enqueue prev) prev
      split
      · rename_i valid
        exact ⟨listed, rfl, fun _ => id, fun _ => Or.inl, fun _ => id, fun _ _ => rfl, Or.inl valid⟩
      · exact told_enqueue listed prev
  | true =>
      -- the block that loses its flag is queued right away
      have told : Told { state with
          livenessAnalysisValid := Function.update state.livenessAnalysisValid prev false } _ prev :=
        told_enqueue (by exact listed) prev
      change Told state
        (if Function.update state.livenessAnalysisValid prev false prev then _ else _) prev
      rw [Function.update_self, if_neg Bool.false_ne_true]
      refine ⟨told.listed, told.hasData, told.queue, told.queued, ?_, ?_, told.done⟩
      · intro b flagged
        have before := told.valid b flagged
        change Function.update state.livenessAnalysisValid prev false b = true at before
        rw [Function.update_apply] at before
        split at before
        · cases before
        · exact before
      · intro b other
        exact (told.others b other).trans (Function.update_of_ne other _ _)

/-- A block is valid, queued, or waits for its fallthrough block, which the analysis
knows of. -/
def Pending (block : ι → SuperBlock ι) (known : ι → Prop) (state : LivenessState ι) (b : ι) :
    Prop :=
  state.livenessAnalysisValid b = true ∨ b ∈ state.blocksToProcess ∨
    ∃ n, (block b).next = some n ∧ state.hasData n = false ∧ known n

/-- What holds of the blocks that the analysis knows of; some of them are still to be
told that a block was processed. -/
structure Known (block : ι → SuperBlock ι) (known : ι → Prop) (untold : List ι)
    (state : LivenessState ι) : Prop where
  listed : ∀ b, state.queued b = true → b ∈ state.blocksToProcess
  queue : ∀ b ∈ state.blocksToProcess, known b
  pending : ∀ b, known b → b ∈ untold ∨ Pending block known state b
  data : ∀ b, state.livenessAnalysisValid b = true → state.hasData b = true
  processed : ∀ b, state.hasData b = true → known b
  goesOn : ∀ b, state.hasData b = true → ∀ n, GoesOn block b n → known n

theorem Known.tellPredecessor {known : ι → Prop} {prev : ι} {rest : List ι}
    (knows : Known block known (prev :: rest) state) (changed : Bool) (isKnown : known prev) :
    Known block known rest (state.tellPredecessor changed prev) := by
  have told := told_tellPredecessor knows.listed changed prev
  refine ⟨told.listed, ?_, ?_, ?_, ?_, ?_⟩
  · intro b queued
    rcases told.queued b queued with old | rfl
    · exact knows.queue b old
    · exact isKnown
  · intro b isKnown
    unfold Pending
    rw [told.hasData]
    by_cases here : b = prev
    · rw [here]
      exact Or.inr (told.done.imp_right Or.inl)
    · rw [told.others b here]
      rcases knows.pending b isKnown with untold | valid | queued | waits
      · exact Or.inl ((List.mem_cons.mp untold).resolve_left here)
      · exact Or.inr (Or.inl valid)
      · exact Or.inr (Or.inr (Or.inl (told.queue b queued)))
      · exact Or.inr (Or.inr (Or.inr waits))
  · rw [told.hasData]
    exact fun b valid => knows.data b (told.valid b valid)
  · rw [told.hasData]
    exact knows.processed
  · rw [told.hasData]
    exact knows.goesOn

theorem Known.tellPredecessors {known : ι → Prop} (prevs : List ι)
    (knows : Known block known prevs state) (changed : Bool) (all : ∀ p ∈ prevs, known p) :
    Known block known [] (prevs.foldl (LivenessState.tellPredecessor changed) state) := by
  induction prevs generalizing state with
  | nil => exact knows
  | cons prev rest ih =>
      apply ih (knows.tellPredecessor changed (all prev List.mem_cons_self))
      exact fun p member => all p (List.mem_cons_of_mem prev member)

theorem Known.step {known : ι → Prop} (linked : Linked block) (knows : Known block known [] state)
    (steps : Steps block state later) :
    ∃ more : ι → Prop, (∀ b, known b → more b) ∧ Known block more [] later := by
  obtain ⟨changed, stepped⟩ := steps
  have pending (b : ι) (isKnown : known b) : Pending block known state b :=
    (knows.pending b isKnown).resolve_left List.not_mem_nil
  unfold LivenessState.step at stepped
  split at stepped
  · cases stepped
  · rename_i b rest front
    obtain ⟨invalid, stepped⟩ := ite_error stepped
    have isKnown : known b := knows.queue b (front ▸ List.mem_cons_self)
    have inRest (c : ι) (member : c ∈ rest) : known c :=
      knows.queue c (front ▸ List.mem_cons_of_mem b member)
    have others {c : ι} (other : c ≠ b) (member : c ∈ state.blocksToProcess) : c ∈ rest := by
      rw [front] at member
      exact (List.mem_cons.mp member).resolve_left other
    have listed (c : ι) (queued : Function.update state.queued b false c = true) : c ∈ rest := by
      rw [Function.update_apply] at queued
      split at queued
      · cases queued
      · exact others ‹_› (knows.listed c queued)
    split at stepped
    · -- the block waits for its fallthrough block
      rename_i n found
      obtain ⟨next, missing⟩ := Option.filter_eq_some_iff.mp found
      have noData : state.hasData n = false := by simpa using missing
      obtain ⟨_, stepped⟩ := ite_error stepped
      cases stepped
      refine ⟨fun c => known c ∨ c = n, fun c => Or.inl, ?_⟩
      refine ⟨listed_enqueue listed n, ?_, ?_, ?_, ?_, ?_⟩
      · intro c queued
        exact ((mem_enqueue listed n c).mp queued).imp_left (inRest c)
      · intro c member
        apply Or.inr
        unfold Pending
        rw [valid_enqueue, hasData_enqueue, mem_enqueue listed]
        rcases member with old | same
        · by_cases here : c = b
          · exact Or.inr (Or.inr ⟨n, here ▸ next, noData, Or.inr rfl⟩)
          · rcases pending c old with flagged | queued | ⟨m, nextOf, lacks, isKnown⟩
            · exact Or.inl flagged
            · exact Or.inr (Or.inl (Or.inl (others here queued)))
            · exact Or.inr (Or.inr ⟨m, nextOf, lacks, Or.inl isKnown⟩)
        · exact Or.inr (Or.inl (Or.inr same))
      · rw [valid_enqueue, hasData_enqueue]
        exact knows.data
      · rw [hasData_enqueue]
        exact fun c has => Or.inl (knows.processed c has)
      · rw [hasData_enqueue]
        exact fun c has m goes => Or.inl (knows.goesOn c has m goes)
    · rename_i waitsFor
      cases stepped
      refine ⟨fun c => known c ∨ c ∈ LivenessState.predecessors (block b), fun c => Or.inl, ?_⟩
      refine Known.tellPredecessors (LivenessState.predecessors (block b))
        ⟨listed, ?_, ?_, ?_, ?_, ?_⟩ changed (fun p => Or.inr)
      · exact fun c member => Or.inl (inRest c member)
      · intro c member
        by_cases untold : c ∈ LivenessState.predecessors (block b)
        · exact Or.inl untold
        · apply Or.inr
          unfold Pending
          dsimp only
          by_cases here : c = b
          · rw [here, Function.update_self]
            exact Or.inl rfl
          · rw [Function.update_of_ne here]
            rcases pending c (member.resolve_right untold) with
              flagged | queued | ⟨m, nextOf, lacks, isKnown⟩
            · exact Or.inl flagged
            · exact Or.inr (Or.inl (others here queued))
            · refine Or.inr (Or.inr ⟨m, nextOf, ?_, Or.inl isKnown⟩)
              -- blocks that wait for this one are among its predecessors
              have other : m ≠ b := by
                rintro rfl
                apply untold
                apply List.mem_append_right
                rw [(linked c m).mp nextOf]
                exact List.mem_singleton.mpr rfl
              rw [Function.update_of_ne other]
              exact lacks
      · intro c flagged
        dsimp only at flagged ⊢
        rw [Function.update_apply] at flagged ⊢
        split
        · rfl
        · rename_i here
          rw [if_neg here] at flagged
          exact knows.data c flagged
      · intro c has
        dsimp only at has
        rw [Function.update_apply] at has
        split at has
        · rename_i here
          exact Or.inl (here ▸ isKnown)
        · exact Or.inl (knows.processed c has)
      · intro c has m goes
        dsimp only at has
        rw [Function.update_apply] at has
        split at has
        · rename_i here
          rw [here] at goes
          rcases goes with pred | next
          · exact Or.inr pred
          · -- the fallthrough block has data already
            apply Or.inl
            apply knows.processed m
            have kept := Option.filter_eq_none_iff.mp waitsFor m next
            simpa using kept
        · exact Or.inl (knows.goesOn c has m goes)

theorem valid_of_foundFromReturn {returning : List ι} {final : LivenessState ι}
    (linked : Linked block) (chains : WellFounded (fun n b => (block b).next = some n))
    (returns : ReturnBlocks block returning)
    (ran : Relation.ReflTransGen (Steps block) (start returning) final)
    (finished : final.blocksToProcess = []) {b : ι} (found : FoundFromReturn block b) :
    final.livenessAnalysisValid b = true := by
  have known : ∃ known : ι → Prop, (∀ r ∈ returning, known r) ∧ Known block known [] final := by
    clear finished
    induction ran with
    | refl =>
        refine ⟨fun c => c ∈ returning, fun r => id, ?_, fun c => id, ?_, ?_, ?_, ?_⟩
        · exact fun c queued => of_decide_eq_true queued
        · exact fun c member => Or.inr (Or.inr (Or.inl member))
        · exact fun c flagged => (by cases flagged)
        · exact fun c has => (by cases has)
        · exact fun c has => (by cases has)
    | tail _ steps ih =>
        obtain ⟨known, covers, knows⟩ := ih
        obtain ⟨more, grows, later⟩ := knows.step linked steps
        exact ⟨more, fun r member => grows r (covers r member), later⟩
  obtain ⟨known, covers, knows⟩ := known
  have valid (c : ι) : known c → final.livenessAnalysisValid c = true := by
    induction c using chains.induction with
    | _ c ih =>
        intro isKnown
        rcases knows.pending c isKnown with untold | flagged | queued | ⟨n, next, missing, knowsNext⟩
        · cases untold
        · exact flagged
        · rw [finished] at queued
          cases queued
        · have has := knows.data n (ih n next knowsNext)
          rw [missing] at has
          cases has
  obtain ⟨last, isReturn, path⟩ := found
  apply valid
  induction path with
  | refl => exact covers last ((returns last).mpr isReturn)
  | tail _ goes ih => exact knows.goesOn _ (knows.data _ (valid _ ih)) _ goes

end LivenessState

end Drob
