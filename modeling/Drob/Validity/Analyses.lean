import Drob.Cfg.Order
import Drob.StackAnalysis.Steps
import Drob.Validity.Nodes

/-!
Completed runs of the two analyses, as far as the validity flags go. A run flags the
function and the ICFG; whether it flagged all blocks is what is shown here.
-/

namespace Drob

variable {ι : Type} [DecidableEq ι]

/-! ### The walk over the blocks -/

namespace FunctionNode

variable (function : FunctionNode ι)

def cfg (entry : ι) : FunctionCfg ι :=
  { block := function.block, entryBlock := entry }

/-- The marks of the last walk are dropped only if the entry block is marked. -/
def staleMarks (entry : ι) : List ι :=
  if entry ∈ function.visited then [] else function.visited

/-- `for_each_block_bfs`: the finished walk. -/
def bfs (entry : ι) (fuel : ℕ) : Option (FunctionCfg.Walk ι) :=
  FunctionCfg.Walk.run (function.cfg entry) (fun edges queue => queue ++ edges) fuel
    { current := none, blocks := [entry], visited := function.staleMarks entry }

def handled (entry : ι) (walk : FunctionCfg.Walk ι) : List ι :=
  walk.visited.reverse.drop (function.staleMarks entry).length

end FunctionNode

/-! ### Stack analysis -/

namespace StackAnalysis

/-- The state in which the loop starts: blocks that are still valid are not queued. -/
def resume (function : FunctionNode ι) (entry : ι) (initial : ProgramState) (order : List ι) :
    AnalysisState ι :=
  order.foldl handleBlock
    { block := fun b =>
        { entryState := if b = entry then (function.entryState entry).or (some initial)
            else function.entryState b
          stackAnalysisValid := function.blockValid b .stack
          queued := false }
      blocksToProcess := []
      position := none }

/-- The loop of `processFunction` runs until no block is queued. -/
structure Completes (context : Context) (host : Host) (initial : ProgramState)
    (function : FunctionNode ι) (entry : ι) (walk : FunctionCfg.Walk ι)
    (final : AnalysisState ι) : Prop where
  walked : ∃ fuel, function.bfs entry fuel = some walk
  ran : Relation.ReflTransGen (Steps (function.cfg entry) context host)
    (resume function entry initial (function.handled entry walk)) final
  finished : step (function.cfg entry) context host final = .ok none

end StackAnalysis

/-! ### Liveness analysis -/

structure LivenessState (ι : Type) where
  livenessAnalysisValid : ι → Bool
  hasData : ι → Bool
  queued : ι → Bool
  blocksToProcess : List ι

namespace LivenessState

def enqueue (state : LivenessState ι) (b : ι) : LivenessState ι :=
  if state.queued b then state
  else
    { state with
      queued := Function.update state.queued b true
      blocksToProcess := state.blocksToProcess ++ [b] }

/-- A predecessor has to be analysed again if the registers that are live changed. -/
def tellPredecessor (changed : Bool) (state : LivenessState ι) (prev : ι) : LivenessState ι :=
  let told :=
    if changed then
      { state with
        livenessAnalysisValid := Function.update state.livenessAnalysisValid prev false }
    else state
  if told.livenessAnalysisValid prev then told else told.enqueue prev

def predecessors (block : SuperBlock ι) : List ι :=
  block.incomingEdges ++ block.prev.toList

/-- Process the next block. What its instructions do to the live registers is left open:
`changed` says whether they differ from the ones found before. -/
def step (block : ι → SuperBlock ι) (changed : Bool) (state : LivenessState ι) :
    Except Failure (Option (LivenessState ι)) :=
  match state.blocksToProcess with
  | [] => .ok none
  | b :: rest =>
      let dequeued :=
        { state with queued := Function.update state.queued b false, blocksToProcess := rest }
      if state.livenessAnalysisValid b then .error (.assertion "!block->livenessAnalysisValid")
      else
        match (block b).next.filter (fun next => !state.hasData next) with
        | some next =>
            if state.livenessAnalysisValid next then
              .error (.assertion "!block->getNext()->livenessAnalysisValid")
            else .ok (some (dequeued.enqueue next))
        | none =>
            .ok (some ((predecessors (block b)).foldl (tellPredecessor changed)
              { dequeued with
                livenessAnalysisValid := Function.update state.livenessAnalysisValid b true
                hasData := Function.update state.hasData b true }))

def Steps (block : ι → SuperBlock ι) (state later : LivenessState ι) : Prop :=
  ∃ changed, step block changed state = .ok (some later)

/-- Old data is thrown away; the analysis starts with the blocks that return. -/
def start (returning : List ι) : LivenessState ι :=
  { livenessAnalysisValid := fun _ => false
    hasData := fun _ => false
    queued := fun b => decide (b ∈ returning)
    blocksToProcess := returning }

end LivenessState

def ReturnBlocks (block : ι → SuperBlock ι) (returning : List ι) : Prop :=
  ∀ b, b ∈ returning ↔ ∃ instr ∈ (block b).instrs, instr.instruction.isRet = true

def Relabelled (before after : SuperBlock ι) : Prop :=
  ∃ attach : BlockInstruction ι → Option LivenessData,
    after =
      { before with
        instrs := before.instrs.map (fun instr => { instr with livenessData := attach instr }) }

/-! ### Runs on the entry function -/

namespace Nodes

def flag (nodes : Nodes ι) (a : Analysis) : Nodes ι :=
  { nodes with
    valid := Function.update nodes.valid a true
    icfgValid := Function.update nodes.icfgValid a true }

def setBlockValid (nodes : Nodes ι) (a : Analysis) (valid : ι → Bool) : Nodes ι :=
  { nodes with blockValid := fun b => Function.update (nodes.blockValid b) a (valid b) }

/-- `Rewriter::runStackAnalysis`, once the liveness analysis ran. -/
inductive StackRun (context : Context) (host : Host) (initial : ProgramState)
    (nodes : Nodes ι) : Nodes ι → Prop where
  | skip (unneeded : nodes.icfgValid .stack = true ∨ nodes.entryBlock = none) :
      StackRun context host initial nodes nodes
  | valid (entry : ι) (needed : nodes.icfgValid .stack = false)
      (start : nodes.entryBlock = some entry) (done : nodes.valid .stack = true) :
      StackRun context host initial nodes
        (flag
          { nodes with
            entryState := Function.update nodes.entryState entry
              ((nodes.entryState entry).or (some initial)) } .stack)
  | run (entry : ι) (walk : FunctionCfg.Walk ι) (final : StackAnalysis.AnalysisState ι)
      (needed : nodes.icfgValid .stack = false) (start : nodes.entryBlock = some entry)
      (invalid : nodes.valid .stack = false)
      (completes : StackAnalysis.Completes context host initial nodes.toFunctionNode entry walk
        final) :
      StackRun context host initial nodes
        (flag
          { nodes.setBlockValid .stack (fun b => (final.block b).stackAnalysisValid) with
            entryState := fun b => (final.block b).entryState
            visited := walk.visited } .stack)

/-- `Rewriter::runLivenessAnalysis`. A function without specification is not analysed. -/
inductive LivenessRun (nodes : Nodes ι) : Nodes ι → Prop where
  | skip (unneeded : nodes.icfgValid .liveness = true) : LivenessRun nodes nodes
  | unspecified (needed : nodes.icfgValid .liveness = false)
      (skipped : nodes.valid .liveness = true ∨ nodes.hasInfo = false) :
      LivenessRun nodes
        { nodes with icfgValid := Function.update nodes.icfgValid .liveness true }
  | run (returning : List ι) (final : LivenessState ι) (block : ι → SuperBlock ι)
      (needed : nodes.icfgValid .liveness = false) (invalid : nodes.valid .liveness = false)
      (specified : nodes.hasInfo = true) (returns : ReturnBlocks nodes.block returning)
      (some : returning ≠ [])
      (ran : Relation.ReflTransGen (LivenessState.Steps nodes.block)
        (LivenessState.start returning) final)
      (finished : final.blocksToProcess = [])
      (relabelled : ∀ b, Relabelled (nodes.block b) (block b)) :
      LivenessRun nodes
        (flag { nodes.setBlockValid .liveness final.livenessAnalysisValid with block } .liveness)

end Nodes

end Drob
