import Drob.Cfg.Function
import Drob.Instruction.Emulate

/-!
The stack analysis pass: entry states are pushed through the blocks of a function and
forwarded to their successors, until no forwarded state changes an entry state. The
pass is a state machine; one step dequeues a block, handles one instruction, or
follows the fallthrough at the end of a block.
-/

namespace Drob

def Instruction.isCall (instruction : Instruction) : Bool :=
  match instruction.opcodeInfo with
  | some opcodeInfo => opcodeInfo.type == .Call
  | none => false

def Instruction.isBranch (instruction : Instruction) : Bool :=
  match instruction.opcodeInfo with
  | some opcodeInfo => opcodeInfo.type == .Branch
  | none => false

def Instruction.isRet (instruction : Instruction) : Bool :=
  match instruction.opcodeInfo with
  | some opcodeInfo => opcodeInfo.type == .Ret
  | none => false

def Instruction.getPredicate (instruction : Instruction) : Option Predicate :=
  instruction.opcodeInfo.bind OpcodeInfo.predicate

namespace StackAnalysis

/-! ### Dead registers -/

def regIsDead (livenessData : LivenessData) (reg : Register) (type : RegisterAccessType) :
    Except Failure Bool := do
  let mask ← getSubRegisterMask reg type
  .ok (decide (livenessData.live_out ∩ mask = ∅))

def markDead (livenessData : LivenessData) (reg : Register) (type : RegisterAccessType)
    (ps : ProgramState) : Except Failure ProgramState := do
  let dead ← regIsDead livenessData reg type
  if dead then ps.setRegister reg type .dead false else .ok ps

def markComparand (livenessData : LivenessData) (comparand : PredComparand)
    (ps : ProgramState) : Except Failure ProgramState :=
  match comparand with
  | .reg reg => markDead livenessData reg .full ps
  | .imm _ => .ok ps

def markComparisons (livenessData : LivenessData) :
    List PredComparison → ProgramState → Except Failure ProgramState
  | [], ps => .ok ps
  | comparison :: rest, ps => do
      let left ← markComparand livenessData comparison.lhs ps
      let right ← markComparand livenessData comparison.rhs left
      markComparisons livenessData rest right

def markAddressRegister (livenessData : LivenessData) (reg : Option Register)
    (ps : ProgramState) : Except Failure ProgramState :=
  match reg with
  | some reg => markDead livenessData reg .full ps
  | none => .ok ps

def markIf (condition : Bool) (livenessData : LivenessData) (reg : Register)
    (type : RegisterAccessType) (ps : ProgramState) : Except Failure ProgramState :=
  if condition then markDead livenessData reg type ps else .ok ps

def markOperand (livenessData : LivenessData) (op : OperandInfo) (ps : ProgramState) :
    Except Failure ProgramState :=
  match op.info with
  | .register r => do
      let read ← markIf r.mode.isRead livenessData r.reg r.r ps
      markIf r.mode.isWrite livenessData r.reg r.w read
  | .memPtr m =>
      match m.ptr with
      | .SIB base index _ _ => do
          let marked ← markAddressRegister livenessData base ps
          markAddressRegister livenessData index marked
      | .direct _ => .ok ps
  | .immediate _ _ => .ok ps

def markOperands (livenessData : LivenessData) :
    List OperandInfo → ProgramState → Except Failure ProgramState
  | [], ps => .ok ps
  | op :: rest, ps => do
      let marked ← markOperand livenessData op ps
      markOperands livenessData rest marked

def markInstruction (instruction : Instruction) (info : InstructionInfo)
    (livenessData : LivenessData) (ps : ProgramState) : Except Failure ProgramState := do
  let comparisons := instruction.getPredicate.elim [] Predicate.comparisons
  let marked ← markComparisons livenessData comparisons ps
  markOperands livenessData info.operands marked

/-! ### One instruction -/

/-- A state that a branch forwards; nothing after a certain branch is executed. -/
structure Forward (ι : Type) where
  target : ι
  certain : Bool
  deriving DecidableEq

variable {ι : Type}

def forwardOf (instr : BlockInstruction ι) (willExecute : TriState) : Option (Forward ι) :=
  match instr.branchEdge, willExecute with
  | some target, .True => some { target, certain := true }
  | some target, .Unknown => some { target, certain := false }
  | _, _ => none

/-- What `handleInstruction` does before it forwards a state. Without liveness data an
instruction is skipped. -/
def pushInstruction (context : Context) (host : Host) (instr : BlockInstruction ι)
    (curState : ProgramState) : Except Failure (ProgramState × Option (Forward ι)) := do
  let info ← instr.instruction.getInfo
  match instr.livenessData with
  | none => .ok (curState, none)
  | some livenessData => do
      let (dynInfo, emulated) ← instr.instruction.emulate curState context host
      let marked ← markInstruction instr.instruction info livenessData emulated
      if instr.instruction.isCall then do
        let called ← marked.nastyInstruction
        .ok (called, none)
      else if instr.instruction.isBranch then
        .ok (marked, forwardOf instr dynInfo.willExecute)
      else .ok (marked, none)

/-! ### The worklist -/

structure BlockState where
  entryState : Option ProgramState
  stackAnalysisValid : Bool
  queued : Bool

/-- The block that is processed, its remaining instructions and `curState`. -/
structure Position (ι : Type) where
  block : ι
  rest : List (BlockInstruction ι)
  curState : ProgramState

structure AnalysisState (ι : Type) where
  block : ι → BlockState
  blocksToProcess : List ι
  position : Option (Position ι)

namespace AnalysisState

variable [DecidableEq ι]

def setBlock (state : AnalysisState ι) (b : ι) (blockState : BlockState) : AnalysisState ι :=
  { state with block := Function.update state.block b blockState }

def setEntryState (state : AnalysisState ι) (b : ι) (entryState : ProgramState) :
    AnalysisState ι :=
  state.setBlock b { state.block b with entryState := some entryState }

def requeue (state : AnalysisState ι) (b : ι) : AnalysisState ι :=
  if (state.block b).queued then
    state.setBlock b { state.block b with stackAnalysisValid := false }
  else
    { state.setBlock b { state.block b with stackAnalysisValid := false, queued := true } with
      blocksToProcess := state.blocksToProcess ++ [b] }

def forwardStateToBlock (state : AnalysisState ι) (b : ι) (curState : ProgramState) :
    Except Failure (ProgramState × AnalysisState ι) :=
  match (state.block b).entryState with
  | some entryState => do
      let (merged, grown, diff) ← entryState.merge curState
      let changed := state.setEntryState b merged
      if diff then .ok (grown, changed.requeue b) else .ok (grown, changed)
  | none => .ok (curState, (state.setEntryState b curState).requeue b)

def requeuePredecessor (state : AnalysisState ι) (prev : ι) : AnalysisState ι :=
  if ¬ (state.block prev).queued ∧ (state.block prev).entryState.isSome then state.requeue prev
  else state

/-- The start of `processBlock`. -/
def processBlock (cfg : FunctionCfg ι) (state : AnalysisState ι) (b : ι) : AnalysisState ι :=
  if (state.block b).stackAnalysisValid then state
  else
    let valid := state.setBlock b { state.block b with stackAnalysisValid := true }
    match (state.block b).entryState with
    | none =>
        ((cfg.block b).prev.toList ++ (cfg.block b).incomingEdges).foldl requeuePredecessor valid
    | some curState =>
        { valid with position := some { block := b, rest := (cfg.block b).instrs, curState } }

def dequeue (state : AnalysisState ι) (b : ι) (rest : List ι) : AnalysisState ι :=
  { state.setBlock b { state.block b with queued := false } with blocksToProcess := rest }

end AnalysisState

variable [DecidableEq ι]

def handleInstruction (context : Context) (host : Host) (state : AnalysisState ι) (b : ι)
    (instr : BlockInstruction ι) (rest : List (BlockInstruction ι)) (curState : ProgramState) :
    Except Failure (AnalysisState ι) := do
  let (pushed, forward) ← pushInstruction context host instr curState
  match forward with
  | none => .ok { state with position := some { block := b, rest, curState := pushed } }
  | some forward => do
      let (grown, forwarded) ← state.forwardStateToBlock forward.target pushed
      .ok { forwarded with
        position :=
          if forward.certain then none else some { block := b, rest, curState := grown } }

def finishBlock (cfg : FunctionCfg ι) (state : AnalysisState ι) (b : ι)
    (curState : ProgramState) : Except Failure (AnalysisState ι) :=
  match (cfg.block b).next with
  | some next => do
      let (_, forwarded) ← state.forwardStateToBlock next curState
      .ok { forwarded with position := none }
  | none => .ok { state with position := none }

/-- One step of the loop of `processFunction`; without result it is finished. -/
def step (cfg : FunctionCfg ι) (context : Context) (host : Host) (state : AnalysisState ι) :
    Except Failure (Option (AnalysisState ι)) :=
  match state.position with
  | some { block := b, rest := instr :: rest, curState } => do
      let handled ← handleInstruction context host state b instr rest curState
      .ok (some handled)
  | some { block := b, rest := [], curState } => do
      let finished ← finishBlock cfg state b curState
      .ok (some finished)
  | none =>
      match state.blocksToProcess with
      | [] => .ok none
      | b :: rest => .ok (some ((state.dequeue b rest).processBlock cfg b))

def handleBlock (state : AnalysisState ι) (b : ι) : AnalysisState ι :=
  if (state.block b).queued ∨ (state.block b).stackAnalysisValid then state
  else
    { state.setBlock b { state.block b with queued := true } with
      blocksToProcess := state.blocksToProcess ++ [b] }

/-- A function that was not analysed yet, with the entry state of its entry block. -/
def fresh (cfg : FunctionCfg ι) (entryState : ProgramState) : AnalysisState ι :=
  { block := fun b =>
      { entryState := if b = cfg.entryBlock then some entryState else none
        stackAnalysisValid := false
        queued := false }
    blocksToProcess := []
    position := none }

def start (cfg : FunctionCfg ι) (entryState : ProgramState) (order : List ι) :
    AnalysisState ι :=
  order.foldl handleBlock (fresh cfg entryState)

def Steps (cfg : FunctionCfg ι) (context : Context) (host : Host)
    (state later : AnalysisState ι) : Prop :=
  step cfg context host state = .ok (some later)

end StackAnalysis

end Drob
