import Drob.Library.FixedPoints
import Drob.Validity.Runs

/-!
`LivenessAnalysisPass` with the registers that it computes: from the blocks that return, the
registers that live are carried backwards until nothing changes.
-/

namespace Drob

variable {ι : Type}

/-! ### Instructions -/

structure RegisterEffects where
  readRegs : SubRegisterMask
  writtenRegs : SubRegisterMask
  condWrittenRegs : SubRegisterMask
  predicateRegs : SubRegisterMask
  willExecute : TriState
  mayWriteMem : Bool

def registerEffects (dynInfo : Option DynamicInstructionInfo) (instruction : Instruction) :
    Except Failure RegisterEffects :=
  match dynInfo with
  | some info =>
      .ok
        { readRegs := info.readRegs
          writtenRegs := info.writtenRegs
          condWrittenRegs := info.condWrittenRegs
          predicateRegs := info.predicateRegs
          willExecute := info.willExecute
          mayWriteMem := info.mayWriteMem }
  | none => do
      let info ← instruction.getInfo
      .ok
        { readRegs := info.readRegs
          writtenRegs := info.writtenRegs
          condWrittenRegs := info.condWrittenRegs
          predicateRegs := info.predicateRegs
          willExecute := if instruction.getPredicate.isSome then .Unknown else .True
          mayWriteMem := info.mayWriteMem }

/-- The instruction only writes registers, and none of them lives. -/
def instructionDead (effects : RegisterEffects) (instruction : Instruction)
    (live : SubRegisterMask) : Bool :=
  !instruction.isBranch && !instruction.isCall && !instruction.isRet && !effects.mayWriteMem &&
    decide ((live \ effects.writtenRegs) \ effects.condWrittenRegs = live)

/-- The effects of an instruction that may execute on `live_in`. -/
def executed (live_ret : SubRegisterMask) (getLivenessData : ι → Option LivenessData)
    (effects : RegisterEffects) (instr : BlockInstruction ι) (live_in : SubRegisterMask) :
    SubRegisterMask :=
  let read := live_in ∪ effects.readRegs
  let returned := if instr.instruction.isRet then live_ret else read
  let called := if instr.instruction.isCall then Finset.univ else returned
  if instr.instruction.isBranch then
    match instr.branchEdge with
    | some dst =>
        match getLivenessData dst with
        | some data => called ∪ data.live_in
        | none => called
    -- branching into unknown code
    | none => Finset.univ
  else called

/-- The data that is attached to an instruction, and the registers that live before it. -/
def processInstruction (live_ret : SubRegisterMask) (getLivenessData : ι → Option LivenessData)
    (effects : RegisterEffects) (instr : BlockInstruction ι) (live : SubRegisterMask) :
    Option LivenessData × SubRegisterMask :=
  if instructionDead effects instr.instruction live then (none, live)
  else
    let changed :=
      match effects.willExecute with
      | .True => executed live_ret getLivenessData effects instr (live \ effects.writtenRegs)
      | .Unknown => executed live_ret getLivenessData effects instr live
      | .False => live
    let live_in := changed ∪ effects.predicateRegs
    (some { live_out := live, live_in }, live_in)

def processInstructions (live_ret : SubRegisterMask)
    (getLivenessData : ι → Option LivenessData) (dynInfo : ℕ → Option DynamicInstructionInfo) :
    ℕ → List (BlockInstruction ι) → SubRegisterMask →
      Except Failure (List (Option LivenessData) × SubRegisterMask)
  | _, [], live => .ok ([], live)
  | index, instr :: rest, live => do
      let (attached, after) ← processInstructions live_ret getLivenessData dynInfo (index + 1)
        rest live
      let effects ← registerEffects (dynInfo index) instr.instruction
      let (own, before) := processInstruction live_ret getLivenessData effects instr after
      .ok (own :: attached, before)

/-! ### Blocks -/

structure LivenessAnalysis (ι : Type) where
  flags : LivenessState ι
  data : ι → LivenessData
  attached : ι → List (Option LivenessData)

/-- `FunctionSpecification::reg`. -/
structure RegisterSpecification where
  out : SubRegisterMask
  preserved : SubRegisterMask

inductive HandledFunction (ι : Type) where
  | unchanged
  | analysed (analysis : LivenessAnalysis ι)

namespace LivenessAnalysis

open LivenessState

def getLivenessData (analysis : LivenessAnalysis ι) (b : ι) : Option LivenessData :=
  if analysis.flags.hasData b then some (analysis.data b) else none

variable [DecidableEq ι] (block : ι → SuperBlock ι)
  (dynInfo : ι → ℕ → Option DynamicInstructionInfo) (live_ret : SubRegisterMask)

/-- A block without data has empty sets from here on; its own edges find them. -/
def processBlock (b : ι) (analysis : LivenessAnalysis ι) :
    Except Failure (LivenessAnalysis ι) :=
  if analysis.flags.livenessAnalysisValid b then
    .error (.assertion "!block->livenessAnalysisValid")
  else
    match (block b).next.filter (fun next => !analysis.flags.hasData next) with
    | some next =>
        if analysis.flags.livenessAnalysisValid next then
          .error (.assertion "!block->getNext()->livenessAnalysisValid")
        else .ok { analysis with flags := analysis.flags.enqueue next }
    | none => do
        let live_out := (block b).next.elim ∅ (fun next => (analysis.data next).live_in)
        let (attached, live) ← processInstructions live_ret analysis.getLivenessData (dynInfo b) 0
          (block b).instrs live_out
        let entryLiveRegsChanged := decide ((analysis.data b).live_in ≠ live)
        .ok
          { flags := (predecessors (block b)).foldl (tellPredecessor entryLiveRegsChanged)
              { analysis.flags with
                livenessAnalysisValid :=
                  Function.update analysis.flags.livenessAnalysisValid b true
                hasData := Function.update analysis.flags.hasData b true }
            data := Function.update analysis.data b { live_out, live_in := live }
            attached := Function.update analysis.attached b attached }

def step (analysis : LivenessAnalysis ι) : Except Failure (Option (LivenessAnalysis ι)) :=
  match analysis.flags.blocksToProcess with
  | [] => .ok none
  | b :: rest =>
      (processBlock block dynInfo live_ret b
        { analysis with
          flags :=
            { analysis.flags with
              queued := Function.update analysis.flags.queued b false
              blocksToProcess := rest } }).map some

/-- All data of the blocks is thrown away; the data of instructions stays. -/
def start (returning : List ι) : LivenessAnalysis ι :=
  { flags := LivenessState.start returning
    data := fun _ => { live_out := ∅, live_in := ∅ }
    attached := fun b => (block b).instrs.map BlockInstruction.livenessData }

/-- `returning` are the blocks of the return edges. -/
def handleFunction (livenessAnalysisValid : Bool) (spec : Option RegisterSpecification)
    (returning : List ι) (fuel : ℕ) : Except Failure (Option (HandledFunction ι)) :=
  if livenessAnalysisValid then .ok (some .unchanged)
  else
    match spec with
    | none => .ok (some .unchanged)
    | some spec => do
        if returning.isEmpty then
          .error (.assertion "!function->getReturnEdges().empty()")
        else
          let last ← FixedPoints.run (step block dynInfo (spec.out ∪ spec.preserved)) fuel
            (start block returning)
          .ok (last.map .analysed)

end LivenessAnalysis

/-! ### The equations -/

/-- What lives before an instruction that has an effect: its predicate registers, and if it
may execute, what it reads, what it does not surely write, and what lives where it goes. -/
def flow (live_ret : SubRegisterMask) (liveIn : ι → SubRegisterMask)
    (effects : RegisterEffects) (instr : BlockInstruction ι) (live : SubRegisterMask) :
    SubRegisterMask :=
  if effects.willExecute = .False then live ∪ effects.predicateRegs
  else if instr.instruction.isCall then Finset.univ
  else if instr.instruction.isRet then live_ret ∪ effects.predicateRegs
  else if instr.instruction.isBranch ∧ instr.branchEdge = none then Finset.univ
  else
    (if effects.willExecute = .True then live \ effects.writtenRegs else live) ∪
      effects.readRegs ∪ effects.predicateRegs ∪
        (if instr.instruction.isBranch then instr.branchEdge.elim ∅ liveIn else ∅)

/-- An instruction that writes nothing that lives and has no other effect contributes
nothing. -/
def liveBefore (live_ret : SubRegisterMask) (liveIn : ι → SubRegisterMask)
    (effects : RegisterEffects) (instr : BlockInstruction ι) (live : SubRegisterMask) :
    SubRegisterMask :=
  if instructionDead effects instr.instruction live then live
  else flow live_ret liveIn effects instr live

def liveThrough (live_ret : SubRegisterMask) (liveIn : ι → SubRegisterMask)
    (effects : ℕ → RegisterEffects) :
    ℕ → List (BlockInstruction ι) → SubRegisterMask → SubRegisterMask
  | _, [], live => live
  | index, instr :: rest, live =>
      liveBefore live_ret liveIn (effects index) instr
        (liveThrough live_ret liveIn effects (index + 1) rest live)

/-- The backward equations of all blocks. -/
structure SolvesLiveness (block : ι → SuperBlock ι) (effects : ι → ℕ → RegisterEffects)
    (live_ret : SubRegisterMask) (live : ι → LivenessData) : Prop where
  live_out : ∀ b, (live b).live_out =
    (block b).next.elim ∅ (fun next => (live next).live_in)
  live_in : ∀ b, (live b).live_in = liveThrough live_ret (fun c => (live c).live_in) (effects b) 0
    (block b).instrs (live b).live_out

/-- The least solution, set by set. -/
def LeastLiveness (block : ι → SuperBlock ι) (effects : ι → ℕ → RegisterEffects)
    (live_ret : SubRegisterMask) (live : ι → LivenessData) : Prop :=
  SolvesLiveness block effects live_ret live ∧
    ∀ other, SolvesLiveness block effects live_ret other → ∀ b,
      (live b).live_in ⊆ (other b).live_in ∧ (live b).live_out ⊆ (other b).live_out

end Drob
