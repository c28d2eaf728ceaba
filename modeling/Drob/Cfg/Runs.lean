import Drob.Instruction.Predicates
import Drob.Library.Traces
import Drob.StackAnalysis.Pass

/-!
Runs of a function: what is executed along the fallthrough chains and branch edges.
-/

namespace Drob

/-- What a conditional branch finds in the registers; the flags are bits. -/
structure Condition where
  read : Register → BitVec 64
  bit : ∀ flag ∈ [Register.CF, .ZF, .SF, .PF, .OF], read flag = 0 ∨ read flag = 1

/-- What a run shows: the instructions that are executed, and what the conditional branches
find. Unconditional jumps to a block do not show. -/
inductive Event where
  | exec (instruction : Instruction)
  | test (condition : Condition)

inductive Goes (ι : Type) where
  | on
  | block (dst : ι)
  | leave

structure Point (ι : Type) where
  block : ι
  rest : List (BlockInstruction ι)

variable {ι : Type}

/-- Without an edge a branch leads to unknown code. -/
def destination (edge : Option ι) : Goes ι :=
  edge.elim .leave .block

inductive Outcome (instr : BlockInstruction ι) : Option Event → Goes ι → Prop where
  | jump {dst : ι} (branch : instr.instruction.isBranch = true)
      (always : instr.instruction.getPredicate = none) (edge : instr.branchEdge = some dst) :
      Outcome instr none (.block dst)
  | away (branch : instr.instruction.isBranch = true)
      (always : instr.instruction.getPredicate = none) (edge : instr.branchEdge = none) :
      Outcome instr (some (.exec instr.instruction)) .leave
  | taken {predicate : Predicate} (branch : instr.instruction.isBranch = true)
      (sometimes : instr.instruction.getPredicate = some predicate) (condition : Condition)
      (holds : predicate.holds condition.read = true) :
      Outcome instr (some (.test condition)) (destination instr.branchEdge)
  | passed {predicate : Predicate} (branch : instr.instruction.isBranch = true)
      (sometimes : instr.instruction.getPredicate = some predicate) (condition : Condition)
      (holds : predicate.holds condition.read = false) :
      Outcome instr (some (.test condition)) .on
  | ret (branch : instr.instruction.isBranch = false) (ret : instr.instruction.isRet = true) :
      Outcome instr (some (.exec instr.instruction)) .leave
  | exec (branch : instr.instruction.isBranch = false) (ret : instr.instruction.isRet = false) :
      Outcome instr (some (.exec instr.instruction)) .on

namespace FunctionCfg

variable (cfg : FunctionCfg ι)

def enter (b : ι) : Point ι :=
  { block := b, rest := (cfg.block b).instrs }

def place (b : ι) (rest : List (BlockInstruction ι)) : Goes ι → Option (Point ι)
  | .on => some { block := b, rest }
  | .block dst => some (cfg.enter dst)
  | .leave => none

inductive Step : Option (Point ι) → Option Event → Option (Point ι) → Prop where
  | fall {b n : ι} (falls : (cfg.block b).next = some n) :
      Step (some { block := b, rest := [] }) none (some (cfg.enter n))
  | instr {b : ι} {instr : BlockInstruction ι} {rest : List (BlockInstruction ι)}
      {label : Option Event} {goes : Goes ι} (outcome : Outcome instr label goes) :
      Step (some { block := b, rest := instr :: rest }) label (cfg.place b rest goes)

def Shows (events : List Event) : Prop :=
  Traces.Trace cfg.Step (some (cfg.enter cfg.entryBlock)) events

def Reaches (events : List Event) (place : Option (Point ι)) : Prop :=
  Traces.Run cfg.Step (some (cfg.enter cfg.entryBlock)) events place

end FunctionCfg

end Drob
