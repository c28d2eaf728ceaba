import Drob.Instruction.Dynamic
import Drob.State.Answers

/-!
The predicate of an instruction in a concrete state, and what its evaluation over a
program state says about it.
-/

namespace Drob

namespace TriState

end TriState

def PredComparand.value (read : Register → BitVec 64) : PredComparand → BitVec 64
  | .imm value => value
  | .reg name => read name

def PredComparison.holds (read : Register → BitVec 64) (comparison : PredComparison) : Bool :=
  Instruction.compare comparison.comp (comparison.lhs.value read) (comparison.rhs.value read)

def Predicate.holds (read : Register → BitVec 64) (predicate : Predicate) : Bool :=
  match predicate.first.con, predicate.second with
  | .And, some comparison => predicate.first.holds read && comparison.holds read
  | .Or, some comparison => predicate.first.holds read || comparison.holds read
  | _, _ => predicate.first.holds read

def Concrete.read (concrete : Concrete) (reg : Register) : BitVec 64 :=
  match getRegisterData reg .full with
  | .ok slice => (word (concrete.reg slice.container) slice.byteOffset slice.bytes).setWidth 64
  | .error _ => 0

/-- One comparison, or two that are joined and nothing after them. -/
def Predicate.Valid (predicate : Predicate) : Prop :=
  predicate.first.con = .None ∨ ∃ comparison, predicate.second = some comparison ∧
    comparison.con = .None

namespace Elements

end Elements

namespace Instruction

def Known (ps : ProgramState) (comparison : PredComparison) : Prop :=
  ∃ lhs rhs, comparandValue ps comparison.lhs = .ok (some lhs) ∧
    comparandValue ps comparison.rhs = .ok (some rhs)

theorem willExecute_of_predicate {instruction : Instruction} {opcodeInfo : OpcodeInfo}
    {predicate : Predicate} (found : instruction.opcodeInfo = some opcodeInfo)
    (conditional : opcodeInfo.predicate = some predicate) (ps : ProgramState) :
    instruction.willExecute ps = evaluatePredicate ps predicate := by
  unfold willExecute
  simp only [found, conditional]

section Sound

variable {ps : ProgramState} {predicate : Predicate}

end Sound

end Instruction

end Drob
