import Drob.Passes.LayoutCompletion
import Drob.Validity.Nodes

/-!
The simple loop unrolling pass: a block that branches back to itself is copied, its self
branches lead to the copy, and where the condition can be inverted the copy becomes the
fallthrough block.
-/

namespace Drob

/-- `none` is the `Opcode::NONE` of the source. -/
def archInvertBranch : Opcode → Option Opcode
  | .JNBEa => some .JBEa
  | .JNBa => some .JBa
  | .JBa => some .JNBa
  | .JBEa => some .JNBEa
  | .JZa => some .JNZa
  | .JNLEa => some .JLEa
  | .JNLa => some .JLa
  | .JLa => some .JNLa
  | .JLEa => some .JNLEa
  | .JNZa => some .JZa
  | .JNOa => some .JOa
  | .JNPa => some .JPa
  | .JNSa => some .JSa
  | .JOa => some .JNOa
  | .JPa => some .JNPa
  | .JSa => some .JNSa
  | _ => none

namespace Nodes

variable {ι : Type} [DecidableEq ι]

def leadsTo (b : ι) (instr : BlockInstruction ι) : Bool :=
  decide (instr.branchEdge = some b)

/-- The index of the last self branch; the edges are in the order of their instructions. -/
def lastSelfBranch (b : ι) : List (BlockInstruction ι) → Option ℕ
  | [] => none
  | instr :: rest =>
      match lastSelfBranch b rest with
      | some index => some (index + 1)
      | none => if leadsTo b instr then some 0 else none

def retargetEdge (b copy : ι) (nodes : Nodes ι) (dst : ι) : Except Failure (Nodes ι) :=
  if dst = b then do
    let apart ← nodes.removeIncomingEdge b b
    .ok (apart.addIncomingEdge copy b)
  else .ok nodes

def retargetEdges (nodes : Nodes ι) (b copy : ι) : Except Failure (Nodes ι) := do
  let moved ← (nodes.block b).outgoingEdges.foldlM (retargetEdge b copy) nodes
  .ok (moved.setBlock b
    { moved.block b with
      instrs := (moved.block b).instrs.map (FunctionCfg.redirectInstr b copy)
      outgoingEdges := (moved.block b).outgoingEdges.map (FunctionCfg.redirect b copy) })

def chainInverted (nodes : Nodes ι) (b copy : ι) (opcode : Opcode)
    (lastInstruction : BlockInstruction ι) : Except Failure (Nodes ι) := do
  let removed ← nodes.removeInstruction b ((nodes.block b).instrs.length - 2)
  if (removed.block copy).prev.isSome then .error (.assertion "!copy->getPrev()")
  else
    .ok { removed with
      block := fun x =>
        { removed.block x with
          instrs :=
            if x = b then
              (removed.block b).instrs.dropLast ++
                [{ lastInstruction with
                  instruction := { lastInstruction.instruction with opcode } }]
            else (removed.block x).instrs
          next := if x = b then some copy else (removed.block x).next
          prev := if x = copy then some b else (removed.block x).prev } }

/-- A block that ends with the jump to the end of the loop falls through to its copy, if
the condition of the branch in front of the jump can be inverted. -/
def chainToCopy (nodes : Nodes ι) (b copy : ι) : Except Failure (Nodes ι) :=
  match (nodes.block b).instrs.getLast? with
  | none => .error .undefined
  | some lastInstruction =>
      match lastInstruction.branchEdge with
      | none => .error .undefined
      | some dst =>
          if dst = copy then .ok nodes
          else if lastInstruction.instruction.getPredicate.isSome then
            .error (.assertion "!lastInstruction->getPredicate()")
          else
            match (nodes.block b).instrs.dropLast.getLast? with
            | none => .error .undefined
            | some branch =>
                match archInvertBranch branch.instruction.opcode with
                | none => .ok nodes
                | some opcode => nodes.chainInverted b copy opcode lastInstruction

def unrollCopies (fresh : ℕ → ι) : ℕ → ℕ → ι → Nodes ι → Except Failure (Nodes ι)
  | 0, _, _, nodes => .ok nodes
  | count + 1, i, b, nodes => do
      let retargeted ← (nodes.copyBlock b (fresh i)).retargetEdges b (fresh i)
      let chained ← retargeted.chainToCopy b (fresh i)
      unrollCopies fresh count (i + 1) (fresh i) chained

def unrollSingleBlockLoop (nodes : Nodes ι) (b : ι) (simple_loop_unroll_count : ℕ)
    (fresh : ℕ → ι) : Except Failure (Nodes ι) :=
  match lastSelfBranch b (nodes.block b).instrs with
  | none => .error (.assertion "lastSelfBranchInstr")
  | some index => do
      let split ←
        if index + 1 < (nodes.block b).instrs.length then
          nodes.splitBlockAfter b index (fresh 0)
        else .ok nodes
      unrollCopies fresh simple_loop_unroll_count 1 b (split.unchainNext b)

end Nodes

end Drob
