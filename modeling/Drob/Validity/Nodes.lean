import Drob.Passes.BlockLayoutOptimization

/-!
The validity flags of the nodes: every block, every function and the ICFG is flagged
valid or not for the stack and for the liveness analysis. Edits of a function invalidate
blocks, and a block that turns invalid invalidates its parents.
-/

namespace Drob

inductive Analysis where
  | stack
  | liveness
  deriving DecidableEq

/-- A function with its blocks. A block that was removed, or is not created yet, has an
empty record. -/
structure FunctionNode (ι : Type) where
  valid : Analysis → Bool
  hasInfo : Bool
  entryBlock : Option ι
  block : ι → SuperBlock ι
  blockValid : ι → Analysis → Bool
  entryState : ι → Option ProgramState
  /-- The blocks that are marked as visited, the last one first. -/
  visited : List ι

structure Nodes (ι : Type) extends FunctionNode ι where
  icfgValid : Analysis → Bool

namespace Nodes

variable {ι : Type} [DecidableEq ι]

/-! ### Invalidation -/

/-- A function that is invalid already does not tell its parent. -/
def invalidateFunction (nodes : Nodes ι) (a : Analysis) : Nodes ι :=
  if nodes.valid a then
    { nodes with
      valid := Function.update nodes.valid a false
      icfgValid := Function.update nodes.icfgValid a false }
  else nodes

/-- A block that is invalid already does not tell its parent. -/
def invalidate (nodes : Nodes ι) (b : ι) (a : Analysis) : Nodes ι :=
  if nodes.blockValid b a then
    invalidateFunction
      { nodes with
        blockValid := Function.update nodes.blockValid b
          (Function.update (nodes.blockValid b) a false) } a
  else nodes

def invalidateIf (nodes : Nodes ι) (b : Option ι) (a : Analysis) : Nodes ι :=
  match b with
  | some b => nodes.invalidate b a
  | none => nodes

def setBlock (nodes : Nodes ι) (b : ι) (block : SuperBlock ι) : Nodes ι :=
  { nodes with block := Function.update nodes.block b block }

/-! ### Edges -/

def addIncomingEdge (nodes : Nodes ι) (dst src : ι) : Nodes ι :=
  (nodes.invalidate dst .stack).setBlock dst
    { nodes.block dst with incomingEdges := (nodes.block dst).incomingEdges ++ [src] }

def addOutgoingEdge (nodes : Nodes ι) (src dst : ι) : Nodes ι :=
  (nodes.invalidate src .liveness).setBlock src
    { nodes.block src with outgoingEdges := (nodes.block src).outgoingEdges ++ [dst] }

def removeIncomingEdge (nodes : Nodes ι) (dst src : ι) : Except Failure (Nodes ι) :=
  if src ∈ (nodes.block dst).incomingEdges then
    .ok ((nodes.invalidate dst .stack).setBlock dst
      { nodes.block dst with incomingEdges := (nodes.block dst).incomingEdges.erase src })
  else .error (.assertion "drob_assert_not_reached()")

def removeOutgoingEdge (nodes : Nodes ι) (src dst : ι) : Except Failure (Nodes ι) :=
  if dst ∈ (nodes.block src).outgoingEdges then
    .ok ((nodes.invalidate src .liveness).setBlock src
      { nodes.block src with outgoingEdges := (nodes.block src).outgoingEdges.erase dst })
  else .error (.assertion "drob_assert_not_reached()")

/-- `BranchEdge::invalidate`; the instruction forgets its edge where this is used. -/
def invalidateEdge (nodes : Nodes ι) (src dst : ι) : Except Failure (Nodes ι) := do
  let apart ← nodes.removeOutgoingEdge src dst
  apart.removeIncomingEdge dst src

def cleanupInstruction (b : ι) (nodes : Nodes ι) (instr : BlockInstruction ι) :
    Except Failure (Nodes ι) :=
  match instr.branchEdge with
  | some dst => nodes.invalidateEdge b dst
  | none => .ok nodes

/-! ### Removing instructions and blocks -/

def invalidateBoth (nodes : Nodes ι) (b : ι) : Nodes ι :=
  (nodes.invalidate b .liveness).invalidate b .stack

def removeInstruction (nodes : Nodes ι) (b : ι) (index : ℕ) : Except Failure (Nodes ι) :=
  match (nodes.block b).instrs[index]? with
  | none => .error (.assertion "drob_assert_not_reached()")
  | some instr => do
      let cleaned ← cleanupInstruction b (nodes.invalidateBoth b) instr
      .ok (cleaned.setBlock b
        { cleaned.block b with instrs := (nodes.block b).instrs.eraseIdx index })

def forgetEdges (b : ι) (block : SuperBlock ι) : SuperBlock ι :=
  { block with
    instrs := block.instrs.map (fun instr =>
      if instr.branchEdge = some b then { instr with branchEdge := none } else instr) }

def removeAllInstructions (nodes : Nodes ι) (b : ι) : Except Failure (Nodes ι) := do
  let cleaned ← (nodes.block b).instrs.foldlM (cleanupInstruction b) (nodes.invalidateBoth b)
  if (cleaned.block b).outgoingEdges ≠ [] then
    .error (.assertion "getOutgoingEdges().empty()")
  else do
    let apart ← (cleaned.block b).incomingEdges.foldlM
      (fun nodes src => nodes.invalidateEdge src b) cleaned
    .ok { apart with
      block := fun x =>
        if x = b then { apart.block b with instrs := [] } else forgetEdges b (apart.block x) }

def unlink (nodes : Nodes ι) (b : ι) : Nodes ι :=
  { nodes with
    block := fun x =>
      if x = b then FunctionCfg.removedBlock
      else
        { nodes.block x with
          next := if (nodes.block b).prev = some x then (nodes.block b).next
            else (nodes.block x).next
          prev := if (nodes.block b).next = some x then (nodes.block b).prev
            else (nodes.block x).prev }
    blockValid := Function.update nodes.blockValid b (fun _ => false)
    entryState := Function.update nodes.entryState b none
    visited := nodes.visited.filter (fun x => decide (x ≠ b)) }

def removeBlock (nodes : Nodes ι) (b : ι) : Except Failure (Nodes ι) := do
  let noEntry :=
    { nodes with entryBlock := if nodes.entryBlock = some b then none else nodes.entryBlock }
  let told := (noEntry.invalidateIf (nodes.block b).next .stack).invalidateIf
    (nodes.block b).prev .liveness
  let cleaned ← told.removeAllInstructions b
  .ok (cleaned.unlink b)

/-- Everything of a block moves to its fallthrough block, before the block is removed. -/
def moveIntoNext (nodes : Nodes ι) (b n : ι) : Nodes ι :=
  { nodes with
    entryBlock := nodes.entryBlock.map (FunctionCfg.redirect b n)
    block := fun x =>
      if x = b then
        { nodes.block b with instrs := [], incomingEdges := [], outgoingEdges := [] }
      else
        let block :=
          if x = n then FunctionCfg.mergedBlock (nodes.block b) (nodes.block n)
          else nodes.block x
        FunctionCfg.redirectBlock b n
          { block with next := if (nodes.block b).prev = some x then some n else block.next }
    entryState := fun x =>
      if x = n then (nodes.entryState b).or (nodes.entryState n) else nodes.entryState x
    blockValid := fun x a =>
      if x = n then nodes.blockValid n a && nodes.blockValid b a else nodes.blockValid x a }

def mergeBlockIntoNext (nodes : Nodes ι) (b : ι) : Except Failure (Nodes ι) :=
  match (nodes.block b).next with
  | none => .error (.assertion "block->next")
  | some n =>
      if (nodes.block n).incomingEdges ≠ [] then
        .error (.assertion "block->next->getIncomingEdges().empty()")
      else if n = b then .error .undefined
      else (nodes.moveIntoNext b n).removeBlock b

/-! ### New blocks -/

/-- A function without an entry block starts at the next block that is added. -/
def addBlock (nodes : Nodes ι) (fresh : ι) : Nodes ι :=
  { nodes with entryBlock := nodes.entryBlock.or (some fresh) }

/-- A block that was just created: nothing is flagged, and no walk has seen it. -/
def newBlock (nodes : Nodes ι) (fresh : ι) (block : SuperBlock ι) : Nodes ι :=
  { nodes.addBlock fresh with
    block := Function.update nodes.block fresh block
    blockValid := Function.update nodes.blockValid fresh (fun _ => false)
    entryState := Function.update nodes.entryState fresh none
    visited := nodes.visited.filter (fun x => decide (x ≠ fresh)) }

def decodeBlock (nodes : Nodes ι) (fresh : ι) (instrs : List Instruction) : Nodes ι :=
  ((nodes.invalidateFunction .liveness).invalidateFunction .liveness).newBlock fresh
    { FunctionCfg.removedBlock with
      instrs := instrs.map (fun instruction =>
        { instruction, livenessData := none, branchEdge := none }) }

/-- The edge of a moved instruction gets another source. The order of incoming edges
plays no role. -/
def moveEdge (b fresh : ι) (nodes : Nodes ι) (instr : BlockInstruction ι) :
    Except Failure (Nodes ι) :=
  match instr.branchEdge with
  | none => .ok nodes
  | some dst =>
      let listed := nodes.setBlock fresh
        { nodes.block fresh with outgoingEdges := (nodes.block fresh).outgoingEdges ++ [dst] }
      let moved := listed.setBlock dst
        { listed.block dst with
          incomingEdges := (listed.block dst).incomingEdges.replace b fresh }
      moved.removeOutgoingEdge b dst

def splitChain (nodes : Nodes ι) (b : ι) (kept : ℕ) (fresh : ι) : Nodes ι :=
  { nodes.newBlock fresh FunctionCfg.removedBlock with
    block := fun x =>
      if x = fresh then
        { FunctionCfg.removedBlock with
          instrs := (nodes.block b).instrs.drop kept
          next := (nodes.block b).next
          prev := some b }
      else if x = b then
        { nodes.block b with
          instrs := (nodes.block b).instrs.take kept
          next := some fresh
          prev := if (nodes.block b).next = some b then some fresh else (nodes.block b).prev }
      else if (nodes.block b).next = some x then { nodes.block x with prev := some fresh }
      else nodes.block x }

/-- The first `kept` instructions stay. -/
def splitBlock (nodes : Nodes ι) (b : ι) (kept : ℕ) (fresh : ι) : Except Failure (Nodes ι) := do
  let moved ← ((nodes.block b).instrs.drop kept).foldlM (moveEdge b fresh)
    (nodes.splitChain b kept fresh)
  .ok (((moved.invalidate b .stack).invalidate fresh .liveness).invalidate fresh .stack)

def splitBlockAfter (nodes : Nodes ι) (b : ι) (index : ℕ) (fresh : ι) :
    Except Failure (Nodes ι) :=
  nodes.splitBlock b (index + 1) fresh

/-- A branch back to the start of the block stays in the copy. What analyses attached to
an instruction is not copied. -/
def copyInstruction (b fresh : ι) (nodes : Nodes ι) (instr : BlockInstruction ι) : Nodes ι :=
  match instr.branchEdge with
  | some dst =>
      let dst := FunctionCfg.redirect b fresh dst
      let added := (nodes.addOutgoingEdge fresh dst).addIncomingEdge dst fresh
      added.setBlock fresh
        { added.block fresh with
          instrs := (added.block fresh).instrs ++
            [{ instr with livenessData := none, branchEdge := some dst }] }
  | none =>
      nodes.setBlock fresh
        { nodes.block fresh with
          instrs := (nodes.block fresh).instrs ++ [{ instr with livenessData := none }] }

/-- Nothing is invalidated for the new block. -/
def copyBlock (nodes : Nodes ι) (b fresh : ι) : Nodes ι :=
  (nodes.block b).instrs.foldl (copyInstruction b fresh)
    (nodes.newBlock fresh FunctionCfg.removedBlock)

/-! ### Branch edges -/

def setBranchEdge (nodes : Nodes ι) (src : ι) (index : ℕ) (edge : Option ι) : Nodes ι :=
  nodes.setBlock src
    { nodes.block src with
      instrs := (nodes.block src).instrs.modify index (fun instr =>
        { instr with branchEdge := edge }) }

/-- Resolve the destination of a branch, as the reconstruction of the ICFG does. -/
def addBranchEdge (nodes : Nodes ι) (src : ι) (index : ℕ) (dst : ι) : Nodes ι :=
  ((nodes.setBranchEdge src index (some dst)).addOutgoingEdge src dst).addIncomingEdge dst src

def removeBranchEdge (nodes : Nodes ι) (src : ι) (index : ℕ) : Except Failure (Nodes ι) :=
  match (nodes.block src).instrs[index]?.bind BlockInstruction.branchEdge with
  | none => .error (.assertion "instruction->getBranchEdge().get() == this")
  | some dst => do
      let apart ← nodes.invalidateEdge src dst
      .ok (apart.setBranchEdge src index none)

/-- The jump that replaces a fallthrough; its address plays no role. -/
def chainJump (dst : ι) : BlockInstruction ι :=
  { instruction := { opcode := .JMPa, rawOperands := [.mem (.direct (.plain 0))] }
    livenessData := none
    branchEdge := some dst }

def unchainNext (nodes : Nodes ι) (b : ι) : Nodes ι :=
  match (nodes.block b).next with
  | none => nodes
  | some n =>
      let appended := nodes.setBlock b
        { nodes.block b with instrs := (nodes.block b).instrs ++ [chainJump n] }
      let added := (appended.addOutgoingEdge b n).addIncomingEdge n b
      { added with
        block := fun x =>
          { added.block x with
            next := if x = b then none else (added.block x).next
            prev := if x = n then none else (added.block x).prev } }

end Nodes

/-! ### Edits -/

/-- The edits of a function with their arguments; `fresh` is where a new block is
allocated. -/
inductive Edit (ι : Type) where
  | decodeBlock (fresh : ι) (instrs : List Instruction)
  | splitBlock (b : ι) (kept : ℕ) (fresh : ι)
  | splitBlockAfter (b : ι) (index : ℕ) (fresh : ι)
  | copyBlock (b fresh : ι)
  | mergeBlockIntoNext (b : ι)
  | removeBlock (b : ι)
  | removeInstruction (b : ι) (index : ℕ)
  | addBranchEdge (src : ι) (index : ℕ) (dst : ι)
  | removeBranchEdge (src : ι) (index : ℕ)
  | unchainNext (b : ι)

namespace Edit

variable {ι : Type} [DecidableEq ι]

def apply (nodes : Nodes ι) : Edit ι → Except Failure (Nodes ι)
  | decodeBlock fresh instrs => .ok (nodes.decodeBlock fresh instrs)
  | splitBlock b kept fresh => nodes.splitBlock b kept fresh
  | splitBlockAfter b index fresh => nodes.splitBlockAfter b index fresh
  | copyBlock b fresh => .ok (nodes.copyBlock b fresh)
  | mergeBlockIntoNext b => nodes.mergeBlockIntoNext b
  | removeBlock b => nodes.removeBlock b
  | removeInstruction b index => nodes.removeInstruction b index
  | addBranchEdge src index dst => .ok (nodes.addBranchEdge src index dst)
  | removeBranchEdge src index => nodes.removeBranchEdge src index
  | unchainNext b => .ok (nodes.unchainNext b)

end Edit

structure FunctionNode.Unallocated {ι : Type} (function : FunctionNode ι) (fresh : ι) :
    Prop where
  empty : function.block fresh = FunctionCfg.removedBlock
  notEntry : function.entryBlock ≠ some fresh
  noEdge : ∀ x, fresh ∉ (function.block x).outgoingEdges

def Edit.Allocates {ι : Type} (function : FunctionNode ι) : Edit ι → Prop
  | decodeBlock fresh _ => function.Unallocated fresh
  | splitBlock b _ fresh => function.Unallocated fresh ∧ b ≠ fresh
  | splitBlockAfter b _ fresh => function.Unallocated fresh ∧ b ≠ fresh
  | copyBlock b fresh => function.Unallocated fresh ∧ b ≠ fresh
  | _ => True

structure Icfg (φ ι : Type) where
  valid : Analysis → Bool
  entryFunction : Option φ
  function : φ → FunctionNode ι

namespace Icfg

variable {φ ι : Type} [DecidableEq φ]

def nodes (icfg : Icfg φ ι) (f : φ) : Nodes ι :=
  { icfg.function f with icfgValid := icfg.valid }

def withNodes (icfg : Icfg φ ι) (f : φ) (nodes : Nodes ι) : Icfg φ ι :=
  { icfg with
    valid := nodes.icfgValid
    function := Function.update icfg.function f nodes.toFunctionNode }

end Icfg

end Drob
