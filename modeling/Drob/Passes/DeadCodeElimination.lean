import Drob.Passes.Unrolling

/-!
The dead code elimination pass: instructions that are never executed, conditions that
always hold and blocks that are never entered, as the stack analysis marked them.
-/

namespace Drob

inductive Fate where
  | keep
  | delete
  | convert
  deriving DecidableEq

namespace Nodes

variable {ι : Type} [DecidableEq ι]

/-- `willExecute` is part of the dynamic information, if there is any. -/
def handleInstruction (willExecute : Option TriState) (instr : BlockInstruction ι) : Fate :=
  match willExecute with
  | none => .delete
  | some .False => .delete
  | some .True =>
      if instr.instruction.isBranch && instr.instruction.getPredicate.isSome then .convert
      else .keep
  | some .Unknown => .keep

/-- The instructions of a block, with what the analysis attached to each position. -/
def fatesFrom (willExecute : ℕ → Option TriState) : ℕ → List (BlockInstruction ι) → List Fate
  | _, [] => []
  | index, instr :: rest =>
      handleInstruction (willExecute index) instr :: fatesFrom willExecute (index + 1) rest

def hasEntryState (nodes : Nodes ι) (b : ι) : Bool :=
  (nodes.entryState b).isSome

/-- Remove the instructions of a block that were collected, from the given one on. -/
def removeCollected (b : ι) : List Fate → ℕ → Nodes ι → Except Failure (Nodes ι)
  | [], _, nodes => .ok nodes
  | .delete :: rest, index, nodes => do
      let removed ← nodes.removeInstruction b index
      removeCollected b rest index removed
  | .keep :: rest, index, nodes => removeCollected b rest (index + 1) nodes
  | .convert :: rest, index, nodes => removeCollected b rest (index + 1) nodes

def cutChain (nodes : Nodes ι) (b : ι) : Nodes ι :=
  { nodes with
    block := fun x =>
      { nodes.block x with
        next := if x = b then none else (nodes.block x).next
        prev := if (nodes.block b).next = some x then none else (nodes.block x).prev } }

def toJump (instr : BlockInstruction ι) : BlockInstruction ι :=
  { instr with instruction := { instr.instruction with opcode := .JMPa } }

def convertBranch (nodes : Nodes ι) (b : ι) (index : ℕ) : Nodes ι :=
  let cut := nodes.cutChain b
  ((cut.setBlock b
    { cut.block b with instrs := (cut.block b).instrs.modify index toJump }).invalidate b
      .stack).invalidate b .liveness

def convertCollected (b : ι) : List Fate → ℕ → Nodes ι → Nodes ι
  | [], _, nodes => nodes
  | .delete :: rest, index, nodes => convertCollected b rest index nodes
  | .keep :: rest, index, nodes => convertCollected b rest (index + 1) nodes
  | .convert :: rest, index, nodes =>
      convertCollected b rest (index + 1) (nodes.convertBranch b index)

/-- `blocks` is the list that the function keeps its blocks in. A function that was not
analysed is left alone. -/
def eliminateDeadCode (blocks : List ι) (willExecute : ι → ℕ → Option TriState)
    (nodes : Nodes ι) : Except Failure (Nodes ι) :=
  match nodes.entryBlock with
  | none => .error .undefined
  | some entry =>
      if nodes.hasEntryState entry then do
        let analysed := blocks.filter nodes.hasEntryState
        let collected := fun b => fatesFrom (willExecute b) 0 (nodes.block b).instrs
        let removed ← analysed.foldlM (fun nodes b => removeCollected b (collected b) 0 nodes) nodes
        let converted := analysed.foldl (fun nodes b => convertCollected b (collected b) 0 nodes)
          removed
        (blocks.filter (fun b => !nodes.hasEntryState b)).foldlM removeBlock converted
      else .ok nodes

end Nodes

end Drob
