import Drob.StackAnalysis.Pass

/-!
The block layout optimization pass: blocks that end with an unconditional jump are
chained to its destination, and blocks are merged into a fallthrough block that nothing
else leads to.
-/

namespace Drob

/-- Drop one edge. Edges are in the order of their instructions, so the edge of the last
instruction is the last one among equals. -/
def eraseLast {ι : Type} [DecidableEq ι] (ends : List ι) (b : ι) : List ι :=
  (ends.reverse.erase b).reverse

namespace BlockLayout

variable {ι : Type} [DecidableEq ι]

def jumpTarget (block : SuperBlock ι) : Option ι :=
  block.instrs.getLast?.bind (fun lastInstr =>
    if lastInstr.instruction.isBranch && lastInstr.instruction.getPredicate.isNone then
      lastInstr.branchEdge
    else none)

def chain (cfg : FunctionCfg ι) (b dst : ι) : Except Failure (FunctionCfg ι) :=
  if dst ∈ (cfg.block b).outgoingEdges ∧ b ∈ (cfg.block dst).incomingEdges then
    .ok { cfg with
      block := fun x =>
        { instrs := if x = b then (cfg.block x).instrs.dropLast else (cfg.block x).instrs
          next := if x = b then some dst else (cfg.block x).next
          prev := if x = dst then some b else (cfg.block x).prev
          incomingEdges :=
            if x = dst then eraseLast (cfg.block x).incomingEdges b else (cfg.block x).incomingEdges
          outgoingEdges :=
            if x = b then eraseLast (cfg.block x).outgoingEdges dst
            else (cfg.block x).outgoingEdges } }
  else .error (.assertion "drob_assert_not_reached()")

/-- A block without fallthrough is chained to a destination that is in no chain. -/
def tryChain (cfg : FunctionCfg ι) (b : ι) : Except Failure (FunctionCfg ι) :=
  match (cfg.block b).next, jumpTarget (cfg.block b) with
  | none, some dst => if (cfg.block dst).prev.isSome then .ok cfg else chain cfg b dst
  | _, _ => .ok cfg

/-- Only the fallthrough leads to the next block. -/
def nextUnshared (cfg : FunctionCfg ι) (b : ι) : Bool :=
  match (cfg.block b).next with
  | some n => (cfg.block n).incomingEdges.isEmpty
  | none => false

def handleBlock (cfg : FunctionCfg ι) (b : ι) : Except Failure (FunctionCfg ι × Bool) :=
  if (cfg.block b).instrs = [] then
    if (cfg.block b).next.isSome then .ok (cfg, true)
    else .error (.assertion "block->getNext()")
  else do
    let chained ← tryChain cfg b
    .ok (chained, nextUnshared chained b)

def handleBlocks (cfg : FunctionCfg ι) : List ι → Except Failure (FunctionCfg ι × List ι)
  | [] => .ok (cfg, [])
  | b :: rest => do
      let (later, merge) ← handleBlock cfg b
      let (final, blocksToMerge) ← handleBlocks later rest
      .ok (final, if merge then b :: blocksToMerge else blocksToMerge)

end BlockLayout

namespace FunctionCfg

variable {ι : Type} [DecidableEq ι]

def removedBlock : SuperBlock ι :=
  { instrs := [], next := none, prev := none, incomingEdges := [], outgoingEdges := [] }

def redirect (b n x : ι) : ι :=
  if x = b then n else x

def redirectBlock (b n : ι) (block : SuperBlock ι) : SuperBlock ι :=
  { block with
    instrs := block.instrs.map (fun instr =>
      { instr with branchEdge := instr.branchEdge.map (redirect b n) })
    incomingEdges := block.incomingEdges.map (redirect b n)
    outgoingEdges := block.outgoingEdges.map (redirect b n) }

def mergedBlock (block next : SuperBlock ι) : SuperBlock ι :=
  { instrs := block.instrs ++ next.instrs
    next := next.next
    prev := block.prev
    incomingEdges := next.incomingEdges ++ block.incomingEdges
    outgoingEdges := block.outgoingEdges ++ next.outgoingEdges }

def mergeBlockIntoNext (cfg : FunctionCfg ι) (b : ι) : Except Failure (FunctionCfg ι) :=
  match (cfg.block b).next with
  | none => .error (.assertion "block->next")
  | some n =>
      if (cfg.block n).incomingEdges ≠ [] then
        .error (.assertion "block->next->getIncomingEdges().empty()")
      else if n = b then .error .undefined
      else
        .ok
          { entryBlock := redirect b n cfg.entryBlock
            block := fun x =>
              if x = b then removedBlock
              else
                let block := if x = n then mergedBlock (cfg.block b) (cfg.block n) else cfg.block x
                redirectBlock b n
                  { block with
                    next := if (cfg.block b).prev = some x then some n else block.next } }

end FunctionCfg

namespace BlockLayout

variable {ι : Type} [DecidableEq ι]

def mergeAll (cfg : FunctionCfg ι) : List ι → Except Failure (FunctionCfg ι)
  | [] => .ok cfg
  | b :: rest => do
      let merged ← cfg.mergeBlockIntoNext b
      mergeAll merged rest

/-- `blocks` is the list that the function keeps its blocks in. -/
def run (blocks : List ι) (cfg : FunctionCfg ι) : Except Failure (FunctionCfg ι) := do
  let (chained, blocksToMerge) ← handleBlocks cfg blocks
  mergeAll chained blocksToMerge

end BlockLayout

end Drob
