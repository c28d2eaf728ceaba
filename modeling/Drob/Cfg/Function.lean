import Drob.Instruction.Info
import Drob.Library.DepthFirst

/-!
The control flow graph of a function: super blocks with a fallthrough successor and
branch edges, and the walks over its blocks.
-/

namespace Drob

structure LivenessData where
  live_out : SubRegisterMask
  live_in : SubRegisterMask
  deriving DecidableEq

structure BlockInstruction (ι : Type) where
  instruction : Instruction
  livenessData : Option LivenessData
  branchEdge : Option ι

/-- Edges are listed by their other end; `next` and `prev` are no edges. -/
structure SuperBlock (ι : Type) where
  instrs : List (BlockInstruction ι)
  next : Option ι
  prev : Option ι
  incomingEdges : List ι
  outgoingEdges : List ι

structure FunctionCfg (ι : Type) where
  block : ι → SuperBlock ι
  entryBlock : ι

namespace FunctionCfg

variable {ι : Type}

/-- What holds of every graph the rewriter builds; that edges lead to blocks of the
function is a matter of their type. -/
structure WellFormed (cfg : FunctionCfg ι) : Prop where
  next_prev : ∀ b n, (cfg.block b).next = some n ↔ (cfg.block n).prev = some b
  acyclic : ∀ b, ¬ Relation.TransGen (fun b n => (cfg.block b).next = some n) b b
  edges : ∀ b n, n ∈ (cfg.block b).outgoingEdges ↔
    ∃ instr ∈ (cfg.block b).instrs, instr.branchEdge = some n
  incoming : ∀ b n, b ∈ (cfg.block n).incomingEdges ↔ n ∈ (cfg.block b).outgoingEdges

theorem acyclic_of_lt [Preorder ι] {cfg : FunctionCfg ι}
    (ahead : ∀ b n, (cfg.block b).next = some n → b < n) (b : ι) :
    ¬ Relation.TransGen (fun b n => (cfg.block b).next = some n) b b := by
  have less {b n : ι} (path : Relation.TransGen (fun b n => (cfg.block b).next = some n) b n) :
      b < n := by
    induction path with
    | single next => exact ahead _ _ next
    | tail _ next ih => exact lt_trans ih (ahead _ _ next)
  exact fun cycle => lt_irrefl b (less cycle)

/-- The fallthrough block comes before the branch edges. -/
def successors (cfg : FunctionCfg ι) (b : ι) : List ι :=
  (cfg.block b).next.toList ++ (cfg.block b).outgoingEdges

/-! ### Walking over the blocks -/

/-- The state of `for_each_block_dfs` and `for_each_block_bfs`: the block that the
inner loop is at, the stack or queue, and the visited blocks, the last one first. -/
structure Walk (ι : Type) where
  current : Option ι
  blocks : List ι
  visited : List ι

/-- Visit a block of a fallthrough chain; `push` adds destinations to the others. -/
def Walk.visit [DecidableEq ι] (cfg : FunctionCfg ι) (push : List ι → List ι → List ι)
    (walk : Walk ι) (b : ι) : Walk ι :=
  let visited := b :: walk.visited
  { current := (cfg.block b).next
    blocks := push ((cfg.block b).outgoingEdges.filter (fun dst => decide (dst ∉ visited)))
      walk.blocks
    visited }

def Walk.step [DecidableEq ι] (cfg : FunctionCfg ι) (push : List ι → List ι → List ι)
    (walk : Walk ι) : Option (Walk ι) :=
  match walk.current with
  | some b =>
      if b ∈ walk.visited then some { walk with current := (cfg.block b).next }
      else some (walk.visit cfg push b)
  | none =>
      match walk.blocks with
      | [] => none
      | b :: rest =>
          if b ∈ walk.visited then some { walk with blocks := rest }
          else some { walk with current := some b, blocks := rest }

def Walk.run [DecidableEq ι] (cfg : FunctionCfg ι) (push : List ι → List ι → List ι) :
    Nat → Walk ι → Option (Walk ι)
  | 0, _ => none
  | fuel + 1, walk =>
      match walk.step cfg push with
      | none => some walk
      | some later => later.run cfg push fuel

def walkStart (cfg : FunctionCfg ι) : Walk ι :=
  { current := none, blocks := [cfg.entryBlock], visited := [] }

/-- The blocks in the order in which `for_each_block_dfs` visits them. The edges are
pushed in reverse order, so the first one is on top of the stack. -/
def dfs [DecidableEq ι] (cfg : FunctionCfg ι) (fuel : Nat) : Option (List ι) :=
  (cfg.walkStart.run cfg (fun edges stack => edges ++ stack) fuel).map
    (fun walk => walk.visited.reverse)

/-- The blocks in the order in which `for_each_block_bfs` visits them. -/
def bfs [DecidableEq ι] (cfg : FunctionCfg ι) (fuel : Nat) : Option (List ι) :=
  (cfg.walkStart.run cfg (fun edges queue => queue ++ edges) fuel).map
    (fun walk => walk.visited.reverse)

end FunctionCfg

end Drob
