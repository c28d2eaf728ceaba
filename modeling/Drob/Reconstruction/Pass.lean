import Drob.Decoder.DecodeBlock
import Drob.Instruction.Context
import Drob.Library.FixedPoints
import Drob.Validity.Nodes

/-!
`ICFGReconstructionPass::decodeFunction`: blocks are decoded from the entry of a function and
from the targets of its branches, and a block that covers a target is split there.
-/

namespace Drob

structure DecodedInstruction where
  instruction : Instruction
  itext : BitVec 64
  ilen : BitVec 8

namespace DecodedInstruction

/-- The address of the last byte, null if there is no original instruction. -/
def getEndAddr (instr : DecodedInstruction) : BitVec 64 :=
  if instr.itext = 0 then 0 else instr.itext + instr.ilen.setWidth 64 - 1

/-- The target of a branch or call in the original code, null if it is not known. -/
def getRawTarget (context : Context) (instr : DecodedInstruction) :
    Except Failure (BitVec 64) :=
  if ¬ (instr.instruction.isBranch = true ∨ instr.instruction.isCall = true) then
    .error (.exception "Trying to resolve target for wrong instruction")
  else if instr.itext = 0 then .ok 0
  else
    match instr.instruction.opcode with
    | .JNBEa | .JNBa | .JBa | .JBEa | .JCXZ32a | .JCXZ64a | .JZa | .JNLEa | .JNLa | .JLa
    | .JLEa | .JNZa | .JNOa | .JNPa | .JNSa | .JOa | .JPa | .JSa | .JMPa | .CALLa =>
        match instr.instruction.rawOperands.op 0 with
        | some (.mem (.direct addr)) => .ok addr.val
        | some (.mem (.SIB _ _ _ _)) =>
            .error (.assertion "this->rawOperands.op[0].mem.type == MemPtrType::Direct")
        | _ => .error .undefined
    | .JMPr | .CALLr => .ok 0
    | .JMPm | .CALLm =>
        match instr.instruction.rawOperands.op 0 with
        | some (.mem (.direct addr)) => do
            let constant ← context.memProtCache.isConstant addr.val 8
            if constant then .ok (readMemory context.host 64 addr.val 8) else .ok 0
        | some (.mem (.SIB _ _ _ _)) => .ok 0
        | _ => .error .undefined
    | _ => .error (.assertion "drob_assert_not_reached()")

end DecodedInstruction

/-- `BranchEdgeCollector`: the instruction is a branch without an edge. -/
def isOpenBranch {ι : Type} (instr : BlockInstruction ι) : Bool :=
  instr.instruction.isBranch && instr.branchEdge.isNone

def collectBranchEdges {ι : Type} (instrs : List (BlockInstruction ι)) : List ℕ :=
  (List.range instrs.length).filter (fun index => instrs[index]?.any isOpenBranch)

def endsInReturn {ι : Type} (instrs : List (BlockInstruction ι)) : Bool :=
  instrs.getLast?.any (fun instr => instr.instruction.isRet)

/-- A function under construction. A block is named by the address that it is filed under in
`blockMap`, which is new for every block. -/
structure Reconstruction where
  nodes : Nodes (BitVec 64)
  /-- The instructions of the blocks with their original bytes. -/
  code : BitVec 64 → List DecodedInstruction
  /-- The source of each return edge; the instruction is the last one. -/
  returnEdges : List (BitVec 64)
  /-- The keys in the order in which they were inserted. -/
  blockMap : List (BitVec 64)
  resolveStack : List (BitVec 64)
  srcBlock : BitVec 64
  /-- The collected branches that are left to process. -/
  edges : List ℕ

namespace Reconstruction

/-! ### Blocks -/

def newFunction : Nodes (BitVec 64) where
  valid := fun _ => false
  hasInfo := false
  entryBlock := none
  block := fun _ => FunctionCfg.removedBlock
  blockValid := fun _ _ => false
  entryState := fun _ => none
  visited := []
  icfgValid := fun _ => false

def addDecoded (state : Reconstruction) (itext : BitVec 64)
    (instrs : List DecodedInstruction) : Reconstruction :=
  { state with
    nodes := state.nodes.decodeBlock itext (instrs.map DecodedInstruction.instruction)
    code := Function.update state.code itext instrs
    blockMap := state.blockMap ++ [itext]
    resolveStack := itext :: state.resolveStack }

/-- The instructions behind the first `kept` ones move to a new block, with the return edge. -/
def splitBlock (state : Reconstruction) (block : BitVec 64) (kept : ℕ) (itext : BitVec 64) :
    Except Failure Reconstruction := do
  let nodes ← state.nodes.splitBlock block kept itext
  .ok
    { state with
      nodes
      code := fun x =>
        if x = itext then (state.code block).drop kept
        else if x = block then (state.code block).take kept else state.code x
      returnEdges :=
        if ((state.nodes.block block).instrs.drop kept).any
            (fun instr => instr.instruction.isRet) then
          state.returnEdges.map (FunctionCfg.redirect block itext)
        else state.returnEdges
      blockMap := state.blockMap ++ [itext]
      resolveStack := itext :: state.resolveStack }

/-- The block among the given ones that covers an address, with the index of the instruction
there. Only blocks whose bytes reach to the address are looked at. -/
def iTextCovered (code : BitVec 64 → List DecodedInstruction) (itext : BitVec 64) :
    List (BitVec 64) → Except Failure (Option (BitVec 64 × ℕ))
  | [] => .ok none
  | start :: rest =>
      if start = itext then .error (.assertion "start != itext")
      else
        let stop := (code start).getLast?.elim 0 DecodedInstruction.getEndAddr
        if start = 0 ∨ stop = 0 ∨ itext < start ∨ stop < itext then iTextCovered code itext rest
        else
          match (code start).findIdx? (fun instr => decide (instr.itext = itext)) with
          | some index => .ok (some (start, index))
          | none => iTextCovered code itext rest

/-! ### The loop -/

def install (state : Reconstruction) (index : ℕ) (dst : BitVec 64) : Reconstruction :=
  { state with nodes := state.nodes.addBranchEdge state.srcBlock index dst }

def collect (state : Reconstruction) : Reconstruction :=
  { state with edges := collectBranchEdges (state.nodes.block state.srcBlock).instrs }

def pop (state : Reconstruction) (src : BitVec 64) (stack : List (BitVec 64)) : Reconstruction :=
  collect
    { state with
      resolveStack := stack
      srcBlock := src
      returnEdges :=
        if endsInReturn (state.nodes.block src).instrs = true ∧ src ∉ state.returnEdges then
          state.returnEdges ++ [src]
        else state.returnEdges }

section Pass

variable (decodeBlock : BitVec 64 → Option (Except Failure (List DecodedInstruction)))
variable (context : Context)
variable (order : List (BitVec 64) → List (BitVec 64))

/-- Where a branch goes, and what is left to process after it. A split may move edges, so they
are collected again. The pass does not get past a block that does not end. -/
def resolveTo (state : Reconstruction) (index : ℕ) (rest : List ℕ) (itext : BitVec 64) :
    Except Failure Reconstruction :=
  if itext = 0 then .ok { state with edges := rest }
  else if itext ∈ state.blockMap then .ok { state.install index itext with edges := rest }
  else do
    let covered ← iTextCovered state.code itext (order state.blockMap)
    match covered with
    | some place => do
        let split ← state.splitBlock place.1 place.2 itext
        .ok split.collect
    | none =>
        match decodeBlock itext with
        | none => .ok state
        | some decoded => do
            let instrs ← decoded
            .ok { (state.addDecoded itext instrs).install index itext with edges := rest }

/-- One collected branch is processed, or the next block is taken from the stack. -/
def step (state : Reconstruction) : Except Failure (Option Reconstruction) :=
  match state.edges with
  | index :: rest =>
      match (state.code state.srcBlock)[index]? with
      | none => .error .undefined
      | some instr => do
          let itext ← instr.getRawTarget context
          let later ← resolveTo decodeBlock order state index rest itext
          .ok (some later)
  | [] =>
      match state.resolveStack with
      | [] => .ok none
      | src :: stack => .ok (some (state.pop src stack))

def start (itext : BitVec 64) (instrs : List DecodedInstruction) : Reconstruction :=
  addDecoded
    { nodes := newFunction
      code := fun _ => []
      returnEdges := []
      blockMap := []
      resolveStack := []
      srcBlock := itext
      edges := [] } itext instrs

/-- `decodeBlock` is what decoding a block returns if it ends, and `order` the order in which the
entries of `blockMap` are gone through. -/
def decodeFunction (itext : BitVec 64) (fuel : ℕ) : Except Failure (Option Reconstruction) :=
  match decodeBlock itext with
  | none => .ok none
  | some decoded => do
      let instrs ← decoded
      FixedPoints.run (step decodeBlock context order) fuel (start itext instrs)

end Pass

end Reconstruction

end Drob
