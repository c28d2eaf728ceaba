import Drob.CodeGeneration.BinaryPool
import Drob.Encoder.ModRMEncoding
import Drob.Validity.RepeatedTraversals

/-!
The two runs of the code generation pass. The first run writes nothing and marks the
branches for which a short form reaches; the second run emits marked branches in their
short form and asserts that the destination is still in reach. Each run walks over the
functions and their blocks anew.
-/

namespace Drob

namespace CodeGeneration

variable {ι : Type}

/-- What `generateCode` allocates for an instruction. An address that is counted from the
end of the instruction takes four more bytes where it is in reach. -/
inductive CodeLength where
  | fixed (ilen : ℕ)
  | relative (ilen : ℕ) (val : BitVec 64)

def CodeLength.ilenAt (length : CodeLength) (addr : BitVec 64) : ℕ :=
  match length with
  | fixed ilen => ilen
  | relative ilen val =>
      if Encoder.ModRMEncoding.is_rel32 (val - (addr + BitVec.ofNat 64 (ilen + 4))) then ilen + 4
      else ilen

def encoderAt (lengths : ι → ℕ → CodeLength) (region : BitVec 64) : Encoder ι :=
  fun b nr place => (lengths b nr).ilenAt (region + BitVec.ofNat 64 place)

/-- The lengths of the short and of the long form that `arch_prepare_branch` allocates. -/
def branchLengths : Opcode → Option (ℕ × ℕ)
  | .JNBEa | .JNBa | .JBa | .JBEa | .JZa | .JNLEa | .JNLa | .JLa | .JLEa | .JNZa | .JNOa | .JNPa
  | .JNSa | .JOa | .JPa | .JSa => some (2, 6)
  | .JCXZ32a => some (2, 9)
  | .JCXZ64a => some (3, 10)
  | .JMPa | .JMPr | .JMPm => some (2, 5)
  | _ => none

def is_rel8 (val : ℤ) : Bool :=
  decide (-128 ≤ val ∧ val ≤ 127)

def destination (instr : BlockInstruction ι) : Option ι :=
  if instr.instruction.isBranch then instr.branchEdge else none

/-- `useShortBranch` of all instructions, by block and position. -/
abbrev Marks (ι : Type) := ι → ℕ → Bool

def noMarks : Marks ι :=
  fun _ _ => false

structure EmittedInstr (ι : Type) where
  block : ι
  nr : ℕ
  instr : BlockInstruction ι
  itext : ℕ
  ilen : ℕ

/-- The length to allocate; instructions without destination are encoded in full. -/
def instrLength (encoder : Encoder ι) (marks : Marks ι) (b : ι) (nr : ℕ)
    (instr : BlockInstruction ι) (address : ℕ) : Except Failure ℕ :=
  match destination instr with
  | none => .ok (encoder b nr address)
  | some _ =>
      match branchLengths instr.instruction.opcode with
      | some (short, long) => .ok (if marks b nr then short else long)
      | none => .error (.assertion "drob_assert_not_reached()")

def emitInstrs (encoder : Encoder ι) (marks : Marks ι) (b : ι) :
    List (BlockInstruction ι) → ℕ → BinaryPool ι →
      Except Failure (BinaryPool ι × List (EmittedInstr ι))
  | [], _, pool => .ok (pool, [])
  | instr :: rest, nr, pool => do
      let ilen ← instrLength encoder marks b nr instr pool.nextInstr
      let emitted ← pool.allocCode b nr ilen
      let (last, others) ← emitInstrs encoder marks b rest (nr + 1) emitted
      .ok (last, { block := b, nr, instr, itext := pool.nextInstr, ilen } :: others)

/-- All blocks, in the order of the walks over the functions. A function starts at a
block boundary, so functions follow each other like blocks. -/
def emitBlocks (code : ι → List (BlockInstruction ι)) (encoder : Encoder ι) (marks : Marks ι) :
    List ι → BinaryPool ι →
      Except Failure (BinaryPool ι × List (ι × ℕ) × List (EmittedInstr ι))
  | [], pool => .ok (pool, [], [])
  | b :: rest, pool => do
      let aligned := pool.newBlock
      if (code b).isEmpty then
        .error (.assertion "!block->getInstructions().empty() && \"Empty block\"")
      else do
        let (emitted, instrs) ← emitInstrs encoder marks b (code b) 0 aligned
        let (last, blockMap, others) ← emitBlocks code encoder marks rest emitted
        .ok (last, (b, aligned.nextInstr) :: blockMap, instrs ++ others)

def arch_fixup_branch [DecidableEq ι] (write : Bool) (blockMap : List (ι × ℕ)) (marks : Marks ι)
    (branch : EmittedInstr ι) : Except Failure (Marks ι) :=
  match destination branch.instr with
  | none => .ok marks
  | some dst =>
      match branchLengths branch.instr.instruction.opcode, blockMap.lookup dst with
      | none, _ => .error (.assertion "drob_assert_not_reached()")
      | _, none => .error (.assertion "blockMap.find(edge->dst) != blockMap.end()")
      | some (short, long), some target =>
          if write then
            if marks branch.block branch.nr then
              if branch.ilen ≠ short then .error (.assertion "branch.ilen == 2")
              else if is_rel8 (target - (branch.itext + branch.ilen)) then .ok marks
              else .error (.assertion "is_rel8(disp)")
            else if branch.ilen = long then .ok marks
            else .error (.assertion "branch.ilen == 6")
          else if is_rel8 (target - (branch.itext + short)) then
            .ok (fun b nr => decide (b = branch.block ∧ nr = branch.nr) || marks b nr)
          else .ok marks

/-- One run over blocks in some order. Branches to a block that was emitted before are fixed
up at once in the source, the others when the blocks of their function are emitted; as no
branch leaves its function, the outcome is the same. -/
def handleBranches [DecidableEq ι] (code : ι → List (BlockInstruction ι)) (encoder : Encoder ι)
    (order : List ι) (write : Bool) (marks : Marks ι) :
    Except Failure (Marks ι × List (EmittedInstr ι)) := do
  let (_, blockMap, emitted) ← emitBlocks code encoder marks order .resetCodePool
  let later ← emitted.foldlM (arch_fixup_branch write blockMap) marks
  .ok (later, emitted)

section Runs

variable {φ : Type}

def instrsOf (icfg : MarkedIcfg φ ι) (place : φ × ι) : List (BlockInstruction (φ × ι)) :=
  ((icfg.function place.1).block place.2).instrs.map (fun instr =>
    { instruction := instr.instruction
      livenessData := instr.livenessData
      branchEdge := instr.branchEdge.map (fun b => (place.1, b)) })

variable [DecidableEq φ] [DecidableEq ι]

/-- One run, with the ICFG that it leaves: the walks mark what they visit. -/
def run (encoder : Encoder (φ × ι)) (fuel : ℕ) (write : Bool) (icfg : MarkedIcfg φ ι)
    (marks : Marks (φ × ι)) :
    Option (Except Failure (MarkedIcfg φ ι × Marks (φ × ι) × List (EmittedInstr (φ × ι)))) :=
  (icfg.walk fuel).map (fun walked =>
    if walked.2.any (fun blocks => (icfg.function blocks.1).entryBlock.isNone) then
      .error (.assertion "function->getEntryBlock() && \"Empty function\"")
    else
      (handleBranches (instrsOf icfg) encoder (MarkedIcfg.order walked.2) write marks).map
        (fun out => (walked.1, out)))

/-- Both runs succeed and emit the same instructions, and every instruction but the branches
has the same length in both. -/
def Stable (encoder : Encoder (φ × ι)) (icfg : MarkedIcfg φ ι) : Prop :=
  ∃ fuel between marks first later last second,
    run encoder fuel false icfg noMarks = some (.ok (between, marks, first)) ∧
      run encoder fuel true between marks = some (.ok (later, last, second)) ∧
      (∀ b nr, (∃ e ∈ first, e.block = b ∧ e.nr = nr) ↔ ∃ e ∈ second, e.block = b ∧ e.nr = nr) ∧
      ∀ e ∈ first, ∀ e' ∈ second, e.block = e'.block → e.nr = e'.nr →
        destination e.instr = none → e.ilen = e'.ilen

end Runs

end CodeGeneration

end Drob
