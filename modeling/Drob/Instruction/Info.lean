import Drob.Arch.Opcode
import Drob.State.ProgramState

/-!
Information about an instruction that follows from its opcode and its explicit
operands: the refined access of each operand and the registers it reads and writes.
-/

namespace Drob

structure Instruction where
  opcode : Opcode
  rawOperands : ExplicitStaticOperands
  deriving DecidableEq

def Instruction.opcodeInfo (instruction : Instruction) : Option OpcodeInfo :=
  archGetOpcodeInfo instruction.opcode

structure OperandInfo where
  info : StaticOperandInfo
  /-- Operand number across explicit and implicit operands. -/
  nr : Nat
  isImpl : Bool
  deriving DecidableEq

/-- `operandInfo.r.mode = mode` of the source, for a register operand. -/
def OperandInfo.setMode (operandInfo : OperandInfo) (mode : AccessMode) : OperandInfo :=
  match operandInfo.info with
  | .register r => { operandInfo with info := .register { r with mode } }
  | _ => operandInfo

def OperandInfo.isRegister (operandInfo : OperandInfo) : Bool :=
  match operandInfo.info with
  | .register _ => true
  | _ => false

/-! ### Refining operands -/

def refineShEncoded (operandInfo : OperandInfo) (explOperands : ExplicitStaticOperands) :
    Except Failure OperandInfo :=
  if operandInfo.isImpl then
    if operandInfo.isRegister then
      match explOperands.op 1 with
      | some (.imm imm) => .ok (operandInfo.setMode (if imm.val = 0 then .None else .Write))
      | _ => .error .undefined
    else .error (.assertion "operandInfo.type == OperandType::Register")
  else .ok operandInfo

def refineShCL (operandInfo : OperandInfo) (ps : Option ProgramState) :
    Except Failure OperandInfo :=
  match ps with
  | none => .ok operandInfo
  | some ps =>
      if 1 < operandInfo.nr then
        if operandInfo.isRegister then do
          let data ← ps.getRegister .CL .full
          match data.imm64? with
          | some count => .ok (operandInfo.setMode (if count = 0 then .None else .Write))
          | none => .ok operandInfo
        else .error (.assertion "operandInfo.type == OperandType::Register")
      else .ok operandInfo

def refineSh (operandInfo : OperandInfo) (opcode : Opcode)
    (explOperands : ExplicitStaticOperands) (ps : Option ProgramState) :
    Except Failure OperandInfo :=
  match opcode with
  | .SHL64mi | .SHL64ri | .SHR64mi | .SHR64ri => refineShEncoded operandInfo explOperands
  | .SHL64r | .SHL64m | .SHR64r | .SHR64m => refineShCL operandInfo ps
  | _ => .error (.assertion "drob_assert_not_reached()")

def refineXorRr (operandInfo : OperandInfo) (opcode : Opcode)
    (explOperands : ExplicitStaticOperands) : Except Failure OperandInfo :=
  if opcode = .PXOR128rr ∨ opcode = .XOR64rr ∨ opcode = .XOR32rr then
    match explOperands.op 0, explOperands.op 1 with
    | some (.reg reg0), some (.reg reg1) =>
        if operandInfo.nr = 0 then
          .ok (operandInfo.setMode (if reg0 = reg1 then .Write else .ReadWrite))
        else if operandInfo.nr = 1 then
          .ok (operandInfo.setMode (if reg0 = reg1 then .None else .Read))
        else .ok operandInfo
    | _, _ => .error .undefined
  else
    .error (.assertion ("opcode == Opcode::PXOR128rr || opcode == Opcode::XOR64rr || " ++
      "opcode == Opcode::XOR32rr"))

def refine (fn : RefineFn) (operandInfo : OperandInfo) (opcode : Opcode)
    (rawOperands : ExplicitStaticOperands) (ps : Option ProgramState) :
    Except Failure OperandInfo :=
  match fn with
  | .nullptr => .ok operandInfo
  | .sh => refineSh operandInfo opcode rawOperands ps
  | .xor_rr => refineXorRr operandInfo opcode rawOperands

/-! ### Static information -/

structure InstructionInfo where
  nasty : Bool
  operands : List OperandInfo
  mayWriteMem : Bool
  predicateRegs : SubRegisterMask
  readRegs : SubRegisterMask
  writtenRegs : SubRegisterMask
  condWrittenRegs : SubRegisterMask
  deriving DecidableEq

def addAddrRegs (mask : SubRegisterMask) : StaticMemPtr → SubRegisterMask
  | .direct _ => mask
  | .SIB base index _ _ =>
      mask ∪ (base.elim ∅ fullSubRegisterMask) ∪ (index.elim ∅ fullSubRegisterMask)

/-- An operand of another kind than the opcode declares is read from a union member
that was not written. -/
def createRawOperandInfo (explInfo : ExplicitStaticOperandInfo) (operand : StaticOperand) :
    Except Failure StaticOperandInfo :=
  match explInfo, operand with
  | .register _ mode r w, .reg reg => .ok (.register { reg, mode, r, w })
  | .memPtr mode size, .mem ptr => .ok (.memPtr { ptr, mode, size })
  | .immediate type, .imm imm => .ok (.immediate type imm)
  | _, _ => .error .undefined

def accessMask (accessed : Bool) (reg : Register) (access : RegisterAccessType) :
    Except Failure SubRegisterMask :=
  if accessed then getSubRegisterMask reg access else .ok ∅

def addOperandToRegisterMasks (info : InstructionInfo) (opInfo : OperandInfo) :
    Except Failure InstructionInfo :=
  match opInfo.info with
  | .memPtr m =>
      .ok { info with
        readRegs := if m.mode = .None then info.readRegs else addAddrRegs info.readRegs m.ptr
        mayWriteMem := info.mayWriteMem || m.mode.isWrite }
  | .register r => do
      let read ← accessMask r.mode.isRead r.reg r.r
      let write ← accessMask r.mode.isWrite r.reg r.w
      let cond := r.mode.isConditional
      .ok { info with
        readRegs := info.readRegs ∪ read
        condWrittenRegs := info.condWrittenRegs ∪ (if cond then write else ∅)
        writtenRegs := info.writtenRegs ∪ (if cond then ∅ else write) }
  | .immediate _ _ => .ok info

def InstructionInfo.unknown : InstructionInfo :=
  { nasty := true
    operands := []
    mayWriteMem := false
    predicateRegs := ∅
    readRegs := Finset.univ
    writtenRegs := Finset.univ
    condWrittenRegs := ∅ }

def InstructionInfo.empty : InstructionInfo :=
  { nasty := false
    operands := []
    mayWriteMem := false
    predicateRegs := ∅
    readRegs := ∅
    writtenRegs := ∅
    condWrittenRegs := ∅ }

namespace Instruction

def rawInfos (opInfo : List ExplicitStaticOperandInfo) (rawOperands : ExplicitStaticOperands) :
    Except Failure (List StaticOperandInfo) :=
  match opInfo, rawOperands with
  | [], _ => .ok []
  | _ :: _, [] => .error .undefined
  | explInfo :: opInfo, operand :: rawOperands => do
      let rawInfo ← createRawOperandInfo explInfo operand
      let rest ← rawInfos opInfo rawOperands
      .ok (rawInfo :: rest)

def createOperandInfo (instruction : Instruction) (fn : RefineFn) (rawInfo : StaticOperandInfo)
    (nr : Nat) (isImpl : Bool) : Except Failure OperandInfo :=
  refine fn { info := rawInfo, nr, isImpl } instruction.opcode instruction.rawOperands none

/-- Process operands from a number on; the ones from `numOperands` on are implicit. -/
def addOperands (instruction : Instruction) (fn : RefineFn) (numOperands : Nat) :
    List StaticOperandInfo → Nat → InstructionInfo → Except Failure InstructionInfo
  | [], _, info => .ok info
  | rawInfo :: rest, nr, info => do
      let opInfo ← instruction.createOperandInfo fn rawInfo nr (decide (numOperands ≤ nr))
      let added ← addOperandToRegisterMasks info opInfo
      instruction.addOperands fn numOperands rest (nr + 1)
        { added with operands := added.operands ++ [opInfo] }

def comparandMask : PredComparand → SubRegisterMask
  | .reg reg => fullSubRegisterMask reg
  | .imm _ => ∅

def predicateMask (predicate : Predicate) : SubRegisterMask :=
  predicate.comparisons.foldl
    (fun mask comparison =>
      mask ∪ comparandMask comparison.lhs ∪ comparandMask comparison.rhs) ∅

def getInfo (instruction : Instruction) : Except Failure InstructionInfo :=
  match instruction.opcodeInfo with
  | none => .ok .unknown
  | some opcodeInfo => do
      let explicit ← rawInfos opcodeInfo.opInfo instruction.rawOperands
      let info ← instruction.addOperands opcodeInfo.refine opcodeInfo.opInfo.length
        (explicit ++ opcodeInfo.iOpInfo) 0 .empty
      .ok { info with predicateRegs := opcodeInfo.predicate.elim ∅ predicateMask }

end Instruction

end Drob
