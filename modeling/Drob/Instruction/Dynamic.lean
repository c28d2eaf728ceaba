import Drob.Instruction.Context
import Drob.Instruction.Info

/-!
Information about an instruction in one program state: the evaluated predicate, the
addresses of its memory operands and the values of its inputs. Reading the stack may
grow it, so the evaluation returns the program state it leaves.
-/

namespace Drob

inductive MemPtr where
  | direct (addr : Immediate64)
  | SIB (base index disp : DynamicValue) (scale : BitVec 8)
  deriving DecidableEq

structure MemAccess where
  ptrVal : DynamicValue
  ptr : MemPtr
  mode : AccessMode
  size : Nat
  deriving DecidableEq

inductive OperandAccess where
  | register (regAcc : StaticRegAccess)
  | memPtr (memAcc : MemAccess)
  | immediate (type : ImmediateType)
  deriving DecidableEq

structure DynamicOperandInfo where
  access : OperandAccess
  nr : Nat
  isImpl : Bool
  isInput : Bool
  isCondInput : Bool
  isOutput : Bool
  isCondOutput : Bool
  /-- Zero for an operand that is not read. -/
  input : DynamicValue
  output : DynamicValue
  deriving DecidableEq

/-- The counters are four bits wide in the source; no instruction has more inputs. -/
structure DynamicInstructionInfo where
  opcode : Opcode
  willExecute : TriState
  nasty : Bool
  operands : List DynamicOperandInfo
  numInput : Nat
  numInputEncodedImm : Nat
  numInputImm : Nat
  numInputPtr : Nat
  numInputStackPtr : Nat
  numInputTainted : Nat
  mayWriteMem : Bool
  predicateRegs : SubRegisterMask
  readRegs : SubRegisterMask
  writtenRegs : SubRegisterMask
  condWrittenRegs : SubRegisterMask
  deriving DecidableEq

/-! ### Memory operands -/

/-- base + scale * index + disp -/
def calculateMemPtr : MemPtr → Except Failure DynamicValue
  | .direct _ => .error (.assertion "ptr.type == MemPtrType::SIB")
  | .SIB base index disp scale =>
      match base.imm64?, index.imm64?, disp.imm64? with
      | some baseVal, some indexVal, some dispVal =>
          .ok (.imm64 (baseVal + scale.setWidth 64 * indexVal + dispVal))
      | _, _, _ =>
          .ok (addDynamicValues disp (addDynamicValues base (multiplyDynamicValue index scale)))

/-- An encoded immediate, which may stand for a user pointer. -/
def immediateValue (imm : Immediate64) : DynamicValue :=
  if imm.usrPtrNr < 0 then .imm64 imm.val
  else .ptr .usr imm.usrPtrNr.toNat imm.usrPtrOffset

def dispValue (disp : SignedImmediate32) : DynamicValue :=
  if disp.usrPtrNr < 0 then .imm64 (disp.val.signExtend 64)
  else .ptr .usr disp.usrPtrNr.toNat disp.usrPtrOffset

def addressRegister (ps : ProgramState) : Option Register → Except Failure DynamicValue
  | some reg => ps.getRegister reg .full
  | none => .ok (.imm64 0)

def createMemAccess (rawMemAccess : StaticMemAccess) (ps : ProgramState) :
    Except Failure MemAccess :=
  match rawMemAccess.ptr with
  | .direct addr =>
      .ok
        { ptrVal := immediateValue addr
          ptr := .direct addr
          mode := rawMemAccess.mode
          size := rawMemAccess.size }
  | .SIB base index disp scale => do
      let baseVal ← addressRegister ps base
      let indexVal ← addressRegister ps index
      let ptr : MemPtr := .SIB baseVal indexVal (dispValue disp) scale
      let ptrVal ← calculateMemPtr ptr
      .ok { ptrVal, ptr, mode := rawMemAccess.mode, size := rawMemAccess.size }

def readHost (context : Context) (addr : BitVec 64) (isConst : Bool) (size : Nat) :
    Except Failure DynamicValue := do
  let constant ← if isConst then .ok true else context.memProtCache.isConstant addr size
  if constant then
    if size = 1 ∨ size = 2 ∨ size = 4 ∨ size = 8 then
      .ok (.imm64 (readMemory context.host 64 addr size))
    else if size = 16 then .ok (.imm128 (readMemory context.host 128 addr size))
    else .error (.exception "Unsupported memory access size detected")
  else .ok .unknown

def emulateReadAccess (memAcc : MemAccess) (ps : ProgramState) (context : Context) :
    Except Failure (DynamicValue × ProgramState) :=
  match memAcc.ptrVal with
  | .tainted => .ok (.tainted, ps)
  | .unknown | .dead => .ok (.unknown, ps)
  | .ptr .ret _ _ => .error (.exception "Trying to read via the return pointer.")
  | .ptr .stack _ ptrOffset => ps.getStack ptrOffset.toInt memAcc.size
  | .ptr .usr nr ptrOffset => do
      let ptrCfg ← context.getUsrPtrCfg nr
      if ptrCfg.isKnown then do
        let data ← readHost context (ptrCfg.val + ptrOffset) ptrCfg.isConst memAcc.size
        .ok (data, ps)
      else .ok (.unknown, ps)
  | .imm64 val => do
      let data ← readHost context val false memAcc.size
      .ok (data, ps)
  | .imm128 val => do
      let data ← readHost context (val.setWidth 64) false memAcc.size
      .ok (data, ps)

/-! ### Operands -/

def DynamicOperandInfo.start (operand : OperandInfo) (access : OperandAccess) :
    DynamicOperandInfo :=
  { access
    nr := operand.nr
    isImpl := operand.isImpl
    isInput := false
    isCondInput := false
    isOutput := false
    isCondOutput := false
    input := .imm64 0
    output := .unknown }

def DynamicOperandInfo.setInput (dynOperand : DynamicOperandInfo) (mode : AccessMode)
    (input : DynamicValue) : DynamicOperandInfo :=
  { dynOperand with isInput := true, isCondInput := mode.isConditional, input }

def DynamicOperandInfo.setOutput (dynOperand : DynamicOperandInfo) (mode : AccessMode) :
    DynamicOperandInfo :=
  if mode.isWrite then
    { dynOperand with isOutput := true, isCondOutput := mode.isConditional }
  else dynOperand

namespace Instruction

def createDynOpInfo (instruction : Instruction) (fn : RefineFn) (operand : OperandInfo)
    (ps : ProgramState) (context : Context) :
    Except Failure (DynamicOperandInfo × ProgramState) :=
  match operand.info with
  | .register _ => do
      let refined ← refine fn operand instruction.opcode instruction.rawOperands (some ps)
      match refined.info with
      | .register regAcc => do
          let dynOperand := DynamicOperandInfo.start operand (.register regAcc)
          if regAcc.mode.isRead then do
            let input ← ps.getRegister regAcc.reg regAcc.r
            .ok ((dynOperand.setInput regAcc.mode input).setOutput regAcc.mode, ps)
          else .ok (dynOperand.setOutput regAcc.mode, ps)
      | _ => .error .undefined
  | .memPtr _ => do
      let refined ← refine fn operand instruction.opcode instruction.rawOperands (some ps)
      match refined.info with
      | .memPtr m => do
          let memAcc ← createMemAccess m ps
          let dynOperand := DynamicOperandInfo.start operand (.memPtr memAcc)
          if memAcc.mode.isRead then do
            let (input, grown) ← emulateReadAccess memAcc ps context
            .ok ((dynOperand.setInput memAcc.mode input).setOutput memAcc.mode, grown)
          else if memAcc.mode.isSpecial then
            .ok (dynOperand.setInput memAcc.mode memAcc.ptrVal, ps)
          else .ok (dynOperand.setOutput memAcc.mode, ps)
      | _ => .error .undefined
  | .immediate type imm =>
      let dynOperand := DynamicOperandInfo.start operand (.immediate type)
      .ok (dynOperand.setInput .None (immediateValue imm), ps)

/-! ### The predicate -/

def comparandValue (ps : ProgramState) : PredComparand → Except Failure (Option (BitVec 64))
  | .imm imm => .ok (some imm)
  | .reg reg => do
      let data ← ps.getRegister reg .full
      .ok data.imm64?

def compare : PredComparator → BitVec 64 → BitVec 64 → Bool
  | .Equal, lhs, rhs => lhs == rhs
  | .NotEqual, lhs, rhs => lhs != rhs

def evaluateComparison (ps : ProgramState) (comparison : PredComparison) :
    Except Failure TriState := do
  let lhs ← comparandValue ps comparison.lhs
  let rhs ← comparandValue ps comparison.rhs
  match lhs, rhs with
  | some lhs, some rhs =>
      .ok (if compare comparison.comp lhs rhs then .True else .False)
  | _, _ => .ok .Unknown

def evaluatePredicate (ps : ProgramState) (predicate : Predicate) : Except Failure TriState := do
  let result ← evaluateComparison ps predicate.first
  match predicate.first.con, predicate.second with
  | .None, _ => .ok result
  | _, none => .error .undefined
  | .And, some comparison => do
      let tmp ← evaluateComparison ps comparison
      .ok (result.and tmp)
  | .Or, some comparison => do
      let tmp ← evaluateComparison ps comparison
      .ok (result.or tmp)

def willExecute (instruction : Instruction) (ps : ProgramState) : Except Failure TriState :=
  match instruction.opcodeInfo with
  | none => .ok .Unknown
  | some opcodeInfo =>
      match opcodeInfo.predicate with
      | none => .ok .True
      | some predicate => evaluatePredicate ps predicate

/-! ### All operands -/

def createDynOpInfos (instruction : Instruction) (fn : RefineFn) (context : Context) :
    List OperandInfo → ProgramState →
      Except Failure (List (OperandInfo × DynamicOperandInfo) × ProgramState)
  | [], ps => .ok ([], ps)
  | operand :: rest, ps => do
      let (dynOperand, grown) ← instruction.createDynOpInfo fn operand ps context
      let (dynRest, last) ← instruction.createDynOpInfos fn context rest grown
      .ok ((operand, dynOperand) :: dynRest, last)

def countInputs (operands : List DynamicOperandInfo) (property : DynamicOperandInfo → Bool) :
    Nat :=
  (operands.filter (fun operand => operand.isInput && property operand)).length

def isEncodedImm (operand : DynamicOperandInfo) : Bool :=
  match operand.access with
  | .immediate _ => operand.input.isImm
  | _ => false

structure LivenessMasks where
  mayWriteMem : Bool
  readRegs : SubRegisterMask
  writtenRegs : SubRegisterMask
  condWrittenRegs : SubRegisterMask
  deriving DecidableEq

def addLiveness (masks : LivenessMasks) (operand : OperandInfo)
    (dynOperand : DynamicOperandInfo) : Except Failure LivenessMasks :=
  match dynOperand.access, operand.info with
  | .register regAcc, _ => do
      let read ← accessMask dynOperand.isInput regAcc.reg regAcc.r
      let write ← accessMask dynOperand.isOutput regAcc.reg regAcc.w
      .ok { masks with
        readRegs := masks.readRegs ∪ read
        condWrittenRegs :=
          masks.condWrittenRegs ∪ (if dynOperand.isCondOutput then write else ∅)
        writtenRegs := masks.writtenRegs ∪ (if dynOperand.isCondOutput then ∅ else write) }
  | .memPtr _, .memPtr m =>
      .ok { masks with
        readRegs :=
          if dynOperand.isInput || dynOperand.isOutput then addAddrRegs masks.readRegs m.ptr
          else masks.readRegs
        mayWriteMem := masks.mayWriteMem || dynOperand.isOutput }
  | .memPtr _, _ => .error .undefined
  | .immediate _, _ => .ok masks

def addAllLiveness :
    List (OperandInfo × DynamicOperandInfo) → LivenessMasks → Except Failure LivenessMasks
  | [], masks => .ok masks
  | (operand, dynOperand) :: rest, masks => do
      let added ← addLiveness masks operand dynOperand
      addAllLiveness rest added

def LivenessMasks.start (nasty : Bool) : LivenessMasks :=
  { mayWriteMem := false
    readRegs := if nasty then Finset.univ else ∅
    writtenRegs := if nasty then Finset.univ else ∅
    condWrittenRegs := ∅ }

def countOperands (opcode : Opcode) (willExecute : TriState) (info : InstructionInfo)
    (operands : List DynamicOperandInfo) (masks : LivenessMasks) : DynamicInstructionInfo :=
  let count := countInputs operands
  { opcode
    willExecute
    nasty := info.nasty
    operands
    numInput := count (fun _ => true)
    numInputEncodedImm := count isEncodedImm
    numInputImm := count (fun operand => operand.input.isImm)
    numInputPtr := count (fun operand => operand.input.isPtr)
    numInputStackPtr := count (fun operand => operand.input.isStackPtr)
    numInputTainted := count (fun operand => operand.input.isTainted)
    mayWriteMem := masks.mayWriteMem
    predicateRegs := info.predicateRegs
    readRegs := masks.readRegs
    writtenRegs := masks.writtenRegs
    condWrittenRegs := masks.condWrittenRegs }

def genDynInfo (instruction : Instruction) (ps : ProgramState) (context : Context) :
    Except Failure (DynamicInstructionInfo × ProgramState) := do
  let info ← instruction.getInfo
  let willExecute ← instruction.willExecute ps
  let fn := instruction.opcodeInfo.elim .nullptr OpcodeInfo.refine
  let (paired, grown) ← instruction.createDynOpInfos fn context info.operands ps
  let masks ← addAllLiveness paired (.start info.nasty)
  let dynInfo :=
    countOperands instruction.opcode willExecute info (paired.map Prod.snd) masks
  .ok (dynInfo, grown)

end Instruction

end Drob
