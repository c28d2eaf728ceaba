import Drob.Instruction.Emulator

/-!
Emulating an instruction on a program state: the handler or the generic rule gives
the outputs, they are written to their destinations, and a move copies its bytes
again so that mixed data keeps its details.
-/

namespace Drob

/-- One tainted input or stack pointer taints all outputs. -/
def emulateGeneric (dynInfo : DynamicInstructionInfo) : List DynamicOperandInfo :=
  let data : DynamicValue :=
    if dynInfo.numInputTainted ≠ 0 ∨ dynInfo.numInputStackPtr ≠ 0 then .tainted else .unknown
  dynInfo.operands.map (fun op => if op.isOutput then { op with output := data } else op)

def handlerApplies (flags : OpcodeFlag) (dynInfo : DynamicInstructionInfo) : Bool :=
  match flags with
  | .OfEmuFull => true
  | .OfEmuPtr => dynInfo.numInput == dynInfo.numInputImm + dynInfo.numInputPtr
  | _ => dynInfo.numInput == dynInfo.numInputImm

def dispatch (opcodeInfo : OpcodeInfo) (host : Host) (dynInfo : DynamicInstructionInfo) :
    Except Failure (List DynamicOperandInfo × EmuRet) :=
  match Emulator.handler opcodeInfo.emulate with
  | none => .ok (emulateGeneric dynInfo, .Ok)
  | some handler =>
      if handlerApplies opcodeInfo.flags dynInfo then handler host dynInfo.operands
      else .ok (emulateGeneric dynInfo, .Ok)

def writeOutput (willExecute : TriState) (op : DynamicOperandInfo) (ps : ProgramState) :
    Except Failure ProgramState :=
  let cond := op.isCondOutput || willExecute == .Unknown
  if ¬ op.isOutput then .ok ps
  else
    match op.access with
    | .register regAcc => ps.setRegister regAcc.reg regAcc.w op.output cond
    | .memPtr memAcc =>
        match memAcc.ptrVal with
        | .ptr .stack _ ptrOffset => ps.setStack ptrOffset.toInt memAcc.size op.output cond
        | .tainted => .ok ps.untrackedStackAccess
        | _ =>
            if op.output.isStackPtr || op.output.isTainted then .ok ps.untrackedStackAccess
            else .ok ps
    | .immediate _ => .error (.assertion "op.type == OperandType::MemPtr")

def writeOutputs (willExecute : TriState) :
    List DynamicOperandInfo → ProgramState → Except Failure ProgramState
  | [], ps => .ok ps
  | op :: rest, ps => do
      let written ← writeOutput willExecute op ps
      writeOutputs willExecute rest written

def performDirectMove (input out : DynamicOperandInfo) (ps : ProgramState) (cond : Bool) :
    Except Failure ProgramState :=
  if cond then .ok ps
  else
    match input.access, out.access with
    | .register regIn, .register regOut =>
        ps.moveRegisterRegister regIn.reg regIn.r regOut.reg regOut.w
    | .register regIn, .memPtr memOut =>
        match memOut.ptrVal with
        | .ptr .stack _ ptrOffset =>
            ps.moveRegisterStack regIn.reg regIn.r ptrOffset.toInt memOut.size
        | _ => .ok ps
    | .memPtr memIn, .register regOut =>
        match memIn.ptrVal with
        | .ptr .stack _ ptrOffset =>
            ps.moveStackRegister ptrOffset.toInt memIn.size regOut.reg regOut.w
        | _ => .ok ps
    | .memPtr memIn, .memPtr memOut =>
        match memIn.ptrVal, memOut.ptrVal with
        | .ptr .stack _ ptrOffset1, .ptr .stack _ ptrOffset2 =>
            if memIn.size = memOut.size then
              ps.moveStackStack ptrOffset1.toInt ptrOffset2.toInt memOut.size
            else .error (.assertion "in.memAcc.size == out.memAcc.size")
        | _, _ => .ok ps
    | .immediate _, _ => .ok ps
    | _, .immediate _ => .error (.assertion "out.type == OperandType::MemPtr")

def directMove (dynInfo : DynamicInstructionInfo) (source target : Nat) (ps : ProgramState) :
    Except Failure ProgramState :=
  match dynInfo.operands[source]?, dynInfo.operands[target]? with
  | some input, some out =>
      performDirectMove input out ps
        (out.isCondOutput || dynInfo.willExecute == .Unknown)
  | _, _ => .error .undefined

def finishMove (ret : EmuRet) (dynInfo : DynamicInstructionInfo) (ps : ProgramState) :
    Except Failure ProgramState :=
  match ret with
  | .Ok => .ok ps
  | .Mov10 => directMove dynInfo 1 0 ps
  | .Mov02 => directMove dynInfo 0 2 ps
  | .Mov20 => directMove dynInfo 2 0 ps

namespace Instruction

/-- The program state after an instruction, and the information about it that is
cached. -/
def emulate (instruction : Instruction) (ps : ProgramState) (context : Context)
    (host : Host) : Except Failure (DynamicInstructionInfo × ProgramState) := do
  let (dynInfo, grown) ← instruction.genDynInfo ps context
  if dynInfo.willExecute = .False then .ok (dynInfo, grown)
  else if dynInfo.nasty then do
    let unknown ← grown.nastyInstruction
    .ok (dynInfo, unknown)
  else
    match instruction.opcodeInfo with
    | none => .error .undefined
    | some opcodeInfo => do
        let (operands, ret) ← dispatch opcodeInfo host dynInfo
        let emulated := { dynInfo with operands }
        let written ← writeOutputs emulated.willExecute operands grown
        let moved ← finishMove ret emulated written
        .ok (emulated, moved)

end Instruction

end Drob
