import Drob.Instruction.AddressWidth
import Drob.Instruction.AluEmulation

/-!
A processor that executes the modelled instructions other than calls, jumps and returns: what
each one does to the bytes of the registers and of the memory, by its name in the manual and
independently of its row in the opcode table.
-/

namespace Drob

open LittleEndian

structure Processor where
  reg : Container → Nat → BitVec 8
  memory : BitVec 64 → BitVec 8

namespace Instruction

/-- The first operand; an instruction without operands gets one that cannot be written. -/
def destination (instruction : Instruction) : StaticOperand :=
  (instruction.rawOperands.op 0).getD (.imm (.plain 0))

/-- The second operand; a shift without one shifts by CL. -/
def source (instruction : Instruction) : StaticOperand :=
  (instruction.rawOperands.op 1).getD (.reg .CL)

def WellTyped (instruction : Instruction) : Prop :=
  ∃ row, instruction.opcodeInfo = some row ∧
    List.Forall₂ StaticOperand.HasType instruction.rawOperands row.opInfo

end Instruction

namespace OpcodeKind

def bytes : OpcodeKind → Nat
  | .alu _ w | .mov w | .lea w | .push w | .pop w => w / 8
  | .float .addpd | .float .mulpd => 16
  | .float .addsd | .float .mulsd | .movsd => 8
  | .control | .unmodelled => 0

def sourceBytes : OpcodeKind → Nat
  | .alu op w => op.sourceWidth w / 8
  | kind => kind.bytes

def readsDestination : OpcodeKind → Bool
  | .alu _ _ | .float _ | .push _ => true
  | _ => false

def readsSource : OpcodeKind → Bool
  | .alu _ _ | .float _ | .mov _ | .movsd => true
  | _ => false

def writesDestination : OpcodeKind → Bool
  | .alu op _ => op.writesDestination
  | .float _ | .mov _ | .movsd | .lea _ | .pop _ => true
  | _ => false

end OpcodeKind

namespace Processor

/-! ### Reading -/

def register (p : Processor) (reg : Register) (bytes : Nat) : BitVec 128 :=
  ofBytes 128 (fun i => p.reg reg.container ((archGetRegisterInfo reg).byteOffs + i)) bytes

def addressRegister (p : Processor) (reg : Register) : BitVec 64 :=
  (p.register reg (archGetRegisterInfo reg).sizeInBytes).setWidth 64

def address (p : Processor) (ptr : StaticMemPtr) : BitVec 64 :=
  ptr.effectiveAddress p.addressRegister

def read (p : Processor) (bytes : Nat) : StaticOperand → BitVec 128
  | .reg reg => p.register reg bytes
  | .imm imm => ofBytes 128 (byte imm.val) bytes
  | .mem ptr => readMemory p.memory 128 (p.address ptr) bytes

def addressOf (p : Processor) : StaticOperand → BitVec 64
  | .mem ptr => p.address ptr
  | _ => 0

def stackPointer (p : Processor) : BitVec 64 :=
  p.addressRegister .RSP

/-! ### Writing -/

def setBytes (p : Processor) (container : Container) (start count : Nat) (value : BitVec 128) :
    Processor :=
  { p with
    reg := Function.update p.reg container
      (overwrite (p.reg container) start count (byte value)) }

def setRegister (p : Processor) (bytes : Nat) (value : BitVec 128) : Register → Processor
  | .gprs32 gpr => p.setBytes (.gprs64 gpr) 0 8 (ofBytes 128 (byte value) 4)
  | reg => p.setBytes reg.container (archGetRegisterInfo reg).byteOffs bytes value

def setMemory (p : Processor) (addr : BitVec 64) (bytes : Nat) (value : BitVec 128) :
    Processor :=
  { p with
    memory := fun a => if (a - addr).toNat < bytes then byte value (a - addr).toNat
      else p.memory a }

def write (p : Processor) (bytes : Nat) (value : BitVec 128) : StaticOperand → Processor
  | .reg reg => p.setRegister bytes value reg
  | .mem ptr => p.setMemory (p.address ptr) bytes value
  | .imm _ => p

/-- The byte of a flag after an instruction; the host chooses the undefined ones. -/
def flagAfter (host : Host) (flags : Flag → FlagEffect) (flag : Flag) (old : Nat → BitVec 8) :
    Nat → BitVec 8 :=
  match flags flag with
  | .value value => overwrite old 0 1 (fun _ => AluEmulation.flagByte value)
  | .undefined => overwrite old 0 1 (fun _ => AluEmulation.flagByte (host.eflags flag))
  | .unchanged => old

def setFlags (p : Processor) (host : Host) (flags : Flag → FlagEffect) : Processor :=
  { p with
    reg := fun container =>
      match container with
      | .flag1 flag => flagAfter host flags flag (p.reg (.flag1 flag))
      | .gprs64 gpr => p.reg (.gprs64 gpr)
      | .sse128 nr => p.reg (.sse128 nr) }

/-! ### Executing -/

def alu (p : Processor) (instruction : Instruction) (op : AluOp) (w : Nat) : AluResult w :=
  op.exec w (p.read (w / 8) instruction.destination)
    (p.read (op.sourceWidth w / 8) instruction.source)

def float (p : Processor) (host : Host) (instruction : Instruction) : FloatOp → BitVec 128
  | .addpd => host.addpd (p.read 16 instruction.destination) (p.read 16 instruction.source)
  | .mulpd => host.mulpd (p.read 16 instruction.destination) (p.read 16 instruction.source)
  | .addsd =>
      (host.addsd ((p.read 8 instruction.destination).setWidth 64)
        ((p.read 8 instruction.source).setWidth 64)).setWidth 128
  | .mulsd =>
      (host.mulsd ((p.read 8 instruction.destination).setWidth 64)
        ((p.read 8 instruction.source).setWidth 64)).setWidth 128

def result (p : Processor) (host : Host) (instruction : Instruction) : BitVec 128 :=
  match instruction.opcode.kind with
  | .alu op w => (p.alu instruction op w).value.setWidth 128
  | .float op => p.float host instruction op
  | .mov w => p.read (w / 8) instruction.source
  | .movsd => p.read 8 instruction.source
  | .lea w => ((p.addressOf instruction.source).setWidth w).setWidth 128
  | .push w => p.read (w / 8) instruction.destination
  | .pop w => readMemory p.memory 128 p.stackPointer (w / 8)
  | .control | .unmodelled => 0

def flagEffects (p : Processor) (instruction : Instruction) : Flag → FlagEffect :=
  match instruction.opcode.kind with
  | .alu op w => (p.alu instruction op w).flags
  | _ => fun _ => .unchanged

/-- The bytes of the destination that are written: a load of eight bytes into an XMM register
clears the other half. -/
def writtenBytes (instruction : Instruction) : Nat :=
  match instruction.opcode.kind, instruction.destination, instruction.source with
  | .movsd, .reg _, .mem _ => 16
  | kind, _, _ => kind.bytes

/-- The address of a popped destination is computed after the stack pointer has moved. -/
def execute (p : Processor) (host : Host) (instruction : Instruction) : Processor :=
  let result := p.result host instruction
  match instruction.opcode.kind with
  | .push w =>
      let rsp := p.stackPointer - BitVec.ofNat 64 (w / 8)
      (p.setRegister 8 (rsp.setWidth 128) .RSP).setMemory rsp (w / 8) result
  | .pop w =>
      let rsp := p.stackPointer + BitVec.ofNat 64 (w / 8)
      (p.setRegister 8 (rsp.setWidth 128) .RSP).write (w / 8) result instruction.destination
  | kind =>
      let written :=
        if kind.writesDestination then
          p.write (writtenBytes instruction) result instruction.destination
        else p
      written.setFlags host (p.flagEffects instruction)

end Processor

end Drob
