import Drob.Arch.Alu
import Drob.Arch.Opcode

/-!
What each opcode does, by its name in the manual and independently of its row in the
opcode table. Whether a source or a destination is a register, memory or an
immediate follows from the operand.
-/

namespace Drob

inductive AluOp where
  | add | sub | cmp | test | xor | pxor | shl | shr
  deriving DecidableEq

inductive FloatOp where
  | addpd | addsd | mulpd | mulsd
  deriving DecidableEq

inductive OpcodeKind where
  | alu (op : AluOp) (w : Nat)
  | float (op : FloatOp)
  | mov (w : Nat)
  | movsd
  | lea (w : Nat)
  | push (w : Nat)
  | pop (w : Nat)
  | control
  /-- An instruction without opcode information. -/
  | unmodelled
  deriving DecidableEq

def Opcode.kind : Opcode → OpcodeKind
  | .NONE => .unmodelled
  | .ADD8mr | .ADD8rr | .ADD8rm | .ADD8mi | .ADD8ri => .alu .add 8
  | .ADD16mr | .ADD16rr | .ADD16rm | .ADD16mi | .ADD16ri => .alu .add 16
  | .ADD32mr | .ADD32rr | .ADD32rm | .ADD32mi | .ADD32ri => .alu .add 32
  | .ADD64mr | .ADD64rr | .ADD64rm | .ADD64mi | .ADD64ri => .alu .add 64
  | .SUB8mr | .SUB8rr | .SUB8rm | .SUB8mi | .SUB8ri => .alu .sub 8
  | .SUB16mr | .SUB16rr | .SUB16rm | .SUB16mi | .SUB16ri => .alu .sub 16
  | .SUB32mr | .SUB32rr | .SUB32rm | .SUB32mi | .SUB32ri => .alu .sub 32
  | .SUB64mr | .SUB64rr | .SUB64rm | .SUB64mi | .SUB64ri => .alu .sub 64
  | .CMP8mr | .CMP8mi | .CMP8rm | .CMP8rr | .CMP8ri => .alu .cmp 8
  | .CMP16mr | .CMP16mi | .CMP16rm | .CMP16rr | .CMP16ri => .alu .cmp 16
  | .CMP32mr | .CMP32mi | .CMP32rm | .CMP32rr | .CMP32ri => .alu .cmp 32
  | .CMP64mr | .CMP64mi | .CMP64rm | .CMP64rr | .CMP64ri => .alu .cmp 64
  | .TEST8mr | .TEST8mi | .TEST8rr | .TEST8ri => .alu .test 8
  | .TEST16mr | .TEST16mi | .TEST16rr | .TEST16ri => .alu .test 16
  | .TEST32mr | .TEST32mi | .TEST32rr | .TEST32ri => .alu .test 32
  | .TEST64mr | .TEST64mi | .TEST64rr | .TEST64ri => .alu .test 64
  | .XOR32mr | .XOR32rr | .XOR32rm | .XOR32mi | .XOR32ri => .alu .xor 32
  | .XOR64mr | .XOR64rr | .XOR64rm | .XOR64mi | .XOR64ri => .alu .xor 64
  | .PXOR128rm | .PXOR128rr => .alu .pxor 128
  | .SHL64m | .SHL64r | .SHL64mi | .SHL64ri => .alu .shl 64
  | .SHR64m | .SHR64r | .SHR64mi | .SHR64ri => .alu .shr 64
  | .ADDPDrm | .ADDPDrr => .float .addpd
  | .ADDSDrm | .ADDSDrr => .float .addsd
  | .MULPDrm | .MULPDrr => .float .mulpd
  | .MULSDrm | .MULSDrr => .float .mulsd
  | .MOV32mr | .MOV32rr | .MOV32rm | .MOV32mi | .MOV32ri => .mov 32
  | .MOV64mr | .MOV64rr | .MOV64rm | .MOV64mi | .MOV64ri => .mov 64
  | .MOVAPDrm | .MOVAPDrr | .MOVAPDmr | .MOVUPDmr | .MOVUPDrr | .MOVUPDrm | .MOVUPSmr
  | .MOVUPSrr | .MOVUPSrm => .mov 128
  | .MOVSDrm | .MOVSDrr | .MOVSDmr => .movsd
  | .LEA16ra => .lea 16
  | .LEA32ra => .lea 32
  | .LEA64ra => .lea 64
  | .PUSH16m | .PUSH16r | .PUSH16i => .push 16
  | .PUSH64m | .PUSH64r | .PUSH64i => .push 64
  | .POP16m | .POP16r => .pop 16
  | .POP64m | .POP64r => .pop 64
  | .CALLa | .CALLm | .CALLr => .control
  | .JNBEa | .JNBa | .JBa | .JBEa | .JCXZ32a | .JCXZ64a | .JZa | .JNLEa | .JNLa | .JLa
  | .JLEa | .JNZa | .JNOa | .JNPa | .JNSa | .JOa | .JPa | .JSa | .JMPa | .JMPm | .JMPr => .control
  | .RET => .control

namespace AluOp

def writesDestination : AluOp → Bool
  | .cmp | .test => false
  | _ => true

/-- The width of the second input; a shift count has eight bits. -/
def sourceWidth (op : AluOp) (w : Nat) : Nat :=
  match op with
  | .shl | .shr => 8
  | _ => w

/-- The operation on inputs of which only the low bits are used. -/
def exec (op : AluOp) (w : Nat) (a b : BitVec 128) : AluResult w :=
  match op with
  | .add => Alu.add (a.setWidth w) (b.setWidth w)
  | .sub | .cmp => Alu.sub (a.setWidth w) (b.setWidth w)
  | .test => Alu.test (a.setWidth w) (b.setWidth w)
  | .xor => Alu.xor (a.setWidth w) (b.setWidth w)
  | .pxor =>
      { value := a.setWidth w ^^^ b.setWidth w, flags := fun _ => .unchanged }
  | .shl =>
      let result := Alu.shl64 (a.setWidth 64) (b.setWidth 8)
      { value := result.value.setWidth w, flags := result.flags }
  | .shr =>
      let result := Alu.shr64 (a.setWidth 64) (b.setWidth 8)
      { value := result.value.setWidth w, flags := result.flags }

end AluOp

end Drob
