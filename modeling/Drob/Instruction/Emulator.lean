import Drob.Arch.Alu
import Drob.Instruction.Dynamic

/-!
The emulation handlers. Each one computes the outputs of an instruction from its
inputs; the arithmetic helpers run the instruction on the host and read all flags,
also those that the instruction leaves undefined or unchanged there.
-/

namespace Drob

inductive EmuRet where
  | Ok | Mov10 | Mov02 | Mov20
  deriving DecidableEq

/-- What the host contributes: the flags it has where an instruction does not define
them, and its floating point operations. -/
structure Host where
  eflags : Eflags
  addpd : BitVec 128 → BitVec 128 → BitVec 128
  mulpd : BitVec 128 → BitVec 128 → BitVec 128
  addsd : BitVec 64 → BitVec 64 → BitVec 64
  mulsd : BitVec 64 → BitVec 64 → BitVec 64

/-- The flags `readEflags` reads after an instruction on the host. -/
def Host.readEflags (host : Host) (flags : Flag → FlagEffect) : Eflags :=
  fun flag => (flags flag).resolve (host.eflags flag) (host.eflags flag)

namespace Emulator

abbrev Operands := List DynamicOperandInfo

def input (operands : Operands) (idx : Nat) : Except Failure DynamicValue :=
  match operands[idx]? with
  | some operand => .ok operand.input
  | none => .error .undefined

def setOutput (operands : Operands) (idx : Nat) (output : DynamicValue) :
    Except Failure Operands :=
  match operands[idx]? with
  | some operand => .ok (operands.set idx { operand with output })
  | none => .error .undefined

def checkFlag (operands : Operands) (idx : Nat) (flag : Flag) : Except Failure Unit :=
  match operands[idx]? with
  | some operand =>
      match operand.access with
      | .register regAcc =>
          if regAcc.reg = .flag1 flag then .ok ()
          else .error (.assertion "dynInfo.operands[idx].regAcc.reg")
      | _ => .error (.assertion "dynInfo.operands[idx].type == OperandType::Register")
  | none => .error .undefined

def setFlag (operands : Operands) (idx : Nat) (flag : Flag) (output : DynamicValue) :
    Except Failure Operands := do
  checkFlag operands idx flag
  setOutput operands idx output

def ofBool (flag : Bool) : DynamicValue :=
  .imm64 (if flag then 1 else 0)

def setEflags (operands : Operands) (startIdx : Nat) (eflags : Eflags) :
    Except Failure Operands := do
  checkFlag operands startIdx .CF
  let operands ← setOutput operands startIdx (ofBool (eflags .CF))
  let operands ← setOutput operands (startIdx + 1) (ofBool (eflags .PF))
  let operands ← setOutput operands (startIdx + 2) (ofBool (eflags .AF))
  let operands ← setOutput operands (startIdx + 3) (ofBool (eflags .ZF))
  let operands ← setOutput operands (startIdx + 4) (ofBool (eflags .SF))
  setOutput operands (startIdx + 5) (ofBool (eflags .OF))

def binary {w : Nat} (op : BitVec w → BitVec w → AluResult w) (host : Host)
    (operands : Operands) : Except Failure (Operands × EmuRet) := do
  let inout ← input operands 0
  let in1 ← input operands 1
  let a ← inout.getImm64
  let b ← in1.getImm64
  let result := op (a.setWidth w) (b.setWidth w)
  let operands ← setOutput operands 0 (.imm64 (result.value.setWidth 64))
  let operands ← setEflags operands 2 (host.readEflags result.flags)
  .ok (operands, .Ok)

/-- A handler with only the flags of an operation on two immediates. -/
def compare {w : Nat} (op : BitVec w → BitVec w → AluResult w) (host : Host)
    (operands : Operands) : Except Failure (Operands × EmuRet) := do
  let in0 ← input operands 0
  let in1 ← input operands 1
  let a ← in0.getImm64
  let b ← in1.getImm64
  let result := op (a.setWidth w) (b.setWidth w)
  let operands ← setEflags operands 2 (host.readEflags result.flags)
  .ok (operands, .Ok)

def add8 : Host → Operands → Except Failure (Operands × EmuRet) := binary (w := 8) Alu.add
def add16 : Host → Operands → Except Failure (Operands × EmuRet) := binary (w := 16) Alu.add
def add32 : Host → Operands → Except Failure (Operands × EmuRet) := binary (w := 32) Alu.add
def sub8 : Host → Operands → Except Failure (Operands × EmuRet) := binary (w := 8) Alu.sub
def sub16 : Host → Operands → Except Failure (Operands × EmuRet) := binary (w := 16) Alu.sub
def sub32 : Host → Operands → Except Failure (Operands × EmuRet) := binary (w := 32) Alu.sub
def xor32 : Host → Operands → Except Failure (Operands × EmuRet) := binary (w := 32) Alu.xor
def xor64 : Host → Operands → Except Failure (Operands × EmuRet) := binary (w := 64) Alu.xor
def cmp8 : Host → Operands → Except Failure (Operands × EmuRet) := compare (w := 8) Alu.sub
def cmp16 : Host → Operands → Except Failure (Operands × EmuRet) := compare (w := 16) Alu.sub
def cmp32 : Host → Operands → Except Failure (Operands × EmuRet) := compare (w := 32) Alu.sub

/-- `add64` and `sub64`: an offset is added to, or subtracted from, a pointer on
either side. -/
def pointerArith (op : BitVec 64 → BitVec 64 → AluResult 64) (host : Host)
    (operands : Operands) : Except Failure (Operands × EmuRet) := do
  let inout ← input operands 0
  let in1 ← input operands 1
  match inout, inout.imm64?, in1, in1.imm64? with
  | _, some a, _, some b =>
      let result := op a b
      let operands ← setOutput operands 0 (.imm64 result.value)
      let operands ← setEflags operands 2 (host.readEflags result.flags)
      .ok (operands, .Ok)
  | .ptr type nr ptrOffset, _, _, some b =>
      let operands ← setOutput operands 0 (.ptr type nr (op ptrOffset b).value)
      .ok (operands, .Ok)
  | _, some a, .ptr type nr ptrOffset, _ =>
      let operands ← setOutput operands 0 (.ptr type nr (op ptrOffset a).value)
      .ok (operands, .Ok)
  | _, _, _, _ =>
      let output : DynamicValue :=
        if inout.isStackPtr || in1.isStackPtr then .tainted else .unknown
      let operands ← setOutput operands 0 output
      .ok (operands, .Ok)

def add64 : Host → Operands → Except Failure (Operands × EmuRet) := pointerArith Alu.add
def sub64 : Host → Operands → Except Failure (Operands × EmuRet) := pointerArith Alu.sub

/-- Pointers of the same kind and number are compared by their offsets. -/
def cmp64 (host : Host) (operands : Operands) : Except Failure (Operands × EmuRet) := do
  let in0 ← input operands 0
  let in1 ← input operands 1
  match in0, in0.imm64?, in1, in1.imm64? with
  | _, some a, _, some b =>
      let operands ← setEflags operands 2 (host.readEflags (Alu.sub a b).flags)
      .ok (operands, .Ok)
  | .ptr type0 nr0 ptrOffset0, _, .ptr type1 nr1 ptrOffset1, _ =>
      if type0 = type1 ∧ nr0 = nr1 then
        let operands ←
          setEflags operands 2 (host.readEflags (Alu.sub ptrOffset0 ptrOffset1).flags)
        .ok (operands, .Ok)
      else .ok (operands, .Ok)
  | _, _, _, _ => .ok (operands, .Ok)

def testResult {w : Nat} (op : BitVec w → BitVec w → AluResult w) (host : Host)
    (operands : Operands) (in0 in1 : DynamicValue) : Except Failure Operands :=
  match in0.imm64?, in1.imm64? with
  | some a, some b =>
      setEflags operands 2 (host.readEflags (op (a.setWidth w) (b.setWidth w)).flags)
  | _, _ => .ok operands

def test {w : Nat} (op : BitVec w → BitVec w → AluResult w) (host : Host)
    (operands : Operands) : Except Failure (Operands × EmuRet) := do
  let in0 ← input operands 0
  let in1 ← input operands 1
  let operands ← testResult op host operands in0 in1
  let operands ← setFlag operands 2 .CF (.imm64 0)
  let operands ← setFlag operands 4 .AF .unknown
  let operands ← setFlag operands 7 .OF (.imm64 0)
  .ok (operands, .Ok)

def test8 : Host → Operands → Except Failure (Operands × EmuRet) := test (w := 8) Alu.test
def test16 : Host → Operands → Except Failure (Operands × EmuRet) := test (w := 16) Alu.test
def test32 : Host → Operands → Except Failure (Operands × EmuRet) := test (w := 32) Alu.test
def test64 : Host → Operands → Except Failure (Operands × EmuRet) := test (w := 64) Alu.test

def shiftUnknown (shift : DynamicValue) (defined : BitVec 64 → Bool) : Bool :=
  match shift.imm64? with
  | some count => !defined count
  | none => true

def setFlagIf (condition : Bool) (operands : Operands) (idx : Nat) (flag : Flag) :
    Except Failure Operands :=
  if condition then setFlag operands idx flag .unknown else .ok operands

/-- The shifts pass the low eight bits of the count to the host. -/
def shiftResult (op : BitVec 64 → BitVec 8 → AluResult 64) (host : Host) (operands : Operands)
    (inout shift : DynamicValue) : Except Failure Operands :=
  match inout, inout.imm64?, shift.imm64? with
  | _, some a, some count => do
      let result := op a (count.setWidth 8)
      let operands ← setOutput operands 0 (.imm64 result.value)
      setEflags operands 2 (host.readEflags result.flags)
  | .ptr .stack _ _, _, _ => setOutput operands 0 .tainted
  | .ptr _ _ _, _, _ => setOutput operands 0 .unknown
  | inout, _, _ => setOutput operands 0 inout

def shift (op : BitVec 64 → BitVec 8 → AluResult 64) (host : Host) (operands : Operands) :
    Except Failure (Operands × EmuRet) := do
  let inout ← input operands 0
  let shift ← input operands 1
  let operands ← shiftResult op host operands inout shift
  let operands ← setFlagIf (shiftUnknown shift (fun count => count == 1)) operands 7 .OF
  let operands ← setFlagIf (shiftUnknown shift (fun count => count < 64)) operands 2 .CF
  let operands ← setFlag operands 4 .AF .unknown
  .ok (operands, .Ok)

def shl64 : Host → Operands → Except Failure (Operands × EmuRet) := shift Alu.shl64
def shr64 : Host → Operands → Except Failure (Operands × EmuRet) := shift Alu.shr64

def packed (op : BitVec 128 → BitVec 128 → BitVec 128) (operands : Operands) :
    Except Failure (Operands × EmuRet) := do
  let inout ← input operands 0
  let in1 ← input operands 1
  let a ← inout.getImm128
  let b ← in1.getImm128
  let operands ← setOutput operands 0 (.imm128 (op a b))
  .ok (operands, .Ok)

def scalar (op : BitVec 64 → BitVec 64 → BitVec 64) (operands : Operands) :
    Except Failure (Operands × EmuRet) := do
  let inout ← input operands 0
  let in1 ← input operands 1
  let a ← inout.getImm64
  let b ← in1.getImm64
  let operands ← setOutput operands 0 (.imm64 (op a b))
  .ok (operands, .Ok)

def addpd (host : Host) : Operands → Except Failure (Operands × EmuRet) := packed host.addpd
def mulpd (host : Host) : Operands → Except Failure (Operands × EmuRet) := packed host.mulpd
def addsd (host : Host) : Operands → Except Failure (Operands × EmuRet) := scalar host.addsd
def mulsd (host : Host) : Operands → Except Failure (Operands × EmuRet) := scalar host.mulsd

def pxor (_host : Host) : Operands → Except Failure (Operands × EmuRet) :=
  packed (fun a b => a ^^^ b)

def moveRsp (rsp : DynamicValue) (delta : BitVec 64) : DynamicValue :=
  match rsp, rsp.imm64? with
  | _, some val => .imm64 (val + delta)
  | .ptr type nr ptrOffset, _ => .ptr type nr (ptrOffset + delta)
  | rsp, _ => rsp

def call (_host : Host) (operands : Operands) : Except Failure (Operands × EmuRet) := do
  let rsp ← input operands 1
  let operands ← setOutput operands 1 (moveRsp rsp (-8))
  let operands ← setOutput operands 2 (.ptr .ret 1 0)
  .ok (operands, .Ok)

def ret (_host : Host) (operands : Operands) : Except Failure (Operands × EmuRet) := do
  let rsp ← input operands 0
  let operands ← setOutput operands 0 (moveRsp rsp 8)
  .ok (operands, .Ok)

def lea (_host : Host) (operands : Operands) : Except Failure (Operands × EmuRet) := do
  let address ← input operands 1
  let operands ← setOutput operands 0 address
  .ok (operands, .Ok)

def mov (_host : Host) (operands : Operands) : Except Failure (Operands × EmuRet) := do
  let value ← input operands 1
  let operands ← setOutput operands 0 value
  .ok (operands, .Mov10)

def memSize (operands : Operands) (idx : Nat) : Except Failure Nat :=
  match operands[idx]? with
  | some operand =>
      match operand.access with
      | .memPtr memAcc => .ok memAcc.size
      | _ => .error .undefined
  | none => .error .undefined

def pop (_host : Host) (operands : Operands) : Except Failure (Operands × EmuRet) := do
  let size ← memSize operands 2
  let rsp ← input operands 1
  let operands ← setOutput operands 1 (moveRsp rsp (BitVec.ofNat 64 size))
  let value ← input operands 2
  let operands ← setOutput operands 0 value
  .ok (operands, .Mov20)

def push (_host : Host) (operands : Operands) : Except Failure (Operands × EmuRet) := do
  let size ← memSize operands 2
  let rsp ← input operands 1
  let operands ← setOutput operands 1 (moveRsp rsp (-BitVec.ofNat 64 size))
  let value ← input operands 0
  let operands ← setOutput operands 2 value
  .ok (operands, .Mov02)

def handler : EmulateFn → Option (Host → Operands → Except Failure (Operands × EmuRet))
  | .nullptr => none
  | .add8 => some add8
  | .add16 => some add16
  | .add32 => some add32
  | .add64 => some add64
  | .addpd => some addpd
  | .addsd => some addsd
  | .call => some call
  | .cmp8 => some cmp8
  | .cmp16 => some cmp16
  | .cmp32 => some cmp32
  | .cmp64 => some cmp64
  | .lea => some lea
  | .mov => some mov
  | .mulpd => some mulpd
  | .mulsd => some mulsd
  | .pop => some pop
  | .push => some push
  | .pxor => some pxor
  | .ret => some ret
  | .shl64 => some shl64
  | .shr64 => some shr64
  | .sub8 => some sub8
  | .sub16 => some sub16
  | .sub32 => some sub32
  | .sub64 => some sub64
  | .test8 => some test8
  | .test16 => some test16
  | .test32 => some test32
  | .test64 => some test64
  | .xor64 => some xor64
  | .xor32 => some xor32

end Emulator

end Drob
