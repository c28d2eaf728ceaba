import Drob.CodeGeneration.PoolMemory
import Drob.Instruction.Dynamic

/-!
The memory operand optimization pass: constant data moves to the constant pool, and the
registers of an address that are known move into its displacement.
-/

namespace Drob

def isDisp32 (val : BitVec 64) : Bool :=
  (val.setWidth 32).signExtend 64 == val

def ptrToInt (ptr : DynamicValue) (context : Context) : Except Failure (Option (BitVec 64)) :=
  match ptr with
  | .imm64 val => .ok (some val)
  | .imm128 val => .ok (some (val.setWidth 64))
  | .ptr .usr nr ptrOffset => do
      let ptrCfg ← context.getUsrPtrCfg nr
      .ok (if ptrCfg.isKnown then some (ptrCfg.val + ptrOffset) else none)
  | _ => .ok none

def PoolMemory.isAddrContained (pool : PoolMemory) (addr : BitVec 64) : Bool :=
  pool.mmapStart ≤ addr.toNat && addr.toNat ≤ pool.mmapStart + pool.mmapSize - 1

def Context.hostBytes (context : Context) (addr : BitVec 64) (size : Nat) : List (BitVec 8) :=
  (List.range size).map (fun i => context.host (addr + BitVec.ofNat 64 i))

namespace MemoryOperand

def directAddress (ptr : DynamicValue) (ptrVal : BitVec 64) : Immediate64 :=
  match ptr with
  | .ptr _ nr ptrOffset => { val := ptrVal, usrPtrNr := nr, usrPtrOffset := ptrOffset }
  | _ => .plain ptrVal

def mergedDisp (disp : SignedImmediate32) (ptr : DynamicValue) (ptrVal : BitVec 64) :
    SignedImmediate32 :=
  match ptr with
  | .ptr _ nr ptrOffset =>
      { val := ptrVal.setWidth 32, usrPtrNr := nr, usrPtrOffset := ptrOffset }
  | _ => { disp with val := ptrVal.setWidth 32, usrPtrNr := -1 }

def mergeDisp (context : Context) (disp : SignedImmediate32) (sum : DynamicValue) :
    Except Failure (Option SignedImmediate32) := do
  let ptrKnown ← ptrToInt sum context
  .ok ((ptrKnown.filter isDisp32).map (mergedDisp disp sum))

def mergeRegister (context : Context) (reg : Option Register) (disp : SignedImmediate32)
    (sum : DynamicValue) : Except Failure (Option SignedImmediate32) :=
  match reg with
  | some _ => mergeDisp context disp sum
  | none => .ok none

/-- Merge either the base or the index of the original operand into its displacement;
`base`, `index` and `disp` are the values of its parts. -/
def mergeEither (context : Context) (base index disp : DynamicValue) (scale : BitVec 8) :
    Option StaticOperand → Except Failure (Option StaticMemPtr)
  | some (.mem (.SIB baseReg indexReg oldDisp oldScale)) => do
      let mergedBase ← mergeRegister context baseReg oldDisp (addDynamicValues base disp)
      match mergedBase with
      | some newDisp => .ok (some (.SIB none indexReg newDisp oldScale))
      | none => do
          let mergedIndex ←
            mergeRegister context indexReg oldDisp
              (addDynamicValues (multiplyDynamicValue index scale) disp)
          .ok (mergedIndex.map (fun newDisp => .SIB baseReg none newDisp 0))
  | _ => .error .undefined

def simplify (context : Context) (memAcc : MemAccess) (original : Option StaticOperand) :
    Except Failure (Option StaticMemPtr) :=
  match memAcc.ptr with
  | .direct _ => .ok none
  | .SIB base index disp scale =>
      if memAcc.mode = .None then .ok (some (.direct (.plain 0)))
      else do
        let ptrKnown ← ptrToInt memAcc.ptrVal context
        match ptrKnown.filter isDisp32 with
        | some ptrVal => .ok (some (.direct (directAddress memAcc.ptrVal ptrVal)))
        | none => mergeEither context base index disp scale original

def moveConstant (context : Context) (pool : PoolMemory) (ptrVal : BitVec 64) (size : Nat) :
    Except Failure (Option StaticMemPtr × PoolMemory) :=
  if pool.isAddrContained ptrVal then .ok (none, pool)
  else do
    let isConstant ← context.memProtCache.isConstant ptrVal size
    if isConstant then
      match pool.allocConstant (context.hostBytes ptrVal size) with
      | (.ok addr, later) => .ok (some (.direct (.plain (BitVec.ofNat 64 addr))), later)
      | (.error failure, _) => .error failure
    else .ok (none, pool)

/-- The size is zero for LEA, which needs the actual address. -/
def moveInput (context : Context) (pool : PoolMemory) (operand : DynamicOperandInfo)
    (memAcc : MemAccess) : Except Failure (Option StaticMemPtr × PoolMemory) :=
  if operand.isInput && !operand.isOutput && memAcc.size != 0 then do
    let ptrKnown ← ptrToInt memAcc.ptrVal context
    match ptrKnown with
    | some ptrVal => moveConstant context pool ptrVal memAcc.size
    | none => .ok (none, pool)
  else .ok (none, pool)

def optimize (context : Context) (pool : PoolMemory) (operand : DynamicOperandInfo)
    (memAcc : MemAccess) (original : Option StaticOperand) :
    Except Failure (Option StaticMemPtr × PoolMemory) := do
  let (moved, later) ← moveInput context pool operand memAcc
  match moved with
  | some newOp => .ok (some newOp, later)
  | none => do
      let newOp ← simplify context memAcc original
      .ok (newOp, later)

/-- The first explicit operand for which there is a better one, with its number. -/
def findOperand (instruction : Instruction) (context : Context) (pool : PoolMemory) :
    List DynamicOperandInfo → Except Failure (Option (Nat × StaticMemPtr) × PoolMemory)
  | [] => .ok (none, pool)
  | operand :: rest =>
      if operand.isImpl then .ok (none, pool)
      else
        match operand.access with
        | .memPtr memAcc => do
            let (newOp, later) ←
              optimize context pool operand memAcc (instruction.rawOperands.op operand.nr)
            match newOp with
            | some newOp => .ok (some (operand.nr, newOp), later)
            | none => findOperand instruction context later rest
        | _ => findOperand instruction context pool rest

/-- The instruction with the new operand, and whether the analyses of its block are
invalidated. -/
def handleInstruction (instruction : Instruction) (dynInfo : Option DynamicInstructionInfo)
    (context : Context) (pool : PoolMemory) : Except Failure (Instruction × Bool × PoolMemory) :=
  match dynInfo with
  | none => .ok (instruction, false, pool)
  | some dynInfo => do
      let (found, later) ← findOperand instruction context pool dynInfo.operands
      match found with
      | some (nr, newOp) =>
          .ok ({ instruction with rawOperands := instruction.rawOperands.set nr (.mem newOp) },
            true, later)
      | none => .ok (instruction, false, later)

end MemoryOperand

end Drob
