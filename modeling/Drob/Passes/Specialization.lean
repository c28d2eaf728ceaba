import Drob.Cfg.Function
import Drob.CodeGeneration.PoolMemory
import Drob.Instruction.Emulator

/-!
The instruction specialization pass: an instruction whose inputs or result are known is
replaced by a simpler one, or deleted if it has no effect. What a flag register holds counts
only if somebody reads it.
-/

namespace Drob

/-- `SpecRet`, with the opcode and the operands of a changed instruction. -/
inductive Specialized where
  | NoChange
  | Change (opcode : Opcode) (explOperands : ExplicitStaticOperands)
  | Delete
  deriving DecidableEq

namespace Specialize

/-! ### Helpers -/

def eflags : SubRegisterMask :=
  {.flag .CF, .flag .PF, .flag .AF, .flag .ZF, .flag .SF, .flag .OF}

def registersWillBeRead (livenessData : LivenessData) (registers : SubRegisterMask) : Bool :=
  decide (livenessData.live_out ∩ registers ≠ ∅)

/-- A known value as an immediate, which remembers the user pointer that it comes from. -/
def getImm (data : DynamicValue) (context : Context) : Except Failure (Option Immediate64) :=
  match data with
  | .imm64 val => .ok (some (.plain val))
  | .imm128 _ => .error (.assertion "!data.isImm128()")
  | .ptr .usr nr ptrOffset => do
      let ptrCfg ← context.getUsrPtrCfg nr
      .ok (if ptrCfg.isKnown then
        some { val := ptrCfg.val + ptrOffset, usrPtrNr := nr, usrPtrOffset := ptrOffset }
      else none)
  | _ => .ok none

def is_simm32 (val : BitVec 64) : Bool :=
  (val.setWidth 32).signExtend 64 == val

def input (dynInfo : DynamicInstructionInfo) (i : Nat) : Except Failure DynamicValue :=
  Emulator.input dynInfo.operands i

def output (dynInfo : DynamicInstructionInfo) (i : Nat) : Except Failure DynamicValue :=
  match dynInfo.operands[i]? with
  | some operand => .ok operand.output
  | none => .error .undefined

/-- `explOperands.op[i].reg == explOperands.op[j].reg` for the two registers of an opcode. -/
def sameRegister (explOperands : ExplicitStaticOperands) : Bool :=
  match explOperands.op 0, explOperands.op 1 with
  | some (.reg reg0), some (.reg reg1) => reg0 == reg1
  | _, _ => false

def setSource (explOperands : ExplicitStaticOperands) (operand : StaticOperand) :
    ExplicitStaticOperands :=
  explOperands.take 1 ++ [operand]

/-- `explOperands.op[1].imm = imm` -/
def withImm (opcode : Opcode) (explOperands : ExplicitStaticOperands) (imm : Immediate64) :
    Specialized :=
  .Change opcode (setSource explOperands (.imm imm))

/-- `explOperands.op[1].reg = explOperands.op[0].reg`, to set the register to zero. -/
def clear (opcode : Opcode) (explOperands : ExplicitStaticOperands) :
    Except Failure Specialized :=
  match explOperands.op 0 with
  | some (.reg reg) => .ok (.Change opcode (setSource explOperands (.reg reg)))
  | _ => .error .undefined

def load (opcode : Opcode) (explOperands : ExplicitStaticOperands) :
    Except Failure Nat × PoolMemory → Except Failure (Specialized × PoolMemory)
  | (.ok addr, pool) =>
      .ok (.Change opcode
        (setSource explOperands (.mem (.direct (.plain (BitVec.ofNat 64 addr))))), pool)
  | (.error failure, _) => .error failure

def orElse (first : Except Failure (Option Specialized))
    (second : Except Failure (Specialized × PoolMemory)) (pool : PoolMemory) :
    Except Failure (Specialized × PoolMemory) := do
  let found ← first
  match found with
  | some specialized => .ok (specialized, pool)
  | none => second

/-! ### Handlers -/

section Handlers

variable (opcode : Opcode) (explOperands : ExplicitStaticOperands)
variable (dynInfo : DynamicInstructionInfo) (livenessData : LivenessData) (context : Context)
variable (pool : PoolMemory)

/-- The result is known and nobody reads the flags: a move of the result, or an exclusive or if
it is zero. -/
def moveOutput (memory : Bool) : Except Failure (Option Specialized) := do
  let out ← output dynInfo 0
  let known ← getImm out context
  match known with
  | none => .ok none
  | some imm =>
      if memory then
        if is_simm32 imm.val then .ok (some (withImm .MOV64mi explOperands imm)) else .ok none
      else if imm.val = 0 then do
        let cleared ← clear .XOR64rr explOperands
        .ok (some cleared)
      else .ok (some (withImm .MOV64ri explOperands imm))

/-- The first operand is zero: a simple move of the second one. -/
def addToZero : Except Failure (Option Specialized) := do
  let in0 ← input dynInfo 0
  let known ← getImm in0 context
  match known with
  | none => .ok none
  | some imm =>
      if imm.val = 0 then
        match opcode with
        | .ADD64rr => .ok (some (.Change .MOV64rr explOperands))
        | .ADD64mr => .ok (some (.Change .MOV64mr explOperands))
        | .ADD64rm => .ok (some (.Change .MOV64rm explOperands))
        | _ => .ok none
      else .ok none

/-- What `add64` does if nobody reads the flags. -/
def add64Unread : Except Failure (Option Specialized) := do
  let in1 ← input dynInfo 1
  let known ← getImm in1 context
  if known.any (fun imm => imm.val == 0) then .ok (some .Delete)
  else do
    let moved ← moveOutput explOperands dynInfo context
      (opcode == .ADD64mr || opcode == .ADD64mi)
    match moved with
    | some specialized => .ok (some specialized)
    | none => addToZero opcode explOperands dynInfo context

def add64Source : Except Failure (Specialized × PoolMemory) :=
  if opcode = .ADD64mi ∨ opcode = .ADD64ri then .ok (.NoChange, pool)
  else do
    let in1 ← input dynInfo 1
    let known ← getImm in1 context
    match known with
    | none => .ok (.NoChange, pool)
    | some imm =>
        if opcode = .ADD64mr then
          if is_simm32 imm.val then .ok (withImm .ADD64mi explOperands imm, pool)
          else .ok (.NoChange, pool)
        else if is_simm32 imm.val then .ok (withImm .ADD64ri explOperands imm, pool)
        -- a user pointer does not move to the constant pool
        else if imm.usrPtrNr < 0 then
          load .ADD64rm explOperands (pool.allocConstant64 imm.val)
        else .ok (.NoChange, pool)

def add64 : Except Failure (Specialized × PoolMemory) :=
  let eflagsRead := registersWillBeRead livenessData eflags
  orElse
    (if eflagsRead then .ok none else add64Unread opcode explOperands dynInfo context)
    (add64Source opcode explOperands dynInfo context pool) pool

/-- `addpd` and `mulpd`: a known result is loaded, a known second operand becomes a constant. -/
def packed (rm : Opcode) : Except Failure (Specialized × PoolMemory) := do
  let out ← output dynInfo 0
  if out.isImm then do
    let imm ← out.getImm128
    if imm = 0 then do
      let cleared ← clear .PXOR128rr explOperands
      .ok (cleared, pool)
    -- the constant pool gives aligned pointers
    else load .MOVAPDrm explOperands (pool.allocConstant128 imm)
  else do
    let in1 ← input dynInfo 1
    if in1.isImm then do
      let imm ← in1.getImm128
      load rm explOperands (pool.allocConstant128 imm)
    else .ok (.NoChange, pool)

def addpd : Except Failure (Specialized × PoolMemory) :=
  packed explOperands dynInfo pool .ADDPDrm

def mulpd : Except Failure (Specialized × PoolMemory) :=
  packed explOperands dynInfo pool .MULPDrm

/-- `addsd` and `mulsd`. -/
def scalar (rm : Opcode) : Except Failure (Specialized × PoolMemory) := do
  let out ← output dynInfo 0
  if out.isImm then do
    let imm ← out.getImm64
    load .MOVSDrm explOperands (pool.allocConstant64 imm)
  else do
    let in1 ← input dynInfo 1
    if in1.isImm then do
      let imm ← in1.getImm64
      load rm explOperands (pool.allocConstant64 imm)
    else .ok (.NoChange, pool)

def addsd : Except Failure (Specialized × PoolMemory) :=
  scalar explOperands dynInfo pool .ADDSDrm

def mulsd : Except Failure (Specialized × PoolMemory) :=
  scalar explOperands dynInfo pool .MULSDrm

/-- `cmp8`, `cmp16` and `cmp32`. -/
def cmp (mr mi ri : Opcode) : Except Failure (Specialized × PoolMemory) := do
  let in1 ← input dynInfo 1
  let known ← getImm in1 context
  match known with
  | none => .ok (.NoChange, pool)
  | some imm => .ok (withImm (if opcode = mr then mi else ri) explOperands imm, pool)

def cmp8 : Except Failure (Specialized × PoolMemory) :=
  cmp opcode explOperands dynInfo context pool .CMP8mr .CMP8mi .CMP8ri

def cmp16 : Except Failure (Specialized × PoolMemory) :=
  cmp opcode explOperands dynInfo context pool .CMP16mr .CMP16mi .CMP16ri

def cmp32 : Except Failure (Specialized × PoolMemory) :=
  cmp opcode explOperands dynInfo context pool .CMP32mr .CMP32mi .CMP32ri

def cmp64 : Except Failure (Specialized × PoolMemory) := do
  let in1 ← input dynInfo 1
  let known ← getImm in1 context
  match known with
  | none => .ok (.NoChange, pool)
  | some imm =>
      if is_simm32 imm.val then
        .ok (withImm (if opcode = .CMP64mr then .CMP64mi else .CMP64ri) explOperands imm, pool)
      else if imm.usrPtrNr < 0 ∧ (opcode = .CMP64rr ∨ opcode = .CMP64rm) then
        load .CMP64rm explOperands (pool.allocConstant64 imm.val)
      else .ok (.NoChange, pool)

def lea64 : Except Failure (Specialized × PoolMemory) := do
  let out ← output dynInfo 0
  let known ← getImm out context
  match known with
  | none => .ok (.NoChange, pool)
  | some imm =>
      if imm.usrPtrNr < 0 ∧ imm.val = 0 ∧ registersWillBeRead livenessData eflags = false then do
        let cleared ← clear .XOR64rr explOperands
        .ok (cleared, pool)
      else .ok (withImm .MOV64ri explOperands imm, pool)

def lea32 : Except Failure (Specialized × PoolMemory) := do
  let out ← output dynInfo 0
  let known ← getImm out context
  .ok (known.elim .NoChange (withImm .MOV32ri explOperands), pool)

def lea16 : Except Failure (Specialized × PoolMemory) :=
  .ok (.NoChange, pool)

def mov32 : Except Failure (Specialized × PoolMemory) :=
  if opcode = .MOV32rr ∧ sameRegister explOperands = true then .ok (.Delete, pool)
  else do
    let in1 ← input dynInfo 1
    let known ← getImm in1 context
    .ok (known.elim .NoChange
      (withImm (if opcode = .MOV32mr then .MOV32mi else .MOV32ri) explOperands), pool)

def mov64 : Except Failure (Specialized × PoolMemory) :=
  if opcode = .MOV64rr ∧ sameRegister explOperands = true then .ok (.Delete, pool)
  else do
    let in1 ← input dynInfo 1
    let known ← getImm in1 context
    match known with
    | none => .ok (.NoChange, pool)
    | some imm =>
        if opcode = .MOV64mr then
          if is_simm32 imm.val then .ok (withImm .MOV64mi explOperands imm, pool)
          else .ok (.NoChange, pool)
        else .ok (withImm .MOV64ri explOperands imm, pool)

/-- `movapd` and `movupd`: what is loaded from the constant pool is aligned. -/
def movPacked (rr rm : Opcode) : Except Failure (Specialized × PoolMemory) :=
  if opcode = rr ∧ sameRegister explOperands = true then .ok (.Delete, pool)
  else do
    let out ← output dynInfo 0
    if out.isImm then do
      let imm ← out.getImm128
      if imm = 0 then do
        let cleared ← clear .PXOR128rr explOperands
        .ok (cleared, pool)
      else if opcode = rm then load .MOVAPDrm explOperands (pool.allocConstant128 imm)
      else .ok (.NoChange, pool)
    else .ok (.NoChange, pool)

def movapd : Except Failure (Specialized × PoolMemory) :=
  movPacked opcode explOperands dynInfo pool .MOVAPDrr .MOVAPDrm

def movupd : Except Failure (Specialized × PoolMemory) :=
  movPacked opcode explOperands dynInfo pool .MOVUPDrr .MOVUPDrm

def movsd : Except Failure (Specialized × PoolMemory) :=
  if opcode = .MOVSDrr ∧ sameRegister explOperands = true then .ok (.Delete, pool)
  else do
    let out ← output dynInfo 0
    if out.isImm then do
      let imm ← out.getImm64
      if opcode = .MOVSDrm then load .MOVSDrm explOperands (pool.allocConstant64 imm)
      else if opcode = .MOVSDmr ∧ is_simm32 imm = true then
        .ok (withImm .MOV64mi explOperands (.plain imm), pool)
      else .ok (.NoChange, pool)
    else .ok (.NoChange, pool)

def movups : Except Failure (Specialized × PoolMemory) :=
  if opcode = .MOVUPSrr ∧ sameRegister explOperands = true then .ok (.Delete, pool)
  else do
    let out ← output dynInfo 0
    if out.isImm = true ∧ opcode = .MOVUPSrm then do
      let imm ← out.getImm128
      load .MOVUPSrm explOperands (pool.allocConstant128 imm)
    else .ok (.NoChange, pool)

/-- The pop of a register that nobody reads is rewritten, but the source returns that nothing
has changed. -/
def pop : Except Failure (Specialized × PoolMemory) :=
  .ok (.NoChange, pool)

def push16 : Except Failure (Specialized × PoolMemory) := do
  let in0 ← input dynInfo 0
  let known ← getImm in0 context
  .ok (known.elim .NoChange (fun imm => .Change .PUSH16i [.imm imm]), pool)

def push64 : Except Failure (Specialized × PoolMemory) := do
  let in0 ← input dynInfo 0
  let known ← getImm in0 context
  .ok ((known.filter (fun imm => is_simm32 imm.val)).elim .NoChange
    (fun imm => .Change .PUSH64i [.imm imm]), pool)

def pxor : Except Failure (Specialized × PoolMemory) :=
  if opcode = .PXOR128rr ∧ sameRegister explOperands = true then .ok (.NoChange, pool)
  else do
    let out ← output dynInfo 0
    if out.isImm then do
      let imm ← out.getImm128
      load .MOVAPDrm explOperands (pool.allocConstant128 imm)
    else do
      let in1 ← input dynInfo 1
      if in1.isImm then do
        let imm ← in1.getImm128
        load .PXOR128rm explOperands (pool.allocConstant128 imm)
      else .ok (.NoChange, pool)

def shiftCount (m mi r ri : Opcode) : Except Failure (Specialized × PoolMemory) :=
  if opcode = m ∨ opcode = r then do
    let in1 ← input dynInfo 1
    let known ← getImm in1 context
    .ok (known.elim .NoChange (withImm (if opcode = m then mi else ri) explOperands), pool)
  else .ok (.NoChange, pool)

/-- `shl64` and `shr64`; a shift by zero does not even set the flags. -/
def shift (m mi r ri : Opcode) : Except Failure (Specialized × PoolMemory) := do
  let in1 ← input dynInfo 1
  let known ← getImm in1 context
  if known.any (fun imm => imm.val &&& 0x3f == 0) then .ok (.Delete, pool)
  else
    orElse
      (do
        let out ← output dynInfo 0
        let _ ← getImm out context
        if registersWillBeRead livenessData eflags then .ok none
        else moveOutput explOperands dynInfo context (opcode == m || opcode == mi))
      (shiftCount opcode explOperands dynInfo context pool m mi r ri) pool

def shl64 : Except Failure (Specialized × PoolMemory) :=
  shift opcode explOperands dynInfo livenessData context pool .SHL64m .SHL64mi .SHL64r .SHL64ri

def shr64 : Except Failure (Specialized × PoolMemory) :=
  shift opcode explOperands dynInfo livenessData context pool .SHR64m .SHR64mi .SHR64r .SHR64ri

def switch (ri : Opcode) (imm : Immediate64) : Except Failure Specialized :=
  match explOperands.op 1 with
  | some (.reg reg) => .ok (.Change ri [.reg reg, .imm imm])
  | _ => .error .undefined

/-- `test8`, `test16`, `test32` and `test64`; `encodable` says which immediates there are. -/
def test (rr mr mi ri : Opcode) (encodable : BitVec 64 → Bool) :
    Except Failure (Specialized × PoolMemory) :=
  if opcode = rr ∧ sameRegister explOperands = true then .ok (.NoChange, pool)
  else do
    let in1 ← input dynInfo 1
    let known1 ← getImm in1 context
    match known1.filter (fun imm => encodable imm.val) with
    | some imm => .ok (withImm (if opcode = mr then mi else ri) explOperands imm, pool)
    | none => do
        let in0 ← input dynInfo 0
        let known0 ← getImm in0 context
        match known0.filter (fun imm => encodable imm.val) with
        | some imm => do
            let switched ← switch explOperands ri imm
            .ok (switched, pool)
        | none => .ok (.NoChange, pool)

def test8 : Except Failure (Specialized × PoolMemory) :=
  test opcode explOperands dynInfo context pool .TEST8rr .TEST8mr .TEST8mi .TEST8ri
    (fun _ => true)

def test16 : Except Failure (Specialized × PoolMemory) :=
  test opcode explOperands dynInfo context pool .TEST16rr .TEST16mr .TEST16mi .TEST16ri
    (fun _ => true)

def test32 : Except Failure (Specialized × PoolMemory) :=
  test opcode explOperands dynInfo context pool .TEST32rr .TEST32mr .TEST32mi .TEST32ri
    (fun _ => true)

def test64 : Except Failure (Specialized × PoolMemory) :=
  test opcode explOperands dynInfo context pool .TEST64rr .TEST64mr .TEST64mi .TEST64ri is_simm32

def xor32 : Except Failure (Specialized × PoolMemory) :=
  if opcode = .XOR32rr ∧ sameRegister explOperands = true then .ok (.NoChange, pool)
  else do
    let in1 ← input dynInfo 1
    let known ← getImm in1 context
    match known with
    | none => .ok (.NoChange, pool)
    | some imm =>
        if imm.val = 0 ∧ registersWillBeRead livenessData eflags = false then .ok (.Delete, pool)
        else if opcode = .XOR32mr then .ok (withImm .XOR32mi explOperands imm, pool)
        else if opcode = .XOR32rr ∨ opcode = .XOR32rm then
          .ok (withImm .XOR32ri explOperands imm, pool)
        else .ok (.NoChange, pool)

def xor64 : Except Failure (Specialized × PoolMemory) :=
  if opcode = .XOR64rr ∧ sameRegister explOperands = true then .ok (.NoChange, pool)
  else do
    let in1 ← input dynInfo 1
    let known ← getImm in1 context
    match known with
    | none => .ok (.NoChange, pool)
    | some imm =>
        if imm.val = 0 ∧ registersWillBeRead livenessData eflags = false then .ok (.Delete, pool)
        else if is_simm32 imm.val then
          if opcode = .XOR64mr then .ok (withImm .XOR64mi explOperands imm, pool)
          else if opcode = .XOR64rr ∨ opcode = .XOR64rm then
            .ok (withImm .XOR64ri explOperands imm, pool)
          else .ok (.NoChange, pool)
        else if imm.usrPtrNr < 0 ∧ (opcode = .XOR64rr ∨ opcode = .XOR64rm) then
          load .XOR64rm explOperands (pool.allocConstant64 imm.val)
        else .ok (.NoChange, pool)

def handler : SpecializeFn → Option (Except Failure (Specialized × PoolMemory))
  | .nullptr => none
  | .add64 => some (add64 opcode explOperands dynInfo livenessData context pool)
  | .addpd => some (addpd explOperands dynInfo pool)
  | .addsd => some (addsd explOperands dynInfo pool)
  | .cmp8 => some (cmp8 opcode explOperands dynInfo context pool)
  | .cmp16 => some (cmp16 opcode explOperands dynInfo context pool)
  | .cmp32 => some (cmp32 opcode explOperands dynInfo context pool)
  | .cmp64 => some (cmp64 opcode explOperands dynInfo context pool)
  | .lea64 => some (lea64 explOperands dynInfo livenessData context pool)
  | .lea32 => some (lea32 explOperands dynInfo context pool)
  | .lea16 => some (lea16 pool)
  | .mov64 => some (mov64 opcode explOperands dynInfo context pool)
  | .mov32 => some (mov32 opcode explOperands dynInfo context pool)
  | .movapd => some (movapd opcode explOperands dynInfo pool)
  | .movsd => some (movsd opcode explOperands dynInfo pool)
  | .movupd => some (movupd opcode explOperands dynInfo pool)
  | .movups => some (movups opcode explOperands dynInfo pool)
  | .mulpd => some (mulpd explOperands dynInfo pool)
  | .mulsd => some (mulsd explOperands dynInfo pool)
  | .pop => some (pop pool)
  | .push16 => some (push16 dynInfo context pool)
  | .push64 => some (push64 dynInfo context pool)
  | .pxor => some (pxor opcode explOperands dynInfo pool)
  | .shl64 => some (shl64 opcode explOperands dynInfo livenessData context pool)
  | .shr64 => some (shr64 opcode explOperands dynInfo livenessData context pool)
  | .test8 => some (test8 opcode explOperands dynInfo context pool)
  | .test16 => some (test16 opcode explOperands dynInfo context pool)
  | .test32 => some (test32 opcode explOperands dynInfo context pool)
  | .test64 => some (test64 opcode explOperands dynInfo context pool)
  | .xor64 => some (xor64 opcode explOperands dynInfo livenessData context pool)
  | .xor32 => some (xor32 opcode explOperands dynInfo livenessData context pool)

end Handlers

/-- `handleInstruction`: an instruction is left alone if an analysis has no data for it or its
opcode has no handler. -/
def handleInstruction (instruction : Instruction) (dynInfo : Option DynamicInstructionInfo)
    (livenessData : Option LivenessData) (context : Context) (pool : PoolMemory) :
    Except Failure (Specialized × PoolMemory) :=
  match dynInfo, livenessData, instruction.opcodeInfo with
  | some dynInfo, some livenessData, some opi =>
      (handler instruction.opcode instruction.rawOperands dynInfo livenessData context pool
        opi.specialize).getD (.ok (.NoChange, pool))
  | _, _, _ => .ok (.NoChange, pool)

end Specialize

end Drob
