import Drob.Api.Config

/-!
The translation of the parameters of a function to the registers and stack bytes they
are passed in, with the specification and the entry state that it fills.
-/

namespace Drob

inductive AMD64Class where
  | NONE
  | INTEGER8 | INTEGER16 | INTEGER32 | INTEGER64 | INTEGER128
  | SSE32 | SSE64 | SSE128
  deriving DecidableEq

def drobParamTypeToAMD64 : Option ParamType → Except Failure AMD64Class
  | some .VOID => .ok .NONE
  | some .BOOL | some .CHAR | some .UCHAR | some .INT8 | some .UINT8 => .ok .INTEGER8
  | some .SHORT | some .USHORT | some .INT16 | some .UINT16 => .ok .INTEGER16
  | some .INT | some .UINT | some .UINT32 | some .INT32 => .ok .INTEGER32
  | some .LONG | some .ULONG | some .LONGLONG | some .ULONGLONG | some .INT64 | some .UINT64
  | some .PTR => .ok .INTEGER64
  | some .INT128 | some .UINT128 => .ok .INTEGER128
  | some .FLOAT => .ok .SSE32
  | some .DOUBLE => .ok .SSE64
  | some .M128 | some .FLOAT128 => .ok .SSE128
  | none => .error (.assertion "drob_assert_not_reached()")

/-- The signed types are extended with their sign. -/
def drobParamToImm32 (param : ParamCfg) : Except Failure (BitVec 32) :=
  if param.state ≠ .CONST then .error (.assertion "param.state == DROB_PARAM_STATE_CONST")
  else
    match param.type with
    | some .BOOL | some .UCHAR | some .UINT8 => .ok ((param.value.setWidth 8).setWidth 32)
    | some .CHAR | some .INT8 => .ok ((param.value.setWidth 8).signExtend 32)
    | some .SHORT | some .INT16 => .ok ((param.value.setWidth 16).signExtend 32)
    | some .USHORT | some .UINT16 => .ok ((param.value.setWidth 16).setWidth 32)
    | some .INT | some .UINT | some .INT32 | some .UINT32 => .ok (param.value.setWidth 32)
    | _ => .error (.assertion "drob_assert_not_reached()")

structure StackRange where
  offset : Int
  length : Int
  deriving DecidableEq

structure FunctionSpecification where
  stackIn : List StackRange
  regIn : SubRegisterMask
  regOut : SubRegisterMask
  regPreserved : SubRegisterMask

/-- All data of a `UsrPtrCfg`. -/
structure UsrPtrFullCfg extends UsrPtrCfg where
  isRestrict : Bool
  isNotNull : Bool
  align : BitVec 16

structure RewriterCfg where
  entrySpec : FunctionSpecification
  entryState : ProgramState
  usrPtrCfg : List UsrPtrFullCfg

namespace RewriterCfg

def initial : RewriterCfg :=
  { entrySpec := { stackIn := [], regIn := ∅, regOut := ∅, regPreserved := ∅ }
    entryState := .initial
    usrPtrCfg := [] }

def addStackIn (cfg : RewriterCfg) (range : StackRange) : RewriterCfg :=
  { cfg with entrySpec := { cfg.entrySpec with stackIn := cfg.entrySpec.stackIn ++ [range] } }

def addRegIn (cfg : RewriterCfg) (mask : SubRegisterMask) : RewriterCfg :=
  { cfg with entrySpec := { cfg.entrySpec with regIn := cfg.entrySpec.regIn ∪ mask } }

def addRegOut (cfg : RewriterCfg) (mask : SubRegisterMask) : RewriterCfg :=
  { cfg with entrySpec := { cfg.entrySpec with regOut := cfg.entrySpec.regOut ∪ mask } }

def addRegPreserved (cfg : RewriterCfg) (mask : SubRegisterMask) : RewriterCfg :=
  { cfg with
    entrySpec := { cfg.entrySpec with regPreserved := cfg.entrySpec.regPreserved ∪ mask } }

def withEntryState (cfg : RewriterCfg) (entryState : ProgramState) : RewriterCfg :=
  { cfg with entryState }

def inRegister (cfg : RewriterCfg) (reg : Register) (access : RegisterAccessType)
    (data : DynamicValue) : Except Failure RewriterCfg := do
  let mask ← getSubRegisterMask reg access
  let entryState ← cfg.entryState.setRegister reg access data false
  .ok ((cfg.addRegIn mask).withEntryState entryState)

def inStack (cfg : RewriterCfg) (stackOffset : Int) (bytes : Nat) (data : DynamicValue) :
    Except Failure RewriterCfg := do
  let entryState ← cfg.entryState.setStack stackOffset bytes data false
  .ok ((cfg.addStackIn { offset := stackOffset, length := bytes }).withEntryState entryState)

end RewriterCfg

def translateRet (ret_type : Option ParamType) (cfg : RewriterCfg) :
    Except Failure RewriterCfg := do
  let cfg ← cfg.inStack 0 8 (.ptr .ret 0 0)
  let ret ← drobParamTypeToAMD64 ret_type
  match ret with
  | .NONE => .ok cfg
  | .INTEGER8 => .ok (cfg.addRegOut (fullSubRegisterMask (.gprs8 .A)))
  | .INTEGER16 => .ok (cfg.addRegOut (fullSubRegisterMask (.gprs16 .A)))
  | .INTEGER32 => .ok (cfg.addRegOut (fullSubRegisterMask (.gprs32 .A)))
  | .INTEGER64 => .ok (cfg.addRegOut (fullSubRegisterMask (.gprs64 .A)))
  | .INTEGER128 =>
      .ok ((cfg.addRegOut (fullSubRegisterMask (.gprs64 .D))).addRegOut
        (fullSubRegisterMask (.gprs64 .A)))
  | .SSE32 => do
      let mask ← getSubRegisterMask (.sse128 0) .f0
      .ok (cfg.addRegOut mask)
  | .SSE64 => do
      let mask ← getSubRegisterMask (.sse128 0) .h0
      .ok (cfg.addRegOut mask)
  | .SSE128 => .ok (cfg.addRegOut (fullSubRegisterMask (.sse128 0)))

def integer64_regs : List Register :=
  [.gprs64 .DI, .gprs64 .SI, .gprs64 .D, .gprs64 .C, .gprs64 .R8, .gprs64 .R9]

def integer32_regs : List Register :=
  [.gprs32 .DI, .gprs32 .SI, .gprs32 .D, .gprs32 .C, .gprs32 .R8, .gprs32 .R9]

def sse_regs : List Register :=
  [.sse128 0, .sse128 1, .sse128 2, .sse128 3, .sse128 4, .sse128 5, .sse128 6, .sse128 7]

/-- The counters of `arch_translate_cfg` with what was translated so far. -/
structure Translation where
  cfg : RewriterCfg
  intIdx : Nat
  sseIdx : Nat
  stackOffset : Int

/-- An `int` sum; a signed overflow is undefined. -/
def addInt (left right : Int) : Except Failure Int :=
  if left + right < 2 ^ 31 then .ok (left + right) else .error .undefined

namespace Translation

/-- A parameter on the stack; `slot` is what the offset advances by. -/
def onStack (tr : Translation) (bytes slot : Nat) (data : DynamicValue) :
    Except Failure Translation := do
  let cfg ← tr.cfg.inStack tr.stackOffset bytes data
  let stackOffset ← addInt tr.stackOffset slot
  .ok { tr with cfg, stackOffset }

def integer (tr : Translation) (regs : List Register) (bytes : Nat) (data : DynamicValue) :
    Except Failure Translation :=
  match regs[tr.intIdx]? with
  | some reg => do
      let cfg ← tr.cfg.inRegister reg .full data
      .ok { tr with cfg, intIdx := tr.intIdx + 1 }
  | none => tr.onStack bytes 8 data

def sse (tr : Translation) (access : RegisterAccessType) (bytes slot : Nat)
    (data : DynamicValue) : Except Failure Translation :=
  match sse_regs[tr.sseIdx]? with
  | some reg => do
      let cfg ← tr.cfg.inRegister reg access data
      .ok { tr with cfg, sseIdx := tr.sseIdx + 1 }
  | none => tr.onStack bytes slot data

def align128 (tr : Translation) : Except Failure Translation :=
  if tr.stackOffset % 16 ≠ 0 then do
    let stackOffset ← addInt tr.stackOffset 8
    if stackOffset % 16 = 0 then .ok { tr with stackOffset }
    else .error (.assertion "!(*stackOffset % 16)")
  else .ok tr

def integer128 (tr : Translation) (low high whole : DynamicValue) : Except Failure Translation :=
  match integer64_regs[tr.intIdx]?, integer64_regs[tr.intIdx + 1]? with
  | some first, some second => do
      let cfg ← tr.cfg.inRegister first .full low
      let cfg ← cfg.inRegister second .full high
      .ok { tr with cfg, intIdx := tr.intIdx + 2 }
  | _, _ => do
      let aligned ← tr.align128
      aligned.onStack 16 16 whole

end Translation

def ParamCfg.data (param : ParamCfg) (value : DynamicValue) : DynamicValue :=
  if param.state = .CONST then value else .unknown

def ParamCfg.data32 (param : ParamCfg) : Except Failure DynamicValue :=
  if param.state = .CONST then (drobParamToImm32 param).map (fun val => .imm64 (val.setWidth 64))
  else .ok .unknown

def translateParam (param : ParamCfg) (tr : Translation) : Except Failure Translation := do
  let type ← drobParamTypeToAMD64 param.type
  match type with
  | .INTEGER8 | .INTEGER16 | .INTEGER32 => do
      let data ← param.data32
      tr.integer integer32_regs 4 data
  | .INTEGER64 => tr.integer integer64_regs 8 (param.data (.imm64 (param.value.setWidth 64)))
  | .INTEGER128 =>
      tr.integer128 (param.data (.imm64 (param.value.setWidth 64)))
        (param.data (.imm64 ((param.value >>> 64).setWidth 64))) (param.data (.imm128 param.value))
  | .SSE32 =>
      tr.sse .f0 4 8 (param.data (.imm64 ((param.value.setWidth 32).setWidth 64)))
  | .SSE64 => tr.sse .h0 8 8 (param.data (.imm64 (param.value.setWidth 64)))
  | .SSE128 => tr.sse .full 16 16 (param.data (.imm128 param.value))
  | .NONE => .error (.exception "void not valid for parameter type")

/-- The configuration of a user pointer; a new one is zero. -/
def ParamCfg.usrPtrCfg (param : ParamCfg) : UsrPtrFullCfg :=
  { isKnown := param.state == .CONST
    isConst := param.ptr_flags.getLsbD PtrFlag.CONST.bit
    isRestrict := param.ptr_flags.getLsbD PtrFlag.RESTRICT.bit
    isNotNull := param.ptr_flags.getLsbD PtrFlag.NOTNULL.bit
    align := param.ptr_align
    val := if param.state = .CONST then param.value.setWidth 64 else 0 }

def translatePtr (param : ParamCfg) (tr : Translation) : Except Failure Translation := do
  let nr := tr.cfg.usrPtrCfg.length
  let tr ← tr.integer integer64_regs 8 (.ptr .usr nr 0)
  let usrPtrCfg := tr.cfg.usrPtrCfg ++ [param.usrPtrCfg]
  .ok { tr with cfg := { tr.cfg with usrPtrCfg } }

def translate (param : ParamCfg) (tr : Translation) : Except Failure Translation :=
  if param.type = some .PTR then translatePtr param tr else translateParam param tr

/-- The loop of `arch_translate_cfg` over the parameters. -/
def translateParams : List ParamCfg → Translation → Except Failure Translation
  | [], tr => .ok tr
  | param :: params, tr => do
      let next ← translate param tr
      translateParams params next

/-- A callee-saved register has an unknown value. -/
def preserveRegisters (cfg : RewriterCfg) : List Register → Except Failure RewriterCfg
  | [] => .ok cfg
  | reg :: regs => do
      let entryState ← cfg.entryState.setRegister reg .full .unknown false
      preserveRegisters
        ((cfg.addRegPreserved (fullSubRegisterMask reg)).withEntryState entryState) regs

def arch_translate_cfg (ret_type : Option ParamType) (params : List ParamCfg) :
    Except Failure RewriterCfg := do
  let cfg ← translateRet ret_type .initial
  let tr ← translateParams params { cfg, intIdx := 0, sseIdx := 0, stackOffset := 8 }
  let cfg ← tr.cfg.inRegister .RSP .full (.ptr .stack 0 0)
  preserveRegisters (cfg.addRegPreserved (fullSubRegisterMask .RSP))
    [.gprs64 .B, .gprs64 .BP, .gprs64 .R12, .gprs64 .R13, .gprs64 .R14, .gprs64 .R15]

end Drob
