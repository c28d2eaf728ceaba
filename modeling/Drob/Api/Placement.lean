import Drob.Api.Abi
import Drob.State.Rank

/-!
Where the System V ABI places the parameters of a function, and what an entry state
says about these places.
-/

namespace Drob

open LittleEndian

/-! ### The places of the ABI -/

inductive AbiClass where
  | integer (bytes : Nat)
  | integer128
  | sse (bytes : Nat)
  deriving DecidableEq

def ParamType.abiClass : ParamType → Option AbiClass
  | .VOID => none
  | .BOOL | .CHAR | .UCHAR | .INT8 | .UINT8 | .SHORT | .USHORT | .INT16 | .UINT16
  | .INT | .UINT | .INT32 | .UINT32 => some (.integer 4)
  | .LONG | .ULONG | .LONGLONG | .ULONGLONG | .INT64 | .UINT64 | .PTR => some (.integer 8)
  | .INT128 | .UINT128 => some .integer128
  | .FLOAT => some (.sse 4)
  | .DOUBLE => some (.sse 8)
  | .M128 | .FLOAT128 => some (.sse 16)

def ParamType.isSigned : ParamType → Bool
  | .CHAR | .INT8 | .SHORT | .INT16 => true
  | _ => false

inductive Place where
  | register (reg : Register) (access : RegisterAccessType)
  | stack (offset : Int)

structure Slot where
  place : Place
  bytes : Nat
  value : DynamicValue

structure AbiState where
  ints : Nat
  sses : Nat
  slots : Nat
  pointers : Nat

def argumentGprs : List Gpr :=
  [.DI, .SI, .D, .C, .R8, .R9]

/-- A parameter of at most 32 bits is extended by the caller. -/
def ParamCfg.extended (param : ParamCfg) (type : ParamType) : BitVec 32 :=
  if type.isSigned then (param.value.setWidth type.valueWidth).signExtend 32
  else (param.value.setWidth type.valueWidth).setWidth 32

namespace AbiState

def start : AbiState :=
  { ints := 0, sses := 0, slots := 0, pointers := 0 }

def top (abi : AbiState) : Int :=
  8 + 8 * abi.slots

/-- RSP + 8 is aligned to 16 bytes, so every other slot is. -/
def aligned (abi : AbiState) : AbiState :=
  { abi with slots := abi.slots + abi.slots % 2 }

def value (abi : AbiState) (param : ParamCfg) (type : ParamType) : DynamicValue :=
  match type, type.abiClass with
  | .PTR, _ => .ptr .usr abi.pointers 0
  | _, some (.integer 4) => param.data (.imm64 ((param.extended type).setWidth 64))
  | _, some (.sse 4) => param.data (.imm64 ((param.value.setWidth 32).setWidth 64))
  | _, some (.sse 16) | _, some .integer128 => param.data (.imm128 param.value)
  | _, _ => param.data (.imm64 (param.value.setWidth 64))

def onStack (abi : AbiState) (bytes slots : Nat) (value : DynamicValue) : List Slot × AbiState :=
  ([{ place := .stack abi.top, bytes, value }], { abi with slots := abi.slots + slots })

def integerReg (bytes : Nat) (gpr : Gpr) : Register :=
  if bytes = 8 then .gprs64 gpr else .gprs32 gpr

def integer (abi : AbiState) (bytes : Nat) (value : DynamicValue) : List Slot × AbiState :=
  match argumentGprs[abi.ints]? with
  | some gpr =>
      ([{ place := .register (integerReg bytes gpr) .full, bytes, value }],
        { abi with ints := abi.ints + 1 })
  | none => abi.onStack bytes 1 value

def integer128 (abi : AbiState) (low high whole : DynamicValue) : List Slot × AbiState :=
  match argumentGprs[abi.ints]?, argumentGprs[abi.ints + 1]? with
  | some first, some second =>
      ([{ place := .register (.gprs64 first) .full, bytes := 8, value := low },
        { place := .register (.gprs64 second) .full, bytes := 8, value := high }],
        { abi with ints := abi.ints + 2 })
  | _, _ => abi.aligned.onStack 16 2 whole

def sseAccess (bytes : Nat) : RegisterAccessType :=
  if bytes = 4 then .f0 else if bytes = 8 then .h0 else .full

def sse (abi : AbiState) (bytes : Nat) (value : DynamicValue) : List Slot × AbiState :=
  match sse_regs[abi.sses]? with
  | some reg =>
      ([{ place := .register reg (sseAccess bytes), bytes, value }],
        { abi with sses := abi.sses + 1 })
  | none => if bytes = 16 then abi.aligned.onStack 16 2 value else abi.onStack bytes 1 value

def place (abi : AbiState) (param : ParamCfg) : List Slot × AbiState :=
  match param.type with
  | none => ([], abi)
  | some type =>
      let counted := { abi with pointers := abi.pointers + if type = ParamType.PTR then 1 else 0 }
      match type.abiClass with
      | none => ([], abi)
      | some (.integer bytes) => counted.integer bytes (abi.value param type)
      | some .integer128 =>
          counted.integer128 (param.data (.imm64 (param.value.setWidth 64)))
            (param.data (.imm64 ((param.value >>> 64).setWidth 64))) (abi.value param type)
      | some (.sse bytes) => counted.sse bytes (abi.value param type)

def placeAll (abi : AbiState) : List ParamCfg → List Slot
  | [] => []
  | param :: params => (abi.place param).1 ++ (abi.place param).2.placeAll params

def after (abi : AbiState) : List ParamCfg → AbiState
  | [] => abi
  | param :: params => (abi.place param).2.after params

end AbiState

/-! ### What an entry state says about them -/

inductive Location where
  | register (container : Container) (byte : Nat)
  | stack (offset : Int)
  deriving DecidableEq

def ProgramState.elemAt (ps : ProgramState) : Location → Element
  | .register container byte => (ps.reg container).elem byte
  | .stack offset => ps.stack.elemAt offset

/-- The registers of the parameters start at the first byte of their container. -/
def Place.byte (place : Place) (i : Nat) : Location :=
  match place with
  | .register reg _ => .register reg.container i
  | .stack offset => .stack (offset + i)

def Slot.Covers (slot : Slot) (location : Location) : Prop :=
  ∃ i, i < slot.bytes ∧ location = slot.place.byte i

/-- Byte `i` of a value. -/
def Element.Holds (element : Element) (i : Nat) : DynamicValue → Prop
  | .dead => element.type = .dead
  | .unknown => element.type = .unknown
  | .tainted => element.type = .tainted
  | .imm64 val => element.type = .immediate ∧ element.data = byte val i
  | .imm128 val => element.type = .immediate ∧ element.data = byte val i
  | .ptr type nr ptrOffset =>
      element.type = (if i = 0 then .ofPtr type else .tailOf type) ∧
        (i = 0 → element.nr.toNat = nr) ∧ element.data = byte ptrOffset i

def Slot.range? (slot : Slot) : Option StackRange :=
  match slot.place with
  | .register _ _ => none
  | .stack offset => some { offset, length := slot.bytes }

def Slot.mask (slot : Slot) : SubRegisterMask :=
  match slot.place with
  | .register reg access => (getSubRegisterMask reg access).toOption.getD ∅
  | .stack _ => ∅

def Location.Reserved : Location → Prop
  | .register container _ => container = .gprs64 .SP
  | .stack offset => 0 ≤ offset ∧ offset < 8

def ParamCfg.knownPtr (param : ParamCfg) : Option (BitVec 64) :=
  if param.state = .CONST then some (param.value.setWidth 64) else none

def UsrPtrFullCfg.known (cfg : UsrPtrFullCfg) : Option (BitVec 64) :=
  if cfg.isKnown then some cfg.val else none

/-- Every parameter is at its place, nothing else is known, and no byte is shared. -/
structure Placed (params : List ParamCfg) (cfg : RewriterCfg) : Prop where
  ranges : cfg.entrySpec.stackIn =
    { offset := 0, length := 8 } :: (AbiState.start.placeAll params).filterMap Slot.range?
  registers : ∀ sub, sub ∈ cfg.entrySpec.regIn ↔
    (∃ slot ∈ AbiState.start.placeAll params, sub ∈ slot.mask) ∨ sub ∈ fullSubRegisterMask .RSP
  values : ∀ slot ∈ AbiState.start.placeAll params, ∀ i, i < slot.bytes →
    (cfg.entryState.elemAt (slot.place.byte i)).Holds i slot.value
  nothingElse : ∀ location, ¬ location.Reserved →
    (∀ slot ∈ AbiState.start.placeAll params, ¬ slot.Covers location) →
    (cfg.entryState.elemAt location).type = .dead ∨
      (cfg.entryState.elemAt location).type = .unknown
  pointers : cfg.usrPtrCfg.map UsrPtrFullCfg.known =
    (params.filter (fun param => param.type = some .PTR)).map ParamCfg.knownPtr
  apart : (AbiState.start.placeAll params).Pairwise
    (fun left right => ∀ location, left.Covers location → ¬ right.Covers location)

end Drob
