import Drob.Arch.Register

/-!
Operands of instructions: what an instruction encodes, how an opcode accesses its
operands, and the predicates of conditional instructions.
-/

namespace Drob

inductive TriState where
  | False | True | Unknown
  deriving DecidableEq

namespace TriState

/-- `operator&=` of the source; an unknown right side leaves a true left side. -/
def and : TriState → TriState → TriState
  | .True, .True => .True
  | .False, _ | _, .False => .False
  | lhs, _ => lhs

def or : TriState → TriState → TriState
  | .True, _ | _, .True => .True
  | .Unknown, _ | _, .Unknown => .Unknown
  | lhs, _ => lhs

end TriState

/-! ### Predicates -/

inductive PredComparator where
  | Equal | NotEqual
  deriving DecidableEq

inductive PredConjunction where
  | None | And | Or
  deriving DecidableEq

inductive PredComparand where
  | reg (reg : Register)
  | imm (imm : BitVec 64)
  deriving DecidableEq

structure PredComparison where
  lhs : PredComparand
  comp : PredComparator
  rhs : PredComparand
  con : PredConjunction
  deriving DecidableEq

/-- The second comparison counts only if the first one has a conjunction. -/
structure Predicate where
  first : PredComparison
  second : Option PredComparison
  deriving DecidableEq

def RI (lhs : Register) (comp : PredComparator) (rhs : BitVec 64)
    (con : PredConjunction) : PredComparison :=
  { lhs := .reg lhs, comp, rhs := .imm rhs, con }

def RR (lhs : Register) (comp : PredComparator) (rhs : Register)
    (con : PredConjunction) : PredComparison :=
  { lhs := .reg lhs, comp, rhs := .reg rhs, con }

def Predicate.single (comparison : PredComparison) : Predicate :=
  { first := comparison, second := none }

namespace Predicate

open Register

def B : Predicate := .single (RI CF .Equal 1 .None)
def Z : Predicate := .single (RI ZF .Equal 1 .None)
def S : Predicate := .single (RI SF .Equal 1 .None)
def P : Predicate := .single (RI PF .Equal 1 .None)
def O : Predicate := .single (RI OF .Equal 1 .None)
def NB : Predicate := .single (RI CF .Equal 0 .None)
def NZ : Predicate := .single (RI ZF .Equal 0 .None)
def NS : Predicate := .single (RI SF .Equal 0 .None)
def NP : Predicate := .single (RI PF .Equal 0 .None)
def NO : Predicate := .single (RI OF .Equal 0 .None)
def ECX0 : Predicate := .single (RI ECX .Equal 0 .None)
def RCX0 : Predicate := .single (RI RCX .Equal 0 .None)
def NL : Predicate := .single (RR SF .Equal OF .None)
def L : Predicate := .single (RR SF .NotEqual OF .None)

def BE : Predicate :=
  { first := RI CF .Equal 1 .Or, second := some (RI ZF .Equal 1 .None) }

def LE : Predicate :=
  { first := RI ZF .Equal 1 .Or, second := some (RR SF .NotEqual OF .None) }

def NBE : Predicate :=
  { first := RI CF .Equal 0 .And, second := some (RI ZF .Equal 0 .None) }

def NLE : Predicate :=
  { first := RI ZF .Equal 0 .And, second := some (RR SF .Equal OF .None) }

def comparisons (predicate : Predicate) : List PredComparison :=
  if predicate.first.con = .None then [predicate.first]
  else predicate.first :: predicate.second.toList

end Predicate

/-! ### Encoded operands -/

/-- `usrPtrNr` is negative for a plain value. -/
structure Immediate64 where
  val : BitVec 64
  usrPtrNr : Int
  usrPtrOffset : BitVec 64
  deriving DecidableEq

structure SignedImmediate32 where
  val : BitVec 32
  usrPtrNr : Int
  usrPtrOffset : BitVec 64
  deriving DecidableEq

def SignedImmediate32.plain (val : BitVec 32) : SignedImmediate32 :=
  { val, usrPtrNr := -1, usrPtrOffset := 0 }

def Immediate64.plain (val : BitVec 64) : Immediate64 :=
  { val, usrPtrNr := -1, usrPtrOffset := 0 }

inductive StaticMemPtr where
  | direct (addr : Immediate64)
  | SIB (base index : Option Register) (disp : SignedImmediate32) (scale : BitVec 8)
  deriving DecidableEq

/-- The union of the source; which member is valid follows from the opcode. -/
inductive StaticOperand where
  | reg (reg : Register)
  | imm (imm : Immediate64)
  | mem (mem : StaticMemPtr)
  deriving DecidableEq

abbrev ExplicitStaticOperands := List StaticOperand

def ExplicitStaticOperands.op (explOperands : ExplicitStaticOperands) (i : Nat) :
    Option StaticOperand :=
  (explOperands : List StaticOperand)[i]?

/-! ### Accesses -/

inductive AccessMode where
  /-- No access, for example after refining the access mode. -/
  | None
  | Address
  | Read | MayRead | Write | MayWrite
  | ReadWrite | MayReadWrite | ReadMayWrite | MayReadMayWrite
  deriving DecidableEq

namespace AccessMode

def isRead : AccessMode → Bool
  | .Read | .MayRead | .ReadWrite | .MayReadWrite | .ReadMayWrite | .MayReadMayWrite => true
  | _ => false

def isWrite : AccessMode → Bool
  | .Write | .MayWrite | .ReadWrite | .MayReadWrite | .ReadMayWrite | .MayReadMayWrite => true
  | _ => false

def isConditional : AccessMode → Bool
  | .MayRead | .MayWrite | .MayReadWrite | .ReadMayWrite | .MayReadMayWrite => true
  | _ => false

def isSpecial : AccessMode → Bool
  | .Address => true
  | _ => false

end AccessMode

/-- `size` is the number of bytes of a `MemAccessSize`, zero for `Unknown`. -/
structure StaticMemAccess where
  ptr : StaticMemPtr
  mode : AccessMode
  size : Nat
  deriving DecidableEq

structure StaticRegAccess where
  reg : Register
  mode : AccessMode
  r : RegisterAccessType
  w : RegisterAccessType
  deriving DecidableEq

/-- The immediates of `OperandType`. -/
inductive ImmediateType where
  | Immediate8 | Immediate16 | Immediate32 | Immediate64 | SignedImmediate32
  deriving DecidableEq

inductive ExplicitStaticOperandInfo where
  | register (type : RegisterType) (mode : AccessMode) (r w : RegisterAccessType)
  | memPtr (mode : AccessMode) (size : Nat)
  | immediate (type : ImmediateType)
  deriving DecidableEq

inductive StaticOperandInfo where
  | register (r : StaticRegAccess)
  | memPtr (m : StaticMemAccess)
  | immediate (type : ImmediateType) (imm : Drob.Immediate64)
  deriving DecidableEq

def ImmediateType.holds : ImmediateType → BitVec 64 → Prop
  | .Immediate8, val => val < 2 ^ 8
  | .Immediate16, val => val < 2 ^ 16
  | .Immediate32, val => val < 2 ^ 32
  | .Immediate64, _ => True
  | .SignedImmediate32, val => val = (val.setWidth 32).signExtend 64

instance (type : ImmediateType) (val : BitVec 64) : Decidable (type.holds val) := by
  cases type <;> unfold ImmediateType.holds <;> infer_instance

def AddressRegister (reg : Register) : Prop :=
  reg.type = .gprs64 ∨ reg.type = .gprs32

instance (reg : Register) : Decidable (AddressRegister reg) :=
  inferInstanceAs (Decidable (_ ∨ _))

def StaticMemPtr.HasType : StaticMemPtr → Prop
  | .direct _ => True
  | .SIB base index _ scale =>
      (∀ reg ∈ base, AddressRegister reg) ∧ (∀ reg ∈ index, AddressRegister reg) ∧
        (scale = 0 ∨ scale = 1 ∨ scale = 2 ∨ scale = 4 ∨ scale = 8)

def StaticOperand.HasType : StaticOperand → ExplicitStaticOperandInfo → Prop
  | .reg operand, .register type _ _ _ => operand.type = type
  | .mem ptr, .memPtr _ _ => ptr.HasType
  | .imm value, .immediate type => type.holds value.val
  | _, _ => False

end Drob
