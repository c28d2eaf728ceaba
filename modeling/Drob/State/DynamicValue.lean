import Drob.Arch.Register
import Drob.Library.LittleEndian

/-!
Abstract values: what is known about the content of a register or of a piece of
memory at one point of the program.
-/

namespace Drob

inductive PtrType where
  | stack | usr | ret
  deriving DecidableEq, Repr

inductive DynamicValueType where
  | dead | unknown | tainted | immediate
  | stackPtr | usrPtr | returnPtr
  | tail | stackPtrTail
  deriving DecidableEq, Repr

namespace DynamicValueType

def ofPtr : PtrType → DynamicValueType
  | .stack => .stackPtr
  | .usr => .usrPtr
  | .ret => .returnPtr

def ptr? : DynamicValueType → Option PtrType
  | .stackPtr => some .stack
  | .usrPtr => some .usr
  | .returnPtr => some .ret
  | _ => none

def isPtr (type : DynamicValueType) : Bool :=
  type.ptr?.isSome

def isTail : DynamicValueType → Bool
  | .tail | .stackPtrTail => true
  | _ => false

def tailOf : PtrType → DynamicValueType
  | .stack => .stackPtrTail
  | _ => .tail

def isStackDerived : DynamicValueType → Bool
  | .stackPtr | .stackPtrTail | .tainted => true
  | _ => false

@[simp] theorem ptr?_ofPtr (type : PtrType) : (ofPtr type).ptr? = some type := by
  cases type <;> rfl

@[simp] theorem isPtr_ofPtr (type : PtrType) : (ofPtr type).isPtr = true := by
  cases type <;> rfl

@[simp] theorem isTail_ofPtr (type : PtrType) : (ofPtr type).isTail = false := by
  cases type <;> rfl

@[simp] theorem isTail_tailOf (type : PtrType) : (tailOf type).isTail = true := by
  cases type <;> rfl

@[simp] theorem isPtr_tailOf (type : PtrType) : (tailOf type).isPtr = false := by
  cases type <;> rfl

theorem eq_ofPtr_of_ptr? {type : DynamicValueType} {ptr : PtrType}
    (head : type.ptr? = some ptr) : type = ofPtr ptr := by
  cases type <;> cases head <;> rfl

theorem isPtr_iff (type : DynamicValueType) :
    type.isPtr = true ↔ ∃ ptr, type = ofPtr ptr := by
  constructor
  · intro head
    obtain ⟨ptr, found⟩ := Option.isSome_iff_exists.mp head
    exact ⟨ptr, eq_ofPtr_of_ptr? found⟩
  · rintro ⟨ptr, rfl⟩
    exact isPtr_ofPtr ptr

end DynamicValueType

/-- The constructor of the source refuses tails, and a number or an offset for
anything but a pointer, so these values are not there. -/
inductive DynamicValue where
  | dead
  | unknown
  | tainted
  | imm64 (val : BitVec 64)
  | imm128 (val : BitVec 128)
  | ptr (type : PtrType) (nr : Nat) (ptrOffset : BitVec 64)
  deriving DecidableEq, Repr

namespace DynamicValue

def isImm : DynamicValue → Bool
  | .imm64 _ | .imm128 _ => true
  | _ => false

def isTainted : DynamicValue → Bool
  | .tainted => true
  | _ => false

def isPtr : DynamicValue → Bool
  | .ptr _ _ _ => true
  | _ => false

def isStackPtr : DynamicValue → Bool
  | .ptr .stack _ _ => true
  | _ => false

/-- The immediate size shares its storage with the pointer number and the value
with the pointer offset; both are zero for a value without them. -/
def getImm64 : DynamicValue → Except Failure (BitVec 64)
  | .dead | .unknown | .tainted => .ok 0
  | .imm64 val => .ok val
  | .imm128 val => .ok (val.setWidth 64)
  | .ptr _ 0 ptrOffset => .ok ptrOffset
  | .ptr _ 1 ptrOffset => .ok ptrOffset
  | .ptr _ _ _ => .error (.assertion "drob_assert_not_reached()")

/-- As `getImm64`; for pointer number one the upper half was never written. -/
def getImm128 : DynamicValue → Except Failure (BitVec 128)
  | .dead | .unknown | .tainted => .ok 0
  | .imm64 val => .ok (val.setWidth 128)
  | .imm128 val => .ok val
  | .ptr _ 0 ptrOffset => .ok (ptrOffset.setWidth 128)
  | .ptr _ 1 _ => .error .undefined
  | .ptr _ _ _ => .error (.assertion "drob_assert_not_reached()")

def imm128? : DynamicValue → Option (BitVec 128)
  | .imm64 val => some (val.setWidth 128)
  | .imm128 val => some val
  | _ => none

def imm64? : DynamicValue → Option (BitVec 64)
  | .imm64 val => some val
  | .imm128 val => some (val.setWidth 64)
  | _ => none

theorem isImm_iff (value : DynamicValue) :
    value.isImm = true ↔ ∃ imm, value.imm64? = some imm := by
  cases value <;> simp [isImm, imm64?]

theorem getImm64_of_imm64? {value : DynamicValue} {imm : BitVec 64}
    (known : value.imm64? = some imm) : value.getImm64 = .ok imm := by
  cases value <;> simp_all [imm64?, getImm64]

theorem getImm128_of_imm128? {value : DynamicValue} {imm : BitVec 128}
    (known : value.imm128? = some imm) : value.getImm128 = .ok imm := by
  cases value <;> simp_all [imm128?, getImm128]

abbrev PtrBase := PtrType → Nat → BitVec 64

def Describes (base : PtrBase) {w : Nat} : DynamicValue → BitVec w → Prop
  | .imm64 val, concrete => concrete = val.setWidth w
  | .imm128 val, concrete => concrete = val.setWidth w
  | .ptr type nr ptrOffset, concrete => concrete = (base type nr + ptrOffset).setWidth w
  | _, _ => True

@[simp] theorem describes_unknown (base : PtrBase) {w : Nat} (concrete : BitVec w) :
    Describes base .unknown concrete := trivial

@[simp] theorem describes_dead (base : PtrBase) {w : Nat} (concrete : BitVec w) :
    Describes base .dead concrete := trivial

@[simp] theorem describes_tainted (base : PtrBase) {w : Nat} (concrete : BitVec w) :
    Describes base .tainted concrete := trivial

end DynamicValue

/-- `multiplyDynamicValue` of the source, used for scaled index registers. -/
def multiplyDynamicValue (data : DynamicValue) (scale : BitVec 8) : DynamicValue :=
  if scale = 1 then data
  else match data with
    | .imm64 val => .imm64 (scale.setWidth 64 * val)
    | .imm128 val => .imm64 (scale.setWidth 64 * val.setWidth 64)
    | .ptr .stack _ _ => .tainted
    | .ptr _ _ _ => .unknown
    | .dead => .dead
    | .unknown => .unknown
    | .tainted => .tainted

/-- `addDynamicValues` of the source: offsets wrap modulo 2^64. -/
def addDynamicValues (ptr1 ptr2 : DynamicValue) : DynamicValue :=
  match ptr1.imm64?, ptr2.imm64? with
  | some val1, some val2 => .imm64 (val1 + val2)
  | imm1, imm2 =>
      match ptr1, imm2 with
      | .ptr type nr ptrOffset, some val2 => .ptr type nr (ptrOffset + val2)
      | _, _ =>
          match ptr2, imm1 with
          | .ptr type nr ptrOffset, some val1 => .ptr type nr (ptrOffset + val1)
          | _, _ =>
              if ptr1.isTainted || ptr2.isTainted || ptr1.isStackPtr || ptr2.isStackPtr then
                .tainted
              else .unknown

end Drob
