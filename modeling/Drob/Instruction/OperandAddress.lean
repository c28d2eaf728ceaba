import Drob.Instruction.Dynamic
import Drob.State.Answers

/-!
The address of a memory operand, as the sum that an abstract state computes and as the
processor computes it. The abstract summands can be regrouped, and the abstract sum
describes the address.
-/

namespace Drob

namespace DynamicValue

def offsetBy (value : DynamicValue) (imm : BitVec 64) : DynamicValue :=
  match value with
  | .imm64 val => .imm64 (val + imm)
  | .imm128 val => .imm64 (val.setWidth 64 + imm)
  | .ptr type nr ptrOffset => .ptr type nr (ptrOffset + imm)
  | .tainted => .tainted
  | .unknown | .dead => .unknown

def taints (value : DynamicValue) : Bool :=
  value.isTainted || value.isStackPtr

def lost (tainted : Bool) : DynamicValue :=
  if tainted then .tainted else .unknown

@[simp] theorem imm64?_lost (tainted : Bool) : (lost tainted).imm64? = none := by
  cases tainted <;> rfl

@[simp] theorem taints_lost (tainted : Bool) : (lost tainted).taints = tainted := by
  cases tainted <;> rfl

@[simp] theorem offsetBy_lost (tainted : Bool) (imm : BitVec 64) :
    (lost tainted).offsetBy imm = lost tainted := by
  cases tainted <;> rfl

@[simp] theorem imm64?_offsetBy (value : DynamicValue) (imm : BitVec 64) :
    (value.offsetBy imm).imm64? = value.imm64?.map (fun val => val + imm) := by
  cases value <;> rfl

@[simp] theorem taints_offsetBy (value : DynamicValue) (imm : BitVec 64) :
    (value.offsetBy imm).taints = value.taints := by
  cases value with
  | ptr type nr ptrOffset => cases type <;> rfl
  | _ => rfl

theorem offsetBy_offsetBy (value : DynamicValue) (imm1 imm2 : BitVec 64) :
    (value.offsetBy imm1).offsetBy imm2 = value.offsetBy (imm1 + imm2) := by
  cases value <;> simp only [offsetBy, BitVec.add_assoc]

end DynamicValue

open DynamicValue

/-! ### Sums of abstract values -/

theorem addDynamicValues_comm (ptr1 ptr2 : DynamicValue) :
    addDynamicValues ptr1 ptr2 = addDynamicValues ptr2 ptr1 := by
  cases ptr1 <;> cases ptr2 <;>
    simp [addDynamicValues, imm64?, isTainted, isStackPtr, BitVec.add_comm, Bool.or_comm]

theorem addDynamicValues_imm (ptr1 : DynamicValue) {ptr2 : DynamicValue} {imm : BitVec 64}
    (known : ptr2.imm64? = some imm) : addDynamicValues ptr1 ptr2 = ptr1.offsetBy imm := by
  cases ptr2 with
  | imm64 val =>
      cases known
      cases ptr1 with
      | ptr type nr ptrOffset => rfl
      | _ => rfl
  | imm128 val =>
      cases known
      cases ptr1 with
      | ptr type nr ptrOffset => rfl
      | _ => rfl
  | _ => cases known

theorem addDynamicValues_lost {ptr1 ptr2 : DynamicValue} (unknown1 : ptr1.imm64? = none)
    (unknown2 : ptr2.imm64? = none) :
    addDynamicValues ptr1 ptr2 = lost (ptr1.taints || ptr2.taints) := by
  cases ptr1 <;> cases unknown1 <;> cases ptr2 <;> cases unknown2 <;>
    simp [addDynamicValues, imm64?, lost, taints, isTainted, isStackPtr]

theorem addDynamicValues_offsetBy (ptr1 ptr2 : DynamicValue) (imm : BitVec 64) :
    addDynamicValues ptr1 (ptr2.offsetBy imm) = (addDynamicValues ptr1 ptr2).offsetBy imm := by
  cases known2 : ptr2.imm64? with
  | some val2 =>
      have known : (ptr2.offsetBy imm).imm64? = some (val2 + imm) := by simp [known2]
      rw [addDynamicValues_imm ptr1 known, addDynamicValues_imm ptr1 known2, offsetBy_offsetBy]
  | none =>
      cases known1 : ptr1.imm64? with
      | some val1 =>
          rw [addDynamicValues_comm ptr1, addDynamicValues_comm ptr1,
            addDynamicValues_imm _ known1, addDynamicValues_imm _ known1, offsetBy_offsetBy,
            offsetBy_offsetBy, BitVec.add_comm]
      | none =>
          have unknown : (ptr2.offsetBy imm).imm64? = none := by simp [known2]
          rw [addDynamicValues_lost known1 unknown, addDynamicValues_lost known1 known2,
            taints_offsetBy, offsetBy_lost]

theorem offsetBy_addDynamicValues (ptr1 ptr2 : DynamicValue) (imm : BitVec 64) :
    addDynamicValues (ptr1.offsetBy imm) ptr2 = (addDynamicValues ptr1 ptr2).offsetBy imm := by
  rw [addDynamicValues_comm, addDynamicValues_offsetBy, addDynamicValues_comm]

theorem addDynamicValues_assoc (ptr1 ptr2 ptr3 : DynamicValue) :
    addDynamicValues (addDynamicValues ptr1 ptr2) ptr3 =
      addDynamicValues ptr1 (addDynamicValues ptr2 ptr3) := by
  cases known3 : ptr3.imm64? with
  | some val3 =>
      rw [addDynamicValues_imm _ known3, addDynamicValues_imm ptr2 known3,
        addDynamicValues_offsetBy]
  | none =>
      cases known2 : ptr2.imm64? with
      | some val2 =>
          rw [addDynamicValues_imm ptr1 known2, addDynamicValues_comm ptr2,
            addDynamicValues_imm ptr3 known2, addDynamicValues_offsetBy, offsetBy_addDynamicValues]
      | none =>
          cases known1 : ptr1.imm64? with
          | some val1 =>
              rw [addDynamicValues_comm ptr1, addDynamicValues_comm ptr1,
                addDynamicValues_imm _ known1, addDynamicValues_imm _ known1,
                offsetBy_addDynamicValues]
          | none =>
              rw [addDynamicValues_lost known1 known2, addDynamicValues_lost known2 known3,
                addDynamicValues_lost (imm64?_lost _) known3,
                addDynamicValues_lost known1 (imm64?_lost _), taints_lost, taints_lost,
                Bool.or_assoc]

theorem addDynamicValues_offsetBy_zero (ptr1 ptr2 : DynamicValue) :
    (addDynamicValues ptr1 ptr2).offsetBy 0 = addDynamicValues ptr1 ptr2 := by
  cases known2 : ptr2.imm64? with
  | some val2 =>
      rw [addDynamicValues_imm ptr1 known2, offsetBy_offsetBy]
      exact congrArg ptr1.offsetBy (BitVec.add_zero _)
  | none =>
      cases known1 : ptr1.imm64? with
      | some val1 =>
          rw [addDynamicValues_comm ptr1, addDynamicValues_imm ptr2 known1, offsetBy_offsetBy]
          exact congrArg ptr2.offsetBy (BitVec.add_zero _)
      | none => rw [addDynamicValues_lost known1 known2, offsetBy_lost]

theorem addDynamicValues_zero (ptr1 ptr2 : DynamicValue) :
    addDynamicValues (addDynamicValues ptr1 ptr2) (.imm64 0) = addDynamicValues ptr1 ptr2 := by
  rw [addDynamicValues_imm _ rfl, addDynamicValues_offsetBy_zero]

theorem multiplyDynamicValue_zero (scale : BitVec 8) :
    multiplyDynamicValue (.imm64 0) scale = .imm64 0 := by
  unfold multiplyDynamicValue
  split
  · rfl
  · exact congrArg DynamicValue.imm64 BitVec.mul_zero

theorem calculateMemPtr_SIB (base index disp : DynamicValue) (scale : BitVec 8) :
    calculateMemPtr (.SIB base index disp scale) =
      .ok (addDynamicValues disp (addDynamicValues base (multiplyDynamicValue index scale))) := by
  unfold calculateMemPtr
  dsimp only
  split
  · rename_i baseVal indexVal dispVal knownBase knownIndex knownDisp
    have scaled : (multiplyDynamicValue index scale).imm64? =
        some (scale.setWidth 64 * indexVal) := by
      unfold multiplyDynamicValue
      split
      · rename_i one
        rw [one, knownIndex]
        simp
      · cases index <;> cases knownIndex <;> rfl
    rw [addDynamicValues_imm base scaled, addDynamicValues_comm,
      addDynamicValues_imm _ knownDisp, offsetBy_offsetBy]
    cases base <;> cases knownBase <;> simp only [offsetBy, BitVec.add_assoc]
  · rfl

/-! ### Describing addresses -/

namespace DynamicValue

variable {base : PtrBase}

theorem describes_of_imm64? {value : DynamicValue} {imm concrete : BitVec 64}
    (known : value.imm64? = some imm) : value.Describes base concrete ↔ concrete = imm := by
  cases value with
  | imm64 val =>
      cases known
      change concrete = BitVec.setWidth 64 _ ↔ _
      rw [BitVec.setWidth_eq]
  | imm128 val =>
      cases known
      exact Iff.rfl
  | _ => cases known

theorem Describes.offsetBy {value : DynamicValue} {concrete : BitVec 64}
    (described : value.Describes base concrete) (imm : BitVec 64) :
    (value.offsetBy imm).Describes base (concrete + imm) := by
  cases value with
  | imm64 val =>
      rw [describes_of_imm64? rfl] at described
      exact (describes_of_imm64? rfl).mpr (congrArg (fun sum => sum + imm) described)
  | imm128 val =>
      rw [describes_of_imm64? rfl] at described
      exact (describes_of_imm64? rfl).mpr (congrArg (fun sum => sum + imm) described)
  | ptr type nr ptrOffset =>
      change concrete = (base type nr + ptrOffset).setWidth 64 at described
      change concrete + imm = (base type nr + (ptrOffset + imm)).setWidth 64
      rw [described, BitVec.setWidth_eq, BitVec.setWidth_eq, BitVec.add_assoc]
  | dead => trivial
  | unknown => trivial
  | tainted => trivial

theorem Describes.add {value1 value2 : DynamicValue} {concrete1 concrete2 : BitVec 64}
    (described1 : value1.Describes base concrete1) (described2 : value2.Describes base concrete2) :
    (addDynamicValues value1 value2).Describes base (concrete1 + concrete2) := by
  cases known2 : value2.imm64? with
  | some val2 =>
      rw [addDynamicValues_imm value1 known2, (describes_of_imm64? known2).mp described2]
      exact described1.offsetBy val2
  | none =>
      cases known1 : value1.imm64? with
      | some val1 =>
          rw [addDynamicValues_comm, addDynamicValues_imm value2 known1,
            (describes_of_imm64? known1).mp described1, BitVec.add_comm]
          exact described2.offsetBy val1
      | none =>
          rw [addDynamicValues_lost known1 known2]
          cases value1.taints || value2.taints <;> trivial

theorem Describes.multiply {value : DynamicValue} {concrete : BitVec 64}
    (described : value.Describes base concrete) (scale : BitVec 8) :
    (multiplyDynamicValue value scale).Describes base (scale.setWidth 64 * concrete) := by
  unfold multiplyDynamicValue
  split
  · rename_i one
    rw [one]
    change value.Describes base (1#64 * concrete)
    rw [BitVec.one_mul]
    exact described
  · cases value with
    | imm64 val =>
        rw [(describes_of_imm64? rfl).mp described]
        exact (describes_of_imm64? rfl).mpr rfl
    | imm128 val =>
        rw [(describes_of_imm64? rfl).mp described]
        exact (describes_of_imm64? rfl).mpr rfl
    | ptr type nr ptrOffset => cases type <;> trivial
    | dead => trivial
    | unknown => trivial
    | tainted => trivial

end DynamicValue

/-! ### The address in a concrete state -/

def Concrete.gpr (concrete : Concrete) (reg : Register) : BitVec 64 :=
  word (concrete.reg reg.container) 0 8

def Concrete.addressRegister (concrete : Concrete) (reg : Option Register) : BitVec 64 :=
  reg.elim 0 concrete.gpr

namespace StaticMemPtr

def address (concrete : Concrete) : StaticMemPtr → BitVec 64
  | .direct addr => addr.val
  | .SIB base index disp scale =>
      concrete.addressRegister base + scale.setWidth 64 * concrete.addressRegister index +
        disp.val.signExtend 64

def Wide : StaticMemPtr → Prop
  | .direct _ => True
  | .SIB base index _ _ =>
      (∀ reg ∈ base, reg.type = .gprs64) ∧ ∀ reg ∈ index, reg.type = .gprs64

def Encodes (base : PtrBase) : StaticMemPtr → Prop
  | .direct addr => (immediateValue addr).Describes base addr.val
  | .SIB _ _ disp _ => (dispValue disp).Describes base (disp.val.signExtend 64)

end StaticMemPtr

theorem gpr_slice {reg : Register} (wide : reg.type = .gprs64) {slice : RegisterSlice}
    (found : getRegisterData reg .full = .ok slice) :
    slice = { container := reg.container, byteOffset := 0, bytes := 8 } := by
  cases reg <;> cases found <;> first | rfl | cases wide

section Address

variable {ps : ProgramState} {concrete : Concrete} (answers : ps.Answers concrete)
include answers

theorem gpr_describes {reg : Register} (wide : reg.type = .gprs64) {value : DynamicValue}
    (read : ps.getRegister reg .full = .ok value) :
    value.Describes concrete.base (concrete.gpr reg) := by
  obtain ⟨slice, answer, sliceEq, answered, described⟩ :=
    answers.register reg .full (AccessExists.full reg)
  cases read.symm.trans answered
  cases gpr_slice wide sliceEq
  exact described

theorem addressRegister_describes {reg : Option Register} {value : DynamicValue}
    (wide : ∀ wideReg ∈ reg, wideReg.type = .gprs64)
    (read : addressRegister ps reg = .ok value) :
    value.Describes concrete.base (concrete.addressRegister reg) := by
  cases reg with
  | none =>
      cases read
      exact (describes_of_imm64? rfl).mpr rfl
  | some reg => exact gpr_describes answers (wide reg rfl) read

omit answers in
theorem createMemAccess_SIB {base index : Option Register} {disp : SignedImmediate32}
    {scale : BitVec 8} {mode : AccessMode} {size : Nat} {memAcc : MemAccess}
    (created : createMemAccess { ptr := .SIB base index disp scale, mode, size } ps =
      .ok memAcc) :
    ∃ baseVal indexVal, addressRegister ps base = .ok baseVal ∧
      addressRegister ps index = .ok indexVal ∧
        memAcc =
          { ptrVal :=
              addDynamicValues (dispValue disp)
                (addDynamicValues baseVal (multiplyDynamicValue indexVal scale))
            ptr := .SIB baseVal indexVal (dispValue disp) scale
            mode
            size } := by
  obtain ⟨baseVal, readBase, created⟩ := bind_ok created
  obtain ⟨indexVal, readIndex, created⟩ := bind_ok created
  dsimp only at created
  rw [calculateMemPtr_SIB] at created
  cases created
  exact ⟨baseVal, indexVal, readBase, readIndex, rfl⟩

theorem createMemAccess_describes {m : StaticMemAccess} {memAcc : MemAccess}
    (created : createMemAccess m ps = .ok memAcc) (wide : m.ptr.Wide)
    (encodes : m.ptr.Encodes concrete.base) :
    memAcc.ptrVal.Describes concrete.base (m.ptr.address concrete) := by
  obtain ⟨ptr, mode, size⟩ := m
  cases ptr with
  | direct addr =>
      cases created
      exact encodes
  | SIB base index disp scale =>
      obtain ⟨baseVal, indexVal, readBase, readIndex, rfl⟩ := createMemAccess_SIB created
      change (addDynamicValues _ _).Describes _ (_ + _ + _)
      rw [BitVec.add_comm (_ + _)]
      exact Describes.add encodes
        ((addressRegister_describes answers wide.1 readBase).add
          ((addressRegister_describes answers wide.2 readIndex).multiply scale))

end Address

end Drob
