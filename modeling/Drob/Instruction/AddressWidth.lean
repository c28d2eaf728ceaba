import Drob.Instruction.OperandAddress

/-!
Memory operands of both address sizes. With 32-bit address registers the processor
truncates the sum of the parts, and the abstract address is the sum as it is.
-/

namespace Drob

open DynamicValue LittleEndian

def Concrete.registerValue (concrete : Concrete) (reg : Register) : BitVec 64 :=
  if reg.type = .gprs32 then ((concrete.gpr reg).setWidth 32).setWidth 64 else concrete.gpr reg

namespace StaticMemPtr

/-- An address register has 32 bits: the operand needs the address size prefix. -/
def addr32 : StaticMemPtr → Bool
  | .direct _ => false
  | .SIB base index _ _ =>
      base.any (fun reg => reg.type == .gprs32) || index.any (fun reg => reg.type == .gprs32)

/-- All address registers have 32 bits. -/
def Narrow : StaticMemPtr → Prop
  | .direct _ => False
  | .SIB base index _ _ =>
      (∀ reg ∈ base, reg.type = .gprs32) ∧ ∀ reg ∈ index, reg.type = .gprs32

def sum (read : Register → BitVec 64) : StaticMemPtr → BitVec 64
  | .direct addr => addr.val
  | .SIB base index disp scale =>
      base.elim 0 read + scale.setWidth 64 * index.elim 0 read + disp.val.signExtend 64

/-- The effective address: with 32-bit registers the sum is truncated and zero extended. -/
def effectiveAddress (read : Register → BitVec 64) (ptr : StaticMemPtr) : BitVec 64 :=
  if ptr.addr32 then ((ptr.sum read).setWidth 32).setWidth 64 else ptr.sum read

def RegisterKnown (ps : ProgramState) (reg : Register) : Prop :=
  ∃ value imm, ps.getRegister reg .full = .ok value ∧ value.imm64? = some imm

def RegistersKnown (ps : ProgramState) : StaticMemPtr → Prop
  | .direct _ => True
  | .SIB base index _ _ =>
      (∀ reg ∈ base, RegisterKnown ps reg) ∧ ∀ reg ∈ index, RegisterKnown ps reg

end StaticMemPtr

/-- The abstract address exists and describes the effective address. -/
def SoundAddress (ps : ProgramState) (concrete : Concrete) (m : StaticMemAccess) : Prop :=
  ∃ memAcc, createMemAccess m ps = .ok memAcc ∧
    memAcc.ptrVal.Describes concrete.base (m.ptr.effectiveAddress concrete.registerValue)

/-! ### 32-bit registers -/

/-- What four bytes hold: never a pointer, and an immediate is zero extended. -/
inductive DynamicValue.Narrow : DynamicValue → Prop
  | imm {val : BitVec 64} (small : (val.setWidth 32).setWidth 64 = val) : Narrow (.imm64 val)
  | lost {value : DynamicValue} (unknown : value.imm64? = none) (plain : value.isPtr = false) :
      Narrow value

theorem getElements_narrow {estate : Elements} {byteOffset : Nat} {value : DynamicValue}
    (read : estate.getElements byteOffset 4 = .ok value) : value.Narrow := by
  unfold Elements.getElements at read
  dsimp only at read
  split at read
  · cases read
    exact .lost rfl rfl
  · rename_i notTainted
    split at read
    · cases read
      exact .lost rfl rfl
    · split at read
      · rename_i stackPtr
        exact absurd (by simp [stackPtr]) notTainted
      · split at read
        · cases read
          exact .lost rfl rfl
        · split at read
          · cases read
            refine .imm ?_
            unfold Elements.readData
            rw [setWidth_ofBytes _ (by decide), setWidth_ofBytes _ (by decide)]
          · split at read <;> cases read <;> exact .lost rfl rfl

theorem gpr32_slice {reg : Register} (narrow : reg.type = .gprs32) {slice : RegisterSlice}
    (found : getRegisterData reg .full = .ok slice) :
    slice = { container := reg.container, byteOffset := 0, bytes := 4 } := by
  cases reg <;> cases found <;> first | rfl | cases narrow

theorem word_low (bytes : Nat → BitVec 8) (start : Nat) :
    word bytes start 4 = (word bytes start 8).setWidth 32 := by
  unfold word
  apply BitVec.eq_of_getLsbD_eq
  intro k below
  rw [BitVec.getLsbD_setWidth, getLsbD_ofBytes, getLsbD_ofBytes]
  have inWord : k < 8 * 8 := by omega
  simp [below, inWord]

theorem DynamicValue.Narrow.describes {base : PtrBase} {value : DynamicValue}
    (narrow : value.Narrow) {concrete : BitVec 32} (described : value.Describes base concrete) :
    value.Describes base (concrete.setWidth 64) := by
  cases narrow with
  | @imm val small =>
      have same : concrete = val.setWidth 32 := described
      rw [describes_of_imm64? rfl, same]
      exact small
  | lost unknown plain =>
      cases value with
      | imm64 val => cases unknown
      | imm128 val => cases unknown
      | ptr type nr ptrOffset => cases plain
      | dead => trivial
      | unknown => trivial
      | tainted => trivial

theorem DynamicValue.Describes.unique {base : PtrBase} {value : DynamicValue}
    (known : value.isImm = true ∨ value.isPtr = true) {concrete1 concrete2 : BitVec 64}
    (first : value.Describes base concrete1) (second : value.Describes base concrete2) :
    concrete1 = concrete2 := by
  cases value with
  | imm64 val =>
      rw [describes_of_imm64? rfl] at first second
      rw [first, second]
  | imm128 val =>
      rw [describes_of_imm64? rfl] at first second
      rw [first, second]
  | ptr type nr ptrOffset =>
      change _ = (base type nr + ptrOffset).setWidth 64 at first second
      rw [first, second]
  | dead => rcases known with impossible | impossible <;> cases impossible
  | unknown => rcases known with impossible | impossible <;> cases impossible
  | tainted => rcases known with impossible | impossible <;> cases impossible

/-! ### Sums with a part that is not known -/

theorem addDynamicValues_of_lost {value1 : DynamicValue} (unknown : value1.imm64? = none)
    (plain : value1.isPtr = false) (value2 : DynamicValue) :
    ∃ tainted, addDynamicValues value1 value2 = DynamicValue.lost tainted := by
  cases known : value2.imm64? with
  | none => exact ⟨_, addDynamicValues_lost unknown known⟩
  | some imm =>
      rw [addDynamicValues_imm value1 known]
      cases value1 with
      | imm64 val => cases unknown
      | imm128 val => cases unknown
      | ptr type nr ptrOffset => cases plain
      | dead => exact ⟨false, rfl⟩
      | unknown => exact ⟨false, rfl⟩
      | tainted => exact ⟨true, rfl⟩

theorem multiplyDynamicValue_of_lost {value : DynamicValue} (unknown : value.imm64? = none)
    (plain : value.isPtr = false) (scale : BitVec 8) :
    (multiplyDynamicValue value scale).imm64? = none ∧
      (multiplyDynamicValue value scale).isPtr = false := by
  unfold multiplyDynamicValue
  split
  · exact ⟨unknown, plain⟩
  · cases value with
    | imm64 val => cases unknown
    | imm128 val => cases unknown
    | ptr type nr ptrOffset => cases plain
    | dead => exact ⟨rfl, rfl⟩
    | unknown => exact ⟨rfl, rfl⟩
    | tainted => exact ⟨rfl, rfl⟩

theorem sum_lost {baseVal indexVal : DynamicValue} (narrowBase : baseVal.Narrow)
    (narrowIndex : indexVal.Narrow) (lost : baseVal.imm64? = none ∨ indexVal.imm64? = none)
    (dispVal : DynamicValue) (scale : BitVec 8) :
    ∃ tainted, addDynamicValues dispVal
      (addDynamicValues baseVal (multiplyDynamicValue indexVal scale)) =
        DynamicValue.lost tainted := by
  have registers : ∃ tainted, addDynamicValues baseVal (multiplyDynamicValue indexVal scale) =
      DynamicValue.lost tainted := by
    rcases lost with unknown | unknown
    · cases narrowBase with
      | imm small => cases unknown
      | lost _ plain => exact addDynamicValues_of_lost unknown plain _
    · cases narrowIndex with
      | imm small => cases unknown
      | lost _ plain =>
          obtain ⟨scaled, scaledPlain⟩ := multiplyDynamicValue_of_lost unknown plain scale
          rw [addDynamicValues_comm]
          exact addDynamicValues_of_lost scaled scaledPlain _
  obtain ⟨tainted, registers⟩ := registers
  rw [registers, addDynamicValues_comm]
  refine addDynamicValues_of_lost (imm64?_lost tainted) ?_ dispVal
  cases tainted <;> rfl

theorem sum_known {baseVal indexVal : DynamicValue} {base index : BitVec 64}
    (knownBase : baseVal.imm64? = some base) (knownIndex : indexVal.imm64? = some index)
    (disp : SignedImmediate32) (scale : BitVec 8) :
    let sum := addDynamicValues (dispValue disp)
      (addDynamicValues baseVal (multiplyDynamicValue indexVal scale))
    sum.isImm = true ∨ sum.isPtr = true := by
  have scaled : ∃ imm, (multiplyDynamicValue indexVal scale).imm64? = some imm := by
    unfold multiplyDynamicValue
    split
    · exact ⟨index, knownIndex⟩
    · cases indexVal <;> cases knownIndex <;> exact ⟨_, rfl⟩
  obtain ⟨imm, scaled⟩ := scaled
  have registers : (addDynamicValues baseVal (multiplyDynamicValue indexVal scale)).imm64? =
      some (base + imm) := by
    rw [addDynamicValues_imm baseVal scaled, imm64?_offsetBy, knownBase]
    rfl
  intro sum
  change (addDynamicValues _ _).isImm = true ∨ (addDynamicValues _ _).isPtr = true
  rw [addDynamicValues_imm _ registers]
  unfold dispValue
  split
  · exact Or.inl rfl
  · exact Or.inr rfl

/-! ### Both address sizes -/

theorem setWidth_eq_self_iff (val : BitVec 64) :
    (val.setWidth 32).setWidth 64 = val ↔ val.toNat < 2 ^ 32 := by
  rw [← BitVec.toNat_inj, BitVec.toNat_setWidth, BitVec.toNat_setWidth]
  omega

theorem addr32_of_narrow {base index : Option Register} {disp : SignedImmediate32}
    {scale : BitVec 8} (narrow : (StaticMemPtr.SIB base index disp scale).Narrow) :
    (StaticMemPtr.SIB base index disp scale).addr32 = false ↔ base = none ∧ index = none := by
  cases base with
  | none =>
      cases index with
      | none => exact ⟨fun _ => ⟨rfl, rfl⟩, fun _ => rfl⟩
      | some reg =>
          have isNarrow := narrow.2 reg rfl
          simp [StaticMemPtr.addr32, isNarrow]
  | some reg =>
      have isNarrow := narrow.1 reg rfl
      simp [StaticMemPtr.addr32, isNarrow]

theorem addr32_of_wide {ptr : StaticMemPtr} (wide : ptr.Wide) : ptr.addr32 = false := by
  cases ptr with
  | direct addr => rfl
  | SIB base index disp scale =>
      obtain ⟨wideBase, wideIndex⟩ := wide
      cases base <;> cases index <;> simp_all [StaticMemPtr.addr32]

theorem sum_of_wide {ptr : StaticMemPtr} (wide : ptr.Wide) (concrete : Concrete) :
    ptr.sum concrete.registerValue = ptr.address concrete := by
  cases ptr with
  | direct addr => rfl
  | SIB base index disp scale =>
      have value (reg : Option Register) (isWide : ∀ wideReg ∈ reg, wideReg.type = .gprs64) :
          reg.elim 0 concrete.registerValue = concrete.addressRegister reg := by
        cases reg with
        | none => rfl
        | some reg =>
            change concrete.registerValue reg = concrete.gpr reg
            unfold Concrete.registerValue
            rw [isWide reg rfl, if_neg RegisterType.noConfusion]
      unfold StaticMemPtr.sum StaticMemPtr.address
      dsimp only
      rw [value base wide.1, value index wide.2]

section Address

variable {ps : ProgramState} {concrete : Concrete} (answers : ps.Answers concrete)
include answers

theorem addressRegister_ok {reg : Option Register}
    (narrow : ∀ narrowReg ∈ reg, narrowReg.type = .gprs32) :
    ∃ value, addressRegister ps reg = .ok value ∧ value.Narrow ∧
      value.Describes concrete.base (reg.elim 0 concrete.registerValue) := by
  cases reg with
  | none => exact ⟨.imm64 0, rfl, .imm rfl, (describes_of_imm64? rfl).mpr rfl⟩
  | some reg =>
      have isNarrow := narrow reg rfl
      obtain ⟨slice, value, sliceEq, answered, described⟩ :=
        answers.register reg .full (AccessExists.full reg)
      have whole := gpr32_slice isNarrow sliceEq
      subst whole
      have fourBytes : value.Narrow := by
        unfold ProgramState.getRegister at answered
        rw [sliceEq] at answered
        exact getElements_narrow answered
      refine ⟨value, answered, fourBytes, ?_⟩
      have extended := fourBytes.describes described
      change value.Describes concrete.base (concrete.registerValue reg)
      unfold Concrete.registerValue Concrete.gpr
      rw [if_pos isNarrow, ← word_low]
      exact extended

theorem createMemAccess_narrow {base index : Option Register} {disp : SignedImmediate32}
    {scale : BitVec 8} (mode : AccessMode) (size : Nat)
    (narrow : (StaticMemPtr.SIB base index disp scale).Narrow)
    (encodes : (StaticMemPtr.SIB base index disp scale).Encodes concrete.base) :
    ∃ memAcc baseVal indexVal,
      createMemAccess { ptr := .SIB base index disp scale, mode, size } ps = .ok memAcc ∧
        addressRegister ps base = .ok baseVal ∧ addressRegister ps index = .ok indexVal ∧
          baseVal.Narrow ∧ indexVal.Narrow ∧
            memAcc.ptrVal = addDynamicValues (dispValue disp)
              (addDynamicValues baseVal (multiplyDynamicValue indexVal scale)) ∧
              memAcc.ptrVal.Describes concrete.base
                ((StaticMemPtr.SIB base index disp scale).sum concrete.registerValue) := by
  obtain ⟨baseVal, readBase, narrowBase, describedBase⟩ := addressRegister_ok answers narrow.1
  obtain ⟨indexVal, readIndex, narrowIndex, describedIndex⟩ := addressRegister_ok answers narrow.2
  have created : createMemAccess { ptr := .SIB base index disp scale, mode, size } ps = .ok
      { ptrVal := addDynamicValues (dispValue disp)
          (addDynamicValues baseVal (multiplyDynamicValue indexVal scale))
        ptr := .SIB baseVal indexVal (dispValue disp) scale
        mode
        size } := by
    unfold createMemAccess
    dsimp only
    rw [readBase, readIndex]
    change (do
      let ptrVal ← calculateMemPtr (.SIB baseVal indexVal (dispValue disp) scale)
      Except.ok (MemAccess.mk ptrVal (.SIB baseVal indexVal (dispValue disp) scale) mode size)) = _
    rw [calculateMemPtr_SIB]
    rfl
  refine ⟨_, baseVal, indexVal, created, readBase, readIndex, narrowBase, narrowIndex, rfl, ?_⟩
  change (addDynamicValues _ _).Describes _ (_ + _ + _)
  rw [BitVec.add_comm (_ + _)]
  exact Describes.add encodes (describedBase.add (describedIndex.multiply scale))

end Address

variable {ps : ProgramState} {concrete : Concrete} {m : StaticMemAccess}

theorem soundAddress_of_wide (answers : ps.Answers concrete) (wide : m.ptr.Wide)
    (encodes : m.ptr.Encodes concrete.base) : SoundAddress ps concrete m := by
  obtain ⟨ptr, mode, size⟩ := m
  have created : ∃ memAcc, createMemAccess { ptr, mode, size } ps = .ok memAcc := by
    cases ptr with
    | direct addr => exact ⟨_, rfl⟩
    | SIB base index disp scale =>
        have value (reg : Option Register) : ∃ value, addressRegister ps reg = .ok value := by
          cases reg with
          | none => exact ⟨_, rfl⟩
          | some reg =>
              obtain ⟨_, value, _, answered, _⟩ :=
                answers.register reg .full (AccessExists.full reg)
              exact ⟨value, answered⟩
        obtain ⟨baseVal, readBase⟩ := value base
        obtain ⟨indexVal, readIndex⟩ := value index
        unfold createMemAccess
        dsimp only
        rw [readBase, readIndex]
        change ∃ memAcc, (do
          let ptrVal ← calculateMemPtr (.SIB baseVal indexVal (dispValue disp) scale)
          Except.ok (MemAccess.mk ptrVal (.SIB baseVal indexVal (dispValue disp) scale) mode
            size)) = .ok memAcc
        rw [calculateMemPtr_SIB]
        exact ⟨_, rfl⟩
  obtain ⟨memAcc, created⟩ := created
  refine ⟨memAcc, created, ?_⟩
  unfold StaticMemPtr.effectiveAddress
  rw [addr32_of_wide wide, if_neg Bool.false_ne_true, sum_of_wide wide]
  exact createMemAccess_describes answers created wide encodes

/-- With 32-bit registers it is right unless all of them are known and the sum does not fit. -/
theorem soundAddress_of_narrow (answers : ps.Answers concrete) (narrow : m.ptr.Narrow)
    (addr32 : m.ptr.addr32 = true) (encodes : m.ptr.Encodes concrete.base) :
    SoundAddress ps concrete m ↔
      (m.ptr.RegistersKnown ps → (m.ptr.sum concrete.registerValue).toNat < 2 ^ 32) := by
  obtain ⟨ptr, mode, size⟩ := m
  cases ptr with
  | direct addr => exact absurd narrow id
  | SIB base index disp scale =>
      obtain ⟨memAcc, baseVal, indexVal, created, readBase, readIndex, narrowBase, narrowIndex,
        ptrVal, described⟩ := createMemAccess_narrow answers mode size
          narrow encodes
      have effective : (StaticMemPtr.SIB base index disp scale).effectiveAddress concrete.registerValue =
          (((StaticMemPtr.SIB base index disp scale).sum concrete.registerValue).setWidth 32).setWidth 64 :=
        if_pos addr32
      constructor
      · rintro ⟨otherAcc, otherCreated, sound⟩ ⟨knownBase, knownIndex⟩
        cases created.symm.trans otherCreated
        have immediate (reg : Option Register) {value : DynamicValue}
            (known : ∀ knownReg ∈ reg, StaticMemPtr.RegisterKnown ps knownReg)
            (read : addressRegister ps reg = .ok value) : ∃ imm, value.imm64? = some imm := by
          cases reg with
          | none =>
              cases read
              exact ⟨0, rfl⟩
          | some reg =>
              obtain ⟨other, imm, otherRead, isImm⟩ := known reg rfl
              cases read.symm.trans otherRead
              exact ⟨imm, isImm⟩
        obtain ⟨baseImm, immBase⟩ := immediate base knownBase readBase
        obtain ⟨indexImm, immIndex⟩ := immediate index knownIndex readIndex
        have known := sum_known immBase immIndex disp scale
        rw [ptrVal] at sound described
        have same := Describes.unique known sound described
        exact (setWidth_eq_self_iff _).mp (effective.symm.trans same)
      · intro fits
        refine ⟨memAcc, created, ?_⟩
        change memAcc.ptrVal.Describes concrete.base
          ((StaticMemPtr.SIB base index disp scale).effectiveAddress concrete.registerValue)
        rw [effective]
        by_cases known : (StaticMemPtr.SIB base index disp scale).RegistersKnown ps
        · rw [(setWidth_eq_self_iff _).mpr (fits known)]
          exact described
        · have lost : baseVal.imm64? = none ∨ indexVal.imm64? = none := by
            by_contra bothKnown
            push Not at bothKnown
            refine known ⟨?_, ?_⟩
            · rintro reg rfl
              obtain ⟨imm, isImm⟩ := Option.ne_none_iff_exists'.mp bothKnown.1
              exact ⟨baseVal, imm, readBase, isImm⟩
            · rintro reg rfl
              obtain ⟨imm, isImm⟩ := Option.ne_none_iff_exists'.mp bothKnown.2
              exact ⟨indexVal, imm, readIndex, isImm⟩
          obtain ⟨tainted, isLost⟩ := sum_lost narrowBase narrowIndex lost (dispValue disp) scale
          rw [ptrVal, isLost]
          cases tainted <;> trivial

/-- The abstract address is sound unless the address registers have 32 bits, are all known,
and the sum with the displacement does not fit 32 bits. The fast path of `calculateMemPtr`
is the general one. -/
theorem soundAddress_iff (answers : ps.Answers concrete) (oneSize : m.ptr.Wide ∨ m.ptr.Narrow)
    (encodes : m.ptr.Encodes concrete.base) :
    (SoundAddress ps concrete m ↔
        (m.ptr.addr32 = true → m.ptr.RegistersKnown ps →
          (m.ptr.sum concrete.registerValue).toNat < 2 ^ 32)) ∧
      ∀ base index disp scale, calculateMemPtr (.SIB base index disp scale) =
        .ok (addDynamicValues disp (addDynamicValues base (multiplyDynamicValue index scale))) := by
  refine ⟨?_, calculateMemPtr_SIB⟩
  by_cases addr32 : m.ptr.addr32 = true
  · rcases oneSize with wide | narrow
    · rw [addr32_of_wide wide] at addr32
      cases addr32
    · rw [soundAddress_of_narrow answers narrow addr32 encodes]
      exact ⟨fun fits _ => fits, fun fits => fits addr32⟩
  · have wide : m.ptr.Wide := by
      rcases oneSize with wide | narrow
      · exact wide
      · obtain ⟨ptr, mode, size⟩ := m
        cases ptr with
        | direct addr => exact absurd narrow id
        | SIB base index disp scale =>
            obtain ⟨rfl, rfl⟩ :=
              (addr32_of_narrow narrow).mp (Bool.eq_false_of_not_eq_true addr32)
            exact ⟨fun reg member => (by cases member), fun reg member => (by cases member)⟩
    exact ⟨fun _ isNarrow => absurd isNarrow addr32,
      fun _ => soundAddress_of_wide answers wide encodes⟩

/-! ### A sum that wraps around -/

def maxECX : ProgramState :=
  ProgramState.initial.withReg (.gprs64 .C)
    { size := 8
      elem := fun i => { type := .immediate, nr := 0, data := if i < 4 then 0xff else 0 } }

def maxECXBytes : Concrete :=
  { base := fun _ _ => 0
    reg := fun container i => if container = .gprs64 .C ∧ i < 4 then 0xff else 0
    stack := fun _ => 0 }

/-- `[ECX + disp]` -/
def fromECX (disp : BitVec 32) : StaticMemAccess :=
  { ptr := .SIB (some .ECX) none (.plain disp) 1
    mode := .Read
    size := 8 }

theorem maxECX_answers : maxECX.Answers maxECXBytes := by
  have shape : maxECX.WellFormed := by
    refine ProgramState.wellFormed_initial.withReg _ rfl ?_
    exact
      { head := fun i type _ head => by cases type <;> cases head
        tail := fun i _ tail => by cases tail }
  have describes : maxECX.Describes maxECXBytes := by
    constructor
    · intro container
      by_cases same : container = .gprs64 .C
      · subst same
        constructor
        · intro k below _
          change (if _ ∧ k < 4 then (0xff : BitVec 8) else 0) = if k < 4 then 0xff else 0
          simp
        · intro h type _ head
          cases type <;> cases head
      · have initial : maxECX.reg container = .initial container.size :=
          ProgramState.reg_withReg_of_ne _ _ same
        rw [initial]
        constructor
        · intro k below imm
          cases imm
        · intro h type _ head
          cases type <;> cases head
    · intro _
      refine (StackState.describes_iff (Elements.wellFormed_initial 0)).mpr ?_
      constructor
      · intro k below _
        exact absurd below (Nat.not_lt_zero k)
      · intro h type below _
        exact absurd below (Nat.not_lt_zero h)
  exact describes.answers shape

theorem fromECX_narrow (disp : BitVec 32) : (fromECX disp).ptr.Narrow :=
  ⟨fun reg member => by cases member; rfl, fun reg member => by cases member⟩

theorem fromECX_encodes (disp : BitVec 32) (base : PtrBase) :
    (fromECX disp).ptr.Encodes base := by
  change (DynamicValue.imm64 (disp.signExtend 64)).Describes base (disp.signExtend 64)
  exact (describes_of_imm64? rfl).mpr rfl

/-- `[ECX + 1]` is address 0 for the processor and address 2^32 for the program state. -/
theorem not_soundAddress_maxECX :
    maxECX.Answers maxECXBytes ∧ (fromECX 1).ptr.Narrow ∧
      (fromECX 1).ptr.Encodes maxECXBytes.base ∧
        ¬ SoundAddress maxECX maxECXBytes (fromECX 1) := by
  refine ⟨maxECX_answers, fromECX_narrow 1, fromECX_encodes 1 _, ?_⟩
  rintro ⟨memAcc, created, described⟩
  have computed : createMemAccess (fromECX 1) maxECX = .ok
      { ptrVal := .imm64 0x100000000
        ptr := .SIB (.imm64 0xffffffff) (.imm64 0) (.imm64 1) 1
        mode := .Read
        size := 8 } := by decide
  cases computed.symm.trans created
  rw [describes_of_imm64? rfl] at described
  revert described
  decide

/-- An address below the end of the 32-bit addresses. -/
theorem soundAddress_iff_maxECX :
    SoundAddress maxECX maxECXBytes (fromECX 0) ↔
      ((fromECX 0).ptr.addr32 = true → (fromECX 0).ptr.RegistersKnown maxECX →
        ((fromECX 0).ptr.sum maxECXBytes.registerValue).toNat < 2 ^ 32) :=
  (soundAddress_iff (m := fromECX 0) maxECX_answers (Or.inr (fromECX_narrow 0))
    (fromECX_encodes 0 _)).1

end Drob
