import Drob.State.StackShape

/-!
The accesses of a whole program state: writing or moving to a place in which no
pointer starts strictly inside keeps the shape of all containers.
-/

namespace Drob

open DynamicValueType

def AccessExists (reg : Register) (access : RegisterAccessType) : Prop :=
  (getSubRegisterMask reg access).isOk = true

instance (reg : Register) (access : RegisterAccessType) : Decidable (AccessExists reg access) :=
  inferInstanceAs (Decidable (_ = true))

def OperandSize (bytes : Nat) : Prop :=
  bytes = 1 ∨ bytes = 2 ∨ bytes = 4 ∨ bytes = 8 ∨ bytes = 16

instance (bytes : Nat) : Decidable (OperandSize bytes) :=
  inferInstanceAs (Decidable (_ ∨ _))

theorem OperandSize.positive {bytes : Nat} (size : OperandSize bytes) : 0 < bytes := by
  unfold OperandSize at size
  omega

theorem AccessExists.slice {reg : Register} {access : RegisterAccessType}
    (known : AccessExists reg access) :
    ∃ slice, getRegisterData reg access = .ok slice ∧ OperandSize slice.bytes ∧
      slice.byteOffset + slice.bytes ≤ slice.container.size := by
  cases reg <;> cases access <;>
    first
    | exact absurd known Bool.false_ne_true
    | refine ⟨_, rfl, ?_, ?_⟩ <;>
        simp [archGetRegisterInfo, RegisterInfo.simple, RegisterInfo.sizeInBytes,
          Register.container, Container.size, OperandSize]

theorem AccessExists.full (reg : Register) : AccessExists reg .full := by
  cases reg <;> rfl

theorem Container.size_small (container : Container) : container.size < 2 ^ 31 := by
  cases container <;> exact Nat.lt_of_sub_eq_succ rfl

theorem parent_slice {reg : Register} {slice : RegisterSlice}
    (found : getRegisterData reg .fullZeroParent = .ok slice) :
    slice.byteOffset = 0 ∧ slice.bytes = 8 ∧ slice.container.size = 8 := by
  cases reg <;> cases found <;> exact ⟨rfl, rfl, rfl⟩

theorem slice_container {reg : Register} {access : RegisterAccessType} {slice : RegisterSlice}
    (found : getRegisterData reg access = .ok slice) : slice.container = reg.container := by
  cases reg <;> cases access <;> cases found <;> rfl

def clearedAccess : RegisterAccessType → RegisterAccessType
  | .fullZeroParent => .full
  | access => access

theorem clearedAccess_of_ne {access : RegisterAccessType} (part : access ≠ .fullZeroParent) :
    clearedAccess access = access := by
  cases access <;> first | rfl | exact absurd rfl part

theorem AccessExists.cleared {reg : Register} {access : RegisterAccessType}
    (known : AccessExists reg access) : AccessExists reg (clearedAccess access) := by
  by_cases parent : access = .fullZeroParent
  · subst parent
    exact AccessExists.full reg
  · rw [clearedAccess_of_ne parent]
    exact known

def FitsRegister (reg : Register) (access : RegisterAccessType) (data : DynamicValue) : Prop :=
  ∀ slice, getRegisterData reg (clearedAccess access) = .ok slice →
    Elements.FitsBytes data slice.bytes

theorem fitsRegister_of_not_ptr {reg : Register} {access : RegisterAccessType}
    (known : AccessExists reg access) (data : DynamicValue) (noPtr : data.isPtr = false) :
    FitsRegister reg access data := by
  intro slice sliceEq
  obtain ⟨other, otherEq, size, _room⟩ := known.cleared.slice
  rw [sliceEq] at otherEq
  cases otherEq
  exact ⟨fun isPtr => absurd (noPtr.symm.trans isPtr) Bool.false_ne_true, fun _ => size⟩

namespace ProgramState

structure WellFormed (ps : ProgramState) : Prop where
  size_eq : ∀ container, (ps.reg container).size = container.size
  regs : ∀ container, (ps.reg container).WellFormed
  stack : ps.stack.WellFormed

theorem wellFormed_initial : initial.WellFormed :=
  { size_eq := fun _ => rfl
    regs := fun container => Elements.wellFormed_initial container.size
    stack := StackState.wellFormed_initial }

theorem WellFormed.withReg {ps : ProgramState} (wellFormed : ps.WellFormed)
    (container : Container) {estate : Elements} (size : estate.size = container.size)
    (shape : estate.WellFormed) : (ps.withReg container estate).WellFormed := by
  refine
    { size_eq := ?_
      regs := ?_
      stack := wellFormed.stack }
  · intro other
    rcases eq_or_ne other container with rfl | differ
    · rw [reg_withReg_self]
      exact size
    · rw [reg_withReg_of_ne ps estate differ]
      exact wellFormed.size_eq other
  · intro other
    rcases eq_or_ne other container with rfl | differ
    · rw [reg_withReg_self]
      exact shape
    · rw [reg_withReg_of_ne ps estate differ]
      exact wellFormed.regs other

theorem WellFormed.growStack {ps : ProgramState} (wellFormed : ps.WellFormed)
    (baseOffset : Int) (size : Nat) : (ps.growStack baseOffset size).WellFormed :=
  { wellFormed with stack := wellFormed.stack.grow baseOffset size }

theorem WellFormed.withStackElems {ps : ProgramState} (wellFormed : ps.WellFormed)
    {estate : Elements} (size : estate.size = ps.stack.elems.size)
    (shape : estate.WellFormed) : (ps.withStackElems estate).WellFormed :=
  { wellFormed with
    stack :=
      { shape := shape
        base_nonneg := wellFormed.stack.base_nonneg
        base_le := by
          change ps.stack.base ≤ estate.size
          rw [size]
          exact wellFormed.stack.base_le } }

def RegisterClear (ps : ProgramState) (reg : Register) (access : RegisterAccessType) : Prop :=
  ∀ slice, getRegisterData reg access = .ok slice →
    (ps.reg slice.container).NoInnerHead slice.byteOffset slice.bytes

def StackSmall (ps : ProgramState) (baseOffset : Int) (size : Nat) : Prop :=
  ps.stack.dead = false → (ps.growStack baseOffset size).stack.elems.size ≤ 2 ^ 31

/-- No pointer starts strictly inside the part of the stack that is written. -/
def StackClear (ps : ProgramState) (baseOffset : Int) (size : Nat) : Prop :=
  ps.stack.dead = false →
    let grown := ps.growStack baseOffset size
    grown.stack.elems.NoInnerHead (grown.stack.getStackIdx baseOffset) size

/-- A result that keeps the shape, or an exception that the source throws itself. -/
def Sound (result : Except Failure ProgramState) : Prop :=
  (∃ ps, result = .ok ps ∧ ps.WellFormed) ∨ ∃ message, result = .error (.exception message)

def OnlyChanges (container : Container) (ps next : ProgramState) : Prop :=
  next.stack = ps.stack ∧ ∀ other, other ≠ container → next.reg other = ps.reg other

theorem onlyChanges_withReg (ps : ProgramState) (container : Container) (estate : Elements) :
    OnlyChanges container ps (ps.withReg container estate) :=
  ⟨rfl, fun _other differ => reg_withReg_of_ne ps estate differ⟩

theorem setSlice_ok {ps : ProgramState} (wellFormed : ps.WellFormed) (slice : RegisterSlice)
    (data : DynamicValue) (size : OperandSize slice.bytes)
    (room : slice.byteOffset + slice.bytes ≤ slice.container.size)
    (fits : Elements.FitsBytes data slice.bytes)
    (noInner : (ps.reg slice.container).NoInnerHead slice.byteOffset slice.bytes) :
    ∃ next, ps.setSlice slice data false = .ok next ∧ next.WellFormed ∧
      OnlyChanges slice.container ps next := by
  have sizeEq := wellFormed.size_eq slice.container
  have small := slice.container.size_small
  obtain ⟨estate, returned, estateSize, shape⟩ :=
    (wellFormed.regs slice.container).setElements_ok data size.positive
      (by omega) (by omega) fits noInner
  refine ⟨ps.withReg slice.container estate, ?_, ?_, ?_⟩
  · unfold setSlice
    rw [returned]
    rfl
  · exact wellFormed.withReg slice.container (estateSize.trans sizeEq) shape
  · exact onlyChanges_withReg ps slice.container estate

theorem setSlice_cond {ps : ProgramState} {slice : RegisterSlice}
    (wellFormed : ps.WellFormed) (size : OperandSize slice.bytes)
    (room : slice.byteOffset + slice.bytes ≤ slice.container.size) (data : DynamicValue) :
    ∃ message, ps.setSlice slice data true = .error (.exception message) := by
  have sizeEq := wellFormed.size_eq slice.container
  have positive := size.positive
  refine ⟨"Conditional setting not supported yet.", ?_⟩
  unfold setSlice Elements.setElements
  rw [if_neg (by simp only [not_not]; omega), if_pos rfl]
  rfl

theorem RegisterClear.of_parent {ps : ProgramState} (wellFormed : ps.WellFormed)
    {reg : Register} (known : AccessExists reg .fullZeroParent) :
    ps.RegisterClear reg .full := by
  obtain ⟨parent, parentEq, _size, _room⟩ := known.slice
  have sizeEight := (parent_slice parentEq).2.2
  obtain ⟨full, fullEq, _fullSize, fullRoom⟩ := (AccessExists.full reg).slice
  intro slice sliceEq
  rw [fullEq] at sliceEq
  cases sliceEq
  have same : full.container = parent.container :=
    (slice_container fullEq).trans (slice_container parentEq).symm
  refine (wellFormed.regs full.container).noInnerHead_of_small ?_ ?_
  · rw [wellFormed.size_eq, same]
    omega
  · rw [wellFormed.size_eq]
    exact fullRoom

theorem setRegister_ok {ps : ProgramState} (wellFormed : ps.WellFormed) {reg : Register}
    {access : RegisterAccessType} {data : DynamicValue} (known : AccessExists reg access)
    (fits : FitsRegister reg access data) (clear : ps.RegisterClear reg access) :
    ∃ next, ps.setRegister reg access data false = .ok next ∧ next.WellFormed ∧
      OnlyChanges reg.container ps next := by
  obtain ⟨slice, sliceEq, size, room⟩ := known.slice
  unfold setRegister
  by_cases parent : access = .fullZeroParent
  · subst parent
    rw [if_pos ⟨rfl, Bool.false_ne_true⟩]
    obtain ⟨zeroed, zeroedEq, zeroedOk, zeroedOnly⟩ :=
      setSlice_ok wellFormed slice (.imm64 0) size room
        ⟨fun isPtr => absurd isPtr Bool.false_ne_true, fun _ => size⟩ (clear slice sliceEq)
    obtain ⟨full, fullEq, fullSize, fullRoom⟩ := (AccessExists.full reg).slice
    obtain ⟨next, nextEq, nextOk, nextOnly⟩ := setSlice_ok zeroedOk full data
      fullSize fullRoom (fits full fullEq) (RegisterClear.of_parent zeroedOk known full fullEq)
    rw [slice_container sliceEq] at zeroedOnly
    rw [slice_container fullEq] at nextOnly
    refine ⟨next, ?_, nextOk, nextOnly.1.trans zeroedOnly.1, ?_⟩
    · rw [sliceEq, fullEq]
      change (do
        let zeroed ← ps.setSlice slice (.imm64 0) false
        zeroed.setSlice full data false) = _
      rw [zeroedEq]
      exact nextEq
    · intro other differ
      exact (nextOnly.2 other differ).trans (zeroedOnly.2 other differ)
  · rw [if_neg (fun both => parent both.1), sliceEq]
    unfold FitsRegister at fits
    rw [clearedAccess_of_ne parent] at fits
    obtain ⟨next, nextEq, nextOk, nextOnly⟩ :=
      setSlice_ok wellFormed slice data size room (fits slice sliceEq) (clear slice sliceEq)
    rw [slice_container sliceEq] at nextOnly
    exact ⟨next, nextEq, nextOk, nextOnly⟩

theorem setRegister_sound {ps : ProgramState} (wellFormed : ps.WellFormed) {reg : Register}
    {access : RegisterAccessType} {data : DynamicValue} (cond : Bool)
    (known : AccessExists reg access) (fits : FitsRegister reg access data)
    (clear : ps.RegisterClear reg access) :
    Sound (ps.setRegister reg access data cond) := by
  cases cond with
  | false =>
      obtain ⟨next, nextEq, nextOk, _only⟩ := setRegister_ok wellFormed known fits clear
      exact Or.inl ⟨next, nextEq, nextOk⟩
  | true =>
      obtain ⟨slice, sliceEq, size, room⟩ := known.slice
      right
      unfold setRegister
      rw [if_neg (fun both => both.2 rfl), sliceEq]
      exact setSlice_cond wellFormed size room data

/-! ### Moves -/

theorem moveSlice_ok {ps : ProgramState} (wellFormed : ps.WellFormed)
    {slice1 slice2 : RegisterSlice} (same : slice1.bytes = slice2.bytes)
    (size : OperandSize slice2.bytes)
    (room1 : slice1.byteOffset + slice1.bytes ≤ slice1.container.size)
    (room2 : slice2.byteOffset + slice2.bytes ≤ slice2.container.size)
    (clear : slice1 = slice2 ∨
      (ps.reg slice2.container).NoInnerHead slice2.byteOffset slice2.bytes) :
    ∃ next, ps.moveSlice slice1 slice2 = .ok next ∧ next.WellFormed := by
  have size1 := wellFormed.size_eq slice1.container
  have size2 := wellFormed.size_eq slice2.container
  have small := slice2.container.size_small
  unfold moveSlice
  rw [if_pos same, same]
  by_cases oneContainer : slice1.container = slice2.container
  · rw [if_pos oneContainer]
    obtain ⟨estate, returned, estateSize, shape⟩ :=
      (wellFormed.regs slice2.container).moveElements_ok none slice1.byteOffset
        slice2.bytes size.positive (by unfold Elements.SourceOk; rw [size2, ← oneContainer]; omega)
        (by rw [size2]; exact room2) (by omega)
        (clear.imp_left (fun equal => ⟨by rw [equal], rfl⟩))
    refine ⟨ps.withReg slice2.container estate, ?_, ?_⟩
    · dsimp only
      rw [returned]
      rfl
    · exact wellFormed.withReg slice2.container (estateSize.trans size2) shape
  · rw [if_neg oneContainer]
    obtain ⟨estate, returned, estateSize, shape⟩ :=
      (wellFormed.regs slice2.container).moveElements_ok (some (ps.reg slice1.container))
        slice1.byteOffset slice2.bytes size.positive
        ⟨wellFormed.regs slice1.container, by rw [size1, ← same]; exact room1⟩
        (by rw [size2]; exact room2) (by omega)
        (Or.inr (clear.resolve_left (fun equal => oneContainer (by rw [equal]))))
    refine ⟨ps.withReg slice2.container estate, ?_, ?_⟩
    · dsimp only
      rw [returned]
      rfl
    · exact wellFormed.withReg slice2.container (estateSize.trans size2) shape

theorem clearDestination_ok {ps : ProgramState} (wellFormed : ps.WellFormed)
    {reg : Register} {access : RegisterAccessType} (known : AccessExists reg access)
    (clear : ps.RegisterClear reg access) :
    ∃ cleared, ps.clearDestination reg access = .ok (cleared, clearedAccess access) ∧
      cleared.WellFormed ∧ cleared.stack = ps.stack ∧
      (access ≠ .fullZeroParent → cleared = ps) ∧
      cleared.RegisterClear reg (clearedAccess access) := by
  unfold clearDestination
  by_cases parent : access = .fullZeroParent
  · subst parent
    rw [if_pos rfl]
    obtain ⟨cleared, returned, clearedOk, only⟩ := setRegister_ok wellFormed known
      (fitsRegister_of_not_ptr known (.imm64 0) rfl) clear
    refine ⟨cleared, ?_, clearedOk, only.1, fun differs => absurd rfl differs, ?_⟩
    · rw [returned]
      rfl
    · exact RegisterClear.of_parent clearedOk known
  · rw [if_neg parent, clearedAccess_of_ne parent]
    exact ⟨ps, rfl, wellFormed, rfl, fun _ => rfl, clear⟩

end ProgramState

end Drob
