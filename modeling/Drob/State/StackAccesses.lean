import Drob.State.Accesses

/-!
Stack accesses and moves of a whole program state keep the shape of all containers
while the stack stays below 2^31 bytes.
-/

namespace Drob

namespace ProgramState

theorem StackSmall.holds {ps : ProgramState} {baseOffset : Int} {size : Nat}
    (small : ps.StackSmall baseOffset size) (alive : ps.stack.dead = false) :
    (ps.growStack baseOffset size).stack.Holds baseOffset size :=
  StackState.holds_grow alive baseOffset size (small alive)

theorem setStack_sound {ps : ProgramState} (wellFormed : ps.WellFormed) {baseOffset : Int}
    {size : Nat} {data : DynamicValue} (cond : Bool) (operand : OperandSize size)
    (fits : Elements.FitsBytes data size) (small : ps.StackSmall baseOffset size)
    (clear : ps.StackClear baseOffset size) :
    Sound (ps.setStack baseOffset size data cond) := by
  have positive := operand.positive
  unfold setStack
  rw [if_neg (by omega)]
  unfold isStackDead
  cases alive : ps.stack.dead with
  | true =>
      rw [if_pos rfl]
      exact Or.inl ⟨ps, rfl, wellFormed⟩
  | false =>
      rw [if_neg Bool.false_ne_true]
      have holds := small.holds alive
      have grown := wellFormed.growStack baseOffset size
      have room := holds.room positive
      cases cond with
      | true =>
          right
          refine ⟨"Conditional setting not supported yet.", ?_⟩
          unfold Elements.setElements
          dsimp only
          rw [if_neg (by simp only [not_not]; omega), if_pos rfl]
          rfl
      | false =>
          left
          obtain ⟨estate, returned, sizeEq, shape⟩ := grown.stack.shape.setElements_ok
            data positive (by omega) (holds.index_small positive) fits (clear alive)
          refine ⟨_, ?_, grown.withStackElems sizeEq shape⟩
          dsimp only
          rw [returned]
          rfl

theorem getElements_ok (estate : Elements) (byteOffset : Nat) {bytes : Nat}
    (operand : OperandSize bytes) : ∃ data, estate.getElements byteOffset bytes = .ok data := by
  unfold Elements.getElements
  dsimp only
  by_cases wide : bytes = 16
  · subst wide
    repeat' split
    all_goals first
      | exact ⟨_, rfl⟩
      | contradiction
  · have narrow : bytes = 1 ∨ bytes = 2 ∨ bytes = 4 ∨ bytes = 8 := by
      unfold OperandSize at operand
      omega
    simp only [if_pos narrow]
    repeat' split
    all_goals exact ⟨_, rfl⟩

theorem getStack_ok {ps : ProgramState} (wellFormed : ps.WellFormed) (baseOffset : Int)
    {size : Nat} (operand : OperandSize size) :
    ∃ data next, ps.getStack baseOffset size = .ok (data, next) ∧ next.WellFormed := by
  have positive := operand.positive
  unfold getStack
  rw [if_neg (by omega)]
  unfold isStackDead
  cases ps.stack.dead with
  | true => exact ⟨.tainted, ps, rfl, wellFormed⟩
  | false =>
      rw [if_neg Bool.false_ne_true]
      dsimp only
      obtain ⟨data, returned⟩ := getElements_ok (ps.growStack baseOffset size).stack.elems
        ((ps.growStack baseOffset size).stack.getStackIdx baseOffset) operand
      refine ⟨data, _, ?_, wellFormed.growStack baseOffset size⟩
      rw [returned]
      rfl

def MoveSmall (ps : ProgramState) (baseOffset1 baseOffset2 : Int) (size : Nat) : Prop :=
  ps.stack.dead = false →
    ((ps.growStack baseOffset1 size).growStack baseOffset2 size).stack.elems.size ≤ 2 ^ 31

def MoveClear (ps : ProgramState) (baseOffset1 baseOffset2 : Int) (size : Nat) : Prop :=
  ps.stack.dead = false →
    let grown := (ps.growStack baseOffset1 size).growStack baseOffset2 size
    baseOffset1 = baseOffset2 ∨
      grown.stack.elems.NoInnerHead (grown.stack.getStackIdx baseOffset2) size

theorem moveStackStack_ok {ps : ProgramState} (wellFormed : ps.WellFormed)
    {baseOffset1 baseOffset2 : Int} {size : Nat} (operand : OperandSize size)
    (small : ps.MoveSmall baseOffset1 baseOffset2 size)
    (clear : ps.MoveClear baseOffset1 baseOffset2 size) :
    ∃ next, ps.moveStackStack baseOffset1 baseOffset2 size = .ok next ∧ next.WellFormed := by
  have positive := operand.positive
  unfold moveStackStack
  rw [if_neg (by omega)]
  unfold isStackDead
  cases alive : ps.stack.dead with
  | true => exact ⟨ps, rfl, wellFormed⟩
  | false =>
      rw [if_neg Bool.false_ne_true]
      dsimp only
      have grown1 := wellFormed.growStack baseOffset1 size
      have grown := grown1.growStack baseOffset2 size
      have alive1 : (ps.growStack baseOffset1 size).stack.dead = false :=
        (StackState.dead_grow _ _ _).trans alive
      have holds2 : ((ps.growStack baseOffset1 size).growStack baseOffset2 size).stack.Holds
          baseOffset2 size :=
        StackState.holds_grow alive1 baseOffset2 size (small alive)
      have holds1 : ((ps.growStack baseOffset1 size).growStack baseOffset2 size).stack.Holds
          baseOffset1 size :=
        StackState.holds_grow_first alive baseOffset1 baseOffset2 size size
          (small alive)
      obtain ⟨estate, returned, sizeEq, shape⟩ := grown.stack.shape.moveElements_ok none
        _ size positive (holds1.room positive) (holds2.room positive) (holds2.index_small positive)
        ((clear alive).imp_left (fun same => ⟨by rw [same], rfl⟩))
      refine ⟨_, ?_, grown.withStackElems sizeEq shape⟩
      rw [returned]
      rfl

theorem moveRegisterStack_ok {ps : ProgramState} (wellFormed : ps.WellFormed)
    {reg : Register} {access : RegisterAccessType} {baseOffset : Int} {size : Nat}
    (known : AccessExists reg access)
    (sameSize : ∀ slice, getRegisterData reg access = .ok slice → slice.bytes = size)
    (small : ps.StackSmall baseOffset size) (clear : ps.StackClear baseOffset size) :
    ∃ next, ps.moveRegisterStack reg access baseOffset size = .ok next ∧ next.WellFormed := by
  obtain ⟨slice, sliceEq, operand, room⟩ := known.slice
  have bytesEq := sameSize slice sliceEq
  have positive := operand.positive
  unfold moveRegisterStack
  unfold isStackDead
  cases alive : ps.stack.dead with
  | true => exact ⟨ps, rfl, wellFormed⟩
  | false =>
      rw [if_neg Bool.false_ne_true, sliceEq]
      have holds := small.holds alive
      have grown := wellFormed.growStack baseOffset size
      have sizeEq := grown.size_eq slice.container
      obtain ⟨estate, returned, estateSize, shape⟩ := grown.stack.shape.moveElements_ok
        (some ((ps.growStack baseOffset size).reg slice.container))
        slice.byteOffset slice.bytes positive
        ⟨grown.regs slice.container, by rw [sizeEq]; exact room⟩
        (by rw [bytesEq]; exact holds.room (by omega)) (holds.index_small (by omega))
        (Or.inr (by rw [bytesEq]; exact clear alive))
      refine ⟨_, ?_, grown.withStackElems estateSize shape⟩
      change (if slice.bytes = size then _ else _) = _
      rw [if_pos bytesEq, returned]
      rfl

theorem moveStackRegister_ok {ps : ProgramState} (wellFormed : ps.WellFormed)
    {reg : Register} {access : RegisterAccessType} {baseOffset : Int} {size : Nat}
    (known : AccessExists reg access)
    (sameSize : ∀ slice, getRegisterData reg (clearedAccess access) = .ok slice →
      slice.bytes = size)
    (small : ps.StackSmall baseOffset size) (clear : ps.RegisterClear reg access) :
    ∃ next, ps.moveStackRegister baseOffset size reg access = .ok next ∧ next.WellFormed := by
  obtain ⟨cleared, clearedEq, clearedOk, sameStack, _same, clearedClear⟩ :=
    clearDestination_ok wellFormed known clear
  obtain ⟨slice, sliceEq, operand, room⟩ := known.cleared.slice
  have bytesEq := sameSize slice sliceEq
  have positive := operand.positive
  unfold moveStackRegister
  rw [clearedEq]
  dsimp only [bind, Except.bind]
  rw [sliceEq]
  dsimp only
  unfold isStackDead
  cases alive : cleared.stack.dead with
  | true =>
      rw [if_pos rfl]
      obtain ⟨next, returned, nextOk, _only⟩ := setRegister_ok clearedOk known.cleared
        (fitsRegister_of_not_ptr known.cleared .tainted rfl) clearedClear
      exact ⟨next, returned, nextOk⟩
  | false =>
      rw [if_neg Bool.false_ne_true]
      have small' : cleared.StackSmall baseOffset size := by
        unfold StackSmall growStack
        rw [sameStack]
        exact small
      have holds := small'.holds alive
      have grown := clearedOk.growStack baseOffset size
      have sizeEq := grown.size_eq slice.container
      have smallContainer := slice.container.size_small
      obtain ⟨estate, returned, estateSize, shape⟩ :=
        (grown.regs slice.container).moveElements_ok
          (some (cleared.growStack baseOffset size).stack.elems)
          ((cleared.growStack baseOffset size).stack.getStackIdx baseOffset) size (by omega)
          ⟨grown.stack.shape, holds.room (by omega)⟩
          (by rw [sizeEq, ← bytesEq]; exact room) (by omega)
          (Or.inr (by rw [← bytesEq]; exact clearedClear slice sliceEq))
      refine ⟨_, ?_, grown.withReg slice.container (estateSize.trans sizeEq) shape⟩
      rw [if_pos bytesEq.symm, returned]

theorem moveRegisterRegister_ok {ps : ProgramState} (wellFormed : ps.WellFormed)
    {reg1 reg2 : Register} {access1 access2 : RegisterAccessType}
    (known1 : AccessExists reg1 access1) (known2 : AccessExists reg2 access2)
    (sameSize : ∀ slice1 slice2, getRegisterData reg1 access1 = .ok slice1 →
      getRegisterData reg2 (clearedAccess access2) = .ok slice2 → slice1.bytes = slice2.bytes)
    (clear : (access2 ≠ .fullZeroParent ∧
      getRegisterData reg1 access1 = getRegisterData reg2 access2) ∨
        ps.RegisterClear reg2 access2) :
    ∃ next, ps.moveRegisterRegister reg1 access1 reg2 access2 = .ok next ∧
      next.WellFormed := by
  obtain ⟨slice1, slice1Eq, _operand1, room1⟩ := known1.slice
  obtain ⟨slice2, slice2Eq, operand2, room2⟩ := known2.cleared.slice
  have bytesEq := sameSize slice1 slice2 slice1Eq slice2Eq
  have destination : ∃ cleared,
      ps.clearDestination reg2 access2 = .ok (cleared, clearedAccess access2) ∧
        cleared.WellFormed ∧ (slice1 = slice2 ∨
          (cleared.reg slice2.container).NoInnerHead slice2.byteOffset slice2.bytes) := by
    rcases clear with ⟨part, same⟩ | clear
    · refine ⟨ps, ?_, wellFormed, Or.inl ?_⟩
      · unfold clearDestination
        rw [if_neg part, clearedAccess_of_ne part]
      · rw [clearedAccess_of_ne part, ← same, slice1Eq] at slice2Eq
        cases slice2Eq
        rfl
    · obtain ⟨cleared, clearedEq, clearedOk, _stack, _same, clearedClear⟩ :=
        clearDestination_ok wellFormed known2 clear
      exact ⟨cleared, clearedEq, clearedOk, Or.inr (clearedClear slice2 slice2Eq)⟩
  obtain ⟨cleared, clearedEq, clearedOk, noInner⟩ := destination
  obtain ⟨next, returned, nextOk⟩ :=
    moveSlice_ok clearedOk bytesEq operand2 room1 room2 noInner
  refine ⟨next, ?_, nextOk⟩
  unfold moveRegisterRegister
  rw [slice1Eq, clearedEq]
  change (do
    let slice2 ← getRegisterData reg2 (clearedAccess access2)
    cleared.moveSlice slice1 slice2) = _
  rw [slice2Eq]
  exact returned

end ProgramState

end Drob
