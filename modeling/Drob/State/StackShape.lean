import Drob.State.Merging

/-!
Growing the tracked stack keeps the shape of pointers and makes room for the range
that an access needs.
-/

namespace Drob

namespace Elements

theorem WellFormed.noInnerHead_of_small {estate : Elements} (shape : estate.WellFormed)
    (small : estate.size ≤ 8) {byteOffset bytes : Nat}
    (room : byteOffset + bytes ≤ estate.size) : estate.NoInnerHead byteOffset bytes := by
  intro i positive below
  by_contra isPtr
  rw [Bool.not_eq_false] at isPtr
  obtain ⟨ptr, head⟩ := (DynamicValueType.isPtr_iff _).mp isPtr
  have fits := (shape.head _ ptr (by omega) head).1
  omega

end Elements

namespace StackState

structure WellFormed (stack : StackState) : Prop where
  shape : stack.elems.WellFormed
  base_nonneg : 0 ≤ stack.base
  base_le : stack.base ≤ stack.elems.size

theorem wellFormed_initial : initial.WellFormed :=
  { shape := Elements.wellFormed_initial 0
    base_nonneg := le_refl 0
    base_le := le_refl 0 }

theorem wellFormed_setDead (stack : StackState) : stack.setDead.WellFormed :=
  { shape := Elements.wellFormed_initial 0
    base_nonneg := le_refl 0
    base_le := le_refl 0 }

theorem WellFormed.growOld {stack : StackState} (wellFormed : stack.WellFormed)
    (needed : Int) : (stack.growOld needed).WellFormed := by
  unfold StackState.growOld
  by_cases grows : stack.oldStackSize < needed
  · rw [if_pos grows]
    have nonneg := wellFormed.base_nonneg
    have le := wellFormed.base_le
    unfold oldStackSize newStackSize at grows
    have larger : stack.elems.size ≤ (stack.newStackSize + needed).toNat := by
      unfold newStackSize
      omega
    refine
      { shape := ?_
        base_nonneg := nonneg
        base_le := by unfold newStackSize; dsimp only; omega }
    constructor
    · intro i ptr _inside head
      unfold Elements.type at head
      dsimp only at head
      split at head
      · rename_i old
        obtain ⟨room, tails⟩ := wellFormed.shape.head i ptr old head
        refine ⟨Nat.le_trans room larger, ?_⟩
        intro j positive below
        unfold Elements.type
        dsimp only
        rw [if_pos (by omega)]
        exact tails j positive below
      · cases ptr <;> cases head
    · intro i _inside tail
      unfold Elements.type at tail
      dsimp only at tail
      split at tail
      · rename_i old
        obtain ⟨h, ptr, before, within, head⟩ := wellFormed.shape.tail i old tail
        refine ⟨h, ptr, before, within, ?_⟩
        unfold Elements.type
        dsimp only
        rw [if_pos (by omega)]
        exact head
      · cases tail
  · rw [if_neg grows]
    exact wellFormed

theorem WellFormed.growNew {stack : StackState} (wellFormed : stack.WellFormed)
    (needed : Int) : (stack.growNew needed).WellFormed := by
  unfold StackState.growNew
  by_cases grows : stack.newStackSize < needed
  · rw [if_pos grows]
    have nonneg := wellFormed.base_nonneg
    have le := wellFormed.base_le
    generalize (needed - stack.newStackSize).toNat = diff
    refine
      { shape := ?_
        base_nonneg := by dsimp only; omega
        base_le := by dsimp only; omega }
    constructor
    · intro i ptr inside head
      unfold Elements.type at head
      dsimp only at head inside
      split at head
      · cases ptr <;> cases head
      · rename_i shifted
        obtain ⟨room, tails⟩ := wellFormed.shape.head (i - diff) ptr (by omega) head
        refine ⟨by dsimp only; omega, ?_⟩
        intro j positive below
        unfold Elements.type
        dsimp only
        rw [if_neg (by omega), show i + j - diff = i - diff + j by omega]
        exact tails j positive below
    · intro i inside tail
      unfold Elements.type at tail
      dsimp only at tail inside
      split at tail
      · cases tail
      · rename_i shifted
        obtain ⟨h, ptr, before, within, head⟩ :=
          wellFormed.shape.tail (i - diff) (by omega) tail
        refine ⟨h + diff, ptr, by omega, by omega, ?_⟩
        unfold Elements.type
        dsimp only
        rw [if_neg (by omega), Nat.add_sub_cancel]
        exact head
  · rw [if_neg grows]
    exact wellFormed

theorem WellFormed.grow {stack : StackState} (wellFormed : stack.WellFormed)
    (baseOffset : Int) (size : Nat) : (stack.grow baseOffset size).WellFormed := by
  unfold StackState.grow
  split
  · exact wellFormed
  · exact (wellFormed.growOld _).growNew _

@[simp] theorem dead_growOld (stack : StackState) (needed : Int) :
    (stack.growOld needed).dead = stack.dead := by
  unfold growOld
  split <;> rfl

@[simp] theorem dead_growNew (stack : StackState) (needed : Int) :
    (stack.growNew needed).dead = stack.dead := by
  unfold growNew
  split <;> rfl

@[simp] theorem dead_grow (stack : StackState) (baseOffset : Int) (size : Nat) :
    (stack.grow baseOffset size).dead = stack.dead := by
  unfold grow
  split
  · rfl
  · rw [dead_growNew, dead_growOld]

theorem base_growOld (stack : StackState) (needed : Int) :
    (stack.growOld needed).base = stack.base := by
  unfold growOld
  split <;> rfl

theorem oldStackSize_growOld (stack : StackState) (needed : Int) :
    (stack.growOld needed).oldStackSize = max stack.oldStackSize needed := by
  unfold growOld
  by_cases grows : stack.oldStackSize < needed
  · rw [if_pos grows]
    unfold oldStackSize newStackSize at *
    dsimp only
    omega
  · rw [if_neg grows]
    omega

theorem base_growNew (stack : StackState) (needed : Int) :
    (stack.growNew needed).base = max stack.base needed := by
  unfold growNew
  by_cases grows : stack.newStackSize < needed
  · rw [if_pos grows]
    unfold newStackSize at *
    dsimp only
    omega
  · rw [if_neg grows]
    unfold newStackSize at grows
    omega

theorem oldStackSize_growNew (stack : StackState) (needed : Int) :
    (stack.growNew needed).oldStackSize = stack.oldStackSize := by
  unfold growNew
  split
  · unfold oldStackSize newStackSize
    dsimp only
    omega
  · rfl

theorem base_grow {stack : StackState} (alive : stack.dead = false)
    (baseOffset : Int) (size : Nat) :
    (stack.grow baseOffset size).base = max stack.base (-baseOffset) := by
  unfold grow
  rw [alive, if_neg Bool.false_ne_true, base_growNew, base_growOld]

theorem oldStackSize_grow {stack : StackState} (alive : stack.dead = false) (baseOffset : Int)
    (size : Nat) :
    (stack.grow baseOffset size).oldStackSize =
      max stack.oldStackSize (baseOffset + size) := by
  unfold grow
  rw [alive, if_neg Bool.false_ne_true, oldStackSize_growNew, oldStackSize_growOld]

structure Holds (stack : StackState) (baseOffset : Int) (size : Nat) : Prop where
  above : 0 ≤ stack.base + baseOffset
  below : stack.base + baseOffset + size ≤ stack.elems.size
  small : stack.elems.size ≤ 2 ^ 31

theorem Holds.stackIdx {stack : StackState} {baseOffset : Int} {size : Nat}
    (holds : stack.Holds baseOffset size) (positive : 0 < size) :
    (stack.getStackIdx baseOffset : Int) = stack.base + baseOffset := by
  have above := holds.above
  have below := holds.below
  have small := holds.small
  unfold getStackIdx
  rw [Int.emod_eq_of_lt above (by omega), Int.toNat_of_nonneg above]

theorem Holds.index_small {stack : StackState} {baseOffset : Int} {size : Nat}
    (holds : stack.Holds baseOffset size) (positive : 0 < size) :
    stack.getStackIdx baseOffset < 2 ^ 31 := by
  have index := holds.stackIdx positive
  have below := holds.below
  have small := holds.small
  omega

theorem Holds.room {stack : StackState} {baseOffset : Int} {size : Nat}
    (holds : stack.Holds baseOffset size) (positive : 0 < size) :
    stack.getStackIdx baseOffset + size ≤ stack.elems.size := by
  have index := holds.stackIdx positive
  have below := holds.below
  omega

theorem holds_grow {stack : StackState} (alive : stack.dead = false) (baseOffset : Int)
    (size : Nat) (small : (stack.grow baseOffset size).elems.size ≤ 2 ^ 31) :
    (stack.grow baseOffset size).Holds baseOffset size := by
  have baseEq := base_grow alive baseOffset size
  have oldEq := oldStackSize_grow alive baseOffset size
  unfold oldStackSize newStackSize at oldEq
  exact
    { above := by omega
      below := by omega
      small := small }

theorem holds_grow_first {stack : StackState} (alive : stack.dead = false)
    (baseOffset other : Int) (size otherSize : Nat)
    (small : ((stack.grow baseOffset size).grow other otherSize).elems.size ≤ 2 ^ 31) :
    ((stack.grow baseOffset size).grow other otherSize).Holds baseOffset size := by
  have baseEq := base_grow alive baseOffset size
  have oldEq := oldStackSize_grow alive baseOffset size
  have stillAlive : (stack.grow baseOffset size).dead = false :=
    (dead_grow stack baseOffset size).trans alive
  have baseEq2 := base_grow stillAlive other otherSize
  have oldEq2 := oldStackSize_grow stillAlive other otherSize
  rw [oldEq] at oldEq2
  unfold oldStackSize newStackSize at oldEq2
  exact
    { above := by omega
      below := by omega
      small := small }

end StackState

end Drob
