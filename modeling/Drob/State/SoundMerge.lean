import Drob.State.Joining

/-!
Merging program states is a sound join where equal tail bytes belong to shared pointers
and no known byte of the left side is dead on the right side.
-/

namespace Drob

open DynamicValueType

namespace ProgramState

theorem mergeRegisters_joined {lhs rhs : ProgramState} (left : lhs.WellFormed)
    (right : rhs.WellFormed) (compatible : MergeCompatible lhs rhs) :
    ∃ merged diff, mergeRegisters lhs rhs containers = .ok (merged, diff) ∧
      merged.stack = lhs.stack ∧
      ∀ container, ∃ changed,
        Elements.Joined (lhs.reg container) (rhs.reg container) (merged.reg container) changed ∧
          (diff = false → changed = false) := by
  obtain ⟨merged, diff, returned, _ok, stackEq⟩ := mergeRegisters_ok left right containers
    containers_nodup (fun container _ => compatible.regs container)
  obtain ⟨_, _, inside, _⟩ := mergeRegisters_spec containers_nodup returned
  refine ⟨merged, diff, returned, stackEq, ?_⟩
  intro container
  obtain ⟨changed, found, told⟩ := inside container (mem_containers container)
  obtain ⟨estate, other, estateEq, joined⟩ :=
    (left.regs container).mergeElements_joined (right.regs container)
      ((left.size_eq container).trans (right.size_eq container).symm) (compatible.regs container)
  rw [found] at estateEq
  cases estateEq
  refine ⟨changed, joined, fun noDiff => ?_⟩
  cases changed with
  | false => rfl
  | true => exact absurd (told rfl) (by rw [noDiff]; exact Bool.false_ne_true)

theorem mergeRegisters_same {merged rhs : ProgramState} (all : List Container)
    (same : ∀ container, Elements.mergeElements (merged.reg container) (rhs.reg container) =
      .ok (merged.reg container, false)) :
    mergeRegisters merged rhs all = .ok (merged, false) := by
  induction all with
  | nil => rfl
  | cons container rest ih =>
      have unchanged : merged.withReg container (merged.reg container) = merged := by
        unfold withReg
        rw [Function.update_eq_self]
      unfold mergeRegisters
      rw [same container]
      dsimp only [bind, Except.bind]
      rw [unchanged, ih]
      rfl

theorem grow_same {stack : StackState} {oldSize newSize : Int} (old : oldSize ≤ stack.oldStackSize)
    (new : newSize ≤ stack.newStackSize) (nonneg : 0 ≤ newSize) (oldNonneg : 0 ≤ oldSize) :
    (stack.grow oldSize 0).grow (-newSize) 0 = stack := by
  have first : stack.grow oldSize 0 = stack := by
    unfold StackState.grow
    split
    · rfl
    · have sameOld : stack.growOld (oldSize + (0 : Nat)) = stack := by
        unfold StackState.growOld
        exact if_neg (by omega)
      rw [sameOld]
      unfold StackState.growNew
      exact if_neg (by omega)
  rw [first]
  unfold StackState.grow
  split
  · rfl
  · have sameOld : stack.growOld (-newSize + (0 : Nat)) = stack := by
      unfold StackState.growOld
      exact if_neg (by omega)
    rw [sameOld, neg_neg]
    unfold StackState.growNew
    exact if_neg (by omega)

theorem alignStacks_sizes {lhs rhs : ProgramState} (left : lhs.WellFormed)
    (right : rhs.WellFormed) (leftAlive : lhs.stack.dead = false)
    (rightAlive : rhs.stack.dead = false) :
    (alignStacks lhs rhs).1.stack.elems.size = (alignStacks lhs rhs).2.stack.elems.size := by
  have leftSize := size_grow_both left.stack leftAlive
    (le_max_left lhs.stack.oldStackSize rhs.stack.oldStackSize)
    (le_max_left lhs.stack.newStackSize rhs.stack.newStackSize)
  have rightSize := size_grow_both right.stack rightAlive
    (le_max_right lhs.stack.oldStackSize rhs.stack.oldStackSize)
    (le_max_right lhs.stack.newStackSize rhs.stack.newStackSize)
  exact Int.ofNat_inj.mp (leftSize.trans rightSize.symm)

theorem alignStacks_same {lhs rhs : ProgramState} (left : lhs.WellFormed)
    (base : lhs.stack.base = rhs.stack.base)
    (size : lhs.stack.elems.size = rhs.stack.elems.size) : alignStacks lhs rhs = (lhs, rhs) := by
  have nonneg := left.stack.base_nonneg
  have le := left.stack.base_le
  have oldSame : lhs.stack.oldStackSize = rhs.stack.oldStackSize := by
    unfold StackState.oldStackSize StackState.newStackSize
    rw [base, size]
  have newSame : lhs.stack.newStackSize = rhs.stack.newStackSize := base
  have oldNonneg : 0 ≤ lhs.stack.oldStackSize := by
    unfold StackState.oldStackSize StackState.newStackSize
    omega
  unfold alignStacks growStack
  rw [← oldSame, ← newSame, max_self, max_self]
  dsimp only
  rw [grow_same le_rfl le_rfl nonneg oldNonneg, grow_same oldSame.le newSame.le nonneg oldNonneg]

/-! ### The join -/

/-- Equal tail bytes belong to shared pointers, and no known byte of the left side is
dead on the right side. -/
structure JoinClear (lhs rhs : ProgramState) : Prop where
  compatible : MergeCompatible lhs rhs
  regs : ∀ container k, k < container.size →
    ¬ Elements.LosesDead (lhs.reg container) (rhs.reg container) k
  stack : lhs.stack.dead = false → rhs.stack.dead = false →
    ∀ k, k < (alignStacks lhs rhs).1.stack.elems.size →
      ¬ Elements.LosesDead (alignStacks lhs rhs).1.stack.elems
        (alignStacks lhs rhs).2.stack.elems k

/-- What a merge promises of the new left side: it describes what either side describes,
also while values are written, merging again changes nothing, and without a difference
it describes nothing new. -/
structure JoinOf (lhs rhs merged grown : ProgramState) (diff : Bool) : Prop where
  describes : ∀ concrete, lhs.Describes concrete ∨ rhs.Describes concrete →
    merged.Describes concrete
  answers : ∀ concrete, lhs.Describes concrete ∨ rhs.Describes concrete →
    ∀ later after, Written merged concrete later after → later.Answers after
  again : merge merged grown = .ok (merged, grown, false)
  unchanged : diff = false → ∀ concrete, merged.Describes concrete → lhs.Describes concrete

/-- A merge returns and keeps its promises. -/
def SoundJoin (lhs rhs : ProgramState) : Prop :=
  ∃ merged grown diff, merge lhs rhs = .ok (merged, grown, diff) ∧
    JoinOf lhs rhs merged grown diff

/-- Merged stacks: the same three promises for the stack bytes. -/
structure StackJoined (lhs rhs merged grown : ProgramState) (diff : Bool) : Prop where
  regs : merged.reg = lhs.reg ∧ grown.reg = rhs.reg
  shape : merged.stack.WellFormed
  describes : ∀ base bytes,
    (lhs.stack.dead = false → lhs.stack.Describes base bytes) ∨
      (rhs.stack.dead = false → rhs.stack.Describes base bytes) →
    merged.stack.dead = false → merged.stack.Describes base bytes
  again : ∀ other : ProgramState, other.WellFormed → other.stack = merged.stack →
    mergeStacks other grown = .ok (other, grown, false)
  unchanged : diff = false → ∀ base bytes,
    (merged.stack.dead = false → merged.stack.Describes base bytes) →
    lhs.stack.dead = false → lhs.stack.Describes base bytes

theorem mergeStacks_joined {lhs rhs : ProgramState} (left : lhs.WellFormed)
    (right : rhs.WellFormed)
    (compatible : lhs.stack.dead = false → rhs.stack.dead = false →
      Elements.MergeCompatible (alignStacks lhs rhs).1.stack.elems
        (alignStacks lhs rhs).2.stack.elems)
    (keeps : lhs.stack.dead = false → rhs.stack.dead = false →
      ∀ k, k < (alignStacks lhs rhs).1.stack.elems.size →
        ¬ Elements.LosesDead (alignStacks lhs rhs).1.stack.elems
          (alignStacks lhs rhs).2.stack.elems k) :
    ∃ merged grown diff, mergeStacks lhs rhs = .ok (merged, grown, diff) ∧
      StackJoined lhs rhs merged grown diff := by
  cases leftDead : lhs.stack.dead with
  | true =>
      refine ⟨lhs, rhs, false, by unfold mergeStacks isStackDead; rw [leftDead], ?_⟩
      refine ⟨⟨rfl, rfl⟩, left.stack, ?_, ?_, fun _ _ _ describes => describes⟩
      · intro base bytes _either alive
        rw [leftDead] at alive
        cases alive
      · intro other _ok same
        unfold mergeStacks isStackDead
        rw [same, leftDead]
  | false =>
      cases rightDead : rhs.stack.dead with
      | true =>
          refine ⟨_, rhs, true, by unfold mergeStacks isStackDead; rw [leftDead, rightDead], ?_⟩
          refine ⟨⟨rfl, rfl⟩, StackState.wellFormed_setDead lhs.stack, ?_, ?_,
            fun impossible => by cases impossible⟩
          · intro base bytes _either alive
            cases alive
          · intro other _ok same
            unfold mergeStacks isStackDead
            rw [same]
            rfl
      | false =>
          obtain ⟨grownLeft, grownRight⟩ := left.alignStacks right
          have sizes := alignStacks_sizes left right leftDead rightDead
          obtain ⟨regLeft, regRight, aliveLeft, aliveRight, bases, elemLeft, elemRight⟩ :=
            alignStacks_spec leftDead rightDead
          have compatible' := compatible leftDead rightDead
          have keeps' := keeps leftDead rightDead
          have unfolded : mergeStacks lhs rhs =
              (Elements.mergeElements (alignStacks lhs rhs).1.stack.elems
                (alignStacks lhs rhs).2.stack.elems).bind (fun merged =>
                  .ok ((alignStacks lhs rhs).1.withStackElems merged.1, (alignStacks lhs rhs).2,
                    merged.2)) := by
            unfold mergeStacks isStackDead
            rw [leftDead, rightDead]
            rfl
          rw [unfolded]
          generalize (alignStacks lhs rhs).1 = grownLhs at *
          generalize (alignStacks lhs rhs).2 = grownRhs at *
          obtain ⟨estate, diff, returned, joined⟩ :=
            grownLeft.stack.shape.mergeElements_joined grownRight.stack.shape sizes compatible'
          have shape := (grownLeft.withStackElems joined.size_eq joined.shape).stack
          have iffMerged {base : DynamicValue.PtrBase} {bytes : Int → BitVec 8} :=
            @StackState.describes_iff base (grownLhs.withStackElems estate).stack bytes joined.shape
          refine ⟨_, grownRhs, diff, by rw [returned]; rfl, ?_⟩
          refine ⟨⟨regLeft, regRight⟩, shape, ?_, ?_, ?_⟩
          · intro base bytes either _alive
            apply iffMerged.mpr
            rcases either with describes | describes
            · have grown := (describes leftDead).congr elemLeft
              exact joined.describes_left ((StackState.describes_iff grownLeft.stack.shape).mp grown)
            · have grown := (describes rightDead).congr elemRight
              have elems := (StackState.describes_iff grownRight.stack.shape).mp grown
              rw [← bases] at elems
              exact joined.describes_right sizes elems
          · intro other otherOk same
            have otherAlive : other.stack.dead = false := by
              rw [same]
              exact aliveLeft
            have aligned : alignStacks other grownRhs = (other, grownRhs) := by
              apply alignStacks_same otherOk
              · rw [same]
                exact bases
              · rw [same]
                exact joined.size_eq.trans sizes
            unfold mergeStacks isStackDead
            have elems : other.stack.elems = estate := by
              rw [same]
              rfl
            rw [otherAlive, aliveRight, aligned]
            dsimp only
            rw [elems, joined.again sizes keeps']
            have unchanged : other.withStackElems estate = other := by
              obtain ⟨regs, stack⟩ := other
              cases same
              rfl
            change Except.ok (other.withStackElems estate, grownRhs, false) = _
            rw [unchanged]
          · intro noDiff base bytes describes _alive
            have elems := iffMerged.mp (describes aliveLeft)
            have old := joined.describes_old noDiff elems
            have grown := (StackState.describes_iff grownLeft.stack.shape).mpr old
            exact grown.congr (fun offset => (elemLeft offset).symm)

/-- Where tails are shared and no known byte is lost, merging is a sound join. -/
theorem soundJoin_of_joinClear (lhs rhs : ProgramState) (left : lhs.WellFormed)
    (right : rhs.WellFormed) (clear : JoinClear lhs rhs) : SoundJoin lhs rhs := by
  obtain ⟨registers, diff, first, stackEq, joined⟩ :=
    mergeRegisters_joined left right clear.compatible
  have registersOk : registers.WellFormed := by
    refine
      { size_eq := ?_
        regs := ?_
        stack := stackEq ▸ left.stack }
    · intro container
      obtain ⟨changed, known, _⟩ := joined container
      exact known.size_eq.trans (left.size_eq container)
    · intro container
      obtain ⟨changed, known, _⟩ := joined container
      exact known.shape
  have aligned : (alignStacks registers rhs).1.stack = (alignStacks lhs rhs).1.stack ∧
      (alignStacks registers rhs).2.stack = (alignStacks lhs rhs).2.stack := by
    unfold alignStacks growStack
    dsimp only
    rw [stackEq]
    exact ⟨rfl, rfl⟩
  obtain ⟨merged, grown, later, second, stackJoin⟩ := mergeStacks_joined registersOk right
    (by
      rw [stackEq, aligned.1, aligned.2]
      exact clear.compatible.stack)
    (by
      rw [stackEq, aligned.1, aligned.2]
      exact clear.stack)
  have mergedOk : merged.WellFormed :=
    { size_eq := fun container => by
        rw [stackJoin.regs.1]
        exact registersOk.size_eq container
      regs := fun container => by
        rw [stackJoin.regs.1]
        exact registersOk.regs container
      stack := stackJoin.shape }
  have describes (concrete : Concrete)
      (either : lhs.Describes concrete ∨ rhs.Describes concrete) : merged.Describes concrete := by
    constructor
    · intro container
      rw [stackJoin.regs.1]
      obtain ⟨changed, known, _⟩ := joined container
      rcases either with old | other
      · exact known.describes_left (old.regs container)
      · exact known.describes_right
          ((left.size_eq container).trans (right.size_eq container).symm) (other.regs container)
    · apply stackJoin.describes
      rw [stackEq]
      rcases either with old | other
      · exact Or.inl old.stack
      · exact Or.inr other.stack
  refine ⟨merged, grown, diff || later, ?_, ?_⟩
  · unfold merge
    rw [first]
    dsimp only [bind, Except.bind]
    rw [second]
  · refine
      { describes := describes
        answers := ?_
        again := ?_
        unchanged := ?_ }
    · intro concrete either later after written
      exact written.answers (describes concrete either) mergedOk
    · have registersAgain : mergeRegisters merged grown containers = .ok (merged, false) := by
        apply mergeRegisters_same
        intro container
        rw [stackJoin.regs.1, stackJoin.regs.2]
        obtain ⟨changed, known, _⟩ := joined container
        apply known.again ((left.size_eq container).trans (right.size_eq container).symm)
        intro k inside
        exact clear.regs container k (left.size_eq container ▸ inside)
      unfold merge
      rw [registersAgain]
      dsimp only [bind, Except.bind]
      rw [stackJoin.again merged mergedOk rfl]
      rfl
    · intro noDiff concrete described
      obtain ⟨noRegisters, noStack⟩ := Bool.or_eq_false_iff.mp noDiff
      constructor
      · intro container
        obtain ⟨changed, known, told⟩ := joined container
        apply known.describes_old (told noRegisters)
        rw [← stackJoin.regs.1]
        exact described.regs container
      · have old := stackJoin.unchanged noStack concrete.base concrete.stack described.stack
        rw [stackEq] at old
        exact old

/-! ### Pointers that overlap -/

def storePointerAt (baseOffset : Int) (ptrOffset : BitVec 64) : Operation :=
  .setStack baseOffset 8 (.ptr .usr 0 ptrOffset) false

theorem storePointerAt_wellFormed {baseOffset : Int} {ptrOffset : BitVec 64} {ps : ProgramState}
    (near : -16 ≤ baseOffset ∧ baseOffset ≤ -8)
    (stored : (storePointerAt baseOffset ptrOffset).run .initial = .ok ps) : ps.WellFormed := by
  have valid : (storePointerAt baseOffset ptrOffset).Valid := by
    refine ⟨by unfold OperandSize; decide, fun _ => rfl, ?_⟩
    intro impossible
    cases impossible
  have clear : (storePointerAt baseOffset ptrOffset).Clear .initial := by
    obtain ⟨above, below⟩ := near
    interval_cases baseOffset <;>
      exact ⟨fun _ => by decide, fun _ i _ below => by interval_cases i <;> rfl⟩
  rcases (storePointerAt baseOffset ptrOffset).run_sound wellFormed_initial valid clear with
    ⟨next, nextEq, nextOk⟩ | ⟨message, thrown⟩
  · rw [stored] at nextEq
    cases nextEq
    exact nextOk
  · rw [stored] at thrown
    cases thrown

theorem soundJoin_storePointerAt : ∃ lhs rhs, (storePointerAt (-8) 0).run .initial = .ok lhs ∧
    (storePointerAt (-8) 4).run .initial = .ok rhs ∧ SoundJoin lhs rhs := by
  refine ⟨_, _, rfl, rfl, soundJoin_of_joinClear _ _
    (storePointerAt_wellFormed (by decide) (rfl : (storePointerAt (-8) 0).run .initial = _))
    (storePointerAt_wellFormed (by decide) (rfl : (storePointerAt (-8) 4).run .initial = _))
    ⟨⟨?_, ?_⟩, ?_, ?_⟩⟩
  · intro container k _inside _same tail
    cases tail
  · intro _leftAlive _rightAlive k inside _same tail
    have below : k < 8 := inside
    cases k with
    | zero => cases tail
    | succ k => exact ⟨0, .usr, Nat.succ_pos k, below, rfl, rfl⟩
  · intro container k _inside lost
    exact lost.2.1 rfl
  · intro _leftAlive _rightAlive k inside lost
    have below : k < 8 := inside
    have dead := lost.1
    interval_cases k <;> cases dead

/-- What is read over the end of a pointer that only one side has, after a byte is
written in front of it, with the stack sizes of both accesses. -/
def overlapAnswer : Except Failure (DynamicValue × Nat × Nat) := do
  let lhs ← (storePointerAt (-16) 0).run .initial
  let rhs ← (storePointerAt (-12) 0).run .initial
  let (merged, _, _) ← merge lhs rhs
  let written ← merged.setStack (-12) 1 (.imm64 0) false
  let (value, _) ← written.getStack (-12) 4
  .ok (value, (merged.growStack (-12) 1).stack.elems.size,
    (written.growStack (-12) 4).stack.elems.size)

def overlapBytes : Concrete :=
  { base := fun _ _ => BitVec.allOnes 64, reg := fun _ _ => 0, stack := fun _ => 0 }

theorem describes_initial (concrete : Concrete) : initial.Describes concrete := by
  have nothing (offset : Int) : initial.stack.typeAt offset = .dead := by
    by_contra known
    have inside := StackState.inside_of_typeAt known
    change 0 ≤ 0 + offset ∧ 0 + offset < ((0 : Nat) : Int) at inside
    omega
  constructor
  · intro container
    constructor
    · intro k _inside imm
      cases imm
    · intro h type _inside head
      cases type <;> cases head
  · intro _alive
    constructor
    · intro offset imm
      rw [nothing] at imm
      cases imm
    · intro offset type head
      rw [nothing] at head
      cases type <;> cases head

/-- Where two pointers overlap, the tail bytes that both sides have stay without a
head, and a later read takes their data for an immediate. -/
theorem not_soundJoin_of_wellFormed :
    ¬ ∀ lhs rhs : ProgramState, lhs.WellFormed → rhs.WellFormed → SoundJoin lhs rhs := by
  intro always
  have answer : overlapAnswer = .ok (.imm64 0, 16, 16) := by
    decide +kernel
  obtain ⟨lhs, stored, answer⟩ := bind_ok answer
  obtain ⟨rhs, otherStored, answer⟩ := bind_ok answer
  obtain ⟨⟨merged, grown, diff⟩, mergedEq, answer⟩ := bind_ok answer
  obtain ⟨written, writtenEq, answer⟩ := bind_ok answer
  obtain ⟨⟨value, last⟩, read, same⟩ := bind_ok answer
  injection same with same
  obtain ⟨valueEq, sizes⟩ := Prod.mk.inj same
  obtain ⟨mergedSize, writtenSize⟩ := Prod.mk.inj sizes
  obtain ⟨other, otherGrown, otherDiff, returned, join⟩ := always lhs rhs
    (storePointerAt_wellFormed (by decide) stored)
    (storePointerAt_wellFormed (by decide) otherStored)
  rw [mergedEq] at returned
  cases returned
  let ones : Nat → BitVec 8 := fun _ => BitVec.allOnes 8
  have described : rhs.Describes (overlapBytes.setStack (-12) 8 ones) := by
    have pointer : DynamicValue.Describes overlapBytes.base (.ptr .usr 0 0) (word ones 0 8) := by
      change word ones 0 8 = (BitVec.allOnes 64 + 0).setWidth 64
      decide
    have smallNr : DynamicValue.SmallNr (.ptr .usr 0 0) := by
      change 0 < 256
      decide
    exact setStack_describes (describes_initial overlapBytes) wellFormed_initial
      (by unfold OperandSize; decide) ⟨fun _ => rfl, fun impossible => by cases impossible⟩
      smallNr (fun _ => by decide) (fun _ i _ below => by interval_cases i <;> rfl) pointer
      otherStored
  have writes : Written merged (overlapBytes.setStack (-12) 8 ones) written
      ((overlapBytes.setStack (-12) 8 ones).setStack (-12) 1 (fun _ => 0)) := by
    refine .write (.stack (-12) 1 (.imm64 0) (fun _ => 0)) .nothing ?_ ⟨?_, ?_⟩ ?_ writtenEq
    · refine ⟨by unfold OperandSize; decide, ?_, fun _ => Or.inl rfl⟩
      intro impossible
      cases impossible
    · intro _alive
      rw [mergedSize]
      decide
    · intro _alive _grown i positive below
      omega
    · refine ⟨trivial, ?_⟩
      change word (fun _ => 0) 0 1 = (0 : BitVec 64).setWidth 8
      decide
  obtain ⟨found, after, foundEq, describes⟩ :=
    (join.answers _ (Or.inr described) written _ writes).stack (-12) 4
      (by unfold OperandSize; decide) (fun _ => by rw [writtenSize]; decide)
  rw [read] at foundEq
  cases foundEq
  subst valueEq
  change StackState.wordAt _ (-12) 4 = (0 : BitVec 64).setWidth 32 at describes
  revert describes
  decide

end ProgramState

end Drob
