import Drob.Library.Result
import Drob.State.Runs

/-!
No operation changes the size of a register, and the tracked stack grows only as far
as the accesses to it reach.
-/

namespace Drob

namespace Elements

/-! ### Sizes -/

theorem size_clearParent {estate cleared : Elements} {byteOffset position : Nat}
    (returned : clearParent estate byteOffset position = .ok cleared) :
    cleared.size = estate.size := by
  induction position with
  | zero => cases returned
  | succ position ih =>
      unfold clearParent at returned
      obtain ⟨_, found⟩ := ite_ok returned
      split at found
      · exact ih found
      · cases found
        exact clearTail_size estate position

theorem size_markUnknownAt {estate marked : Elements} {byteOffset i : Nat}
    (returned : markUnknownAt estate byteOffset i = .ok marked) : marked.size = estate.size := by
  unfold markUnknownAt at returned
  split at returned
  · cases returned
    rfl
  · cases returned
    rfl
  · exact size_clearParent (ite_ok returned).2
  · exact size_clearParent (ite_ok returned).2
  · cases returned
    rfl
  · cases returned
    rfl
  all_goals
    cases returned
    exact clearTail_size estate byteOffset

theorem size_markUnknown {estate marked : Elements} {byteOffset bytes : Nat}
    (returned : markUnknown estate byteOffset bytes = .ok marked) :
    marked.size = estate.size := by
  unfold markUnknown at returned
  generalize 0 = i at returned
  induction bytes generalizing i estate with
  | zero =>
      cases returned
      rfl
  | succ n ih =>
      obtain ⟨next, first, rest⟩ := bind_ok returned
      exact (ih (i + 1) rest).trans (size_markUnknownAt first)

theorem size_setElements {estate changed : Elements} {byteOffset bytes : Nat}
    {data : DynamicValue} {cond : Bool}
    (returned : setElements estate byteOffset bytes data cond = .ok changed) :
    changed.size = estate.size := by
  unfold setElements at returned
  obtain ⟨_, returned⟩ := ite_error returned
  obtain ⟨_, returned⟩ := ite_error returned
  obtain ⟨marked, first, written⟩ := bind_ok returned
  rw [← size_markUnknown first]
  cases data with
  | ptr type nr ptrOffset =>
      cases (ite_ok written).2
      rfl
  | imm64 val =>
      cases (ite_ok written).2
      rfl
  | imm128 val =>
      cases (ite_ok written).2
      rfl
  | dead =>
      cases written
      rfl
  | unknown =>
      cases written
      rfl
  | tainted =>
      cases written
      rfl

theorem size_moveStep (source : Elements → Elements) (byteOffset1 byteOffset2 bytes i : Nat)
    (estate2 : Elements) :
    (moveStep source byteOffset1 byteOffset2 bytes i estate2).1.size = estate2.size := by
  have copied := copyLoop_size source byteOffset1 byteOffset2 8 i estate2
  cases type : ((source estate2).elem (byteOffset1 + i)).type with
  | stackPtr | usrPtr | returnPtr =>
      unfold moveStep
      dsimp only
      rw [type]
      dsimp only
      split
      · rfl
      · exact copied
  | immediate | dead | tail | unknown | stackPtrTail | tainted =>
      unfold moveStep
      dsimp only
      rw [type]
      rfl

theorem size_moveLoop (source : Elements → Elements) (byteOffset1 byteOffset2 bytes n i skip : Nat)
    (estate2 : Elements) :
    (moveLoop source byteOffset1 byteOffset2 bytes n i skip estate2).size = estate2.size := by
  induction n generalizing i skip estate2 with
  | zero => rfl
  | succ n ih =>
      cases skip with
      | succ skip => exact ih (i + 1) skip estate2
      | zero => exact (ih _ _ _).trans (size_moveStep source byteOffset1 byteOffset2 bytes i estate2)

theorem size_moveElements {estate1 : Option Elements} {estate2 moved : Elements}
    {byteOffset1 byteOffset2 bytes : Nat}
    (returned : moveElements estate1 byteOffset1 estate2 byteOffset2 bytes = .ok moved) :
    moved.size = estate2.size := by
  unfold moveElements at returned
  split at returned
  · cases returned
    rfl
  · obtain ⟨marked, first, written⟩ := bind_ok returned
    cases written
    exact (size_moveLoop _ _ _ _ _ _ _ _).trans (size_markUnknown first)

theorem size_mergeStep (lhs rhs : Elements) (i : Nat) : (mergeStep lhs rhs i).1.size = lhs.size := by
  unfold mergeStep
  dsimp only
  split
  · split
    · split
      · exact clearTail_size lhs i
      · rfl
    · split
      · split <;> rfl
      · rfl
  · split
    · rfl
    · split
      · split <;> rfl
      · split <;> rfl

theorem size_mergeLoop (rhs : Elements) (n i skip : Nat) (lhs : Elements) (diff : Bool) :
    (mergeLoop rhs n i skip lhs diff).1.size = lhs.size := by
  induction n generalizing i skip lhs diff with
  | zero => rfl
  | succ n ih =>
      cases skip with
      | succ skip => exact ih (i + 1) skip lhs diff
      | zero => exact (ih _ _ _ _).trans (size_mergeStep lhs rhs i)

theorem size_mergeElements {lhs rhs merged : Elements} {diff : Bool}
    (returned : mergeElements lhs rhs = .ok (merged, diff)) : merged.size = lhs.size := by
  unfold mergeElements at returned
  have found := (ite_ok returned).2
  injection found with found
  have same : (mergeLoop rhs lhs.size 0 0 lhs false).1 = merged := congrArg Prod.fst found
  rw [← same]
  exact size_mergeLoop rhs lhs.size 0 0 lhs false

end Elements

namespace StackState

structure Within (bound : Int) (stack : StackState) : Prop where
  base_nonneg : 0 ≤ stack.base
  base_le : stack.base ≤ stack.elems.size
  new_le : stack.base ≤ bound
  old_le : stack.elems.size - stack.base ≤ bound

theorem Within.setDead {bound : Int} (nonneg : 0 ≤ bound) (stack : StackState) :
    stack.setDead.Within bound :=
  { base_nonneg := le_refl 0
    base_le := le_refl 0
    new_le := nonneg
    old_le := nonneg }

theorem Within.grow {bound : Int} {stack : StackState} (within : stack.Within bound)
    {baseOffset : Int} {size : Nat} (new : -bound ≤ baseOffset)
    (old : baseOffset + size ≤ bound) : (stack.grow baseOffset size).Within bound := by
  have nonneg := within.base_nonneg
  have le := within.base_le
  have newLe := within.new_le
  have oldLe := within.old_le
  unfold StackState.grow
  split
  · exact within
  · have grownOld : (stack.growOld (baseOffset + size)).Within bound := by
      unfold growOld oldStackSize newStackSize
      split
      · exact
          { base_nonneg := nonneg
            base_le := by dsimp only; omega
            new_le := newLe
            old_le := by dsimp only; omega }
      · exact within
    generalize stack.growOld (baseOffset + size) = grown at grownOld
    have nonneg' := grownOld.base_nonneg
    have le' := grownOld.base_le
    have newLe' := grownOld.new_le
    have oldLe' := grownOld.old_le
    unfold growNew newStackSize
    split
    · exact
        { base_nonneg := by dsimp only; omega
          base_le := by dsimp only; omega
          new_le := by dsimp only; omega
          old_le := by dsimp only; omega }
    · exact grownOld

theorem Within.withElems {bound : Int} {stack : StackState} (within : stack.Within bound)
    {estate : Elements} (size : estate.size = stack.elems.size) :
    Within bound { stack with elems := estate } where
  base_nonneg := within.base_nonneg
  base_le := by
    change stack.base ≤ (estate.size : Int)
    rw [size]
    exact within.base_le
  new_le := within.new_le
  old_le := by
    change (estate.size : Int) - stack.base ≤ bound
    rw [size]
    exact within.old_le

end StackState

namespace ProgramState

/-- All registers have their size, and the tracked stack is within a distance of the
base. -/
structure Within (bound : Int) (ps : ProgramState) : Prop where
  sizes : ∀ container, (ps.reg container).size = container.size
  stack : ps.stack.Within bound

/-- The accesses that a distance allows: the offset is a 64-bit number, and no access
is larger than a vector. -/
structure Reaches (bound baseOffset : Int) (size : Nat) : Prop where
  new : -bound ≤ baseOffset
  old : baseOffset + size ≤ bound

variable {bound : Int} {ps later : ProgramState}

theorem Within.withReg (within : ps.Within bound) {container : Container} {estate : Elements}
    (size : estate.size = (ps.reg container).size) : (ps.withReg container estate).Within bound where
  sizes := by
    intro other
    by_cases same : other = container
    · subst same
      rw [reg_withReg_self, size]
      exact within.sizes other
    · rw [reg_withReg_of_ne ps estate same]
      exact within.sizes other
  stack := within.stack

theorem Within.growStack (within : ps.Within bound) {baseOffset : Int} {size : Nat}
    (reaches : Reaches bound baseOffset size) : (ps.growStack baseOffset size).Within bound where
  sizes := within.sizes
  stack := within.stack.grow reaches.new reaches.old

theorem Within.withStackElems (within : ps.Within bound) {estate : Elements}
    (size : estate.size = ps.stack.elems.size) : (ps.withStackElems estate).Within bound where
  sizes := within.sizes
  stack := within.stack.withElems size

theorem Within.setSlice (within : ps.Within bound) {slice : RegisterSlice} {data : DynamicValue}
    {cond : Bool} (returned : ps.setSlice slice data cond = .ok later) : later.Within bound := by
  obtain ⟨estate, written, same⟩ := bind_ok returned
  cases same
  exact within.withReg (Elements.size_setElements written)

theorem Within.setRegister (within : ps.Within bound) {reg : Register}
    {access : RegisterAccessType} {data : DynamicValue} {cond : Bool}
    (returned : ps.setRegister reg access data cond = .ok later) : later.Within bound := by
  unfold ProgramState.setRegister at returned
  split at returned
  · obtain ⟨parent, _, returned⟩ := bind_ok returned
    obtain ⟨zeroed, cleared, returned⟩ := bind_ok returned
    obtain ⟨slice, _, returned⟩ := bind_ok returned
    exact (within.setSlice cleared).setSlice returned
  · obtain ⟨slice, _, returned⟩ := bind_ok returned
    exact within.setSlice returned

theorem Within.setStack (within : ps.Within bound) {baseOffset : Int} {size : Nat}
    {data : DynamicValue} {cond : Bool} (reaches : Reaches bound baseOffset size)
    (returned : ps.setStack baseOffset size data cond = .ok later) : later.Within bound := by
  unfold ProgramState.setStack at returned
  obtain ⟨_, returned⟩ := ite_error returned
  split at returned
  · cases returned
    exact within
  · obtain ⟨estate, written, same⟩ := bind_ok returned
    cases same
    exact (within.growStack reaches).withStackElems (Elements.size_setElements written)

theorem Within.getStack (within : ps.Within bound) {baseOffset : Int} {size : Nat}
    {data : DynamicValue} (reaches : Reaches bound baseOffset size)
    (returned : ps.getStack baseOffset size = .ok (data, later)) : later.Within bound := by
  unfold ProgramState.getStack at returned
  obtain ⟨_, returned⟩ := ite_error returned
  split at returned
  · cases returned
    exact within
  · obtain ⟨read, _, same⟩ := bind_ok returned
    cases same
    exact within.growStack reaches

theorem Within.moveStackStack (within : ps.Within bound) {baseOffset1 baseOffset2 : Int}
    {size : Nat} (reaches1 : Reaches bound baseOffset1 size)
    (reaches2 : Reaches bound baseOffset2 size)
    (returned : ps.moveStackStack baseOffset1 baseOffset2 size = .ok later) :
    later.Within bound := by
  unfold ProgramState.moveStackStack at returned
  obtain ⟨_, returned⟩ := ite_error returned
  split at returned
  · cases returned
    exact within
  · obtain ⟨estate, moved, same⟩ := bind_ok returned
    cases same
    exact ((within.growStack reaches1).growStack reaches2).withStackElems
      (Elements.size_moveElements moved)

theorem Within.moveSlice (within : ps.Within bound) {slice1 slice2 : RegisterSlice}
    (returned : ps.moveSlice slice1 slice2 = .ok later) : later.Within bound := by
  unfold ProgramState.moveSlice at returned
  obtain ⟨estate, moved, same⟩ := bind_ok (ite_ok returned).2
  cases same
  exact within.withReg (Elements.size_moveElements moved)

theorem Within.clearDestination (within : ps.Within bound) {reg : Register}
    {access access' : RegisterAccessType}
    (returned : ps.clearDestination reg access = .ok (later, access')) : later.Within bound := by
  unfold ProgramState.clearDestination at returned
  split at returned
  · obtain ⟨cleared, written, same⟩ := bind_ok returned
    cases same
    exact within.setRegister written
  · cases returned
    exact within

theorem Within.moveRegisterRegister (within : ps.Within bound) {reg1 reg2 : Register}
    {access1 access2 : RegisterAccessType}
    (returned : ps.moveRegisterRegister reg1 access1 reg2 access2 = .ok later) :
    later.Within bound := by
  obtain ⟨slice1, _, returned⟩ := bind_ok returned
  obtain ⟨⟨cleared, access⟩, destination, returned⟩ := bind_ok returned
  obtain ⟨slice2, _, returned⟩ := bind_ok returned
  exact (within.clearDestination destination).moveSlice returned

theorem Within.moveStackRegister (within : ps.Within bound) {baseOffset : Int} {size : Nat}
    {reg : Register} {access : RegisterAccessType} (reaches : Reaches bound baseOffset size)
    (returned : ps.moveStackRegister baseOffset size reg access = .ok later) :
    later.Within bound := by
  obtain ⟨⟨cleared, access⟩, destination, returned⟩ := bind_ok returned
  obtain ⟨slice2, _, returned⟩ := bind_ok returned
  have kept := within.clearDestination destination
  dsimp only at returned
  split at returned
  · exact kept.setRegister returned
  · obtain ⟨estate, moved, same⟩ := bind_ok (ite_ok returned).2
    cases same
    exact (kept.growStack reaches).withReg (Elements.size_moveElements moved)

theorem Within.moveRegisterStack (within : ps.Within bound) {reg : Register}
    {access : RegisterAccessType} {baseOffset : Int} {size : Nat}
    (reaches : Reaches bound baseOffset size)
    (returned : ps.moveRegisterStack reg access baseOffset size = .ok later) :
    later.Within bound := by
  unfold ProgramState.moveRegisterStack at returned
  split at returned
  · cases returned
    exact within
  · obtain ⟨slice1, _, returned⟩ := bind_ok returned
    obtain ⟨estate, moved, same⟩ := bind_ok (ite_ok returned).2
    cases same
    exact (within.growStack reaches).withStackElems (Elements.size_moveElements moved)

theorem Within.untrackedStackAccess (within : ps.Within bound) :
    ps.untrackedStackAccess.Within bound where
  sizes := within.sizes
  stack := StackState.Within.setDead
    (le_trans within.stack.base_nonneg within.stack.new_le) ps.stack

theorem Within.setAll (within : ps.Within bound) {all : List Container}
    (returned : ps.setAll all = .ok later) : later.Within bound := by
  induction all generalizing ps with
  | nil =>
      cases returned
      exact within
  | cons container rest ih =>
      obtain ⟨changed, first, remaining⟩ := bind_ok returned
      exact ih (within.setSlice first) remaining

theorem Within.nastyInstruction (within : ps.Within bound)
    (returned : ps.nastyInstruction = .ok later) : later.Within bound :=
  within.untrackedStackAccess.setAll returned

/-! ### Merging -/

theorem mergeRegisters_spec {lhs rhs merged : ProgramState} {diff : Bool} {all : List Container}
    (distinct : all.Nodup) (returned : mergeRegisters lhs rhs all = .ok (merged, diff)) :
    merged.stack = lhs.stack ∧ (∀ container ∉ all, merged.reg container = lhs.reg container) ∧
      (∀ container ∈ all, ∃ changed,
        Elements.mergeElements (lhs.reg container) (rhs.reg container) =
          .ok (merged.reg container, changed) ∧ (changed = true → diff = true)) ∧
      (diff = true → ∃ container ∈ all,
        Elements.mergeElements (lhs.reg container) (rhs.reg container) =
          .ok (merged.reg container, true)) := by
  induction all generalizing lhs diff with
  | nil =>
      cases returned
      exact ⟨rfl, fun _ _ => rfl, fun _ impossible => absurd impossible List.not_mem_nil,
        fun impossible => by cases impossible⟩
  | cons container rest ih =>
      obtain ⟨fresh, distinct⟩ := List.nodup_cons.mp distinct
      obtain ⟨⟨estate, changed⟩, first, returned⟩ := bind_ok returned
      obtain ⟨⟨next, later⟩, remaining, same⟩ := bind_ok returned
      cases same
      obtain ⟨stackEq, outside, inside, some⟩ := ih distinct remaining
      have own : merged.reg container = estate := by
        rw [outside container fresh, reg_withReg_self]
      have other (c : Container) (member : c ∈ rest) :
          (lhs.withReg container estate).reg c = lhs.reg c := by
        rw [reg_withReg_of_ne]
        rintro rfl
        exact fresh member
      refine ⟨stackEq, ?_, ?_, ?_⟩
      · intro c notIn
        rw [outside c (fun member => notIn (List.mem_cons_of_mem _ member)), reg_withReg_of_ne]
        rintro rfl
        exact notIn List.mem_cons_self
      · intro c member
        rcases List.mem_cons.mp member with rfl | later'
        · refine ⟨changed, by rw [own]; exact first, ?_⟩
          intro isChanged
          rw [isChanged]
          rfl
        · obtain ⟨flag, found, implies⟩ := inside c later'
          rw [other c later'] at found
          refine ⟨flag, found, ?_⟩
          intro isChanged
          rw [implies isChanged]
          exact Bool.or_true changed
      · intro isDiff
        rcases Bool.or_eq_true_iff.mp isDiff with here | there
        · refine ⟨container, List.mem_cons_self, ?_⟩
          rw [own, ← here]
          exact first
        · obtain ⟨c, member, found⟩ := some there
          rw [other c member] at found
          exact ⟨c, List.mem_cons_of_mem _ member, found⟩

theorem reaches_old {bound : Int} {stack other : StackState} (within : stack.Within bound)
    (withinOther : other.Within bound) :
    Reaches bound (max stack.oldStackSize other.oldStackSize) 0 where
  new := by
    have le := within.base_le
    have nonneg := within.base_nonneg
    have newLe := within.new_le
    unfold StackState.oldStackSize StackState.newStackSize
    omega
  old := by
    have oldLe := within.old_le
    have oldLe' := withinOther.old_le
    unfold StackState.oldStackSize StackState.newStackSize
    omega

theorem reaches_new {bound : Int} {stack other : StackState} (within : stack.Within bound)
    (withinOther : other.Within bound) :
    Reaches bound (-max stack.newStackSize other.newStackSize) 0 where
  new := by
    have newLe := within.new_le
    have newLe' := withinOther.new_le
    unfold StackState.newStackSize
    omega
  old := by
    have nonneg := within.base_nonneg
    have newLe := within.new_le
    unfold StackState.newStackSize
    omega

theorem Within.alignStacks {lhs rhs : ProgramState} (left : lhs.Within bound)
    (right : rhs.Within bound) :
    (alignStacks lhs rhs).1.Within bound ∧ (alignStacks lhs rhs).2.Within bound := by
  have old := reaches_old left.stack right.stack
  have new := reaches_new left.stack right.stack
  exact ⟨(left.growStack old).growStack new, (right.growStack old).growStack new⟩

theorem Within.mergeStacks {lhs rhs merged grown : ProgramState} {diff : Bool}
    (left : lhs.Within bound) (right : rhs.Within bound)
    (returned : mergeStacks lhs rhs = .ok (merged, grown, diff)) :
    merged.Within bound ∧ grown.Within bound := by
  unfold ProgramState.mergeStacks at returned
  split at returned
  · cases returned
    exact ⟨left, right⟩
  · cases returned
    exact ⟨left.untrackedStackAccess, right⟩
  · obtain ⟨⟨estate, changed⟩, first, same⟩ := bind_ok returned
    cases same
    obtain ⟨alignedLeft, alignedRight⟩ := left.alignStacks right
    exact ⟨alignedLeft.withStackElems (Elements.size_mergeElements first), alignedRight⟩

theorem Within.merge {lhs rhs merged grown : ProgramState} {diff : Bool}
    (left : lhs.Within bound) (right : rhs.Within bound)
    (returned : lhs.merge rhs = .ok (merged, grown, diff)) :
    merged.Within bound ∧ grown.Within bound := by
  obtain ⟨⟨registers, changed⟩, first, returned⟩ := bind_ok returned
  obtain ⟨⟨mergedStack, grownRhs, later⟩, second, same⟩ := bind_ok returned
  cases same
  obtain ⟨stackEq, _, inside, _⟩ := mergeRegisters_spec containers_nodup first
  have registersWithin : registers.Within bound := by
    refine ⟨?_, stackEq ▸ left.stack⟩
    intro container
    obtain ⟨flag, found, _⟩ := inside container (mem_containers container)
    rw [Elements.size_mergeElements found]
    exact left.sizes container
  exact registersWithin.mergeStacks right second

end ProgramState

end Drob
