import Drob.State.StackAccesses

/-!
Runs of program state operations. In a run that never writes across the start of a
pointer and only merges compatible states, every container keeps the shape of its
pointers and no assertion fails.
-/

namespace Drob

namespace ProgramState

/-! ### Instructions with unknown effects -/

theorem containers_nodup : containers.Nodup := by
  decide

theorem mem_containers (container : Container) : container ∈ containers := by
  cases container with
  | flag1 flag => cases flag <;> decide
  | gprs64 gpr => cases gpr <;> decide
  | sse128 nr =>
      unfold containers
      exact List.mem_append_right _ (List.mem_map_of_mem (List.mem_finRange nr))

def AllClear (ps : ProgramState) : Prop :=
  ∀ container, (ps.reg container).NoInnerHead 0 container.size

theorem size_operand (container : Container) : OperandSize container.size := by
  unfold OperandSize
  cases container <;> simp [Container.size]

theorem setWhole_ok {ps : ProgramState} (wellFormed : ps.WellFormed) (container : Container)
    (clear : (ps.reg container).NoInnerHead 0 container.size) :
    ∃ next, ps.setWhole container (nastyValue container) = .ok next ∧ next.WellFormed ∧
      OnlyChanges container ps next := by
  have notPtr : (nastyValue container).isPtr = false := by cases container <;> rfl
  exact setSlice_ok wellFormed { container, byteOffset := 0, bytes := container.size } _
    (size_operand container) (by simp)
    ⟨fun isPtr => absurd (notPtr.symm.trans isPtr) Bool.false_ne_true,
      fun _ => size_operand container⟩ clear

theorem setAll_ok {ps : ProgramState} (wellFormed : ps.WellFormed) (all : List Container)
    (once : all.Nodup)
    (clear : ∀ container ∈ all, (ps.reg container).NoInnerHead 0 container.size) :
    ∃ next, ps.setAll all = .ok next ∧ next.WellFormed := by
  induction all generalizing ps with
  | nil => exact ⟨ps, rfl, wellFormed⟩
  | cons container rest ih =>
      obtain ⟨changed, returned, changedOk, only⟩ := setWhole_ok wellFormed container
        (clear container List.mem_cons_self)
      have notInRest := (List.nodup_cons.mp once).1
      obtain ⟨next, nextEq, nextOk⟩ := ih changedOk (List.nodup_cons.mp once).2 (by
        intro other member
        rw [only.2 other (fun same => notInRest (same ▸ member))]
        exact clear other (List.mem_cons_of_mem container member))
      refine ⟨next, ?_, nextOk⟩
      unfold setAll
      rw [returned]
      exact nextEq

theorem WellFormed.untrackedStackAccess {ps : ProgramState} (wellFormed : ps.WellFormed) :
    ps.untrackedStackAccess.WellFormed :=
  { size_eq := wellFormed.size_eq
    regs := wellFormed.regs
    stack := StackState.wellFormed_setDead ps.stack }

theorem nastyInstruction_ok {ps : ProgramState} (wellFormed : ps.WellFormed)
    (clear : ps.AllClear) :
    ∃ next, ps.nastyInstruction = .ok next ∧ next.WellFormed :=
  setAll_ok wellFormed.untrackedStackAccess containers containers_nodup
    (fun container _ => clear container)

/-! ### Merging states -/

/-- Equal tail bytes belong to shared pointers, in all registers and in the stacks. -/
structure MergeCompatible (lhs rhs : ProgramState) : Prop where
  regs : ∀ container, Elements.MergeCompatible (lhs.reg container) (rhs.reg container)
  stack : lhs.stack.dead = false → rhs.stack.dead = false →
    Elements.MergeCompatible (alignStacks lhs rhs).1.stack.elems
      (alignStacks lhs rhs).2.stack.elems

theorem mergeRegisters_ok {lhs rhs : ProgramState} (left : lhs.WellFormed)
    (right : rhs.WellFormed) (all : List Container) (once : all.Nodup)
    (compatible : ∀ container ∈ all,
      Elements.MergeCompatible (lhs.reg container) (rhs.reg container)) :
    ∃ merged diff, mergeRegisters lhs rhs all = .ok (merged, diff) ∧ merged.WellFormed ∧
      merged.stack = lhs.stack := by
  induction all generalizing lhs with
  | nil => exact ⟨lhs, false, rfl, left, rfl⟩
  | cons container rest ih =>
      have sizes := (left.size_eq container).trans (right.size_eq container).symm
      obtain ⟨estate, diff, returned, sizeEq, shape⟩ :=
        (left.regs container).mergeElements_ok sizes (compatible container List.mem_cons_self)
      have notInRest := (List.nodup_cons.mp once).1
      have next := left.withReg container (sizeEq.trans (left.size_eq container)) shape
      obtain ⟨merged, later, mergedEq, mergedOk, sameStack⟩ :=
        ih next (List.nodup_cons.mp once).2 (by
          intro other member
          have differ : other ≠ container := fun same => notInRest (same ▸ member)
          rw [reg_withReg_of_ne lhs estate differ]
          exact compatible other (List.mem_cons_of_mem container member))
      refine ⟨merged, diff || later, ?_, mergedOk, sameStack⟩
      unfold mergeRegisters
      rw [returned]
      dsimp only [bind, Except.bind]
      rw [mergedEq]

theorem WellFormed.alignStacks {lhs rhs : ProgramState} (left : lhs.WellFormed)
    (right : rhs.WellFormed) :
    (ProgramState.alignStacks lhs rhs).1.WellFormed ∧
      (ProgramState.alignStacks lhs rhs).2.WellFormed :=
  ⟨(left.growStack _ _).growStack _ _, (right.growStack _ _).growStack _ _⟩

theorem size_grow_both {stack : StackState} (wellFormed : stack.WellFormed)
    (alive : stack.dead = false) {oldSize newSize : Int} (old : stack.oldStackSize ≤ oldSize)
    (new : stack.newStackSize ≤ newSize) :
    (((stack.grow oldSize 0).grow (-newSize) 0).elems.size : Int) = newSize + oldSize := by
  have nonneg := wellFormed.base_nonneg
  have le := wellFormed.base_le
  have baseEq := StackState.base_grow alive oldSize 0
  have oldEq := StackState.oldStackSize_grow alive oldSize 0
  have stillAlive : (stack.grow oldSize 0).dead = false :=
    (StackState.dead_grow stack oldSize 0).trans alive
  have baseEq2 := StackState.base_grow stillAlive (-newSize) 0
  have oldEq2 := StackState.oldStackSize_grow stillAlive (-newSize) 0
  rw [oldEq] at oldEq2
  unfold StackState.oldStackSize StackState.newStackSize at *
  omega

theorem mergeStacks_ok {lhs rhs : ProgramState} (left : lhs.WellFormed)
    (right : rhs.WellFormed)
    (compatible : lhs.stack.dead = false → rhs.stack.dead = false →
      Elements.MergeCompatible (alignStacks lhs rhs).1.stack.elems
        (alignStacks lhs rhs).2.stack.elems) :
    ∃ merged grownRhs diff, mergeStacks lhs rhs = .ok (merged, grownRhs, diff) ∧
      merged.WellFormed ∧ grownRhs.WellFormed := by
  unfold mergeStacks isStackDead
  cases leftDead : lhs.stack.dead with
  | true => exact ⟨lhs, rhs, false, rfl, left, right⟩
  | false =>
      cases rightDead : rhs.stack.dead with
      | true => exact ⟨_, rhs, true, rfl, left.untrackedStackAccess, right⟩
      | false =>
          obtain ⟨grownLeft, grownRight⟩ := left.alignStacks right
          have sizes : (alignStacks lhs rhs).1.stack.elems.size =
              (alignStacks lhs rhs).2.stack.elems.size := by
            have leftSize := size_grow_both left.stack leftDead
              (le_max_left lhs.stack.oldStackSize rhs.stack.oldStackSize)
              (le_max_left lhs.stack.newStackSize rhs.stack.newStackSize)
            have rightSize := size_grow_both right.stack rightDead
              (le_max_right lhs.stack.oldStackSize rhs.stack.oldStackSize)
              (le_max_right lhs.stack.newStackSize rhs.stack.newStackSize)
            exact Int.ofNat_inj.mp (leftSize.trans rightSize.symm)
          obtain ⟨estate, diff, returned, sizeEq, shape⟩ :=
            grownLeft.stack.shape.mergeElements_ok sizes (compatible leftDead rightDead)
          refine ⟨_, _, diff, ?_, grownLeft.withStackElems sizeEq shape, grownRight⟩
          dsimp only [bind, Except.bind]
          rw [returned]

theorem merge_ok {lhs rhs : ProgramState} (left : lhs.WellFormed) (right : rhs.WellFormed)
    (compatible : MergeCompatible lhs rhs) :
    ∃ merged grownRhs diff, merge lhs rhs = .ok (merged, grownRhs, diff) ∧
      merged.WellFormed ∧ grownRhs.WellFormed := by
  obtain ⟨registers, diff, registersEq, registersOk, sameStack⟩ :=
    mergeRegisters_ok left right containers containers_nodup
      (fun container _ => compatible.regs container)
  have aligned : (alignStacks registers rhs).1.stack = (alignStacks lhs rhs).1.stack ∧
      (alignStacks registers rhs).2.stack = (alignStacks lhs rhs).2.stack := by
    unfold alignStacks growStack
    dsimp only
    rw [sameStack]
    exact ⟨rfl, rfl⟩
  obtain ⟨merged, grownRhs, later, mergedEq, mergedOk, grownOk⟩ :=
    mergeStacks_ok registersOk right (by
      rw [sameStack, aligned.1, aligned.2]
      exact compatible.stack)
  refine ⟨merged, grownRhs, diff || later, ?_, mergedOk, grownOk⟩
  unfold merge
  rw [registersEq]
  dsimp only [bind, Except.bind]
  rw [mergedEq]

/-! ### Runs -/

inductive Operation where
  | setRegister (reg : Register) (access : RegisterAccessType) (data : DynamicValue)
      (cond : Bool)
  | setStack (baseOffset : Int) (size : Nat) (data : DynamicValue) (cond : Bool)
  | getStack (baseOffset : Int) (size : Nat)
  | moveRegisterRegister (reg1 : Register) (access1 : RegisterAccessType) (reg2 : Register)
      (access2 : RegisterAccessType)
  | moveStackRegister (baseOffset : Int) (size : Nat) (reg : Register)
      (access : RegisterAccessType)
  | moveRegisterStack (reg : Register) (access : RegisterAccessType) (baseOffset : Int)
      (size : Nat)
  | moveStackStack (baseOffset1 baseOffset2 : Int) (size : Nat)
  | nastyInstruction
  | untrackedStackAccess

namespace Operation

def run (ps : ProgramState) : Operation → Except Failure ProgramState
  | .setRegister reg access data cond => ps.setRegister reg access data cond
  | .setStack baseOffset size data cond => ps.setStack baseOffset size data cond
  | .getStack baseOffset size => do
      let (_, grown) ← ps.getStack baseOffset size
      .ok grown
  | .moveRegisterRegister reg1 access1 reg2 access2 =>
      ps.moveRegisterRegister reg1 access1 reg2 access2
  | .moveStackRegister baseOffset size reg access =>
      ps.moveStackRegister baseOffset size reg access
  | .moveRegisterStack reg access baseOffset size =>
      ps.moveRegisterStack reg access baseOffset size
  | .moveStackStack baseOffset1 baseOffset2 size =>
      ps.moveStackStack baseOffset1 baseOffset2 size
  | .nastyInstruction => ps.nastyInstruction
  | .untrackedStackAccess => .ok ps.untrackedStackAccess

/-- Arguments that the callers pass: registers with the part that is accessed, the
sizes of operands, pointers to eight bytes only, and moves between equal sizes. -/
def Valid : Operation → Prop
  | .setRegister reg access data _ => AccessExists reg access ∧ FitsRegister reg access data
  | .setStack _ size data _ => OperandSize size ∧ Elements.FitsBytes data size
  | .getStack _ size => OperandSize size
  | .moveRegisterRegister reg1 access1 reg2 access2 =>
      AccessExists reg1 access1 ∧ AccessExists reg2 access2 ∧
        ∀ slice1 slice2, getRegisterData reg1 access1 = .ok slice1 →
          getRegisterData reg2 (clearedAccess access2) = .ok slice2 →
          slice1.bytes = slice2.bytes
  | .moveStackRegister _ size reg access =>
      AccessExists reg access ∧
        ∀ slice, getRegisterData reg (clearedAccess access) = .ok slice → slice.bytes = size
  | .moveRegisterStack reg access _ size =>
      AccessExists reg access ∧
        ∀ slice, getRegisterData reg access = .ok slice → slice.bytes = size
  | .moveStackStack _ _ size => OperandSize size
  | .nastyInstruction => True
  | .untrackedStackAccess => True

def Clear (ps : ProgramState) : Operation → Prop
  | .setRegister reg access _ _ => ps.RegisterClear reg access
  | .setStack baseOffset size _ _ => ps.StackSmall baseOffset size ∧ ps.StackClear baseOffset size
  | .getStack _ _ => True
  | .moveRegisterRegister reg1 access1 reg2 access2 =>
      (access2 ≠ .fullZeroParent ∧
        getRegisterData reg1 access1 = getRegisterData reg2 access2) ∨
          ps.RegisterClear reg2 access2
  | .moveStackRegister baseOffset size reg access =>
      ps.StackSmall baseOffset size ∧ ps.RegisterClear reg access
  | .moveRegisterStack _ _ baseOffset size =>
      ps.StackSmall baseOffset size ∧ ps.StackClear baseOffset size
  | .moveStackStack baseOffset1 baseOffset2 size =>
      ps.MoveSmall baseOffset1 baseOffset2 size ∧ ps.MoveClear baseOffset1 baseOffset2 size
  | .nastyInstruction => ps.AllClear
  | .untrackedStackAccess => True

theorem run_sound {ps : ProgramState} (wellFormed : ps.WellFormed) (operation : Operation)
    (valid : operation.Valid) (clear : operation.Clear ps) : Sound (operation.run ps) := by
  cases operation with
  | setRegister reg access data cond =>
      exact setRegister_sound wellFormed cond valid.1 valid.2 clear
  | setStack baseOffset size data cond =>
      exact setStack_sound wellFormed cond valid.1 valid.2 clear.1 clear.2
  | getStack baseOffset size =>
      obtain ⟨data, next, returned, nextOk⟩ := getStack_ok wellFormed baseOffset valid
      left
      refine ⟨next, ?_, nextOk⟩
      unfold run
      dsimp only
      rw [returned]
      rfl
  | moveRegisterRegister reg1 access1 reg2 access2 =>
      exact Or.inl (moveRegisterRegister_ok wellFormed valid.1 valid.2.1 valid.2.2 clear)
  | moveStackRegister baseOffset size reg access =>
      exact Or.inl (moveStackRegister_ok wellFormed valid.1 valid.2 clear.1 clear.2)
  | moveRegisterStack reg access baseOffset size =>
      exact Or.inl (moveRegisterStack_ok wellFormed valid.1 valid.2 clear.1 clear.2)
  | moveStackStack baseOffset1 baseOffset2 size =>
      exact Or.inl (moveStackStack_ok wellFormed valid clear.1 clear.2)
  | nastyInstruction => exact Or.inl (nastyInstruction_ok wellFormed clear)
  | untrackedStackAccess => exact Or.inl ⟨_, rfl, wellFormed.untrackedStackAccess⟩

end Operation

/-- The states that operations and merges produce from the initial state, where each
step meets a condition on the states it starts from. -/
inductive ReachableBy (step : ProgramState → Operation → Prop)
    (join : ProgramState → ProgramState → Prop) : ProgramState → Prop
  | initial : ReachableBy step join .initial
  | operation {ps next : ProgramState} (operation : Operation) :
      ReachableBy step join ps → operation.Valid → step ps operation →
      operation.run ps = .ok next → ReachableBy step join next
  | merge {lhs rhs merged grownRhs : ProgramState} {diff : Bool} :
      ReachableBy step join lhs → ReachableBy step join rhs → join lhs rhs →
      ProgramState.merge lhs rhs = .ok (merged, grownRhs, diff) → ReachableBy step join merged
  | mergeOther {lhs rhs merged grownRhs : ProgramState} {diff : Bool} :
      ReachableBy step join lhs → ReachableBy step join rhs → join lhs rhs →
      ProgramState.merge lhs rhs = .ok (merged, grownRhs, diff) → ReachableBy step join grownRhs

/-- All states that are reachable by operations with valid arguments. -/
abbrev Reachable : ProgramState → Prop :=
  ReachableBy (fun _ _ => True) (fun _ _ => True)

/-- The states of runs that never write across the start of a pointer and merge
compatible states only. -/
abbrev CleanlyReachable : ProgramState → Prop :=
  ReachableBy (fun ps operation => operation.Clear ps) MergeCompatible

theorem CleanlyReachable.wellFormed {ps : ProgramState} (reachable : CleanlyReachable ps) :
    ps.WellFormed := by
  induction reachable with
  | initial => exact wellFormed_initial
  | operation operation _reached valid clear returned ih =>
      rcases operation.run_sound ih valid clear with ⟨next, nextEq, nextOk⟩ | ⟨message, thrown⟩
      · rw [returned] at nextEq
        cases nextEq
        exact nextOk
      · rw [returned] at thrown
        cases thrown
  | merge _left _right compatible returned leftOk rightOk =>
      obtain ⟨merged, grownRhs, diff, mergedEq, mergedOk, _grownOk⟩ :=
        merge_ok leftOk rightOk compatible
      rw [returned] at mergedEq
      cases mergedEq
      exact mergedOk
  | mergeOther _left _right compatible returned leftOk rightOk =>
      obtain ⟨merged, grownRhs, diff, mergedEq, _mergedOk, grownOk⟩ :=
        merge_ok leftOk rightOk compatible
      rw [returned] at mergedEq
      cases mergedEq
      exact grownOk

/-- The pointers of a state are complete, and no assertion fails in the next step. -/
structure ShapeSafe (step : ProgramState → Operation → Prop)
    (join : ProgramState → ProgramState → Prop) (ps : ProgramState) : Prop where
  regs : ∀ container, (ps.reg container).WellFormed
  stack : ps.stack.elems.WellFormed
  operation : ∀ operation : Operation, operation.Valid → step ps operation →
    ∀ failure, operation.run ps = .error failure → ∃ message, failure = .exception message
  merge : ∀ other, ReachableBy step join other → join ps other →
    (ProgramState.merge ps other).isOk = true

/-- In every run whose steps never write across the start of a pointer and whose
merges are between compatible states, all pointers stay complete and no assertion
fails. -/
theorem shapeSafe_of_cleanlyReachable (ps : ProgramState) (reachable : CleanlyReachable ps) :
    ShapeSafe (fun ps operation => operation.Clear ps) MergeCompatible ps := by
  have wellFormed := CleanlyReachable.wellFormed reachable
  refine
    { regs := wellFormed.regs
      stack := wellFormed.stack.shape
      operation := ?_
      merge := ?_ }
  · intro operation valid clear failure failed
    rcases operation.run_sound wellFormed valid clear with ⟨next, returned, _ok⟩ | thrown
    · rw [failed] at returned
      cases returned
    · obtain ⟨message, thrown⟩ := thrown
      rw [failed] at thrown
      cases thrown
      exact ⟨message, rfl⟩
  · intro other otherReachable compatible
    obtain ⟨merged, grownRhs, diff, returned, _ok⟩ :=
      merge_ok wellFormed (CleanlyReachable.wellFormed otherReachable) compatible
    rw [returned]
    rfl

def storePointer : Operation :=
  .setStack (-8) 8 (.ptr .usr 0 0) false

theorem storePointer_valid : storePointer.Valid :=
  ⟨by unfold OperandSize; decide, by decide⟩

theorem storePointer_clear : storePointer.Clear .initial := by
  refine ⟨?_, ?_⟩
  · intro _alive
    decide
  · intro _alive grown i _positive below
    interval_cases i <;> rfl

theorem shapeSafe_storePointer :
    ∃ ps, storePointer.run .initial = .ok ps ∧
      ShapeSafe (fun ps operation => operation.Clear ps) MergeCompatible ps :=
  ⟨_, rfl, shapeSafe_of_cleanlyReachable _
    (.operation storePointer .initial storePointer_valid storePointer_clear rfl)⟩

/-- A store of 16 bytes over the pointer that starts in its middle fails an
assertion: `markUnknown` does not clear a pointer that starts inside the range. -/
theorem not_shapeSafe_of_reachable :
    ¬ ∀ ps, Reachable ps → ShapeSafe (fun _ _ => True) (fun _ _ => True) ps := by
  intro always
  obtain ⟨ps, stored, failed⟩ : ∃ ps, storePointer.run .initial = .ok ps ∧
      Operation.run ps (.setStack (-16) 16 .unknown false) = .error (.assertion "i == 0") :=
    ⟨_, rfl, rfl⟩
  have reached : Reachable ps :=
    .operation storePointer .initial storePointer_valid trivial stored
  obtain ⟨message, thrown⟩ := (always ps reached).operation (.setStack (-16) 16 .unknown false)
    ⟨by unfold OperandSize; decide, by decide⟩ trivial _ failed
  cases thrown

end ProgramState

end Drob
