import Drob.State.Lines

/-!
Reads return what was written. An access names a range of one line of bytes: of a
register container, or of the tracked stack.
-/

namespace Drob

open DynamicValueType LittleEndian Elements

inductive Access where
  | register (reg : Register) (access : RegisterAccessType)
  | stack (baseOffset : Int) (size : Nat)
  deriving DecidableEq

/-- The bytes of an access; the tracked stack is the line without a container. -/
structure Range where
  line : Option Container
  start : Int
  bytes : Nat

def RegisterSlice.range (slice : RegisterSlice) : Range :=
  { line := some slice.container, start := slice.byteOffset, bytes := slice.bytes }

def SliceExists (reg : Register) (access : RegisterAccessType) : Prop :=
  match getRegisterData reg access with
  | .ok slice => 0 < slice.bytes
  | .error _ => False

theorem SliceExists.slice {reg : Register} {access : RegisterAccessType}
    (known : SliceExists reg access) :
    ∃ slice, getRegisterData reg access = .ok slice ∧ OperandSize slice.bytes ∧
      slice.byteOffset + slice.bytes ≤ slice.container.size := by
  cases reg <;> cases access <;>
    first
    | exact absurd known id
    | (simp [SliceExists, getRegisterData, archGetRegisterInfo, RegisterInfo.simple,
        RegisterInfo.sizeInBytes] at known; done)
    | refine ⟨_, rfl, ?_, ?_⟩ <;>
        simp [archGetRegisterInfo, RegisterInfo.simple, RegisterInfo.sizeInBytes,
          Register.container, Container.size, OperandSize]

theorem AccessExists.sliceExists {reg : Register} {access : RegisterAccessType}
    (known : AccessExists reg access) : SliceExists reg access := by
  obtain ⟨slice, found, operand, _room⟩ := known.slice
  unfold SliceExists
  rw [found]
  exact operand.positive

theorem SliceExists.cleared {reg : Register} {access : RegisterAccessType}
    (known : SliceExists reg access) : SliceExists reg (clearedAccess access) := by
  by_cases parent : access = .fullZeroParent
  · subst parent
    exact (AccessExists.full reg).sliceExists
  · rw [clearedAccess_of_ne parent]
    exact known

theorem SliceExists.parent {reg : Register} (known : SliceExists reg .fullZeroParent) :
    AccessExists reg .fullZeroParent := by
  cases reg <;> first
    | exact absurd known id
    | exact rfl

namespace Access

def range : Access → Except Failure Range
  | .register reg access => (getRegisterData reg access).map RegisterSlice.range
  | .stack baseOffset size => .ok { line := none, start := baseOffset, bytes := size }

def Valid : Access → Prop
  | .register reg access => SliceExists reg access
  | .stack _ size => OperandSize size

/-- The access to the value itself; a write may go over the parent as well. -/
def target : Access → Access
  | .register reg access => .register reg (clearedAccess access)
  | .stack baseOffset size => .stack baseOffset size

def Allows (data : DynamicValue) : Access → Prop
  | .register reg access => FitsRegister reg access data
  | .stack _ size => FitsBytes data size

def Touches (place : Access) (line : Option Container) (k : Int) : Prop :=
  ∃ range, place.range = .ok range ∧ line = range.line ∧ range.start ≤ k ∧
    k < range.start + range.bytes

theorem range_register {reg : Register} {access : RegisterAccessType} {slice : RegisterSlice}
    (found : getRegisterData reg access = .ok slice) :
    (Access.register reg access).range = .ok slice.range :=
  congrArg (Except.map RegisterSlice.range) found

theorem Valid.target {place : Access} (valid : place.Valid) : place.target.Valid := by
  cases place with
  | register reg access => exact SliceExists.cleared valid
  | stack baseOffset size => exact valid

theorem Valid.range {place : Access} (valid : place.Valid) :
    ∃ range, place.range = .ok range ∧ OperandSize range.bytes := by
  cases place with
  | register reg access =>
      obtain ⟨slice, found, operand, _room⟩ := SliceExists.slice valid
      exact ⟨slice.range, range_register found, operand⟩
  | stack baseOffset size => exact ⟨_, rfl, valid⟩

theorem touches_iff {place : Access} {range : Range} (found : place.range = .ok range)
    (line : Option Container) (k : Int) :
    place.Touches line k ↔
      line = range.line ∧ range.start ≤ k ∧ k < range.start + range.bytes := by
  constructor
  · rintro ⟨other, same, touches⟩
    rw [found] at same
    cases same
    exact touches
  · intro touches
    exact ⟨range, found, touches⟩

end Access

namespace ProgramState

def write (ps : ProgramState) (data : DynamicValue) : Access → Except Failure ProgramState
  | .register reg access => ps.setRegister reg access data false
  | .stack baseOffset size => ps.setStack baseOffset size data false

def read (ps : ProgramState) : Access → Except Failure DynamicValue
  | .register reg access => ps.getRegister reg access
  | .stack baseOffset size => (ps.getStack baseOffset size).map Prod.fst

def roomFor (ps : ProgramState) : Access → ProgramState
  | .register _ _ => ps
  | .stack baseOffset size => ps.growStack baseOffset size

def line (ps : ProgramState) : Option Container → StackState
  | none => ps.stack
  | some container => { elems := ps.reg container, base := 0, dead := false }

/-- A pointer starts at byte `i` of a range. -/
def PointerAt (ps : ProgramState) (range : Range) (i : Nat) : Prop :=
  ((ps.line range.line).elemAt (range.start + i)).type.isPtr = true

/-- No pointer starts strictly inside the range that is written. -/
def WriteClear (ps : ProgramState) (place : Access) : Prop :=
  ∀ range, place.range = .ok range → ∀ i, 0 < i → i < range.bytes → ¬ ps.PointerAt range i

/-- A pointer that starts at `h` of a line reaches into the bytes of an access. -/
def Cuts (ps : ProgramState) (place : Access) (line : Option Container) (h : Int)
    (ptr : PtrType) : Prop :=
  ((ps.line line).elemAt h).type = ofPtr ptr ∧
    ∃ k, h ≤ k ∧ k < h + 8 ∧ place.Touches line k

/-- The two accesses have no byte in common, and the second one touches no pointer that
reaches into the first one. -/
def Apart (ps : ProgramState) (place other : Access) : Prop :=
  ∀ line k, other.Touches line k → ¬ place.Touches line k ∧
    ∀ h ptr, ps.Cuts place line h ptr → k < h ∨ h + 8 ≤ k

/-- The second access touches a byte of a pointer of which the first one overwrites
another part. -/
def TouchesRest (ps : ProgramState) (place other : Access) (ptr : PtrType) : Prop :=
  ∃ line h k, ps.Cuts place line h ptr ∧ h ≤ k ∧ k < h + 8 ∧ ¬ place.Touches line k ∧
    other.Touches line k

/-- After the write, a read of the same place gives the value, a read apart from it what
it gave before, and a read of what is left of a pointer gives no value. -/
structure ReadsBack (ps : ProgramState) (place : Access) (data : DynamicValue)
    (other : Access) (next : ProgramState) : Prop where
  back : ∀ range, place.target.range = .ok range →
    next.read place.target = .ok (resized data range.bytes)
  apart : ps.Apart place other → next.read other = ps.read other
  rest : ∀ ptr, ps.TouchesRest place other ptr → Remains ptr (next.read other)
  upper : ∀ reg parent, place = .register reg .fullZeroParent →
    (archGetRegisterInfo reg).parent = some parent →
      next.read (.register parent .h1) = .ok (.imm64 0)

/-- The stack with room for an access is at most 2^31 bytes; a register needs none. -/
def HasRoom (ps : ProgramState) : Access → Prop
  | .register _ _ => True
  | .stack baseOffset size => (ps.growStack baseOffset size).stack.elems.size ≤ 2 ^ 31

def RoomForBoth (ps : ProgramState) (place : Access) : Access → Prop
  | .register _ _ => ps.HasRoom place
  | .stack baseOffset size => (ps.roomFor place).HasRoom (.stack baseOffset size)

def ReadsWritten (ps : ProgramState) (place : Access) (data : DynamicValue) : Prop :=
  ∃ next, ps.write data place = .ok next ∧
    ∀ other, other.Valid → ps.RoomForBoth place other → ps.ReadsBack place data other next

/-! ### Reads -/

theorem WellFormed.line {ps : ProgramState} (wellFormed : ps.WellFormed)
    (line : Option Container) : (ps.line line).WellFormed := by
  cases line with
  | none => exact wellFormed.stack
  | some container =>
      exact
        { shape := wellFormed.regs container
          base_nonneg := le_refl 0
          base_le := Int.natCast_nonneg _ }

theorem WellFormed.holdsSlice {ps : ProgramState} (wellFormed : ps.WellFormed)
    {slice : RegisterSlice} (room : slice.byteOffset + slice.bytes ≤ slice.container.size) :
    (ps.line (some slice.container)).Holds slice.byteOffset slice.bytes := by
  have sizeEq := wellFormed.size_eq slice.container
  have small := slice.container.size_small
  exact
    { above := by unfold ProgramState.line; dsimp only; omega
      below := by unfold ProgramState.line; dsimp only; omega
      small := by unfold ProgramState.line; dsimp only; omega }

theorem WellFormed.sliceIdx {ps : ProgramState} (wellFormed : ps.WellFormed)
    {slice : RegisterSlice} (positive : 0 < slice.bytes)
    (room : slice.byteOffset + slice.bytes ≤ slice.container.size) :
    (ps.line (some slice.container)).getStackIdx slice.byteOffset = slice.byteOffset := by
  have index := (wellFormed.holdsSlice room).stackIdx positive
  change _ = (0 : Int) + slice.byteOffset at index
  omega

theorem getElements_line {stack : StackState} {baseOffset : Int} {size : Nat}
    (holds : stack.Holds baseOffset size) :
    stack.elems.getElements (stack.getStackIdx baseOffset) size =
      (window stack.elemAt baseOffset size).getElements 0 size := by
  apply getElements_congr
  intro i below
  rw [← holds.elem below]
  unfold window
  rw [Nat.zero_add]

theorem read_eq {ps : ProgramState} (wellFormed : ps.WellFormed) (alive : ps.stack.dead = false)
    {place : Access} {range : Range} (valid : place.Valid) (found : place.range = .ok range)
    (small : ps.HasRoom place) :
    ps.read place = (window (ps.line range.line).elemAt range.start range.bytes).getElements 0
      range.bytes := by
  cases place with
  | register reg access =>
      obtain ⟨slice, sliceEq, operand, room⟩ := SliceExists.slice valid
      rw [Access.range_register sliceEq] at found
      cases found
      have lineEq := getElements_line (wellFormed.holdsSlice room)
      rw [wellFormed.sliceIdx operand.positive room] at lineEq
      change getRegister ps reg access = _
      unfold getRegister
      rw [sliceEq]
      exact lineEq
  | stack baseOffset size =>
      cases found
      have positive : 0 < size := OperandSize.positive valid
      have holds := StackState.holds_grow alive baseOffset size small
      have lineEq := getElements_line holds
      have sameLine : (ps.stack.grow baseOffset size).elemAt = ps.stack.elemAt :=
        funext (StackState.elemAt_grow ps.stack baseOffset size)
      obtain ⟨data, answer⟩ := getElements_ok (ps.growStack baseOffset size).stack.elems
        ((ps.growStack baseOffset size).stack.getStackIdx baseOffset) valid
      change (getStack ps baseOffset size).map Prod.fst = _
      unfold getStack isStackDead
      rw [if_neg (by omega), alive, if_neg Bool.false_ne_true]
      dsimp only
      rw [answer]
      change Except.ok data = (window ps.stack.elemAt baseOffset size).getElements 0 size
      rw [← sameLine, ← lineEq]
      exact answer.symm

/-! ### Writes -/

structure Changed (ps : ProgramState) (range : Range) (data : DynamicValue)
    (next : ProgramState) : Prop where
  wellFormed : next.WellFormed
  dead : next.stack.dead = ps.stack.dead
  others : ∀ line, line ≠ range.line → (next.line line).elemAt = (ps.line line).elemAt
  spares : Spares (ps.line range.line).elemAt (next.line range.line).elemAt range.start
    range.bytes
  holds : HoldsData (next.line range.line).elemAt range.start range.bytes data

theorem setSlice_changed {ps : ProgramState} (wellFormed : ps.WellFormed)
    {slice : RegisterSlice} {data : DynamicValue} (operand : OperandSize slice.bytes)
    (room : slice.byteOffset + slice.bytes ≤ slice.container.size)
    (fits : FitsBytes data slice.bytes)
    (noInner : (ps.reg slice.container).NoInnerHead slice.byteOffset slice.bytes) :
    ∃ next, ps.setSlice slice data false = .ok next ∧ next.stack = ps.stack ∧
      ps.Changed slice.range data next := by
  have holds := wellFormed.holdsSlice room
  have index := wellFormed.sliceIdx operand.positive room
  obtain ⟨estate, returned, sizeEq, shape, spares, held⟩ := holds.setElements
    (wellFormed.line _) operand.positive fits (by rw [index]; exact noInner)
  rw [index] at returned
  have lineEq : (ps.withReg slice.container estate).line (some slice.container) =
      (ps.line (some slice.container)).withElems estate := by
    unfold line StackState.withElems
    dsimp only
    rw [reg_withReg_self]
  refine ⟨ps.withReg slice.container estate, ?_, rfl, ?_⟩
  · unfold setSlice
    change (ps.reg slice.container).setElements _ _ _ _ = _ at returned
    rw [returned]
    rfl
  · refine
      { wellFormed := wellFormed.withReg _ (sizeEq.trans (wellFormed.size_eq _)) shape
        dead := rfl
        others := ?_
        spares := by
          change Spares _ ((ps.withReg _ estate).line (some slice.container)).elemAt _ _
          rw [lineEq]
          exact spares
        holds := by
          change HoldsData ((ps.withReg _ estate).line (some slice.container)).elemAt _ _ _
          rw [lineEq]
          exact held }
    intro other differ
    cases other with
    | none => rfl
    | some container =>
        unfold line
        dsimp only
        rw [reg_withReg_of_ne ps estate (fun same => differ (congrArg some same))]

theorem setStack_changed {ps : ProgramState} (wellFormed : ps.WellFormed)
    (alive : ps.stack.dead = false) {baseOffset : Int} {size : Nat} {data : DynamicValue}
    (operand : OperandSize size) (fits : FitsBytes data size)
    (small : ps.StackSmall baseOffset size) (clear : ps.StackClear baseOffset size) :
    ∃ next, ps.setStack baseOffset size data false = .ok next ∧
      next.stack.base = (ps.growStack baseOffset size).stack.base ∧
      next.stack.elems.size = (ps.growStack baseOffset size).stack.elems.size ∧
      ps.Changed { line := none, start := baseOffset, bytes := size } data next := by
  have positive := operand.positive
  have grown := wellFormed.growStack baseOffset size
  obtain ⟨estate, returned, sizeEq, shape, spares, held⟩ := (small.holds alive).setElements
    grown.stack positive fits (clear alive)
  have sameLine : (ps.growStack baseOffset size).stack.elemAt = ps.stack.elemAt :=
    funext (StackState.elemAt_grow ps.stack baseOffset size)
  rw [sameLine] at spares
  refine ⟨(ps.growStack baseOffset size).withStackElems estate, ?_, rfl, sizeEq, ?_⟩
  · unfold setStack isStackDead
    rw [if_neg (by omega), alive, if_neg Bool.false_ne_true]
    dsimp only
    rw [returned]
    rfl
  · exact
      { wellFormed := grown.withStackElems sizeEq shape
        dead := StackState.dead_grow _ _ _
        others := by
          intro other differ
          cases other with
          | none => exact absurd rfl differ
          | some container => rfl
        spares := spares
        holds := held }

theorem spares_whole {ps next : ProgramState} (wellFormed : ps.WellFormed)
    (nextOk : next.WellFormed) {slice : RegisterSlice} (start : slice.byteOffset = 0)
    (whole : slice.bytes = slice.container.size) :
    Spares (ps.line (some slice.container)).elemAt (next.line (some slice.container)).elemAt
      slice.byteOffset slice.bytes := by
  have fresh {state : ProgramState} (stateOk : state.WellFormed) {k : Int}
      (outside : k < slice.byteOffset ∨ slice.byteOffset + slice.bytes ≤ k) :
      (state.line (some slice.container)).elemAt k = .initial := by
    have sizeEq := stateOk.size_eq slice.container
    by_contra used
    obtain ⟨n, index, inside⟩ := StackState.exists_index used
    change (n : Int) = 0 + k at index
    change n < (state.reg slice.container).size at inside
    omega
  constructor
  · intro k outside _apart
    rw [fresh wellFormed outside, fresh nextOk outside]
  · intro k h ptr outside reaches before after
    exfalso
    have head := reaches.1
    obtain ⟨n, index, inside⟩ := StackState.exists_index (StackState.ne_initial_of_ptr head)
    rw [StackState.elemAt_eq index inside] at head
    have room := ((wellFormed.line _).shape.head n ptr inside head).1
    have sizeEq := wellFormed.size_eq slice.container
    change (n : Int) = 0 + h at index
    change n + 8 ≤ (ps.reg slice.container).size at room
    omega

structure Wrote (ps : ProgramState) (place : Access) (data : DynamicValue)
    (next : ProgramState) : Prop where
  wellFormed : next.WellFormed
  dead : next.stack.dead = ps.stack.dead
  base : next.stack.base = (ps.roomFor place).stack.base
  size : next.stack.elems.size = (ps.roomFor place).stack.elems.size
  others : ∀ range, place.range = .ok range → ∀ line, line ≠ range.line →
    (next.line line).elemAt = (ps.line line).elemAt
  spares : ∀ range, place.range = .ok range →
    Spares (ps.line range.line).elemAt (next.line range.line).elemAt range.start range.bytes
  holds : ∀ range, place.target.range = .ok range →
    HoldsData (next.line range.line).elemAt range.start range.bytes data
  upper : ∀ reg, place = .register reg .fullZeroParent →
    HoldsData (next.line (some reg.container)).elemAt 4 4 (.imm64 0)

theorem Changed.wrote {ps next : ProgramState} {place : Access} {range : Range}
    {data : DynamicValue} (changed : ps.Changed range data next)
    (found : place.range = .ok range) (target : place.target = place)
    (noParent : ∀ reg, place ≠ .register reg .fullZeroParent)
    (base : next.stack.base = (ps.roomFor place).stack.base)
    (size : next.stack.elems.size = (ps.roomFor place).stack.elems.size) :
    ps.Wrote place data next := by
  have same {other : Range} (otherFound : place.range = .ok other) : other = range := by
    rw [found] at otherFound
    cases otherFound
    rfl
  exact
    { wellFormed := changed.wellFormed
      dead := changed.dead
      base := base
      size := size
      others := by
        intro other otherFound
        rw [same otherFound]
        exact changed.others
      spares := by
        intro other otherFound
        rw [same otherFound]
        exact changed.spares
      holds := by
        intro other otherFound
        rw [target] at otherFound
        rw [same otherFound]
        exact changed.holds
      upper := fun reg parent => absurd parent (noParent reg) }

theorem full_slice_low {reg : Register} {slice : RegisterSlice}
    (known : AccessExists reg .fullZeroParent) (found : getRegisterData reg .full = .ok slice) :
    slice.byteOffset + slice.bytes ≤ 4 := by
  cases reg <;> first
    | exact absurd known Bool.false_ne_true
    | (cases found
       simp [archGetRegisterInfo, RegisterInfo.simple, RegisterInfo.sizeInBytes])

theorem Changed.parent {ps zeroed next : ProgramState} {reg : Register}
    {parent full : RegisterSlice} {data : DynamicValue} (wellFormed : ps.WellFormed)
    (known : AccessExists reg .fullZeroParent)
    (parentEq : getRegisterData reg .fullZeroParent = .ok parent)
    (fullEq : getRegisterData reg .full = .ok full)
    (first : ps.Changed parent.range (.imm64 0) zeroed)
    (second : zeroed.Changed full.range data next)
    (zeroedStack : zeroed.stack = ps.stack) (nextStack : next.stack = zeroed.stack) :
    ps.Wrote (.register reg .fullZeroParent) data next := by
  obtain ⟨start, eight, whole⟩ := parent_slice parentEq
  have low := full_slice_low known fullEq
  have sameContainer : full.container = parent.container :=
    (slice_container fullEq).trans (slice_container parentEq).symm
  have parentRange := Access.range_register parentEq
  -- no pointer is left in the container that was set to zero
  have noPointer (h : Int) (ptr : PtrType) :
      ((zeroed.line (some parent.container)).elemAt h).type ≠ ofPtr ptr := by
    intro head
    obtain ⟨n, index, inside⟩ := StackState.exists_index (StackState.ne_initial_of_ptr head)
    have sizeEq := first.wellFormed.size_eq parent.container
    change (n : Int) = 0 + h at index
    change n < (zeroed.reg parent.container).size at inside
    obtain ⟨old, zero⟩ := first.holds n (by change n < parent.bytes; omega)
    change (zeroed.line (some parent.container)).elemAt (parent.byteOffset + n) = _ at zero
    rw [start, show ((0 : Nat) : Int) + n = h by omega] at zero
    rw [zero] at head
    cases ptr <;> cases head
  exact
    { wellFormed := second.wellFormed
      dead := second.dead.trans first.dead
      base := by rw [nextStack, zeroedStack]; rfl
      size := by rw [nextStack, zeroedStack]; rfl
      others := by
        intro range found line differ
        rw [parentRange] at found
        cases found
        rw [second.others line (by
          change line ≠ some full.container
          rw [sameContainer]
          exact differ)]
        exact first.others line differ
      spares := by
        intro range found
        rw [parentRange] at found
        cases found
        exact spares_whole wellFormed second.wellFormed start (eight.trans whole.symm)
      holds := by
        intro range found
        change (Access.register reg .full).range = _ at found
        rw [Access.range_register fullEq] at found
        cases found
        exact second.holds
      upper := by
        intro other same
        cases same
        intro i below
        obtain ⟨old, zero⟩ := first.holds (4 + i) (by change 4 + i < parent.bytes; omega)
        refine ⟨old, ?_⟩
        have kept := second.spares.apart (4 + i) (by
          right
          change (full.byteOffset : Int) + full.bytes ≤ _
          omega) (by
          intro h ptr reaches
          have head := reaches.1
          change ((zeroed.line (some full.container)).elemAt h).type = _ at head
          rw [sameContainer] at head
          exact absurd head (noPointer h ptr))
        change (next.line (some full.container)).elemAt _ =
          (zeroed.line (some full.container)).elemAt _ at kept
        change (zeroed.line (some parent.container)).elemAt (parent.byteOffset + _) = _ at zero
        rw [start, show ((0 : Nat) : Int) + ((4 + i : Nat) : Int) = 4 + i by omega] at zero
        rw [← slice_container fullEq, kept, sameContainer, zero]
        change Element.mk .immediate old.nr (byte _ _) = Element.mk .immediate old.nr (byte _ _)
        simp [byte] }

/-! ### Pointers in the range of a write -/

theorem pointerAt_slice {ps : ProgramState} (wellFormed : ps.WellFormed) {slice : RegisterSlice}
    (room : slice.byteOffset + slice.bytes ≤ slice.container.size) {i : Nat}
    (below : i < slice.bytes) :
    ps.PointerAt slice.range i ↔
      ((ps.reg slice.container).type (slice.byteOffset + i)).isPtr = true := by
  have elemEq := (wellFormed.holdsSlice room).elem below
  rw [wellFormed.sliceIdx (by omega) room] at elemEq
  change ((ps.line (some slice.container)).elemAt (slice.byteOffset + i)).type.isPtr = true ↔ _
  rw [elemEq]
  exact Iff.rfl

theorem pointerAt_stack {ps : ProgramState} {baseOffset : Int} {size i : Nat}
    (holds : (ps.growStack baseOffset size).stack.Holds baseOffset size) (below : i < size) :
    ps.PointerAt { line := none, start := baseOffset, bytes := size } i ↔
      ((ps.growStack baseOffset size).stack.elems.type
        ((ps.growStack baseOffset size).stack.getStackIdx baseOffset + i)).isPtr = true := by
  have elemEq := holds.elem below
  change (ps.stack.grow baseOffset size).elemAt _ = _ at elemEq
  rw [StackState.elemAt_grow] at elemEq
  change (ps.stack.elemAt _).type.isPtr = true ↔ _
  rw [elemEq]
  exact Iff.rfl

theorem WriteClear.slice {ps : ProgramState} (wellFormed : ps.WellFormed) {reg : Register}
    {access : RegisterAccessType} {slice : RegisterSlice}
    (clear : ps.WriteClear (.register reg access)) (found : getRegisterData reg access = .ok slice)
    (room : slice.byteOffset + slice.bytes ≤ slice.container.size) :
    (ps.reg slice.container).NoInnerHead slice.byteOffset slice.bytes := by
  intro i positive below
  have noPointer := clear slice.range (Access.range_register found) i positive below
  rw [pointerAt_slice wellFormed room below, Bool.not_eq_true] at noPointer
  exact noPointer

theorem WriteClear.stack {ps : ProgramState} {baseOffset : Int} {size : Nat}
    (clear : ps.WriteClear (.stack baseOffset size)) (small : ps.StackSmall baseOffset size) :
    ps.StackClear baseOffset size := by
  intro alive grown i positive below
  have noPointer := clear _ rfl i positive below
  rw [pointerAt_stack (small.holds alive) below, Bool.not_eq_true] at noPointer
  exact noPointer

/-- A pointer that starts strictly inside of the range, before its last byte, makes the
write fail. -/
theorem write_fails {ps : ProgramState} (wellFormed : ps.WellFormed)
    (alive : ps.stack.dead = false) {place : Access} (data : DynamicValue) (valid : place.Valid)
    (small : ps.HasRoom place) {range : Range}
    (found : place.range = .ok range) {i : Nat} (positive : 0 < i) (before : i + 1 < range.bytes)
    (pointer : ps.PointerAt range i) :
    ps.write data place = .error (.assertion "i == 0") := by
  cases place with
  | stack baseOffset size =>
      cases found
      change i + 1 < size at before
      have holds := StackState.holds_grow alive baseOffset size small
      have sizePositive : 0 < size := OperandSize.positive valid
      have head := (pointerAt_stack holds (by omega)).mp pointer
      have failed := (wellFormed.stack.grow baseOffset size).shape.setElements_inner data
        (holds.room sizePositive) (holds.index_small sizePositive) positive before head
      change ps.setStack baseOffset size data false = _
      unfold setStack isStackDead
      rw [if_neg (by omega), alive, if_neg Bool.false_ne_true]
      exact congrArg (fun result => result.bind fun estate =>
        .ok ((ps.growStack baseOffset size).withStackElems estate)) failed
  | register reg access =>
      obtain ⟨slice, sliceEq, operand, room⟩ := SliceExists.slice valid
      rw [Access.range_register sliceEq] at found
      cases found
      change i + 1 < slice.bytes at before
      have below : i < slice.bytes := Nat.lt_of_succ_lt before
      have head := (pointerAt_slice wellFormed room below).mp pointer
      have sizeEq := wellFormed.size_eq slice.container
      have smallContainer := slice.container.size_small
      have noParent : access ≠ .fullZeroParent := by
        intro parent
        subst parent
        obtain ⟨_start, _eight, whole⟩ := parent_slice sliceEq
        have clear := (wellFormed.regs slice.container).noInnerHead_of_small (by omega)
          (by omega : slice.byteOffset + slice.bytes ≤ (ps.reg slice.container).size)
        rw [clear i positive below] at head
        cases head
      have failed := (wellFormed.regs slice.container).setElements_inner data
        (by omega) (by omega) positive before head
      change ps.setRegister reg access data false = _
      unfold setRegister
      rw [if_neg (fun both => noParent both.1), sliceEq]
      exact congrArg (fun result => result.bind fun estate =>
        .ok (ps.withReg slice.container estate)) failed

theorem write_wrote {ps : ProgramState} (wellFormed : ps.WellFormed)
    (alive : ps.stack.dead = false) {place : Access} {data : DynamicValue}
    (valid : place.Valid) (allowed : place.Allows data) (clear : ps.WriteClear place)
    (small : ps.HasRoom place) :
    ∃ next, ps.write data place = .ok next ∧ ps.Wrote place data next := by
  cases place with
  | stack baseOffset size =>
      obtain ⟨next, returned, base, sizeEq, changed⟩ := setStack_changed wellFormed alive valid
        allowed (fun _ => small) (clear.stack (fun _ => small))
      exact ⟨next, returned, changed.wrote rfl rfl (fun _ same => by cases same) base sizeEq⟩
  | register reg access =>
      obtain ⟨slice, sliceEq, operand, room⟩ := SliceExists.slice valid
      by_cases parent : access = .fullZeroParent
      · subst parent
        have known := SliceExists.parent valid
        obtain ⟨full, fullEq, fullOperand, fullRoom⟩ := (AccessExists.full reg).slice
        have zeroFits : FitsBytes (.imm64 0) slice.bytes :=
          ⟨fun isPtr => absurd isPtr Bool.false_ne_true, fun _ => operand⟩
        obtain ⟨zeroed, zeroedEq, zeroedStack, first⟩ :=
          setSlice_changed wellFormed operand room zeroFits
            (clear.slice wellFormed sliceEq room)
        obtain ⟨next, nextEq, nextStack, second⟩ := setSlice_changed first.wellFormed fullOperand
          fullRoom (allowed full fullEq)
          (RegisterClear.of_parent first.wellFormed known full fullEq)
        refine ⟨next, ?_,
          first.parent wellFormed known sliceEq fullEq second zeroedStack nextStack⟩
        change ps.setRegister reg .fullZeroParent data false = _
        unfold setRegister
        rw [if_pos ⟨rfl, Bool.false_ne_true⟩, sliceEq, fullEq]
        change (do
          let zeroed ← ps.setSlice slice (.imm64 0) false
          zeroed.setSlice full data false) = _
        rw [zeroedEq]
        exact nextEq
      · have target : clearedAccess access = access := clearedAccess_of_ne parent
        change FitsRegister reg access data at allowed
        unfold FitsRegister at allowed
        rw [target] at allowed
        obtain ⟨next, nextEq, nextStack, changed⟩ := setSlice_changed wellFormed operand room
          (allowed slice sliceEq) (clear.slice wellFormed sliceEq room)
        refine ⟨next, ?_, changed.wrote (Access.range_register sliceEq) ?_ ?_ ?_ ?_⟩
        · change ps.setRegister reg access data false = _
          unfold setRegister
          rw [if_neg (fun both => parent both.1), sliceEq]
          exact nextEq
        · exact congrArg (Access.register reg) target
        · intro other same
          cases same
          exact parent rfl
        · rw [nextStack]
          rfl
        · rw [nextStack]
          rfl

/-! ### Room -/

theorem size_grow {stack : StackState} (alive : stack.dead = false) (baseOffset : Int)
    (size : Nat) : ((stack.grow baseOffset size).elems.size : Int) =
      max stack.base (-baseOffset) + max (stack.elems.size - stack.base) (baseOffset + size) := by
  have base := StackState.base_grow alive baseOffset size
  have old := StackState.oldStackSize_grow alive baseOffset size
  unfold StackState.oldStackSize StackState.newStackSize at old
  omega

theorem dead_roomFor (ps : ProgramState) (place : Access) :
    (ps.roomFor place).stack.dead = ps.stack.dead := by
  cases place with
  | register reg access => rfl
  | stack baseOffset size => exact StackState.dead_grow _ _ _

theorem le_roomFor {ps : ProgramState} (alive : ps.stack.dead = false) (place : Access) :
    ps.stack.elems.size ≤ (ps.roomFor place).stack.elems.size := by
  cases place with
  | register reg access => exact Nat.le_refl _
  | stack baseOffset size =>
      have grown := size_grow alive baseOffset size
      change _ ≤ (ps.stack.grow baseOffset size).elems.size
      omega

theorem roomFor_le {ps : ProgramState} (alive : ps.stack.dead = false) (place other : Access) :
    (ps.roomFor other).stack.elems.size ≤
      ((ps.roomFor place).roomFor other).stack.elems.size := by
  cases place with
  | register reg access => exact Nat.le_refl _
  | stack baseOffset size =>
      have grown := size_grow alive baseOffset size
      have stillAlive := (StackState.dead_grow ps.stack baseOffset size).trans alive
      have base := StackState.base_grow alive baseOffset size
      cases other with
      | register reg access => exact le_roomFor alive (.stack baseOffset size)
      | stack baseOffset2 size2 =>
          have first := size_grow alive baseOffset2 size2
          have second := size_grow stillAlive baseOffset2 size2
          change (ps.stack.grow baseOffset2 size2).elems.size ≤
            ((ps.stack.grow baseOffset size).grow baseOffset2 size2).elems.size
          omega

theorem RoomForBoth.place {ps : ProgramState} {place other : Access}
    (room : ps.RoomForBoth place other) (alive : ps.stack.dead = false) : ps.HasRoom place := by
  cases other with
  | register reg access => exact room
  | stack baseOffset size =>
      cases place with
      | register reg access => trivial
      | stack first count =>
          exact Nat.le_trans (le_roomFor ((dead_roomFor ps (.stack first count)).trans alive)
            (.stack baseOffset size)) room

theorem RoomForBoth.other {ps : ProgramState} {place other : Access}
    (room : ps.RoomForBoth place other) (alive : ps.stack.dead = false) : ps.HasRoom other := by
  cases other with
  | register reg access => trivial
  | stack baseOffset size =>
      exact Nat.le_trans (roomFor_le alive place (.stack baseOffset size)) room

section

variable {ps next : ProgramState} {place other : Access} {data : DynamicValue}

theorem Wrote.size_roomFor (wrote : ps.Wrote place data next) (alive : ps.stack.dead = false)
    (other : Access) : (next.roomFor other).stack.elems.size =
      ((ps.roomFor place).roomFor other).stack.elems.size := by
  cases other with
  | register reg access => exact wrote.size
  | stack baseOffset size =>
      have first := size_grow (wrote.dead.trans alive) baseOffset size
      have second := size_grow ((dead_roomFor ps place).trans alive) baseOffset size
      have base := wrote.base
      have size := wrote.size
      change (next.stack.grow baseOffset _).elems.size =
        ((ps.roomFor place).stack.grow baseOffset _).elems.size
      omega

theorem Wrote.size_target (wrote : ps.Wrote place data next) (alive : ps.stack.dead = false) :
    (next.roomFor place.target).stack.elems.size = (ps.roomFor place).stack.elems.size := by
  rw [wrote.size_roomFor alive]
  cases place with
  | register reg access => rfl
  | stack baseOffset size =>
      have first := size_grow alive baseOffset size
      have base := StackState.base_grow alive baseOffset size
      have second := size_grow ((StackState.dead_grow ps.stack baseOffset size).trans alive)
        baseOffset size
      change ((ps.stack.grow baseOffset size).grow baseOffset size).elems.size =
        (ps.stack.grow baseOffset size).elems.size
      omega

theorem Wrote.hasRoom_other (wrote : ps.Wrote place data next) (alive : ps.stack.dead = false)
    (room : ps.RoomForBoth place other) : next.HasRoom other := by
  cases other with
  | register reg access => trivial
  | stack baseOffset size =>
      exact Nat.le_trans (Nat.le_of_eq (wrote.size_roomFor alive (.stack baseOffset size))) room

theorem Wrote.hasRoom_target (wrote : ps.Wrote place data next) (alive : ps.stack.dead = false)
    (room : ps.HasRoom place) : next.HasRoom place.target := by
  cases place with
  | register reg access => trivial
  | stack baseOffset size => exact Nat.le_trans (Nat.le_of_eq (wrote.size_target alive)) room

/-! ### The law -/

theorem cuts_iff {range : Range} (found : place.range = .ok range) (positive : 0 < range.bytes)
    (line : Option Container) (h : Int) (ptr : PtrType) :
    ps.Cuts place line h ptr ↔
      line = range.line ∧ ReachesInto (ps.line line).elemAt range.start range.bytes h ptr := by
  unfold Cuts ReachesInto
  simp only [Access.touches_iff found]
  constructor
  · rintro ⟨head, k, le, lt, same, above, below⟩
    exact ⟨same, head, by omega, by omega⟩
  · rintro ⟨same, head, before, after⟩
    exact ⟨head, max h range.start, by omega, by omega, same, by omega, by omega⟩

theorem parent_upper {reg parent : Register}
    (isParent : (archGetRegisterInfo reg).parent = some parent) :
    getRegisterData parent .h1 =
      .ok { container := reg.container, byteOffset := 4, bytes := 4 } := by
  cases reg <;> cases isParent <;>
    simp [getRegisterData, archGetRegisterInfo, RegisterInfo.simple, RegisterInfo.sizeInBytes,
      Register.container]

theorem Wrote.readsBack (wrote : ps.Wrote place data next) (wellFormed : ps.WellFormed)
    (alive : ps.stack.dead = false) {other : Access} (valid : place.Valid)
    (otherValid : other.Valid) (allowed : place.Allows data) (smallNr : data.SmallNr)
    (room : ps.RoomForBoth place other) : ps.ReadsBack place data other next := by
  have roomPlace := room.place alive
  obtain ⟨range, rangeEq, operand⟩ := valid.range
  obtain ⟨otherRange, otherEq, otherOperand⟩ := otherValid.range
  have nextAlive := wrote.dead.trans alive
  have nextOther : next.read other =
      (window (next.line otherRange.line).elemAt otherRange.start otherRange.bytes).getElements 0
        otherRange.bytes :=
    read_eq wrote.wellFormed nextAlive otherValid otherEq (wrote.hasRoom_other alive room)
  -- a byte of the other access, in the words of its range
  have touches (i : Nat) (below : i < otherRange.bytes) :
      other.Touches otherRange.line (otherRange.start + i) :=
    (Access.touches_iff otherEq _ _).mpr ⟨rfl, by omega, by omega⟩
  refine
    { back := ?_
      apart := ?_
      rest := ?_
      upper := ?_ }
  · intro target targetEq
    rw [read_eq wrote.wellFormed nextAlive valid.target targetEq
      (wrote.hasRoom_target alive roomPlace)]
    obtain ⟨found, foundEq, targetOperand⟩ := valid.target.range
    rw [targetEq] at foundEq
    cases foundEq
    refine (wrote.holds target targetEq).readBack targetOperand ?_ smallNr
    cases place with
    | stack baseOffset size =>
        cases targetEq
        exact allowed
    | register reg access =>
        obtain ⟨slice, sliceEq, _, _⟩ := (SliceExists.cleared valid).slice
        change (Access.register reg (clearedAccess access)).range = _ at targetEq
        rw [Access.range_register sliceEq] at targetEq
        cases targetEq
        exact allowed slice sliceEq
  · intro apart
    rw [nextOther, read_eq wellFormed alive otherValid otherEq (room.other alive)]
    apply getElements_window_congr
    intro i below
    obtain ⟨disjoint, noPointer⟩ := apart _ _ (touches i below)
    by_cases same : otherRange.line = range.line
    · rw [same] at disjoint noPointer ⊢
      apply (wrote.spares range rangeEq).apart
      · by_contra inside
        exact disjoint ((Access.touches_iff rangeEq _ _).mpr ⟨rfl, by omega, by omega⟩)
      · intro h ptr reaches
        exact noPointer h ptr
          ((cuts_iff rangeEq operand.positive _ h ptr).mpr ⟨rfl, reaches⟩)
    · rw [wrote.others range rangeEq _ same]
  · intro ptr rest
    obtain ⟨line, h, k, cuts, before, after, outside, touched⟩ := rest
    obtain ⟨same, reaches⟩ := (cuts_iff rangeEq operand.positive line h ptr).mp cuts
    obtain ⟨sameOther, above, below⟩ := (Access.touches_iff otherEq line k).mp touched
    subst same
    have beyond : k < range.start ∨ range.start + range.bytes ≤ k := by
      by_contra inside
      exact outside ((Access.touches_iff rangeEq _ _).mpr ⟨rfl, by omega, by omega⟩)
    have type := (wrote.spares range rangeEq).remains k h ptr beyond reaches before after
    obtain ⟨i, rfl⟩ : ∃ i : Nat, k = otherRange.start + i :=
      ⟨(k - otherRange.start).toNat, by omega⟩
    rw [nextOther, ← sameOther]
    exact remains_of_cleared (wrote.wellFormed.line _) (by omega) type
  · intro reg parent same isParent
    have sliceEq := parent_upper isParent
    have upperValid : (Access.register parent .h1).Valid := by
      change SliceExists parent .h1
      unfold SliceExists
      rw [sliceEq]
      exact Nat.succ_pos 3
    rw [read_eq wrote.wellFormed nextAlive upperValid (Access.range_register sliceEq) trivial]
    exact (wrote.upper reg same).readBack (by unfold OperandSize; decide)
      ⟨fun isPtr => absurd isPtr Bool.false_ne_true, fun _ => by decide⟩ trivial

end

/-- Reads return what was written where no pointer starts strictly inside of the range,
and a pointer that starts inside of it, before its last byte, makes the write fail. -/
theorem readsWritten_of_clear {ps : ProgramState} (wellFormed : ps.WellFormed)
    (alive : ps.stack.dead = false) {place : Access} {data : DynamicValue}
    (valid : place.Valid) (allowed : place.Allows data) (smallNr : data.SmallNr)
    (small : ps.HasRoom place) :
    (ps.WriteClear place → ps.ReadsWritten place data) ∧
      ∀ range, place.range = .ok range → ∀ i, 0 < i → i + 1 < range.bytes →
        ps.PointerAt range i → ¬ ps.ReadsWritten place data := by
  constructor
  · intro clear
    obtain ⟨next, returned, wrote⟩ := write_wrote wellFormed alive valid allowed clear small
    refine ⟨next, returned, ?_⟩
    intro other otherValid room
    exact wrote.readsBack wellFormed alive valid otherValid allowed smallNr room
  · intro range found i positive before pointer reads
    obtain ⟨next, returned, _reads⟩ := reads
    rw [write_fails wellFormed alive data valid small found positive before pointer] at returned
    cases returned

theorem storedPointer_wellFormed {ps : ProgramState} (stored : storePointer.run .initial = .ok ps) :
    ps.WellFormed :=
  CleanlyReachable.wellFormed
    (.operation storePointer .initial storePointer_valid storePointer_clear stored)

/-- A value over the second half of a pointer. -/
theorem readsWritten_of_clear_secondHalf : ∃ ps, storePointer.run .initial = .ok ps ∧
    ps.ReadsWritten (.stack (-4) 8) .unknown := by
  obtain ⟨ps, stored, alive, clear, small⟩ : ∃ ps, storePointer.run .initial = .ok ps ∧
      ps.stack.dead = false ∧ ps.WriteClear (.stack (-4) 8) ∧
      ps.HasRoom (.stack (-4) 8) := by
    refine ⟨_, rfl, rfl, ?_, by unfold HasRoom; decide⟩
    intro range found i positive below pointer
    cases found
    change i < 8 at below
    interval_cases i <;> cases pointer
  have valid : (Access.stack (-4) 8).Valid := by
    unfold Access.Valid OperandSize
    decide
  have allowed : (Access.stack (-4) 8).Allows .unknown := by
    unfold Access.Allows
    decide
  exact ⟨ps, stored, (readsWritten_of_clear (storedPointer_wellFormed stored) alive valid allowed
    trivial small).1 clear⟩

/-- A store of 16 bytes over a pointer in its second half fails an assertion. -/
theorem not_readsWritten_innerPointer :
    ¬ ∀ (ps : ProgramState) (place : Access) (data : DynamicValue), ps.WellFormed →
      ps.stack.dead = false → place.Valid → place.Allows data → data.SmallNr →
      (ps.roomFor place).stack.elems.size ≤ 2 ^ 31 → ps.ReadsWritten place data := by
  intro always
  obtain ⟨ps, stored, alive, small, failed⟩ : ∃ ps, storePointer.run .initial = .ok ps ∧
      ps.stack.dead = false ∧ (ps.roomFor (.stack (-16) 16)).stack.elems.size ≤ 2 ^ 31 ∧
      ps.write .unknown (.stack (-16) 16) = .error (.assertion "i == 0") :=
    ⟨_, rfl, rfl, by decide, rfl⟩
  obtain ⟨next, returned, _reads⟩ := always ps (.stack (-16) 16) .unknown
    (storedPointer_wellFormed stored) alive (by unfold Access.Valid OperandSize; decide)
    (by unfold Access.Allows; decide) trivial small
  rw [failed] at returned
  cases returned

end ProgramState

end Drob
