import Drob.State.Describes
import Drob.State.Rank

/-!
Program states that describe concrete registers and stack bytes. The answers of a
state describe the concrete bytes, and stay so while values are written.
-/

namespace Drob

open LittleEndian DynamicValueType

/-- The concrete bytes of all registers and of the stack, and the addresses that
pointers are based on. -/
structure Concrete where
  base : DynamicValue.PtrBase
  reg : Container → Nat → BitVec 8
  stack : Int → BitVec 8

namespace StackState

def wordAt (bytes : Int → BitVec 8) (offset : Int) (count : Nat) : BitVec (8 * count) :=
  ofBytes (8 * count) (fun i => bytes (offset + i)) count

structure Describes (base : DynamicValue.PtrBase) (stack : StackState)
    (bytes : Int → BitVec 8) : Prop where
  imm : ∀ offset, stack.typeAt offset = .immediate → bytes offset = (stack.elemAt offset).data
  ptr : ∀ offset type, stack.typeAt offset = ofPtr type →
    wordAt bytes offset 8 = base type (stack.elemAt offset).nr.toNat +
      wordAt (fun other => (stack.elemAt other).data) offset 8

theorem Describes.congr {base : DynamicValue.PtrBase} {stack other : StackState}
    {bytes : Int → BitVec 8} (describes : stack.Describes base bytes)
    (same : ∀ offset, other.elemAt offset = stack.elemAt offset) :
    other.Describes base bytes := by
  obtain ⟨imm, ptr⟩ := describes
  unfold typeAt at imm ptr
  constructor
  · intro offset
    unfold typeAt
    rw [same]
    exact imm offset
  · intro offset
    unfold typeAt
    simp only [same]
    exact ptr offset

theorem inside_of_typeAt {stack : StackState} {offset : Int} (alive : stack.typeAt offset ≠ .dead) :
    0 ≤ stack.base + offset ∧ stack.base + offset < stack.elems.size := by
  by_contra outside
  apply alive
  unfold typeAt
  rw [elemAt_outside outside]
  rfl

theorem describes_iff {base : DynamicValue.PtrBase} {stack : StackState} {bytes : Int → BitVec 8}
    (shape : stack.elems.WellFormed) :
    stack.Describes base bytes ↔
      stack.elems.Describes base (fun k => bytes (k - stack.base)) := by
  have typeIndex {k : Nat} (inside : k < stack.elems.size) :
      stack.typeAt (k - stack.base) = stack.elems.type k :=
    congrArg Element.type (elemAt_index inside)
  have wordIndex {h : Nat} :
      wordAt bytes (h - stack.base) 8 = word (fun k => bytes (k - stack.base)) h 8 := by
    apply ofBytes_congr
    intro i _below
    change bytes _ = bytes _
    congr 1
    omega
  have dataIndex {h : Nat} {type : PtrType} (inside : h < stack.elems.size)
      (head : stack.elems.type h = ofPtr type) :
      wordAt (fun other => (stack.elemAt other).data) (h - stack.base) 8 =
        stack.elems.readData 64 h 8 := by
    have room := (shape.head h type inside head).1
    apply ofBytes_congr
    intro i below
    have index := @elemAt_index stack (h + i) (by omega)
    rw [show ((h + i : Nat) : Int) - stack.base = h - stack.base + i by omega] at index
    exact congrArg Element.data index
  constructor
  · intro describes
    constructor
    · intro k inside imm
      rw [describes.imm (k - stack.base) ((typeIndex inside).trans imm), elemAt_index inside]
    · intro h type inside head
      have found := describes.ptr (h - stack.base) type ((typeIndex inside).trans head)
      rw [wordIndex, dataIndex inside head, elemAt_index inside] at found
      exact found
  · intro describes
    constructor
    · intro offset imm
      have inside := inside_of_typeAt (by rw [imm]; exact DynamicValueType.noConfusion)
      obtain ⟨k, index⟩ := Int.eq_ofNat_of_zero_le inside.1
      have back : offset = k - stack.base := by omega
      subst back
      have below : k < stack.elems.size := by omega
      rw [elemAt_index below]
      exact describes.imm k below ((typeIndex below).symm.trans imm)
    · intro offset type head
      have inside := inside_of_typeAt (by rw [head]; cases type <;> exact DynamicValueType.noConfusion)
      obtain ⟨k, index⟩ := Int.eq_ofNat_of_zero_le inside.1
      have back : offset = k - stack.base := by omega
      subst back
      have below : k < stack.elems.size := by omega
      have headIndex := (typeIndex below).symm.trans head
      rw [wordIndex, dataIndex below headIndex, elemAt_index below]
      exact describes.ptr k type below headIndex

end StackState

namespace Concrete

def setSlice (concrete : Concrete) (slice : RegisterSlice) (new : Nat → BitVec 8) : Concrete :=
  { concrete with
    reg := Function.update concrete.reg slice.container
      (overwrite (concrete.reg slice.container) slice.byteOffset slice.bytes new) }

def setRegister (concrete : Concrete) (reg : Register) (access : RegisterAccessType)
    (new : Nat → BitVec 8) : Concrete :=
  match getRegisterData reg access, getRegisterData reg (clearedAccess access) with
  | .ok slice, .ok part =>
      if access = .fullZeroParent then (concrete.setSlice slice (fun _ => 0)).setSlice part new
      else concrete.setSlice slice new
  | _, _ => concrete

def setStack (concrete : Concrete) (baseOffset : Int) (size : Nat) (new : Nat → BitVec 8) :
    Concrete :=
  { concrete with
    stack := fun offset =>
      if baseOffset ≤ offset ∧ offset < baseOffset + size then new (offset - baseOffset).toNat
      else concrete.stack offset }

end Concrete

namespace ProgramState

structure Describes (ps : ProgramState) (concrete : Concrete) : Prop where
  regs : ∀ container, (ps.reg container).Describes concrete.base (concrete.reg container)
  stack : ps.stack.dead = false → ps.stack.Describes concrete.base concrete.stack

/-- Every register and stack query returns a value that describes the concrete bytes. -/
structure Answers (ps : ProgramState) (concrete : Concrete) : Prop where
  register : ∀ reg access, AccessExists reg access → ∃ slice value,
    getRegisterData reg access = .ok slice ∧ ps.getRegister reg access = .ok value ∧
      value.Describes concrete.base
        (word (concrete.reg slice.container) slice.byteOffset slice.bytes)
  stack : ∀ baseOffset size, OperandSize size → ps.StackSmall baseOffset size → ∃ value grown,
    ps.getStack baseOffset size = .ok (value, grown) ∧
      value.Describes concrete.base (StackState.wordAt concrete.stack baseOffset size)

theorem Describes.growStack {ps : ProgramState} {concrete : Concrete}
    (describes : ps.Describes concrete) (baseOffset : Int) (size : Nat) :
    (ps.growStack baseOffset size).Describes concrete where
  regs := describes.regs
  stack := by
    intro alive
    change (ps.stack.grow baseOffset size).dead = false at alive
    rw [StackState.dead_grow] at alive
    exact (describes.stack alive).congr (StackState.elemAt_grow ps.stack baseOffset size)

theorem Describes.answers {ps : ProgramState} {concrete : Concrete}
    (describes : ps.Describes concrete) (wellFormed : ps.WellFormed) : ps.Answers concrete := by
  constructor
  · intro reg access known
    obtain ⟨slice, sliceEq, size, room⟩ := known.slice
    obtain ⟨value, answered⟩ := getElements_ok (ps.reg slice.container) slice.byteOffset size
    refine ⟨slice, value, sliceEq, ?_, ?_⟩
    · unfold getRegister
      rw [sliceEq]
      exact answered
    · apply (describes.regs slice.container).getElements (wellFormed.regs slice.container) _ answered
      rw [wellFormed.size_eq]
      exact room
  · intro baseOffset size operand small
    have positive := operand.positive
    unfold getStack isStackDead
    rw [if_neg (by omega)]
    cases alive : ps.stack.dead with
    | true => exact ⟨.tainted, ps, rfl, trivial⟩
    | false =>
        rw [if_neg Bool.false_ne_true]
        have holds := small.holds alive
        have grown := (wellFormed.growStack baseOffset size).stack.shape
        have stillAlive : (ps.growStack baseOffset size).stack.dead = false :=
          (StackState.dead_grow ps.stack baseOffset size).trans alive
        have elems := (StackState.describes_iff grown).mp
          ((describes.growStack baseOffset size).stack stillAlive)
        dsimp only
        generalize ps.growStack baseOffset size = next at *
        obtain ⟨value, answered⟩ :=
          getElements_ok next.stack.elems (next.stack.getStackIdx baseOffset) operand
        refine ⟨value, next, by rw [answered]; rfl, ?_⟩
        have described := elems.getElements grown (holds.room positive) answered
        have index := holds.stackIdx positive
        have same : StackState.wordAt concrete.stack baseOffset size =
            word (fun k => concrete.stack (k - next.stack.base))
              (next.stack.getStackIdx baseOffset) size := by
          apply ofBytes_congr
          intro i _below
          change concrete.stack _ = concrete.stack _
          congr 1
          push_cast
          omega
        rw [same]
        exact described

/-! ### Writing -/

theorem setSlice_describes {ps next : ProgramState} {concrete : Concrete}
    (describes : ps.Describes concrete) (wellFormed : ps.WellFormed) {slice : RegisterSlice}
    {data : DynamicValue} {new : Nat → BitVec 8} (size : OperandSize slice.bytes)
    (room : slice.byteOffset + slice.bytes ≤ slice.container.size)
    (fits : Elements.FitsBytes data slice.bytes) (smallNr : data.SmallNr)
    (noInner : (ps.reg slice.container).NoInnerHead slice.byteOffset slice.bytes)
    (described : data.Describes concrete.base (word new 0 slice.bytes))
    (returned : ps.setSlice slice data false = .ok next) :
    next.Describes (concrete.setSlice slice new) := by
  have sizeEq := wellFormed.size_eq slice.container
  have containerSmall := slice.container.size_small
  have positive := size.positive
  have short : slice.bytes ≤ 16 := by
    unfold OperandSize at size
    omega
  obtain ⟨estate, written, same⟩ := bind_ok returned
  cases same
  have changed := (describes.regs slice.container).setElements (wellFormed.regs slice.container)
    positive short (by omega) (by omega) fits smallNr noInner described written
  constructor
  · intro other
    rcases eq_or_ne other slice.container with rfl | differ
    · rw [reg_withReg_self]
      unfold Concrete.setSlice
      dsimp only
      rw [Function.update_self]
      exact changed
    · rw [reg_withReg_of_ne ps estate differ]
      unfold Concrete.setSlice
      dsimp only
      rw [Function.update_of_ne differ]
      exact describes.regs other
  · exact describes.stack

theorem setRegister_describes {ps next : ProgramState} {concrete : Concrete}
    (describes : ps.Describes concrete) (wellFormed : ps.WellFormed) {reg : Register}
    {access : RegisterAccessType} {data : DynamicValue} {new : Nat → BitVec 8}
    (known : AccessExists reg access) (fits : FitsRegister reg access data)
    (smallNr : data.SmallNr) (clear : ps.RegisterClear reg access)
    (described : ∀ slice, getRegisterData reg (clearedAccess access) = .ok slice →
      data.Describes concrete.base (word new 0 slice.bytes))
    (returned : ps.setRegister reg access data false = .ok next) :
    next.Describes (concrete.setRegister reg access new) := by
  obtain ⟨slice, sliceEq, size, room⟩ := known.slice
  unfold setRegister at returned
  unfold Concrete.setRegister
  by_cases parent : access = .fullZeroParent
  · subst parent
    obtain ⟨full, fullEq, fullSize, fullRoom⟩ := (AccessExists.full reg).slice
    have fullEq' : getRegisterData reg (clearedAccess .fullZeroParent) = .ok full := fullEq
    rw [if_pos ⟨rfl, Bool.false_ne_true⟩, sliceEq, fullEq] at returned
    rw [sliceEq, fullEq']
    dsimp only
    rw [if_pos rfl]
    have zeroFits : Elements.FitsBytes (.imm64 0) slice.bytes :=
      ⟨fun isPtr => absurd isPtr Bool.false_ne_true, fun _ => size⟩
    change (do
      let zeroed ← ps.setSlice slice (.imm64 0) false
      zeroed.setSlice full data false) = _ at returned
    obtain ⟨zeroed, first, second⟩ := bind_ok returned
    obtain ⟨other, zeroedEq, zeroedOk, _only⟩ :=
      setSlice_ok wellFormed slice (.imm64 0) size room zeroFits (clear slice sliceEq)
    rw [first] at zeroedEq
    cases zeroedEq
    have zeroes : zeroed.Describes (concrete.setSlice slice (fun _ => 0)) := by
      apply setSlice_describes describes wellFormed size room zeroFits trivial
        (clear slice sliceEq) _ first
      change word (fun _ => 0) 0 slice.bytes = (0 : BitVec 64).setWidth _
      apply BitVec.eq_of_getLsbD_eq
      intro k _below
      unfold word
      rw [getLsbD_ofBytes]
      simp
    exact setSlice_describes zeroes zeroedOk fullSize fullRoom (fits full fullEq') smallNr
      (RegisterClear.of_parent zeroedOk known full fullEq) (described full fullEq') second
  · have same := clearedAccess_of_ne parent
    unfold FitsRegister at fits
    rw [same] at fits described
    rw [if_neg (fun both => parent both.1), sliceEq] at returned
    rw [same, sliceEq]
    dsimp only
    rw [if_neg parent]
    exact setSlice_describes describes wellFormed size room (fits slice sliceEq) smallNr
      (clear slice sliceEq) (described slice sliceEq) returned

theorem setStack_describes {ps next : ProgramState} {concrete : Concrete}
    (describes : ps.Describes concrete) (wellFormed : ps.WellFormed) {baseOffset : Int}
    {size : Nat} {data : DynamicValue} {new : Nat → BitVec 8} (operand : OperandSize size)
    (fits : Elements.FitsBytes data size) (smallNr : data.SmallNr)
    (small : ps.StackSmall baseOffset size) (clear : ps.StackClear baseOffset size)
    (described : data.Describes concrete.base (word new 0 size))
    (returned : ps.setStack baseOffset size data false = .ok next) :
    next.Describes (concrete.setStack baseOffset size new) := by
  have positive := operand.positive
  have short : size ≤ 16 := by
    unfold OperandSize at operand
    omega
  unfold setStack isStackDead at returned
  rw [if_neg (by omega)] at returned
  cases alive : ps.stack.dead with
  | true =>
      rw [alive, if_pos rfl] at returned
      cases returned
      exact ⟨describes.regs, fun impossible => by rw [alive] at impossible; cases impossible⟩
  | false =>
      rw [alive, if_neg Bool.false_ne_true] at returned
      have holds := small.holds alive
      have noInner := clear alive
      have grownOk := wellFormed.growStack baseOffset size
      have grownDescribes := describes.growStack baseOffset size
      have stillAlive : (ps.growStack baseOffset size).stack.dead = false :=
        (StackState.dead_grow ps.stack baseOffset size).trans alive
      dsimp only at returned noInner
      generalize ps.growStack baseOffset size = grown at *
      obtain ⟨estate, written, same⟩ := bind_ok returned
      cases same
      have index := holds.stackIdx positive
      have room := holds.room positive
      have elems := (StackState.describes_iff grownOk.stack.shape).mp
        (grownDescribes.stack stillAlive)
      have changed := elems.setElements grownOk.stack.shape positive short (by omega)
        (holds.index_small positive) fits smallNr noInner described written
      obtain ⟨result, resultEq, resultSize, resultShape⟩ := grownOk.stack.shape.setElements_ok
        data positive (by omega) (holds.index_small positive) fits noInner
      rw [written] at resultEq
      cases resultEq
      have same : (fun k : Nat =>
          (concrete.setStack baseOffset size new).stack (k - grown.stack.base)) =
          overwrite (fun k => concrete.stack (k - grown.stack.base))
            (grown.stack.getStackIdx baseOffset) size new := by
        funext k
        unfold Concrete.setStack overwrite
        dsimp only
        by_cases here : grown.stack.getStackIdx baseOffset ≤ k ∧
            k < grown.stack.getStackIdx baseOffset + size
        · rw [if_pos here, if_pos (by omega)]
          congr 1
          omega
        · rw [if_neg here, if_neg (by omega)]
      refine ⟨grownDescribes.regs, fun _ => ?_⟩
      apply (@StackState.describes_iff _ { grown.stack with elems := estate } _ resultShape).mpr
      change Elements.Describes concrete.base estate (fun k : Nat =>
        (concrete.setStack baseOffset size new).stack (k - grown.stack.base))
      rw [same]
      exact changed

/-- A value that is written to a register or to the stack, with the concrete bytes. -/
inductive Write where
  | register (reg : Register) (access : RegisterAccessType) (data : DynamicValue)
      (new : Nat → BitVec 8)
  | stack (baseOffset : Int) (size : Nat) (data : DynamicValue) (new : Nat → BitVec 8)

namespace Write

def operation : Write → Operation
  | .register reg access data _ => .setRegister reg access data false
  | .stack baseOffset size data _ => .setStack baseOffset size data false

def apply (concrete : Concrete) : Write → Concrete
  | .register reg access _ new => concrete.setRegister reg access new
  | .stack baseOffset size _ new => concrete.setStack baseOffset size new

/-- The value describes the bytes, and the metadata holds the number of a pointer. -/
def Fits (base : DynamicValue.PtrBase) : Write → Prop
  | .register reg access data new =>
      data.SmallNr ∧ ∀ slice, getRegisterData reg (clearedAccess access) = .ok slice →
        data.Describes base (word new 0 slice.bytes)
  | .stack _ size data new => data.SmallNr ∧ data.Describes base (word new 0 size)

end Write

/-- A state and the concrete bytes after some writes. No write starts before a pointer
that it covers in part. -/
inductive Written (ps : ProgramState) (concrete : Concrete) : ProgramState → Concrete → Prop
  | nothing : Written ps concrete ps concrete
  | write {middle next : ProgramState} {between : Concrete} (write : Write) :
      Written ps concrete middle between → write.operation.Valid →
      write.operation.Clear middle → write.Fits between.base →
      write.operation.run middle = .ok next → Written ps concrete next (write.apply between)

theorem Write.describes {ps next : ProgramState} {concrete : Concrete} (write : Write)
    (describes : ps.Describes concrete) (wellFormed : ps.WellFormed)
    (valid : write.operation.Valid) (clear : write.operation.Clear ps)
    (fits : write.Fits concrete.base) (returned : write.operation.run ps = .ok next) :
    next.WellFormed ∧ next.Describes (write.apply concrete) := by
  constructor
  · rcases write.operation.run_sound wellFormed valid clear with
      ⟨other, nextEq, nextOk⟩ | ⟨message, thrown⟩
    · rw [returned] at nextEq
      cases nextEq
      exact nextOk
    · rw [returned] at thrown
      cases thrown
  · cases write with
    | register reg access data new =>
        exact setRegister_describes describes wellFormed valid.1 valid.2 fits.1 clear fits.2
          returned
    | stack baseOffset size data new =>
        exact setStack_describes describes wellFormed valid.1 valid.2 fits.1 clear.1 clear.2
          fits.2 returned

theorem Written.answers {ps later : ProgramState} {concrete after : Concrete}
    (written : Written ps concrete later after) (describes : ps.Describes concrete)
    (wellFormed : ps.WellFormed) : later.Answers after := by
  suffices both : later.WellFormed ∧ later.Describes after from both.2.answers both.1
  induction written with
  | nothing => exact ⟨wellFormed, describes⟩
  | write write _before valid clear fits returned ih =>
      exact write.describes ih.2 ih.1 valid clear fits returned

end ProgramState

end Drob
