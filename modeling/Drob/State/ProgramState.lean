import Drob.State.Elements

/-!
The abstract program state: all register containers and the tracked stack. The
operations are those of `ProgramState` and `StackState`; where the source grows the
stack behind a `const` reference, the model returns the grown state.
-/

namespace Drob

structure StackState where
  elems : Elements
  base : Int
  dead : Bool

namespace StackState

def initial : StackState :=
  { elems := .initial 0, base := 0, dead := false }

def setDead (_stack : StackState) : StackState :=
  { elems := .initial 0, base := 0, dead := true }

def newStackSize (stack : StackState) : Int :=
  stack.base

def oldStackSize (stack : StackState) : Int :=
  stack.elems.size - stack.newStackSize

/-- The index of a stack byte, as an `unsigned int`. -/
def getStackIdx (stack : StackState) (baseOffset : Int) : Nat :=
  ((stack.base + baseOffset) % 2 ^ 32).toNat

def growOld (stack : StackState) (neededOldStackSize : Int) : StackState :=
  if stack.oldStackSize < neededOldStackSize then
    { stack with
      elems :=
        { size := (stack.newStackSize + neededOldStackSize).toNat
          elem := fun i => if i < stack.elems.size then stack.elems.elem i else .initial } }
  else stack

def growNew (stack : StackState) (neededNewStackSize : Int) : StackState :=
  if stack.newStackSize < neededNewStackSize then
    let diff := (neededNewStackSize - stack.newStackSize).toNat
    { stack with
      base := stack.base + diff
      elems :=
        { size := stack.elems.size + diff
          elem := fun i => if i < diff then .initial else stack.elems.elem (i - diff) } }
  else stack

def grow (stack : StackState) (baseOffset : Int) (size : Nat) : StackState :=
  if stack.dead then stack
  else (stack.growOld (baseOffset + size)).growNew (-baseOffset)

end StackState

structure ProgramState where
  reg : Container → Elements
  stack : StackState

namespace ProgramState

def initial : ProgramState :=
  { reg := fun container => .initial container.size
    stack := .initial }

def isStackDead (ps : ProgramState) : Bool :=
  ps.stack.dead

def withReg (ps : ProgramState) (container : Container) (estate : Elements) : ProgramState :=
  { ps with reg := Function.update ps.reg container estate }

@[simp] theorem reg_withReg_self (ps : ProgramState) (container : Container)
    (estate : Elements) : (ps.withReg container estate).reg container = estate := by
  simp only [withReg, Function.update_self]

theorem reg_withReg_of_ne (ps : ProgramState) {container other : Container}
    (estate : Elements) (differ : other ≠ container) :
    (ps.withReg container estate).reg other = ps.reg other := by
  simp only [withReg, Function.update_of_ne differ]

@[simp] theorem stack_withReg (ps : ProgramState) (container : Container)
    (estate : Elements) : (ps.withReg container estate).stack = ps.stack := rfl

def withStackElems (ps : ProgramState) (estate : Elements) : ProgramState :=
  { ps with stack := { ps.stack with elems := estate } }

def growStack (ps : ProgramState) (baseOffset : Int) (size : Nat) : ProgramState :=
  { ps with stack := ps.stack.grow baseOffset size }

def setSlice (ps : ProgramState) (slice : RegisterSlice) (data : DynamicValue)
    (cond : Bool) : Except Failure ProgramState := do
  let estate ← (ps.reg slice.container).setElements slice.byteOffset slice.bytes data cond
  .ok (ps.withReg slice.container estate)

def setRegister (ps : ProgramState) (reg : Register) (access : RegisterAccessType)
    (data : DynamicValue) (cond : Bool) : Except Failure ProgramState := do
  if access = .fullZeroParent ∧ ¬ cond then
    let parent ← getRegisterData reg access
    let zeroed ← ps.setSlice parent (.imm64 0) cond
    let slice ← getRegisterData reg .full
    zeroed.setSlice slice data cond
  else
    let slice ← getRegisterData reg access
    ps.setSlice slice data cond

def getRegister (ps : ProgramState) (reg : Register) (access : RegisterAccessType) :
    Except Failure DynamicValue := do
  let slice ← getRegisterData reg access
  (ps.reg slice.container).getElements slice.byteOffset slice.bytes

/-- `size` is the number of bytes of a `MemAccessSize`, zero for `Unknown`. -/
def setStack (ps : ProgramState) (baseOffset : Int) (size : Nat) (data : DynamicValue)
    (cond : Bool) : Except Failure ProgramState := do
  if size = 0 then .error (.assertion "size != MemAccessSize::Unknown")
  else if ps.isStackDead then .ok ps
  else
    let grown := ps.growStack baseOffset size
    let estate ← grown.stack.elems.setElements (grown.stack.getStackIdx baseOffset) size data cond
    .ok (grown.withStackElems estate)

def getStack (ps : ProgramState) (baseOffset : Int) (size : Nat) :
    Except Failure (DynamicValue × ProgramState) := do
  if size = 0 then .error (.assertion "size != MemAccessSize::Unknown")
  else if ps.isStackDead then .ok (.tainted, ps)
  else
    let grown := ps.growStack baseOffset size
    let data ← grown.stack.elems.getElements (grown.stack.getStackIdx baseOffset) size
    .ok (data, grown)

def moveStackStack (ps : ProgramState) (baseOffset1 baseOffset2 : Int) (size : Nat) :
    Except Failure ProgramState := do
  if size = 0 then .error (.assertion "size != MemAccessSize::Unknown")
  else if ps.isStackDead then .ok ps
  else
    let grown := (ps.growStack baseOffset1 size).growStack baseOffset2 size
    let estate ← Elements.moveElements none (grown.stack.getStackIdx baseOffset1)
      grown.stack.elems (grown.stack.getStackIdx baseOffset2) size
    .ok (grown.withStackElems estate)

def moveSlice (ps : ProgramState) (slice1 slice2 : RegisterSlice) :
    Except Failure ProgramState := do
  if slice1.bytes = slice2.bytes then
    let estate1 :=
      if slice1.container = slice2.container then none else some (ps.reg slice1.container)
    let estate ← Elements.moveElements estate1 slice1.byteOffset
      (ps.reg slice2.container) slice2.byteOffset slice1.bytes
    .ok (ps.withReg slice2.container estate)
  else .error (.assertion "bytes1 == bytes2")

def clearDestination (ps : ProgramState) (reg : Register) (access : RegisterAccessType) :
    Except Failure (ProgramState × RegisterAccessType) := do
  if access = .fullZeroParent then
    let cleared ← ps.setRegister reg access (.imm64 0) false
    .ok (cleared, .full)
  else .ok (ps, access)

def moveRegisterRegister (ps : ProgramState) (reg1 : Register) (access1 : RegisterAccessType)
    (reg2 : Register) (access2 : RegisterAccessType) : Except Failure ProgramState := do
  let slice1 ← getRegisterData reg1 access1
  let (cleared, access) ← ps.clearDestination reg2 access2
  let slice2 ← getRegisterData reg2 access
  cleared.moveSlice slice1 slice2

def moveStackRegister (ps : ProgramState) (baseOffset : Int) (size : Nat)
    (reg : Register) (access : RegisterAccessType) : Except Failure ProgramState := do
  let (cleared, access) ← ps.clearDestination reg access
  let slice2 ← getRegisterData reg access
  if cleared.isStackDead then cleared.setRegister reg access .tainted false
  else
    let grown := cleared.growStack baseOffset size
    if size = slice2.bytes then
      let estate ← Elements.moveElements (some grown.stack.elems)
        (grown.stack.getStackIdx baseOffset) (grown.reg slice2.container)
        slice2.byteOffset size
      .ok (grown.withReg slice2.container estate)
    else .error (.assertion "bytes1 == bytes2")

def moveRegisterStack (ps : ProgramState) (reg : Register) (access : RegisterAccessType)
    (baseOffset : Int) (size : Nat) : Except Failure ProgramState := do
  if ps.isStackDead then .ok ps
  else
    let slice1 ← getRegisterData reg access
    let grown := ps.growStack baseOffset size
    if slice1.bytes = size then
      let estate ← Elements.moveElements (some (grown.reg slice1.container))
        slice1.byteOffset grown.stack.elems (grown.stack.getStackIdx baseOffset) slice1.bytes
      .ok (grown.withStackElems estate)
    else .error (.assertion "bytes1 == bytes2")

def untrackedStackAccess (ps : ProgramState) : ProgramState :=
  { ps with stack := ps.stack.setDead }

def containers : List Container :=
  [.flag1 .CF, .flag1 .PF, .flag1 .AF, .flag1 .ZF, .flag1 .SF, .flag1 .OF,
   .gprs64 .A, .gprs64 .B, .gprs64 .C, .gprs64 .D, .gprs64 .SI, .gprs64 .DI,
   .gprs64 .BP, .gprs64 .SP, .gprs64 .R8, .gprs64 .R9, .gprs64 .R10, .gprs64 .R11,
   .gprs64 .R12, .gprs64 .R13, .gprs64 .R14, .gprs64 .R15] ++
    (List.finRange 16).map .sse128

def nastyValue : Container → DynamicValue
  | .flag1 _ => .unknown
  | _ => .tainted

def setWhole (ps : ProgramState) (container : Container) (data : DynamicValue) :
    Except Failure ProgramState :=
  ps.setSlice { container, byteOffset := 0, bytes := container.size } data false

def setAll (ps : ProgramState) : List Container → Except Failure ProgramState
  | [] => .ok ps
  | container :: rest => do
      let changed ← ps.setWhole container (nastyValue container)
      changed.setAll rest

def nastyInstruction (ps : ProgramState) : Except Failure ProgramState :=
  ps.untrackedStackAccess.setAll containers

def mergeRegisters (lhs rhs : ProgramState) :
    List Container → Except Failure (ProgramState × Bool)
  | [] => .ok (lhs, false)
  | container :: rest => do
      let (estate, diff) ← Elements.mergeElements (lhs.reg container) (rhs.reg container)
      let (merged, later) ← mergeRegisters (lhs.withReg container estate) rhs rest
      .ok (merged, diff || later)

def alignStacks (lhs rhs : ProgramState) : ProgramState × ProgramState :=
  let oldStackSize := max lhs.stack.oldStackSize rhs.stack.oldStackSize
  let newStackSize := max lhs.stack.newStackSize rhs.stack.newStackSize
  ((lhs.growStack oldStackSize 0).growStack (-newStackSize) 0,
    (rhs.growStack oldStackSize 0).growStack (-newStackSize) 0)

def mergeStacks (lhs rhs : ProgramState) :
    Except Failure (ProgramState × ProgramState × Bool) :=
  match lhs.isStackDead, rhs.isStackDead with
  | true, _ => .ok (lhs, rhs, false)
  | false, true => .ok ({ lhs with stack := lhs.stack.setDead }, rhs, true)
  | false, false => do
      let (grown, grownRhs) := alignStacks lhs rhs
      let (estate, diff) ← Elements.mergeElements grown.stack.elems grownRhs.stack.elems
      .ok (grown.withStackElems estate, grownRhs, diff)

/-- `lhs.merge(rhs)`: the new left side, the right side with its stack grown, and
whether a difference is reported. -/
def merge (lhs rhs : ProgramState) : Except Failure (ProgramState × ProgramState × Bool) := do
  let (merged, diff) ← mergeRegisters lhs rhs containers
  let (mergedStack, grownRhs, later) ← mergeStacks merged rhs
  .ok (mergedStack, grownRhs, diff || later)

end ProgramState

end Drob
