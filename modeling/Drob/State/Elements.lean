import Drob.State.DynamicValue

/-!
The byte containers of the abstract program state. Every element has a type, a
pointer number and a data byte; the operations are those of `ProgramState` on one
container, with the loops of the source as recursions on the remaining bytes.
-/

namespace Drob

open LittleEndian

/-- `ElementMetadata` together with the `ElementData` of the same index. -/
structure Element where
  type : DynamicValueType
  nr : BitVec 8
  data : BitVec 8
  deriving DecidableEq, Repr

/-- The default metadata; new stack bytes get zero as data. -/
def Element.initial : Element :=
  { type := .dead, nr := 0, data := 0 }

/-- A container; nothing reads an element at or beyond the size. -/
structure Elements where
  size : Nat
  elem : Nat → Element

namespace Elements

def initial (size : Nat) : Elements :=
  { size, elem := fun _ => .initial }

def type (estate : Elements) (i : Nat) : DynamicValueType :=
  (estate.elem i).type

/-- Change the `count` elements from `start` on, by their index in the range. -/
def modify (estate : Elements) (start count : Nat)
    (change : Nat → Element → Element) : Elements :=
  { estate with
    elem := fun i =>
      if start ≤ i ∧ i < start + count then change (i - start) (estate.elem i)
      else estate.elem i }

def setType (estate : Elements) (i : Nat) (type : DynamicValueType) : Elements :=
  estate.modify i 1 (fun _ old => { old with type })

@[simp] theorem size_modify (estate : Elements) (start count : Nat)
    (change : Nat → Element → Element) :
    (estate.modify start count change).size = estate.size := rfl

@[simp] theorem size_setType (estate : Elements) (i : Nat) (type : DynamicValueType) :
    (estate.setType i type).size = estate.size := rfl

theorem elem_modify (estate : Elements) (start count : Nat)
    (change : Nat → Element → Element) (i : Nat) :
    (estate.modify start count change).elem i =
      if start ≤ i ∧ i < start + count then change (i - start) (estate.elem i)
      else estate.elem i := rfl

theorem elem_setType (estate : Elements) (i : Nat) (type : DynamicValueType) (k : Nat) :
    (estate.setType i type).elem k =
      if k = i then { estate.elem k with type } else estate.elem k := by
  unfold setType
  rw [elem_modify]
  have single : (i ≤ k ∧ k < i + 1) ↔ k = i := by omega
  simp only [single]

theorem type_setType (estate : Elements) (i : Nat) (type : DynamicValueType) (k : Nat) :
    (estate.setType i type).type k = if k = i then type else estate.type k := by
  unfold Elements.type
  rw [elem_setType]
  split <;> rfl

/-- The loop of `clearTail` over the bytes after the head. -/
def clearTailLoop : Nat → Nat → Elements → Elements
  | 0, _, estate => estate
  | n + 1, i, estate =>
      match estate.type i with
      | .tail => clearTailLoop n (i + 1) (estate.setType i .unknown)
      | .stackPtrTail => clearTailLoop n (i + 1) (estate.setType i .tainted)
      | _ => estate

def clearTail (estate : Elements) (byteOffset : Nat) : Elements :=
  let head : DynamicValueType :=
    if estate.type byteOffset = .stackPtr then .tainted else .unknown
  clearTailLoop (estate.size - (byteOffset + 1)) (byteOffset + 1)
    (estate.setType byteOffset head)

/-- The assertion `(int)byteOffset + j >= 0` at the position `byteOffset + j`. -/
def parentIndexOk (byteOffset position : Nat) : Prop :=
  0 ≤ (byteOffset : Int).bmod (2 ^ 32) + ((position : Int) - byteOffset)

instance (byteOffset position : Nat) : Decidable (parentIndexOk byteOffset position) :=
  inferInstanceAs (Decidable (_ ≤ _))

/-- Search the parent of the tail at `byteOffset`, downwards from the given bound,
and clear it. -/
def clearParent (estate : Elements) (byteOffset : Nat) : Nat → Except Failure Elements
  | 0 => .error (.assertion "(int)byteOffset + j >= 0")
  | position + 1 =>
      if parentIndexOk byteOffset position then
        if (estate.type position).isTail then clearParent estate byteOffset position
        else .ok (estate.clearTail position)
      else .error (.assertion "(int)byteOffset + j >= 0")

/-- One iteration of `markUnknown`. A pointer head clears the tail at the start of
the range, not at its own index. -/
def markUnknownAt (estate : Elements) (byteOffset i : Nat) : Except Failure Elements :=
  match estate.type (byteOffset + i) with
  | .dead | .immediate => .ok (estate.setType (byteOffset + i) .unknown)
  | .tail | .stackPtrTail =>
      if i = 0 then clearParent estate byteOffset byteOffset
      else .error (.assertion "i == 0")
  | .tainted | .unknown => .ok estate
  | .stackPtr | .usrPtr | .returnPtr => .ok (estate.clearTail byteOffset)

def markUnknownLoop (byteOffset : Nat) : Nat → Nat → Elements → Except Failure Elements
  | 0, _, estate => .ok estate
  | n + 1, i, estate => do
      let marked ← markUnknownAt estate byteOffset i
      markUnknownLoop byteOffset n (i + 1) marked

def markUnknown (estate : Elements) (byteOffset bytes : Nat) : Except Failure Elements :=
  markUnknownLoop byteOffset bytes 0 estate

def setPtr (estate : Elements) (byteOffset bytes : Nat) (type : PtrType) (nr : Nat)
    (ptrOffset : BitVec 64) : Except Failure Elements :=
  if bytes = 8 then
    .ok (estate.modify byteOffset bytes (fun i old =>
      { type := if i = 0 then .ofPtr type else .tailOf type
        nr := if i = 0 then BitVec.ofNat 8 nr else old.nr
        data := byte ptrOffset i }))
  else .error (.assertion "bytes == 8")

def setImm (estate : Elements) (byteOffset bytes : Nat) (val : BitVec 128) :
    Except Failure Elements :=
  if bytes = 1 ∨ bytes = 2 ∨ bytes = 4 ∨ bytes = 8 ∨ bytes = 16 then
    .ok (estate.modify byteOffset bytes (fun i old =>
      { old with type := .immediate, data := byte val i }))
  else .error (.assertion "drob_assert_not_reached()")

/-- `ProgramState::setType` of the source, for a whole range. -/
def setPlain (estate : Elements) (byteOffset bytes : Nat) (type : DynamicValueType) :
    Elements :=
  estate.modify byteOffset bytes (fun _ old => { old with type, data := 0 })

def setElements (estate : Elements) (byteOffset bytes : Nat) (data : DynamicValue)
    (cond : Bool) : Except Failure Elements := do
  if ¬ (0 < bytes ∧ bytes + byteOffset ≤ estate.size) then
    .error (.assertion "bytes > 0 && bytes + byteOffset <= estate.getSize()")
  else if cond then
    .error (.exception "Conditional setting not supported yet.")
  else
    let marked ← markUnknown estate byteOffset bytes
    match data with
    | .ptr type nr ptrOffset => setPtr marked byteOffset bytes type nr ptrOffset
    | .imm64 val => setImm marked byteOffset bytes (val.setWidth 128)
    | .imm128 val => setImm marked byteOffset bytes val
    | .dead => .ok (setPlain marked byteOffset bytes .dead)
    | .unknown => .ok (setPlain marked byteOffset bytes .unknown)
    | .tainted => .ok (setPlain marked byteOffset bytes .tainted)

/-- What `getElements` has found in the bytes read so far. -/
structure Scan where
  hasImm : Bool
  hasDead : Bool
  hasPtr : Bool
  hasStackPtr : Bool
  hasUnknown : Bool
  hasTainted : Bool
  isMixed : Bool
  deriving DecidableEq, Repr

def Scan.empty : Scan :=
  ⟨false, false, false, false, false, false, false⟩

def Scan.add (scan : Scan) (i : Nat) : DynamicValueType → Scan
  | .stackPtr => { scan with hasStackPtr := true, isMixed := scan.isMixed || i != 0 }
  | .usrPtr | .returnPtr => { scan with hasPtr := true, isMixed := scan.isMixed || i != 0 }
  | .immediate => { scan with hasImm := true }
  | .dead => { scan with hasDead := true }
  | .tail => { scan with isMixed := scan.isMixed || i == 0 }
  | .stackPtrTail => { scan with hasTainted := true }
  | .unknown => { scan with hasUnknown := true }
  | .tainted => { scan with hasTainted := true }

def Scan.several (scan : Scan) : Bool :=
  1 < scan.hasImm.toNat + scan.hasDead.toNat + scan.hasPtr.toNat +
    scan.hasStackPtr.toNat + scan.hasUnknown.toNat + scan.hasTainted.toNat

/-- The reading loop; `skip` counts the tail bytes that `i += 7` passes over. -/
def scanLoop (estate : Elements) (byteOffset : Nat) : Nat → Nat → Nat → Scan → Scan
  | 0, _, _, scan => scan
  | n + 1, i, skip + 1, scan => scanLoop estate byteOffset n (i + 1) skip scan
  | n + 1, i, 0, scan =>
      let type := estate.type (byteOffset + i)
      scanLoop estate byteOffset n (i + 1) (if type.isPtr then 7 else 0) (scan.add i type)

def readData (estate : Elements) (w byteOffset bytes : Nat) : BitVec w :=
  ofBytes w (fun i => (estate.elem (byteOffset + i)).data) bytes

def readPtr (estate : Elements) (byteOffset : Nat) : DynamicValue :=
  match (estate.type byteOffset).ptr? with
  | some type =>
      .ptr type (estate.elem byteOffset).nr.toNat (estate.readData 64 byteOffset 8)
  | none => .unknown

def getElements (estate : Elements) (byteOffset bytes : Nat) : Except Failure DynamicValue :=
  let scan := scanLoop estate byteOffset bytes 0 0 .empty
  let isMixed := scan.isMixed || scan.several
  if scan.hasTainted || (scan.hasStackPtr && (isMixed || bytes != 8)) then
    .ok .tainted
  else if isMixed then .ok .unknown
  else if scan.hasStackPtr then .ok (estate.readPtr byteOffset)
  else if scan.hasPtr then
    if bytes ≠ 8 then .ok .unknown else .ok (estate.readPtr byteOffset)
  else if scan.hasImm then
    if bytes = 1 ∨ bytes = 2 ∨ bytes = 4 ∨ bytes = 8 then
      .ok (.imm64 (estate.readData 64 byteOffset bytes))
    else if bytes = 16 then .ok (.imm128 (estate.readData 128 byteOffset 16))
    else .error (.assertion "drob_assert_not_reached()")
  else if scan.hasDead then .ok .dead
  else .ok .unknown

/-- The inner loop of `moveElements` that copies a complete pointer; `source` gives
the container that is read, which may be the one being written. -/
def copyLoop (source : Elements → Elements) (byteOffset1 byteOffset2 : Nat) :
    Nat → Nat → Elements → Elements
  | 0, _, estate2 => estate2
  | n + 1, j, estate2 =>
      copyLoop source byteOffset1 byteOffset2 n (j + 1)
        (estate2.modify (byteOffset2 + j) 1
          (fun _ _ => (source estate2).elem (byteOffset1 + j)))

/-- One iteration of `moveElements`, with the number of bytes it skips. -/
def moveStep (source : Elements → Elements) (byteOffset1 byteOffset2 bytes i : Nat)
    (estate2 : Elements) : Elements × Nat :=
  let element1 := (source estate2).elem (byteOffset1 + i)
  match element1.type with
  | .stackPtr | .usrPtr | .returnPtr =>
      if bytes - i < 8 then
        (estate2.modify (byteOffset2 + i) (bytes - i) (fun _ old =>
          { old with type := if element1.type = .stackPtr then .tainted else .unknown }), 7)
      else (copyLoop source byteOffset1 byteOffset2 8 i estate2, 7)
  | .immediate | .dead =>
      (estate2.modify (byteOffset2 + i) 1 (fun _ old =>
        { old with type := element1.type, data := element1.data }), 0)
  | .tail | .unknown => (estate2.setType (byteOffset2 + i) .unknown, 0)
  | .stackPtrTail | .tainted => (estate2.setType (byteOffset2 + i) .tainted, 0)

def moveLoop (source : Elements → Elements) (byteOffset1 byteOffset2 bytes : Nat) :
    Nat → Nat → Nat → Elements → Elements
  | 0, _, _, estate2 => estate2
  | n + 1, i, skip + 1, estate2 =>
      moveLoop source byteOffset1 byteOffset2 bytes n (i + 1) skip estate2
  | n + 1, i, 0, estate2 =>
      let moved := moveStep source byteOffset1 byteOffset2 bytes i estate2
      moveLoop source byteOffset1 byteOffset2 bytes n (i + 1) moved.2 moved.1

/-- `moveElements` of the source into `estate2`. Without another container the
source range is in `estate2` itself. -/
def moveElements (estate1 : Option Elements) (byteOffset1 : Nat) (estate2 : Elements)
    (byteOffset2 bytes : Nat) : Except Failure Elements := do
  if byteOffset1 = byteOffset2 ∧ estate1.isNone then .ok estate2
  else
    let marked ← markUnknown estate2 byteOffset2 bytes
    let source : Elements → Elements := fun written => estate1.getD written
    .ok (moveLoop source byteOffset1 byteOffset2 bytes bytes 0 0 marked)

/-- One iteration of `mergeElements`: the merged container, whether it reports a
difference, and the number of bytes it skips. -/
def mergeStep (lhs rhs : Elements) (i : Nat) : Elements × Bool × Nat :=
  let lmd := lhs.elem i
  let rmd := rhs.elem i
  if lmd.type = rmd.type then
    if lmd.type.isPtr then
      if lmd.nr ≠ rmd.nr ∨ lhs.readData 64 i 8 ≠ rhs.readData 64 i 8 then
        (lhs.clearTail i, true, 7)
      else (lhs, false, 7)
    else if lmd.type = .immediate then
      if lmd.data ≠ rmd.data then (lhs.setType i .unknown, true, 0) else (lhs, false, 0)
    else (lhs, false, 0)
  else if lmd.type = .dead ∧ rmd.type = .unknown ∨ lmd.type = .unknown ∧ rmd.type = .dead then
    (lhs.setType i .dead, false, 0)
  else if lmd.type.isStackDerived || rmd.type.isStackDerived then
    if lmd.type ≠ .tainted then (lhs.setType i .tainted, true, 0) else (lhs, false, 0)
  else if lmd.type ≠ .unknown then (lhs.setType i .unknown, true, 0)
  else (lhs, false, 0)

def mergeLoop (rhs : Elements) : Nat → Nat → Nat → Elements → Bool → Elements × Bool
  | 0, _, _, lhs, diff => (lhs, diff)
  | n + 1, i, skip + 1, lhs, diff => mergeLoop rhs n (i + 1) skip lhs diff
  | n + 1, i, 0, lhs, diff =>
      let merged := mergeStep lhs rhs i
      mergeLoop rhs n (i + 1) merged.2.2 merged.1 (diff || merged.2.1)

def mergeElements (lhs rhs : Elements) : Except Failure (Elements × Bool) :=
  if lhs.size = rhs.size then .ok (mergeLoop rhs lhs.size 0 0 lhs false)
  else .error (.assertion "lhs.getSize() == rhs.getSize()")

end Elements

end Drob
