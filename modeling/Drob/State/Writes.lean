import Drob.State.WellFormed

/-!
Writing a value into a container and moving bytes between containers keep the shape
of pointers, as long as no pointer head lies strictly inside the written range.
-/

namespace Drob

namespace Elements

open DynamicValueType LittleEndian

theorem WellFormed.apart_of_plain {estate : Elements} (shape : estate.WellFormed)
    {start count : Nat} (plain : ∀ i, i < count → estate.PlainAt (start + i))
    {h : Nat} {ptr : PtrType} (inside : h < estate.size) (head : estate.type h = ofPtr ptr) :
    h + 8 ≤ start ∨ start + count ≤ h ∨ count = 0 := by
  by_contra meets
  have found := plain (max h start - start) (by omega)
  rw [show start + (max h start - start) = max h start by omega] at found
  exact shape.not_plain inside head (by omega) found

theorem WellFormed.overwritePlain {estate : Elements} (shape : estate.WellFormed)
    {start count : Nat} (plain : ∀ i, i < count → estate.PlainAt (start + i))
    (change : Nat → Element → Element)
    (stays : ∀ i, i < count → ∀ old,
      ((change i old).type).isPtr = false ∧ ((change i old).type).isTail = false) :
    (estate.modify start count change).WellFormed := by
  constructor
  · intro i ptr inside head
    rw [type_modify] at head
    split at head
    · exact absurd head (ofPtr_ne_of_isPtr_eq_false (stays _ (by omega) _).1 ptr)
    · obtain ⟨room, tails⟩ := shape.head i ptr inside head
      refine ⟨room, ?_⟩
      intro j positive below
      rw [type_modify, if_neg]
      · exact tails j positive below
      · have apart := shape.apart_of_plain plain inside head
        omega
  · intro i inside tail
    rw [type_modify] at tail
    split at tail
    · rw [(stays _ (by omega) _).2] at tail
      cases tail
    · obtain ⟨h, ptr, before, within, head⟩ := shape.tail i inside tail
      refine ⟨h, ptr, before, within, ?_⟩
      rw [type_modify, if_neg]
      · exact head
      · have apart := shape.apart_of_plain plain (Nat.lt_trans before inside) head
        omega

theorem WellFormed.overwritePtr {estate : Elements} (shape : estate.WellFormed)
    {start : Nat} (plain : ∀ i, i < 8 → estate.PlainAt (start + i))
    (room : start + 8 ≤ estate.size) (ptr : PtrType) (change : Nat → Element → Element)
    (written : ∀ i, i < 8 → ∀ old,
      (change i old).type = if i = 0 then ofPtr ptr else tailOf ptr) :
    (estate.modify start 8 change).WellFormed := by
  have typeAt (k : Nat) (within : start ≤ k ∧ k < start + 8) :
      (estate.modify start 8 change).type k = if k = start then ofPtr ptr else tailOf ptr := by
    rw [type_modify, if_pos within, written _ (by omega)]
    by_cases first : k = start
    · rw [if_pos (by omega), if_pos first]
    · rw [if_neg (by omega), if_neg first]
  have typeOff (k : Nat) (outside : ¬ (start ≤ k ∧ k < start + 8)) :
      (estate.modify start 8 change).type k = estate.type k := by
    rw [type_modify, if_neg outside]
  constructor
  · intro i other inside head
    by_cases within : start ≤ i ∧ i < start + 8
    · rw [typeAt i within] at head
      by_cases first : i = start
      · rw [if_pos first] at head
        refine ⟨by rw [size_modify]; omega, ?_⟩
        intro j positive below
        rw [typeAt (i + j) (by omega), if_neg (by omega)]
        cases ptr <;> cases other <;> first | rfl | cases head
      · rw [if_neg first] at head
        exact absurd (congrArg DynamicValueType.isPtr head) (by simp)
    · rw [typeOff i within] at head
      obtain ⟨fits, tails⟩ := shape.head i other inside head
      refine ⟨fits, ?_⟩
      intro j positive below
      rw [typeOff (i + j)]
      · exact tails j positive below
      · have apart := shape.apart_of_plain plain inside head
        omega
  · intro i inside tail
    by_cases within : start ≤ i ∧ i < start + 8
    · rw [typeAt i within] at tail
      by_cases first : i = start
      · rw [if_pos first, isTail_ofPtr] at tail
        cases tail
      · refine ⟨start, ptr, by omega, by omega, ?_⟩
        rw [typeAt start (by omega), if_pos rfl]
    · rw [typeOff i within] at tail
      obtain ⟨h, other, before, reach, head⟩ := shape.tail i inside tail
      refine ⟨h, other, before, reach, ?_⟩
      rw [typeOff h]
      · exact head
      · have apart := shape.apart_of_plain plain (Nat.lt_trans before inside) head
        omega

/-! ### Setting a value -/

/-- The value fits a destination of the given size: only eight bytes hold a pointer,
and an immediate has the size of an operand. -/
def FitsBytes (data : DynamicValue) (bytes : Nat) : Prop :=
  (data.isPtr = true → bytes = 8) ∧
    (data.isImm = true → bytes = 1 ∨ bytes = 2 ∨ bytes = 4 ∨ bytes = 8 ∨ bytes = 16)

instance (data : DynamicValue) (bytes : Nat) : Decidable (FitsBytes data bytes) :=
  inferInstanceAs (Decidable (_ ∧ _))

theorem setImm_ok (estate : Elements) (byteOffset bytes : Nat) (val : BitVec 128)
    (fits : bytes = 1 ∨ bytes = 2 ∨ bytes = 4 ∨ bytes = 8 ∨ bytes = 16) :
    estate.setImm byteOffset bytes val =
      .ok (estate.modify byteOffset bytes (fun i old =>
        { old with type := .immediate, data := byte val i })) := by
  unfold setImm
  rw [if_pos fits]

/-- `setElements` succeeds on a range without an inner pointer head. -/
theorem WellFormed.setElements_ok {estate : Elements} (shape : estate.WellFormed)
    (data : DynamicValue) {byteOffset bytes : Nat} (positive : 0 < bytes)
    (room : bytes + byteOffset ≤ estate.size) (small : byteOffset < 2 ^ 31)
    (fits : FitsBytes data bytes) (noInner : estate.NoInnerHead byteOffset bytes) :
    ∃ result, estate.setElements byteOffset bytes data false = .ok result ∧
      result.size = estate.size ∧ result.WellFormed := by
  obtain ⟨marked, returned, mark⟩ :=
    shape.markUnknown_ok positive (by omega) small noInner
  unfold setElements
  rw [if_neg (by simp only [not_not]; exact ⟨positive, room⟩), if_neg Bool.false_ne_true,
    returned]
  have plainWrite (change : Nat → Element → Element)
      (stays : ∀ i old,
        ((change i old).type).isPtr = false ∧ ((change i old).type).isTail = false) :
      (marked.modify byteOffset bytes change).size = estate.size ∧
        (marked.modify byteOffset bytes change).WellFormed :=
    ⟨mark.size_eq, mark.shape.overwritePlain mark.plain change (fun i _ old => stays i old)⟩
  cases data with
  | ptr type nr ptrOffset =>
      have eight : bytes = 8 := fits.1 rfl
      subst eight
      refine ⟨_, (if_pos rfl : setPtr marked byteOffset 8 type nr ptrOffset = _), mark.size_eq, ?_⟩
      refine mark.shape.overwritePtr mark.plain ?_ type _ ?_
      · rw [mark.size_eq]
        omega
      · intro _i _below _old
        rfl
  | imm64 val =>
      exact ⟨_, setImm_ok marked byteOffset bytes _ (fits.2 rfl),
        plainWrite _ (fun _ _ => ⟨rfl, rfl⟩)⟩
  | imm128 val =>
      exact ⟨_, setImm_ok marked byteOffset bytes _ (fits.2 rfl),
        plainWrite _ (fun _ _ => ⟨rfl, rfl⟩)⟩
  | dead => exact ⟨_, rfl, plainWrite _ (fun _ _ => ⟨rfl, rfl⟩)⟩
  | unknown => exact ⟨_, rfl, plainWrite _ (fun _ _ => ⟨rfl, rfl⟩)⟩
  | tainted => exact ⟨_, rfl, plainWrite _ (fun _ _ => ⟨rfl, rfl⟩)⟩

/-! ### Moving bytes -/

theorem copyLoop_size (source : Elements → Elements) (byteOffset1 byteOffset2 n j : Nat)
    (estate2 : Elements) :
    (copyLoop source byteOffset1 byteOffset2 n j estate2).size = estate2.size := by
  induction n generalizing j estate2 with
  | zero => rfl
  | succ n ih =>
      unfold copyLoop
      rw [ih, size_modify]

theorem copyLoop_eq (source : Elements → Elements) (byteOffset1 byteOffset2 n j : Nat)
    (estate2 : Elements) (read : Nat → Element)
    (reads : ∀ written : Elements, written.size = estate2.size →
      (∀ k, (k < byteOffset2 + j ∨ byteOffset2 + (j + n) ≤ k) →
        written.elem k = estate2.elem k) →
      ∀ i, i < n → (source written).elem (byteOffset1 + (j + i)) = read i) :
    copyLoop source byteOffset1 byteOffset2 n j estate2 =
      estate2.modify (byteOffset2 + j) n (fun i _ => read i) := by
  induction n generalizing j estate2 read with
  | zero =>
      cases estate2
      unfold copyLoop modify
      congr 1
      funext k
      exact (if_neg (by omega)).symm
  | succ n ih =>
      have first : (source estate2).elem (byteOffset1 + j) = read 0 :=
        reads estate2 rfl (fun _ _ => rfl) 0 (Nat.succ_pos n)
      unfold copyLoop
      rw [first]
      rw [ih (j + 1) _ (fun i => read (i + 1))]
      · unfold modify
        congr 1
        funext k
        dsimp only
        by_cases later : byteOffset2 + (j + 1) ≤ k ∧ k < byteOffset2 + (j + 1) + n
        · rw [if_pos later, if_pos (by omega)]
          congr 1
          omega
        · rw [if_neg later]
          by_cases here : byteOffset2 + j ≤ k ∧ k < byteOffset2 + j + 1
          · rw [if_pos here, if_pos (by omega)]
            congr 1
            omega
          · rw [if_neg here, if_neg (by omega)]
      · intro written sizeEq same i below
        have found := reads written sizeEq (by
          intro k outside
          rw [same k (by omega), elem_modify, if_neg (by omega)]) (i + 1) (by omega)
        rwa [show j + (i + 1) = j + 1 + i by omega] at found

/-- The container that is read: another one of the right shape, or the one that is
being written. -/
def SourceOk (estate1 : Option Elements) (byteOffset1 bytes size2 : Nat) : Prop :=
  match estate1 with
  | some estate => estate.WellFormed ∧ byteOffset1 + bytes ≤ estate.size
  | none => byteOffset1 + bytes ≤ size2

/-- While bytes are moved, the written container has its shape and the bytes that
are still to be written are plain. -/
structure Moving (byteOffset2 bytes done : Nat) (estate2 : Elements) : Prop where
  shape : estate2.WellFormed
  room : byteOffset2 + bytes ≤ estate2.size
  plain : ∀ i, done ≤ i → i < bytes → estate2.PlainAt (byteOffset2 + i)

theorem Moving.writePlain {byteOffset2 bytes i : Nat} {estate2 : Elements}
    (moving : Moving byteOffset2 bytes i estate2) (count : Nat) (fits : i + count ≤ bytes)
    (change : Nat → Element → Element)
    (stays : ∀ j, j < count → ∀ old,
      ((change j old).type).isPtr = false ∧ ((change j old).type).isTail = false) :
    Moving byteOffset2 bytes (i + count)
      (estate2.modify (byteOffset2 + i) count change) := by
  refine
    { shape := ?_
      room := moving.room
      plain := ?_ }
  · apply moving.shape.overwritePlain ?_ change stays
    intro j below
    have found := moving.plain (i + j) (by omega) (by omega)
    rwa [← Nat.add_assoc] at found
  · intro j after below
    unfold PlainAt
    rw [type_modify, if_neg (by omega)]
    exact moving.plain j (by omega) below

def movedByte (element1 old : Element) : Element :=
  match element1.type with
  | .immediate | .dead => { old with type := element1.type, data := element1.data }
  | .tail | .unknown => { old with type := .unknown }
  | _ => { old with type := .tainted }

theorem moveStep_plain (source : Elements → Elements) (byteOffset1 byteOffset2 bytes i : Nat)
    (estate2 : Elements) (noHead : ((source estate2).type (byteOffset1 + i)).isPtr = false) :
    moveStep source byteOffset1 byteOffset2 bytes i estate2 =
      (estate2.modify (byteOffset2 + i) 1
        (fun _ old => movedByte ((source estate2).elem (byteOffset1 + i)) old), 0) := by
  unfold moveStep movedByte
  cases found : (source estate2).type (byteOffset1 + i) with
  | stackPtr => rw [found] at noHead; cases noHead
  | usrPtr => rw [found] at noHead; cases noHead
  | returnPtr => rw [found] at noHead; cases noHead
  | _ =>
      have typeAt : ((source estate2).elem (byteOffset1 + i)).type = _ := found
      simp only [typeAt, setType]

theorem moveStep_ptr (source : Elements → Elements) (byteOffset1 byteOffset2 bytes i : Nat)
    (estate2 : Elements) {ptr : PtrType}
    (head : (source estate2).type (byteOffset1 + i) = ofPtr ptr) :
    moveStep source byteOffset1 byteOffset2 bytes i estate2 =
      if bytes - i < 8 then
        (estate2.modify (byteOffset2 + i) (bytes - i)
          (fun _ old => { old with type := cleared ptr }), 7)
      else (copyLoop source byteOffset1 byteOffset2 8 i estate2, 7) := by
  have typeAt : ((source estate2).elem (byteOffset1 + i)).type = ofPtr ptr := head
  unfold moveStep
  simp only [typeAt]
  cases ptr <;> rfl

theorem movedByte_plain (element1 old : Element) :
    (movedByte element1 old).type.isPtr = false ∧
      (movedByte element1 old).type.isTail = false := by
  unfold movedByte
  cases found : element1.type <;> exact ⟨rfl, rfl⟩

/-- The bytes still to be written do not meet a complete pointer that is read, so
copying it does not change what is read. -/
theorem Moving.copyPtr {estate1 : Option Elements} {byteOffset1 byteOffset2 bytes i : Nat}
    {estate2 : Elements} (moving : Moving byteOffset2 bytes i estate2)
    (shape : (estate1.getD estate2).WellFormed) (fits : i + 8 ≤ bytes)
    (inside : byteOffset1 + i < (estate1.getD estate2).size) {ptr : PtrType}
    (head : (estate1.getD estate2).type (byteOffset1 + i) = ofPtr ptr) :
    Moving byteOffset2 bytes (i + 8)
      (copyLoop (fun written => estate1.getD written) byteOffset1 byteOffset2 8 i estate2) := by
  have tails := (shape.head _ ptr inside head).2
  have plain (k : Nat) (below : k < 8) : estate2.PlainAt (byteOffset2 + i + k) := by
    have found := moving.plain (i + k) (by omega) (by omega)
    rwa [← Nat.add_assoc] at found
  have room := moving.room
  rw [copyLoop_eq (fun written => estate1.getD written) byteOffset1 byteOffset2
    8 i estate2 (fun j => (estate1.getD estate2).elem (byteOffset1 + (i + j)))]
  · refine
      { shape := ?_
        room := room
        plain := ?_ }
    · refine moving.shape.overwritePtr plain (by omega) ptr _ ?_
      intro k below _old
      by_cases first : k = 0
      · subst first
        rw [if_pos rfl]
        exact head
      · rw [if_neg first]
        have found := tails k (by omega) below
        rwa [Nat.add_assoc] at found
    · intro j after before
      unfold PlainAt
      rw [type_modify, if_neg (by omega)]
      exact moving.plain j (by omega) before
  · intro written _sizeEq same j below
    cases estate1 with
    | some estate => rfl
    | none =>
        have apart := moving.shape.apart_of_plain plain inside head
        exact same _ (by omega)

theorem moveStep_moving (estate1 : Option Elements) (byteOffset1 byteOffset2 bytes i : Nat)
    (estate2 : Elements) (source : SourceOk estate1 byteOffset1 bytes estate2.size)
    (below : i < bytes) (moving : Moving byteOffset2 bytes i estate2) :
    let moved := moveStep (fun written => estate1.getD written) byteOffset1 byteOffset2
      bytes i estate2
    moved.1.size = estate2.size ∧ Moving byteOffset2 bytes (i + 1 + moved.2) moved.1 := by
  have sourceShape : (estate1.getD estate2).WellFormed ∧
      byteOffset1 + bytes ≤ (estate1.getD estate2).size := by
    cases estate1 with
    | none => exact ⟨moving.shape, source⟩
    | some estate => exact source
  cases isPtr : ((estate1.getD estate2).type (byteOffset1 + i)).isPtr with
  | false =>
      rw [moveStep_plain _ _ _ _ _ _ isPtr]
      have written := moving.writePlain 1 (by omega)
        (fun _ old => movedByte ((estate1.getD estate2).elem (byteOffset1 + i)) old)
        (fun _ _ _ => movedByte_plain _ _)
      exact ⟨rfl, written⟩
  | true =>
      obtain ⟨ptr, head⟩ := (DynamicValueType.isPtr_iff _).mp isPtr
      rw [moveStep_ptr _ _ _ _ _ _ head]
      by_cases short : bytes - i < 8
      · rw [if_pos short]
        have written := moving.writePlain (bytes - i) (by omega)
          (fun _ old => { old with type := cleared ptr })
          (fun _ _ _ => ⟨isPtr_cleared ptr, isTail_cleared ptr⟩)
        refine ⟨rfl, written.shape, written.room, ?_⟩
        intro j after before
        omega
      · rw [if_neg short]
        exact ⟨copyLoop_size _ _ _ _ _ _,
          moving.copyPtr sourceShape.1 (by omega) (by omega) head⟩

theorem moveLoop_moving (estate1 : Option Elements) (byteOffset1 byteOffset2 bytes : Nat)
    (n i skip : Nat) (estate2 : Elements) (total : i + n = bytes)
    (source : SourceOk estate1 byteOffset1 bytes estate2.size)
    (moving : Moving byteOffset2 bytes (i + skip) estate2) :
    let moved := moveLoop (fun written => estate1.getD written) byteOffset1 byteOffset2
      bytes n i skip estate2
    moved.size = estate2.size ∧ moved.WellFormed := by
  induction n generalizing i skip estate2 with
  | zero => exact ⟨rfl, moving.shape⟩
  | succ n ih =>
      cases skip with
      | succ skip =>
          exact ih (i + 1) skip estate2 (by omega) source
            (by rwa [show i + 1 + skip = i + (skip + 1) by omega])
      | zero =>
          obtain ⟨sizeEq, next⟩ := moveStep_moving estate1 byteOffset1 byteOffset2 bytes i
            estate2 source (by omega) moving
          obtain ⟨restSize, restShape⟩ := ih (i + 1) _ _ (by omega)
            (by rw [sizeEq]; exact source) next
          exact ⟨restSize.trans sizeEq, restShape⟩

/-- `moveElements` succeeds on a target range without an inner pointer head. -/
theorem WellFormed.moveElements_ok {estate2 : Elements} (shape : estate2.WellFormed)
    (estate1 : Option Elements) (byteOffset1 : Nat) {byteOffset2 : Nat} (bytes : Nat)
    (positive : 0 < bytes) (source : SourceOk estate1 byteOffset1 bytes estate2.size)
    (room : byteOffset2 + bytes ≤ estate2.size) (small : byteOffset2 < 2 ^ 31)
    (noInner : byteOffset1 = byteOffset2 ∧ estate1.isNone = true ∨
      estate2.NoInnerHead byteOffset2 bytes) :
    ∃ result, moveElements estate1 byteOffset1 estate2 byteOffset2 bytes = .ok result ∧
      result.size = estate2.size ∧ result.WellFormed := by
  unfold moveElements
  by_cases same : byteOffset1 = byteOffset2 ∧ estate1.isNone = true
  · rw [if_pos same]
    exact ⟨estate2, rfl, rfl, shape⟩
  · rw [if_neg same]
    obtain ⟨marked, returned, mark⟩ := shape.markUnknown_ok positive room small
      (noInner.resolve_left same)
    rw [returned]
    have moving : Moving byteOffset2 bytes (0 + 0) marked :=
      { shape := mark.shape
        room := by rw [mark.size_eq]; exact room
        plain := fun i _ below => mark.plain i below }
    obtain ⟨sizeEq, movedShape⟩ := moveLoop_moving estate1 byteOffset1 byteOffset2 bytes
      bytes 0 0 marked (Nat.zero_add bytes) (by rw [mark.size_eq]; exact source) moving
    exact ⟨_, rfl, sizeEq.trans mark.size_eq, movedShape⟩

end Elements

end Drob
