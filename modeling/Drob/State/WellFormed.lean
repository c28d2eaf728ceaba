import Drob.State.ProgramState

/-!
The shape of pointers in a container: each head is followed by its seven tail
bytes, and each tail byte belongs to such a head. The operations of one container
keep that shape as long as no pointer head lies strictly inside a written range.
-/

namespace Drob

namespace Elements

open DynamicValueType

/-- Neither the head nor a tail byte of a pointer. -/
def PlainAt (estate : Elements) (i : Nat) : Prop :=
  (estate.type i).isPtr = false ∧ (estate.type i).isTail = false

structure WellFormed (estate : Elements) : Prop where
  head : ∀ i ptr, i < estate.size → estate.type i = ofPtr ptr →
    i + 8 ≤ estate.size ∧ ∀ j, 0 < j → j < 8 → estate.type (i + j) = tailOf ptr
  tail : ∀ i, i < estate.size → (estate.type i).isTail = true →
    ∃ h ptr, h < i ∧ i < h + 8 ∧ estate.type h = ofPtr ptr

theorem wellFormed_initial (size : Nat) : (initial size).WellFormed := by
  constructor
  · intro i ptr _inside head
    cases ptr <;> cases head
  · intro i _inside tail
    cases tail

/-- The type of the bytes of a pointer that is no longer complete. -/
def cleared : PtrType → DynamicValueType
  | .stack => .tainted
  | _ => .unknown

@[simp] theorem isPtr_cleared (ptr : PtrType) : (cleared ptr).isPtr = false := by
  cases ptr <;> rfl

@[simp] theorem isTail_cleared (ptr : PtrType) : (cleared ptr).isTail = false := by
  cases ptr <;> rfl

theorem ofPtr_ne_of_isPtr_eq_false {type : DynamicValueType} (plain : type.isPtr = false)
    (ptr : PtrType) : type ≠ ofPtr ptr := by
  intro same
  rw [same, isPtr_ofPtr] at plain
  cases plain

theorem WellFormed.tail_type {estate : Elements} (shape : estate.WellFormed)
    {h k : Nat} {ptr : PtrType} (head : estate.type h = ofPtr ptr) (inside : h < estate.size)
    (after : h < k) (within : k < h + 8) : estate.type k = tailOf ptr := by
  have found := (shape.head h ptr inside head).2 (k - h) (by omega) (by omega)
  rwa [Nat.add_sub_cancel' (Nat.le_of_lt after)] at found

theorem WellFormed.no_tail_after {estate : Elements} (shape : estate.WellFormed)
    {h : Nat} {ptr : PtrType} (inside : h < estate.size) (head : estate.type h = ofPtr ptr)
    (next : h + 8 < estate.size) : (estate.type (h + 8)).isTail = false := by
  by_contra tail
  rw [Bool.not_eq_false] at tail
  obtain ⟨other, otherPtr, before, within, otherHead⟩ := shape.tail (h + 8) next tail
  have isTail := shape.tail_type head inside (by omega : h < other) (by omega)
  rw [otherHead] at isTail
  exact absurd (congrArg DynamicValueType.isPtr isTail) (by simp)

theorem WellFormed.head_unique {estate : Elements} (shape : estate.WellFormed)
    {left right k : Nat} {leftPtr rightPtr : PtrType}
    (leftInside : left < estate.size) (rightInside : right < estate.size)
    (leftHead : estate.type left = ofPtr leftPtr) (rightHead : estate.type right = ofPtr rightPtr)
    (inLeft : left ≤ k ∧ k < left + 8) (inRight : right ≤ k ∧ k < right + 8) :
    left = right := by
  rcases Nat.lt_trichotomy left right with before | same | after
  · have isTail := shape.tail_type leftHead leftInside before (by omega)
    rw [rightHead] at isTail
    exact absurd (congrArg DynamicValueType.isPtr isTail) (by simp)
  · exact same
  · have isTail := shape.tail_type rightHead rightInside after (by omega)
    rw [leftHead] at isTail
    exact absurd (congrArg DynamicValueType.isPtr isTail) (by simp)

/-! ### Clearing a pointer -/

theorem clearTailLoop_size (n i : Nat) (estate : Elements) :
    (clearTailLoop n i estate).size = estate.size := by
  induction n generalizing i estate with
  | zero => rfl
  | succ n ih =>
      unfold clearTailLoop
      split
      · rw [ih, size_setType]
      · rw [ih, size_setType]
      · rfl

@[simp] theorem clearTail_size (estate : Elements) (byteOffset : Nat) :
    (estate.clearTail byteOffset).size = estate.size := by
  unfold clearTail
  rw [clearTailLoop_size, size_setType]

/-- The loop clears a run of equal tail bytes that ends at its bound or at a byte
that is no tail. -/
theorem clearTailLoop_run (ptr : PtrType) (run n i : Nat) (estate : Elements)
    (fits : run ≤ n) (tails : ∀ j, j < run → estate.type (i + j) = tailOf ptr)
    (stops : run < n → (estate.type (i + run)).isTail = false) :
    clearTailLoop n i estate =
      estate.modify i run (fun _ old => { old with type := cleared ptr }) := by
  induction run generalizing n i estate with
  | zero =>
      have unchanged : estate.modify i 0 (fun _ old => { old with type := cleared ptr }) =
          estate := by
        cases estate with
        | mk size elem =>
            unfold modify
            congr 1
            funext k
            exact if_neg (by omega)
      rw [unchanged]
      cases n with
      | zero => rfl
      | succ n =>
          have plain := stops (Nat.succ_pos n)
          rw [Nat.add_zero] at plain
          unfold clearTailLoop
          split
          · rename_i same; rw [same] at plain; cases plain
          · rename_i same; rw [same] at plain; cases plain
          · rfl
  | succ run ih =>
      cases n with
      | zero => omega
      | succ n =>
          have first := tails 0 (Nat.succ_pos run)
          rw [Nat.add_zero] at first
          have step : clearTailLoop (n + 1) i estate =
              clearTailLoop n (i + 1) (estate.setType i (cleared ptr)) := by
            cases ptr <;> simp only [clearTailLoop, first, tailOf, cleared]
          have later := ih n (i + 1) (estate.setType i (cleared ptr)) (by omega)
            (by
              intro j below
              rw [type_setType, if_neg (by omega)]
              have found := tails (j + 1) (by omega)
              rwa [show i + (j + 1) = i + 1 + j by omega] at found)
            (by
              intro below
              rw [type_setType, if_neg (by omega)]
              have found := stops (by omega)
              rwa [show i + (run + 1) = i + 1 + run by omega] at found)
          rw [step, later]
          unfold modify setType
          congr 1
          funext k
          rw [elem_modify]
          by_cases atFirst : k = i
          · subst k
            rw [if_neg (by omega), if_pos (by omega), if_pos (by omega)]
          · by_cases inRun : i + 1 ≤ k ∧ k < i + 1 + run
            · rw [if_pos inRun, if_neg (by omega), if_pos (by omega)]
            · rw [if_neg inRun, if_neg (by omega), if_neg (by omega)]

/-- Clearing a head with its seven tails changes the types of these bytes only, when
no further tail follows. -/
theorem clearTail_complete (estate : Elements) {h : Nat} {ptr : PtrType}
    (head : estate.type h = ofPtr ptr) (room : h + 8 ≤ estate.size)
    (tails : ∀ j, 0 < j → j < 8 → estate.type (h + j) = tailOf ptr)
    (stops : h + 8 < estate.size → (estate.type (h + 8)).isTail = false) :
    estate.clearTail h =
      estate.modify h 8 (fun _ old => { old with type := cleared ptr }) := by
  have headType : (if estate.type h = .stackPtr then DynamicValueType.tainted else .unknown) =
      cleared ptr := by
    rw [head]
    cases ptr <;> rfl
  unfold clearTail
  simp only [headType]
  rw [clearTailLoop_run ptr 7 _ (h + 1) _ (by omega)
    (by
      intro j below
      rw [type_setType, if_neg (by omega)]
      have found := tails (j + 1) (by omega) (by omega)
      rwa [show h + (j + 1) = h + 1 + j by omega] at found)
    (by
      intro more
      rw [type_setType, if_neg (by omega)]
      exact stops (by omega))]
  unfold modify setType
  congr 1
  funext k
  rw [elem_modify]
  by_cases atHead : k = h
  · subst k
    rw [if_neg (by omega), if_pos (by omega), if_pos (by omega)]
  · by_cases inTails : h + 1 ≤ k ∧ k < h + 1 + 7
    · rw [if_pos inTails, if_neg (by omega), if_pos (by omega)]
    · rw [if_neg inTails, if_neg (by omega), if_neg (by omega)]

theorem WellFormed.clearTail_eq {estate : Elements} (shape : estate.WellFormed)
    {h : Nat} {ptr : PtrType} (inside : h < estate.size) (head : estate.type h = ofPtr ptr) :
    estate.clearTail h =
      estate.modify h 8 (fun _ old => { old with type := cleared ptr }) := by
  obtain ⟨room, tails⟩ := shape.head h ptr inside head
  exact clearTail_complete estate head room tails (shape.no_tail_after inside head)

theorem type_modify (estate : Elements) (start count : Nat)
    (change : Nat → Element → Element) (k : Nat) :
    (estate.modify start count change).type k =
      if start ≤ k ∧ k < start + count then (change (k - start) (estate.elem k)).type
      else estate.type k := by
  unfold Elements.type
  rw [elem_modify]
  split <;> rfl

theorem WellFormed.modify_plain {estate : Elements} (shape : estate.WellFormed)
    (start count : Nat) (change : Nat → Element → Element)
    (plain : ∀ i old, ((change i old).type).isPtr = false ∧ ((change i old).type).isTail = false)
    (whole : ∀ h ptr, h < estate.size → estate.type h = ofPtr ptr →
      h + 8 ≤ start ∨ start + count ≤ h ∨ start ≤ h ∧ h + 8 ≤ start + count) :
    (estate.modify start count change).WellFormed := by
  constructor
  · intro i ptr inside head
    rw [type_modify] at head
    split at head
    · exact absurd head (ofPtr_ne_of_isPtr_eq_false (plain _ _).1 ptr)
    · rename_i outside
      obtain ⟨room, tails⟩ := shape.head i ptr inside head
      refine ⟨room, ?_⟩
      intro j positive below
      rw [type_modify, if_neg (by have := whole i ptr inside head; omega)]
      exact tails j positive below
  · intro i inside tail
    rw [type_modify] at tail
    split at tail
    · rw [(plain _ _).2] at tail
      cases tail
    · rename_i outside
      obtain ⟨h, ptr, before, within, head⟩ := shape.tail i inside tail
      have inSize : h < estate.size := Nat.lt_trans before inside
      refine ⟨h, ptr, before, within, ?_⟩
      rw [type_modify, if_neg (by have := whole h ptr inSize head; omega)]
      exact head

theorem WellFormed.clearTail {estate : Elements} (shape : estate.WellFormed)
    {h : Nat} {ptr : PtrType} (inside : h < estate.size) (head : estate.type h = ofPtr ptr) :
    (estate.clearTail h).WellFormed := by
  rw [shape.clearTail_eq inside head]
  apply shape.modify_plain
  · intro _i _old
    exact ⟨isPtr_cleared ptr, isTail_cleared ptr⟩
  · intro other otherPtr otherInside otherHead
    by_cases apart : other + 8 ≤ h ∨ h + 8 ≤ other
    · omega
    · have same := shape.head_unique (k := max h other) inside otherInside head otherHead
        (by omega) (by omega)
      omega

/-! ### Marking a range before it is written -/

/-- No pointer starts strictly inside the range. -/
def NoInnerHead (estate : Elements) (byteOffset bytes : Nat) : Prop :=
  ∀ i, 0 < i → i < bytes → (estate.type (byteOffset + i)).isPtr = false

/-- The type that `markUnknown` leaves on a plain byte. -/
def weaken : DynamicValueType → DynamicValueType
  | .dead | .immediate => .unknown
  | other => other

theorem weaken_plain {type : DynamicValueType}
    (plain : type.isPtr = false ∧ type.isTail = false) :
    (weaken type).isPtr = false ∧ (weaken type).isTail = false := by
  cases type <;> simp_all [weaken, DynamicValueType.isPtr, DynamicValueType.ptr?,
    DynamicValueType.isTail]

def weakenElement (_i : Nat) (old : Element) : Element :=
  { old with type := weaken old.type }

theorem WellFormed.plain_or_covered {estate : Elements} (shape : estate.WellFormed)
    {i : Nat} (inside : i < estate.size) :
    estate.PlainAt i ∨
      ∃ h ptr, h ≤ i ∧ i < h + 8 ∧ h < estate.size ∧ estate.type h = ofPtr ptr := by
  cases isPtr : (estate.type i).isPtr with
  | true =>
      obtain ⟨ptr, head⟩ := (DynamicValueType.isPtr_iff _).mp isPtr
      exact Or.inr ⟨i, ptr, Nat.le_refl i, by omega, inside, head⟩
  | false =>
      cases isTail : (estate.type i).isTail with
      | true =>
          obtain ⟨h, ptr, before, within, head⟩ := shape.tail i inside isTail
          exact Or.inr ⟨h, ptr, Nat.le_of_lt before, within, Nat.lt_trans before inside, head⟩
      | false => exact Or.inl ⟨isPtr, isTail⟩

theorem WellFormed.not_plain {estate : Elements} (shape : estate.WellFormed)
    {h i : Nat} {ptr : PtrType} (inside : h < estate.size) (head : estate.type h = ofPtr ptr)
    (covered : h ≤ i ∧ i < h + 8) : ¬ estate.PlainAt i := by
  rintro ⟨notPtr, notTail⟩
  rcases Nat.eq_or_lt_of_le covered.1 with same | after
  · rw [← same, head, isPtr_ofPtr] at notPtr
    cases notPtr
  · rw [shape.tail_type head inside after covered.2, isTail_tailOf] at notTail
    cases notTail

theorem markUnknownLoop_plain (byteOffset n i : Nat) (estate : Elements)
    (plain : ∀ j, j < n → estate.PlainAt (byteOffset + (i + j))) :
    markUnknownLoop byteOffset n i estate =
      .ok (estate.modify (byteOffset + i) n weakenElement) := by
  induction n generalizing i estate with
  | zero =>
      unfold markUnknownLoop modify
      congr 1
      cases estate
      congr 1
      funext k
      exact (if_neg (by omega)).symm
  | succ n ih =>
      have here := plain 0 (Nat.succ_pos n)
      rw [Nat.add_zero] at here
      have step : markUnknownAt estate byteOffset i =
          .ok (estate.modify (byteOffset + i) 1 weakenElement) := by
        have unchanged (fixed : weaken (estate.type (byteOffset + i)) =
            estate.type (byteOffset + i)) :
            estate = estate.modify (byteOffset + i) 1 weakenElement := by
          cases estate with
          | mk size elem =>
              unfold modify
              congr 1
              funext k
              dsimp only
              split
              · have same : k = byteOffset + i := by omega
                subst same
                unfold weakenElement
                have typeSame : weaken (elem (byteOffset + i)).type =
                    (elem (byteOffset + i)).type := fixed
                rw [typeSame]
              · rfl
        have changed (moves : weaken (estate.type (byteOffset + i)) = .unknown) :
            estate.setType (byteOffset + i) .unknown =
              estate.modify (byteOffset + i) 1 weakenElement := by
          unfold setType modify
          congr 1
          funext k
          split
          · have same : k = byteOffset + i := by omega
            subst same
            unfold weakenElement
            have typeSame : weaken (estate.elem (byteOffset + i)).type = .unknown := moves
            rw [typeSame]
          · rfl
        obtain ⟨notPtr, notTail⟩ := here
        unfold markUnknownAt
        cases found : estate.type (byteOffset + i) with
        | dead => exact congrArg _ (changed (by rw [found]; rfl))
        | immediate => exact congrArg _ (changed (by rw [found]; rfl))
        | unknown => exact congrArg _ (unchanged (by rw [found]; rfl))
        | tainted => exact congrArg _ (unchanged (by rw [found]; rfl))
        | stackPtr => rw [found] at notPtr; cases notPtr
        | usrPtr => rw [found] at notPtr; cases notPtr
        | returnPtr => rw [found] at notPtr; cases notPtr
        | tail => rw [found] at notTail; cases notTail
        | stackPtrTail => rw [found] at notTail; cases notTail
      have rest := ih (i + 1) (estate.modify (byteOffset + i) 1 weakenElement) (by
        intro j below
        have later := plain (j + 1) (by omega)
        rw [show i + (j + 1) = i + 1 + j by omega] at later
        unfold PlainAt
        rw [type_modify, if_neg (by omega)]
        exact later)
      unfold markUnknownLoop
      rw [step]
      change markUnknownLoop byteOffset n (i + 1) _ = _
      rw [rest]
      unfold modify
      congr 2
      funext k
      dsimp only
      by_cases first : k = byteOffset + i
      · rw [if_neg (by omega), if_pos (by omega), if_pos (by omega)]
      · by_cases later : byteOffset + (i + 1) ≤ k ∧ k < byteOffset + (i + 1) + n
        · rw [if_pos later, if_neg (by omega), if_pos (by omega)]
          rfl
        · rw [if_neg later, if_neg (by omega), if_neg (by omega)]

/-- Below `2^31` the parent search goes down to the head of the tail. -/
theorem WellFormed.clearParent_eq {estate : Elements} (shape : estate.WellFormed)
    {h : Nat} {ptr : PtrType} (inside : h < estate.size) (head : estate.type h = ofPtr ptr)
    (byteOffset : Nat) (small : byteOffset < 2 ^ 31) (within : byteOffset < h + 8)
    (bound : Nat) (above : h < bound) (below : bound ≤ byteOffset) :
    estate.clearParent byteOffset bound = .ok (estate.clearTail h) := by
  induction bound with
  | zero => omega
  | succ position ih =>
      have indexOk : parentIndexOk byteOffset position := by
        unfold parentIndexOk
        have exact : (byteOffset : Int).bmod (2 ^ 32) = byteOffset := by
          rw [Int.bmod_def]
          omega
        rw [exact]
        omega
      unfold clearParent
      rw [if_pos indexOk]
      rcases Nat.eq_or_lt_of_le (Nat.le_of_lt_succ above) with same | after
      · subst same
        rw [head, isTail_ofPtr, if_neg Bool.false_ne_true]
      · rw [shape.tail_type head inside after (by omega), isTail_tailOf, if_pos rfl]
        exact ih after (by omega)

/-- The container with the pointer over the given byte cleared, if there is one. -/
def ClearedAt (estate : Elements) (byteOffset : Nat) (result : Elements) : Prop :=
  estate.PlainAt byteOffset ∧ result = estate ∨
    ∃ h ptr, h ≤ byteOffset ∧ byteOffset < h + 8 ∧ h < estate.size ∧
      estate.type h = ofPtr ptr ∧ result = estate.clearTail h

theorem ClearedAt.shape {estate result : Elements} {byteOffset : Nat}
    (shape : estate.WellFormed) (clear : ClearedAt estate byteOffset result) :
    result.WellFormed := by
  rcases clear with ⟨_plain, rfl⟩ | ⟨h, ptr, _le, _lt, inside, head, rfl⟩
  · exact shape
  · exact shape.clearTail inside head

theorem ClearedAt.size_eq {estate result : Elements} {byteOffset : Nat}
    (clear : ClearedAt estate byteOffset result) : result.size = estate.size := by
  rcases clear with ⟨_plain, rfl⟩ | ⟨h, ptr, _le, _lt, _inside, _head, rfl⟩
  · rfl
  · exact clearTail_size estate h

theorem ClearedAt.plain_range {estate result : Elements} {byteOffset bytes : Nat}
    (shape : estate.WellFormed) (clear : ClearedAt estate byteOffset result)
    (noInner : estate.NoInnerHead byteOffset bytes) (room : byteOffset + bytes ≤ estate.size)
    {i : Nat} (below : i < bytes) : result.PlainAt (byteOffset + i) := by
  rcases clear with ⟨plain, rfl⟩ | ⟨h, ptr, le, lt, inside, head, rfl⟩
  · rcases shape.plain_or_covered (i := byteOffset + i) (by omega) with found | covered
    · exact found
    · obtain ⟨h, ptr, le, lt, inside, head⟩ := covered
      exfalso
      by_cases early : h ≤ byteOffset
      · exact shape.not_plain inside head ⟨early, by omega⟩ plain
      · have notPtr := noInner (h - byteOffset) (by omega) (by omega)
        rw [show byteOffset + (h - byteOffset) = h by omega, head, isPtr_ofPtr] at notPtr
        cases notPtr
  · unfold PlainAt
    rw [shape.clearTail_eq inside head, type_modify]
    by_cases inPtr : h ≤ byteOffset + i ∧ byteOffset + i < h + 8
    · rw [if_pos inPtr]
      exact ⟨isPtr_cleared ptr, isTail_cleared ptr⟩
    · rw [if_neg inPtr]
      rcases shape.plain_or_covered (i := byteOffset + i) (by omega) with found | covered
      · exact found
      · obtain ⟨other, otherPtr, otherLe, otherLt, otherInside, otherHead⟩ := covered
        exfalso
        by_cases early : other ≤ byteOffset
        · have same := shape.head_unique (k := byteOffset) inside otherInside head otherHead
            ⟨le, lt⟩ ⟨early, by omega⟩
          omega
        · have notPtr := noInner (other - byteOffset) (by omega) (by omega)
          rw [show byteOffset + (other - byteOffset) = other by omega, otherHead,
            isPtr_ofPtr] at notPtr
          cases notPtr

/-- Without a pointer head inside the range, marking clears the one pointer that
may reach into it and weakens the plain bytes. -/
theorem WellFormed.markUnknown_eq {estate : Elements} (shape : estate.WellFormed)
    {byteOffset bytes : Nat} (positive : 0 < bytes)
    (room : byteOffset + bytes ≤ estate.size) (small : byteOffset < 2 ^ 31)
    (noInner : estate.NoInnerHead byteOffset bytes) :
    ∃ result, ClearedAt estate byteOffset result ∧
      estate.markUnknown byteOffset bytes =
        .ok (result.modify byteOffset bytes weakenElement) := by
  have whole (result : Elements) (clear : ClearedAt estate byteOffset result) (i : Nat)
      (below : i < bytes) : result.PlainAt (byteOffset + i) :=
    clear.plain_range shape noInner room below
  rcases shape.plain_or_covered (i := byteOffset) (by omega) with plain | covered
  · have clear : ClearedAt estate byteOffset estate := Or.inl ⟨plain, rfl⟩
    refine ⟨estate, clear, ?_⟩
    exact markUnknownLoop_plain byteOffset bytes 0 estate (by
      intro j below
      rw [Nat.zero_add]
      exact whole estate clear j below)
  · obtain ⟨h, ptr, le, lt, inside, head⟩ := covered
    have clear : ClearedAt estate byteOffset (estate.clearTail h) :=
      Or.inr ⟨h, ptr, le, lt, inside, head, rfl⟩
    refine ⟨estate.clearTail h, clear, ?_⟩
    have first : markUnknownAt estate byteOffset 0 = .ok (estate.clearTail h) := by
      unfold markUnknownAt
      rw [Nat.add_zero]
      rcases Nat.eq_or_lt_of_le le with same | after
      · subst same
        rw [head]
        cases ptr <;> rfl
      · have tailAt := shape.tail_type head inside after lt
        have parent := shape.clearParent_eq inside head byteOffset small lt byteOffset after
          (Nat.le_refl _)
        rw [tailAt]
        cases ptr <;> exact parent
    obtain ⟨n, rfl⟩ : ∃ n, bytes = n + 1 := ⟨bytes - 1, by omega⟩
    unfold markUnknown markUnknownLoop
    rw [first]
    change markUnknownLoop byteOffset n (0 + 1) (estate.clearTail h) = _
    rw [markUnknownLoop_plain byteOffset n 1 _ (by
      intro j below
      exact whole _ clear (1 + j) (by omega))]
    unfold modify
    congr 2
    funext k
    by_cases atStart : k = byteOffset
    · subst atStart
      rw [if_neg (by omega), if_pos (by omega)]
      unfold weakenElement
      have typeAt : ((estate.clearTail h).elem k).type = cleared ptr := by
        rw [shape.clearTail_eq inside head, elem_modify, if_pos ⟨le, lt⟩]
      rw [typeAt]
      have fixed : weaken (cleared ptr) = cleared ptr := by cases ptr <;> rfl
      rw [fixed, ← typeAt]
    · by_cases later : byteOffset + 1 ≤ k ∧ k < byteOffset + 1 + n
      · rw [if_pos later, if_pos (by omega)]
        rfl
      · rw [if_neg later, if_neg (by omega)]

/-- What the operations rely on after the target range was marked. -/
structure Marked (estate : Elements) (byteOffset bytes : Nat) (marked : Elements) : Prop where
  size_eq : marked.size = estate.size
  shape : marked.WellFormed
  plain : ∀ i, i < bytes → marked.PlainAt (byteOffset + i)
  kept : ∀ k, (marked.elem k).data = (estate.elem k).data ∧
    (marked.elem k).nr = (estate.elem k).nr
  outside : ∀ k, (k < byteOffset ∨ byteOffset + bytes ≤ k) →
    marked.type k = estate.type k ∨
      ∃ h ptr, h ≤ byteOffset ∧ byteOffset < h + 8 ∧ h ≤ k ∧ k < h + 8 ∧ h < estate.size ∧
        estate.type h = ofPtr ptr ∧ marked.type k = cleared ptr

theorem WellFormed.markUnknown_ok {estate : Elements} (shape : estate.WellFormed)
    {byteOffset bytes : Nat} (positive : 0 < bytes)
    (room : byteOffset + bytes ≤ estate.size) (small : byteOffset < 2 ^ 31)
    (noInner : estate.NoInnerHead byteOffset bytes) :
    ∃ marked, estate.markUnknown byteOffset bytes = .ok marked ∧
      Marked estate byteOffset bytes marked := by
  obtain ⟨result, clear, returned⟩ := shape.markUnknown_eq positive room small noInner
  have resultShape := clear.shape shape
  have plainResult (i : Nat) (below : i < bytes) : result.PlainAt (byteOffset + i) :=
    clear.plain_range shape noInner room below
  refine ⟨_, returned, ?_⟩
  refine
    { size_eq := clear.size_eq
      shape := ?_
      plain := ?_
      kept := ?_
      outside := ?_ }
  · constructor
    · intro i ptr inside head
      rw [type_modify] at head
      split at head
      · rename_i within
        have found := plainResult (i - byteOffset) (by omega)
        rw [show byteOffset + (i - byteOffset) = i by omega] at found
        exact absurd head (ofPtr_ne_of_isPtr_eq_false (weaken_plain found).1 ptr)
      · obtain ⟨fits, tails⟩ := resultShape.head i ptr inside head
        refine ⟨fits, ?_⟩
        intro j after before
        rw [type_modify, if_neg]
        · exact tails j after before
        · intro within
          have found := plainResult (i + j - byteOffset) (by omega)
          rw [show byteOffset + (i + j - byteOffset) = i + j by omega] at found
          exact resultShape.not_plain inside head (by omega) found
    · intro i inside tail
      rw [type_modify] at tail
      split at tail
      · rename_i within
        have found := plainResult (i - byteOffset) (by omega)
        rw [show byteOffset + (i - byteOffset) = i by omega] at found
        have noTail := (weaken_plain found).2
        change (weaken (result.type i)).isTail = true at tail
        rw [noTail] at tail
        cases tail
      · obtain ⟨h, ptr, before, within, head⟩ := resultShape.tail i inside tail
        refine ⟨h, ptr, before, within, ?_⟩
        rw [type_modify, if_neg]
        · exact head
        · intro inRange
          have found := plainResult (h - byteOffset) (by omega)
          rw [show byteOffset + (h - byteOffset) = h by omega] at found
          exact resultShape.not_plain (Nat.lt_trans before inside) head (by omega) found
  · intro i below
    unfold PlainAt
    rw [type_modify, if_pos (by omega)]
    exact weaken_plain (plainResult i below)
  · intro k
    have same : (result.elem k).data = (estate.elem k).data ∧
        (result.elem k).nr = (estate.elem k).nr := by
      rcases clear with ⟨_plain, rfl⟩ | ⟨h, ptr, _le, _lt, inside, head, rfl⟩
      · exact ⟨rfl, rfl⟩
      · rw [shape.clearTail_eq inside head, elem_modify]
        split <;> exact ⟨rfl, rfl⟩
    rw [elem_modify]
    split <;> exact same
  · intro k beyond
    rw [type_modify, if_neg (by omega)]
    rcases clear with ⟨_plain, rfl⟩ | ⟨h, ptr, le, lt, inside, head, rfl⟩
    · exact Or.inl rfl
    · rw [shape.clearTail_eq inside head, type_modify]
      by_cases inPtr : h ≤ k ∧ k < h + 8
      · rw [if_pos inPtr]
        exact Or.inr ⟨h, ptr, le, lt, inPtr.1, inPtr.2, inside, head, rfl⟩
      · rw [if_neg inPtr]
        exact Or.inl rfl

end Elements

end Drob
