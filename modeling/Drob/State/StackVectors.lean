import Drob.State.Rank

/-!
The tracked stack as the source stores it: two vectors that grow at both ends, and the
position of the base in them. Growing refines growing of the abstract stack, so that no
byte that was tracked is lost.
-/

namespace Drob

structure ElementMetadata where
  type : DynamicValueType
  nr : BitVec 8
  deriving DecidableEq

def ElementMetadata.initial : ElementMetadata :=
  { type := .dead, nr := 0 }

structure StackVectors where
  data : List (BitVec 8)
  metadata : List ElementMetadata
  base : Int
  dead : Bool
  deriving DecidableEq

/-- `std::vector::resize` -/
def resize {α : Type} (items : List α) (size : Nat) (value : α) : List α :=
  items.take size ++ List.replicate (size - items.length) value

/-- `std::copy` of all items to a position of a vector. -/
def copyTo {α : Type} (items target : List α) (position : Nat) : List α :=
  target.take position ++ items ++ target.drop (position + items.length)

namespace StackVectors

def initial : StackVectors :=
  { data := [], metadata := [], base := 0, dead := false }

def newStackSize (stack : StackVectors) : Int :=
  stack.base

def oldStackSize (stack : StackVectors) : Int :=
  stack.data.length - stack.newStackSize

/-- The index of a stack byte, as an `unsigned int`. -/
def getStackIdx (stack : StackVectors) (baseOffset : Int) : Nat :=
  ((stack.base + baseOffset) % 2 ^ 32).toNat

def growOld (stack : StackVectors) (neededOldStackSize : Int) : StackVectors :=
  if neededOldStackSize > stack.oldStackSize then
    let vectorSize := (stack.newStackSize + neededOldStackSize).toNat
    { stack with
      data := resize stack.data vectorSize 0
      metadata := resize stack.metadata vectorSize .initial }
  else stack

/-- Grow the new part: both vectors are copied behind the new bytes. -/
def growNew (stack : StackVectors) (neededNewStackSize : Int) : StackVectors :=
  if neededNewStackSize > stack.newStackSize then
    let diff := (neededNewStackSize - stack.newStackSize).toNat
    let newStackData := resize [] (stack.data.length + diff) 0
    let newStackMetadata := resize [] (stack.data.length + diff) .initial
    { stack with
      base := stack.base + diff
      data := copyTo stack.data newStackData diff
      metadata := copyTo stack.metadata newStackMetadata diff }
  else stack

def grow (stack : StackVectors) (baseOffset : Int) (size : Nat) : StackVectors :=
  if stack.dead then stack
  else (stack.growOld (baseOffset + size)).growNew (-baseOffset)

/-- The four calls in `merge`. -/
def alignStacks (lhs rhs : StackVectors) : StackVectors × StackVectors :=
  let oldStackSize := max lhs.oldStackSize rhs.oldStackSize
  let newStackSize := max lhs.newStackSize rhs.newStackSize
  ((lhs.grow oldStackSize 0).grow (-newStackSize) 0,
    (rhs.grow oldStackSize 0).grow (-newStackSize) 0)

structure Sized (stack : StackVectors) : Prop where
  length_eq : stack.metadata.length = stack.data.length
  base_nonneg : 0 ≤ stack.base
  base_le : stack.base ≤ stack.data.length

/-- Some calls of `grow`. -/
def grows (stack : StackVectors) (calls : List (Int × Nat)) : StackVectors :=
  calls.foldl (fun stack call => stack.grow call.1 call.2) stack

def Tracks (stack : StackVectors) (offset : Int) : Prop :=
  0 ≤ stack.base + offset ∧ stack.base + offset < stack.data.length

def getElement (stack : StackVectors) (i : Nat) : BitVec 8 × ElementMetadata :=
  (stack.data.getD i 0, stack.metadata.getD i .initial)

def byteAt (stack : StackVectors) (offset : Int) : BitVec 8 × ElementMetadata :=
  stack.getElement (stack.base + offset).toNat

/-- The byte at an offset that `getStackIdx` finds. -/
def byteFound (stack : StackVectors) (offset : Int) : BitVec 8 × ElementMetadata :=
  stack.getElement (stack.getStackIdx offset)

/-- `later` has the bytes of `stack` at their offsets, and what it has more is dead. -/
structure Keeps (stack later : StackVectors) : Prop where
  tracks : ∀ offset, stack.Tracks offset → later.Tracks offset
  same : ∀ offset, stack.Tracks offset → later.byteAt offset = stack.byteAt offset
  new : ∀ offset, later.Tracks offset → ¬ stack.Tracks offset →
    (later.byteAt offset).2.type = .dead

/-! ### Vectors -/

section Vectors

variable {α : Type} (items : List α) (value : α)

theorem length_resize {size : Nat} (larger : items.length ≤ size) :
    (resize items size value).length = size := by
  unfold resize
  rw [List.length_append, List.length_take, List.length_replicate]
  omega

theorem getD_resize {size : Nat} (larger : items.length ≤ size) (i : Nat) :
    (resize items size value).getD i value = items.getD i value := by
  unfold resize
  rw [List.take_of_length_le larger, List.getD_eq_getElem?_getD, List.getD_eq_getElem?_getD]
  by_cases inside : i < items.length
  · rw [List.getElem?_append_left inside]
  · have outside : items.length ≤ i := Nat.le_of_not_lt inside
    rw [List.getElem?_append_right outside, List.getElem?_eq_none outside,
      List.getElem?_replicate]
    split <;> rfl

theorem copyTo_resize (diff : Nat) :
    copyTo items (resize [] (items.length + diff) value) diff =
      List.replicate diff value ++ items := by
  unfold copyTo resize
  rw [List.take_nil, List.nil_append, List.length_nil, Nat.sub_zero, List.take_replicate,
    List.drop_replicate, show min diff (items.length + diff) = diff by omega,
    show items.length + diff - (diff + items.length) = 0 by omega, List.replicate_zero,
    List.append_nil]

theorem getD_front (diff i : Nat) :
    (List.replicate diff value ++ items).getD i value =
      if i < diff then value else items.getD (i - diff) value := by
  rw [List.getD_eq_getElem?_getD]
  by_cases front : i < diff
  · rw [if_pos front, List.getElem?_append_left (by rw [List.length_replicate]; exact front),
      List.getElem?_replicate, if_pos front]
    rfl
  · rw [if_neg front, List.getElem?_append_right (by rw [List.length_replicate]; omega),
      List.length_replicate, ← List.getD_eq_getElem?_getD]

end Vectors

/-! ### Refinement -/

def toStack (stack : StackVectors) : StackState :=
  { elems :=
      { size := stack.data.length
        elem := fun i =>
          { type := (stack.metadata.getD i .initial).type
            nr := (stack.metadata.getD i .initial).nr
            data := stack.data.getD i 0 } }
    base := stack.base
    dead := stack.dead }

theorem Sized.elem_outside {stack : StackVectors} (sized : stack.Sized) {i : Nat}
    (outside : stack.data.length ≤ i) : stack.toStack.elems.elem i = .initial := by
  unfold toStack
  dsimp only
  rw [List.getD_eq_default _ _ outside,
    List.getD_eq_default _ _ (show stack.metadata.length ≤ i by rw [sized.length_eq]; exact outside)]
  rfl

theorem Sized.growOld {stack : StackVectors} (sized : stack.Sized) (needed : Int) :
    (stack.growOld needed).Sized ∧
      (stack.growOld needed).toStack = stack.toStack.growOld needed := by
  unfold StackVectors.growOld StackState.growOld
  by_cases grows : needed > stack.oldStackSize
  · have nonneg := sized.base_nonneg
    have larger : stack.data.length ≤ (stack.newStackSize + needed).toNat := by
      unfold oldStackSize newStackSize at *
      omega
    have largerMeta : stack.metadata.length ≤ (stack.newStackSize + needed).toNat := by
      rw [sized.length_eq]
      exact larger
    rw [if_pos grows, if_pos (show stack.toStack.oldStackSize < needed from grows)]
    refine ⟨⟨?_, nonneg, ?_⟩, ?_⟩
    · dsimp only
      rw [length_resize _ _ largerMeta, length_resize _ _ larger]
    · dsimp only
      rw [length_resize _ _ larger]
      have inside := sized.base_le
      unfold newStackSize at *
      omega
    · unfold toStack
      dsimp only
      congr 1
      rw [length_resize _ _ larger]
      congr 1
      funext i
      rw [getD_resize _ _ larger, getD_resize _ _ largerMeta]
      split
      · rfl
      · rename_i outside
        exact sized.elem_outside (Nat.le_of_not_lt outside)
  · rw [if_neg grows, if_neg (show ¬ stack.toStack.oldStackSize < needed from grows)]
    exact ⟨sized, rfl⟩

theorem Sized.growNew {stack : StackVectors} (sized : stack.Sized) (needed : Int) :
    (stack.growNew needed).Sized ∧
      (stack.growNew needed).toStack = stack.toStack.growNew needed := by
  unfold StackVectors.growNew StackState.growNew
  by_cases grows : needed > stack.newStackSize
  · rw [if_pos grows, if_pos (show stack.toStack.newStackSize < needed from grows)]
    have nonneg := sized.base_nonneg
    have inside := sized.base_le
    have same : stack.toStack.newStackSize = stack.newStackSize := rfl
    dsimp only
    rw [same, copyTo_resize, ← sized.length_eq, copyTo_resize]
    generalize (needed - stack.newStackSize).toNat = diff
    refine ⟨⟨?_, ?_, ?_⟩, ?_⟩
    · dsimp only
      rw [List.length_append, List.length_append, List.length_replicate, List.length_replicate,
        sized.length_eq]
    · dsimp only
      omega
    · dsimp only
      rw [List.length_append, List.length_replicate]
      omega
    · unfold toStack
      dsimp only
      congr 1
      rw [List.length_append, List.length_replicate, Nat.add_comm diff]
      congr 1
      funext i
      rw [getD_front, getD_front]
      split <;> rfl
  · rw [if_neg grows, if_neg (show ¬ stack.toStack.newStackSize < needed from grows)]
    exact ⟨sized, rfl⟩

theorem Sized.grow {stack : StackVectors} (sized : stack.Sized) (baseOffset : Int) (size : Nat) :
    (stack.grow baseOffset size).Sized ∧
      (stack.grow baseOffset size).toStack = stack.toStack.grow baseOffset size := by
  unfold StackVectors.grow StackState.grow
  by_cases dead : stack.dead = true
  · rw [if_pos dead, if_pos (show stack.toStack.dead = true from dead)]
    exact ⟨sized, rfl⟩
  · rw [if_neg dead, if_neg (show ¬ stack.toStack.dead = true from dead)]
    obtain ⟨sizedOld, oldEq⟩ := sized.growOld (baseOffset + size)
    obtain ⟨sizedNew, newEq⟩ := sizedOld.growNew (-baseOffset)
    refine ⟨sizedNew, ?_⟩
    rw [newEq, oldEq]

theorem Sized.grows {stack : StackVectors} (sized : stack.Sized) (calls : List (Int × Nat)) :
    (stack.grows calls).Sized ∧
      (stack.grows calls).toStack =
        calls.foldl (fun stack call => stack.grow call.1 call.2) stack.toStack := by
  induction calls generalizing stack with
  | nil => exact ⟨sized, rfl⟩
  | cons call rest ih =>
      obtain ⟨sizedFirst, firstEq⟩ := sized.grow call.1 call.2
      obtain ⟨sizedRest, restEq⟩ := ih sizedFirst
      refine ⟨sizedRest, restEq.trans ?_⟩
      rw [firstEq]
      rfl

/-! ### Nothing is lost -/

theorem elemAt_of_tracks {stack : StackVectors} {offset : Int} (tracked : stack.Tracks offset) :
    stack.toStack.elemAt offset =
      { type := (stack.byteAt offset).2.type
        nr := (stack.byteAt offset).2.nr
        data := (stack.byteAt offset).1 } :=
  if_pos tracked

theorem elemAt_foldl (calls : List (Int × Nat)) (stack : StackState) (offset : Int) :
    (calls.foldl (fun stack call => stack.grow call.1 call.2) stack).elemAt offset =
      stack.elemAt offset := by
  induction calls generalizing stack with
  | nil => rfl
  | cons call rest ih => exact (ih _).trans (StackState.elemAt_grow stack call.1 call.2 offset)

theorem dead_grow (stack : StackVectors) (baseOffset : Int) (size : Nat) :
    (stack.grow baseOffset size).dead = stack.dead := by
  unfold grow growOld growNew
  split
  · rfl
  · split <;> split <;> rfl

section Live

variable {stack : StackVectors} (sized : stack.Sized) (live : stack.dead = false)
include sized live

theorem Sized.base_grow (baseOffset : Int) (size : Nat) :
    (stack.grow baseOffset size).base = max stack.base (-baseOffset) := by
  have grown := congrArg StackState.base (sized.grow baseOffset size).2
  exact grown.trans (StackState.base_grow (show stack.toStack.dead = false from live) baseOffset size)

theorem Sized.oldStackSize_grow (baseOffset : Int) (size : Nat) :
    (stack.grow baseOffset size).oldStackSize = max stack.oldStackSize (baseOffset + size) := by
  have grown := congrArg StackState.oldStackSize (sized.grow baseOffset size).2
  exact grown.trans
    (StackState.oldStackSize_grow (show stack.toStack.dead = false from live) baseOffset size)

theorem Sized.grows_room (calls : List (Int × Nat)) :
    stack.base ≤ (stack.grows calls).base ∧
      stack.oldStackSize ≤ (stack.grows calls).oldStackSize ∧
        (stack.grows calls).dead = false ∧
          ∀ call ∈ calls, -call.1 ≤ (stack.grows calls).base ∧
            call.1 + call.2 ≤ (stack.grows calls).oldStackSize := by
  induction calls generalizing stack with
  | nil => exact ⟨le_rfl, le_rfl, live, fun call member => by cases member⟩
  | cons first rest ih =>
      have base := sized.base_grow live first.1 first.2
      have old := sized.oldStackSize_grow live first.1 first.2
      obtain ⟨baseLater, oldLater, liveLater, others⟩ :=
        ih (sized.grow first.1 first.2).1 ((stack.dead_grow first.1 first.2).trans live)
      change stack.base ≤ ((stack.grow first.1 first.2).grows rest).base ∧
        stack.oldStackSize ≤ ((stack.grow first.1 first.2).grows rest).oldStackSize ∧
          ((stack.grow first.1 first.2).grows rest).dead = false ∧ _
      refine ⟨by omega, by omega, liveLater, ?_⟩
      intro call member
      change -call.1 ≤ ((stack.grow first.1 first.2).grows rest).base ∧
        call.1 + call.2 ≤ ((stack.grow first.1 first.2).grows rest).oldStackSize
      rcases List.mem_cons.mp member with rfl | inRest
      · exact ⟨by omega, by omega⟩
      · exact others call inRest

theorem Sized.base_alignStacks {other : StackVectors} (otherSized : other.Sized)
    (otherLive : other.dead = false) :
    (stack.alignStacks other).1.base = (stack.alignStacks other).2.base ∧
      (stack.alignStacks other).1.data.length = (stack.alignStacks other).2.data.length := by
  let old := max stack.oldStackSize other.oldStackSize
  let new := max stack.newStackSize other.newStackSize
  have aligned {part : StackVectors} (partSized : part.Sized) (partLive : part.dead = false)
      (oldLe : part.oldStackSize ≤ old) (newLe : part.base ≤ new) :
      ((part.grow old 0).grow (-new) 0).base = new ∧
        ((part.grow old 0).grow (-new) 0).oldStackSize = old := by
    have nonneg := partSized.base_nonneg
    have inside := partSized.base_le
    have firstSized := (partSized.grow old 0).1
    have firstLive := (part.dead_grow old 0).trans partLive
    rw [firstSized.base_grow firstLive, firstSized.oldStackSize_grow firstLive,
      partSized.base_grow partLive, partSized.oldStackSize_grow partLive]
    unfold oldStackSize newStackSize at *
    omega
  obtain ⟨leftBase, leftOld⟩ := aligned sized live (le_max_left _ _) (le_max_left _ _)
  obtain ⟨rightBase, rightOld⟩ :=
    aligned otherSized otherLive (le_max_right _ _) (le_max_right _ _)
  refine ⟨leftBase.trans rightBase.symm, ?_⟩
  change ((stack.grow old 0).grow (-new) 0).data.length =
    ((other.grow old 0).grow (-new) 0).data.length
  unfold oldStackSize newStackSize at leftOld rightOld
  omega

theorem Sized.keeps_grows (calls : List (Int × Nat)) : stack.Keeps (stack.grows calls) := by
  have grownEq := (sized.grows calls).2
  obtain ⟨baseLater, oldLater, _, _⟩ := sized.grows_room live calls
  have sameElem (offset : Int) :
      (stack.grows calls).toStack.elemAt offset = stack.toStack.elemAt offset := by
    rw [grownEq, elemAt_foldl]
  have tracks (offset : Int) (tracked : stack.Tracks offset) :
      (stack.grows calls).Tracks offset := by
    obtain ⟨above, below⟩ := tracked
    unfold oldStackSize newStackSize at oldLater
    exact ⟨by omega, by omega⟩
  refine ⟨tracks, ?_, ?_⟩
  · intro offset tracked
    have same := sameElem offset
    rw [elemAt_of_tracks tracked, elemAt_of_tracks (tracks offset tracked)] at same
    injection same with typeEq nrEq dataEq
    refine Prod.ext dataEq ?_
    cases later : ((stack.grows calls).byteAt offset).2
    cases before : (stack.byteAt offset).2
    rw [later, before] at typeEq nrEq
    exact congrArg₂ ElementMetadata.mk typeEq nrEq
  · intro offset tracked new
    have same := sameElem offset
    have initial : stack.toStack.elemAt offset = .initial := if_neg new
    rw [elemAt_of_tracks tracked, initial] at same
    exact congrArg Element.type same

omit sized live in
/-- The code finds the bytes below `2^32` where they are. -/
theorem getStackIdx_eq_iff {offset : Int} (tracked : stack.Tracks offset) :
    (stack.getStackIdx offset : Int) = stack.base + offset ↔ stack.base + offset < 2 ^ 32 := by
  obtain ⟨above, _⟩ := tracked
  unfold getStackIdx
  omega

omit sized live in
theorem byteFound_eq {offset : Int} (tracked : stack.Tracks offset)
    (fits : stack.data.length ≤ 2 ^ 32) : stack.byteFound offset = stack.byteAt offset := by
  have found := (getStackIdx_eq_iff tracked).mpr (by have := tracked.2; omega)
  unfold byteFound byteAt
  congr 1
  omega

/-- After any calls of `grow` the vectors belong together, every range that was asked for is
in them, every byte that was tracked is unchanged at its offset and every new one is dead;
`getStackIdx` gives the places of all bytes that an `unsigned int` can count; and the four calls
of `merge` give its two stacks the same base and length. -/
theorem Sized.grows_keeps (calls : List (Int × Nat)) :
    (stack.grows calls).Sized ∧
      (∀ call ∈ calls, ∀ i, i < call.2 → (stack.grows calls).Tracks (call.1 + i)) ∧
      stack.Keeps (stack.grows calls) ∧
      (∀ offset, (stack.grows calls).Tracks offset →
        (((stack.grows calls).getStackIdx offset : Int) = (stack.grows calls).base + offset ↔
          (stack.grows calls).base + offset < 2 ^ 32)) ∧
      ((stack.grows calls).data.length ≤ 2 ^ 32 → ∀ offset, stack.Tracks offset →
        (stack.grows calls).byteFound offset = stack.byteFound offset) ∧
      ∀ other : StackVectors, other.Sized → other.dead = false →
        let oldStackSize := max (stack.grows calls).oldStackSize other.oldStackSize
        let newStackSize := max (stack.grows calls).newStackSize other.newStackSize
        let aligned := (stack.grows calls).alignStacks other
        aligned.1 = (stack.grows calls).grows [(oldStackSize, 0), (-newStackSize, 0)] ∧
          aligned.2 = other.grows [(oldStackSize, 0), (-newStackSize, 0)] ∧
          (stack.grows calls).Keeps aligned.1 ∧ other.Keeps aligned.2 ∧
          aligned.1.base = aligned.2.base ∧
          aligned.1.data.length = aligned.2.data.length := by
  have grownSized := (sized.grows calls).1
  obtain ⟨baseLater, oldLater, grownLive, room⟩ := sized.grows_room live calls
  have keeps := sized.keeps_grows live calls
  refine ⟨grownSized, ?_, keeps, fun offset tracked => getStackIdx_eq_iff tracked, ?_, ?_⟩
  · intro call member i below
    obtain ⟨above, upTo⟩ := room call member
    unfold oldStackSize newStackSize at upTo
    exact ⟨by omega, by omega⟩
  · intro fits offset tracked
    have shorter : stack.data.length ≤ (stack.grows calls).data.length := by
      unfold oldStackSize newStackSize at oldLater
      omega
    rw [byteFound_eq (keeps.tracks offset tracked) fits, byteFound_eq tracked (shorter.trans fits)]
    exact keeps.same offset tracked
  · intro other otherSized otherLive oldStackSize newStackSize aligned
    let calls := [(oldStackSize, 0), (-newStackSize, 0)]
    exact ⟨rfl, rfl, grownSized.keeps_grows grownLive calls, otherSized.keeps_grows otherLive calls,
      grownSized.base_alignStacks grownLive otherSized otherLive⟩

end Live

/-- Growing downwards and upwards from the empty stack. -/
theorem grows_keeps_initial :
    let calls : List (Int × Nat) := [(-16, 8), (4, 8), (-40, 4)]
    (initial.grows calls).Sized ∧ ∀ call ∈ calls, ∀ i, i < call.2 →
      (initial.grows calls).Tracks (call.1 + i) := by
  intro calls
  have sized : initial.Sized := ⟨rfl, le_rfl, le_rfl⟩
  obtain ⟨later, tracks, _⟩ := sized.grows_keeps rfl calls
  exact ⟨later, tracks⟩

end StackVectors

end Drob
