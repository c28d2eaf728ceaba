import Drob.State.Answers

/-!
What a merge knows of a byte: an immediate or a pointer only where both sides have the
same one. So a merged container describes what either side describes.
-/

namespace Drob

namespace Elements

open DynamicValueType

/-- The type that merging gives a byte at which the sides do not share a pointer. -/
def joinType (left right : Element) : DynamicValueType :=
  if left.type = right.type then
    if left.type = .immediate ∧ left.data ≠ right.data then .unknown else left.type
  else if left.type = .dead ∧ right.type = .unknown ∨
      left.type = .unknown ∧ right.type = .dead then .dead
  else if left.type.isStackDerived || right.type.isStackDerived then .tainted
  else .unknown

/-- A byte of known content, not derived from the stack pointer, that the right side
has dead. -/
def LosesDead (lhs rhs : Elements) (k : Nat) : Prop :=
  rhs.type k = .dead ∧ lhs.type k ≠ .dead ∧ lhs.type k ≠ .unknown ∧
    (lhs.type k).isStackDerived = false

theorem joinType_imm {left right : Element} (imm : joinType left right = .immediate) :
    left.type = .immediate ∧ right.type = .immediate ∧ left.data = right.data := by
  unfold joinType at imm
  split at imm
  · rename_i same
    split at imm
    · cases imm
    · rename_i data
      refine ⟨imm, same.symm.trans imm, ?_⟩
      by_contra differ
      exact data ⟨imm, differ⟩
  · repeat' split at imm
    all_goals cases imm

theorem joinType_ptr {left right : Element} {ptr : PtrType}
    (head : joinType left right = ofPtr ptr) :
    left.type = ofPtr ptr ∧ right.type = ofPtr ptr := by
  unfold joinType at head
  split at head
  · rename_i same
    split at head
    · cases ptr <;> cases head
    · exact ⟨head, same.symm.trans head⟩
  · repeat' split at head
    all_goals cases ptr <;> cases head

theorem joinType_again {left right : Element}
    (keeps : right.type = .dead → left.type = .dead ∨ left.type = .unknown ∨
      left.type.isStackDerived = true) :
    joinType { left with type := joinType left right } right = joinType left right := by
  obtain ⟨leftType, leftNr, leftData⟩ := left
  obtain ⟨rightType, rightNr, rightData⟩ := right
  unfold joinType
  dsimp only at keeps ⊢
  by_cases same : leftType = rightType
  · subst same
    by_cases data : leftType = .immediate ∧ leftData ≠ rightData
    · obtain ⟨rfl, differ⟩ := data
      simp [differ, DynamicValueType.isStackDerived]
    · simp [data]
  · cases leftType with
    | _ => cases rightType <;> simp_all [DynamicValueType.isStackDerived]

theorem joinType_same {left right : Element}
    (same : ¬ (joinType left right ≠ left.type ∧ joinType left right ≠ .dead)) :
    joinType left right = left.type ∨ left.type = .unknown ∧ joinType left right = .dead := by
  by_cases kept : joinType left right = left.type
  · exact Or.inl kept
  · have dead : joinType left right = .dead := by
      by_contra other
      exact same ⟨kept, other⟩
    refine Or.inr ⟨?_, dead⟩
    have found := dead
    unfold joinType at found
    split at found
    · rename_i equal
      split at found
      · cases found
      · exact absurd (dead.trans found.symm) kept
    · split at found
      · rename_i known
        rcases known with ⟨first, _⟩ | ⟨unknown, _⟩
        · exact absurd (dead.trans first.symm) kept
        · exact unknown
      · split at found <;> cases found

theorem setType_same {estate : Elements} {i : Nat} {type : DynamicValueType}
    (same : estate.type i = type) : estate.setType i type = estate := by
  cases estate
  unfold setType modify
  congr 1
  funext k
  split
  · rename_i here
    have atByte : k = i := by omega
    subst atByte
    rw [← same]
    rfl
  · rfl

theorem mergeStep_plain {lhs rhs : Elements} {i : Nat}
    (notShared : ∀ ptr, ¬ SharedHead lhs rhs i ptr) :
    mergeStep lhs rhs i =
      (lhs.setType i (joinType (lhs.elem i) (rhs.elem i)),
        decide (joinType (lhs.elem i) (rhs.elem i) ≠ lhs.type i ∧
          joinType (lhs.elem i) (rhs.elem i) ≠ .dead), 0) := by
  have unchanged (type : DynamicValueType) (same : lhs.type i = type) :
      lhs.setType i type = lhs := setType_same same
  have notPtr (same : lhs.type i = rhs.type i) : (lhs.type i).isPtr = false := by
    by_contra isPtr
    rw [Bool.not_eq_false] at isPtr
    obtain ⟨ptr, head⟩ := (DynamicValueType.isPtr_iff _).mp isPtr
    exact notShared ptr ⟨head, same ▸ head⟩
  unfold Elements.type at notPtr unchanged
  unfold mergeStep joinType Elements.type
  dsimp only
  by_cases same : (lhs.elem i).type = (rhs.elem i).type
  · simp only [if_pos same, notPtr same, Bool.false_eq_true, if_false]
    by_cases imm : (lhs.elem i).type = .immediate
    · by_cases data : (lhs.elem i).data = (rhs.elem i).data
      · simp [imm, data, unchanged _ imm]
      · simp [imm, data]
    · simp [imm, unchanged _ rfl]
  · simp only [if_neg same]
    split
    · rename_i known
      simp
    · split
      · split
        · rename_i other
          simp [Ne.symm other]
        · rename_i tainted
          simp [unchanged _ (not_not.mp tainted), not_not.mp tainted]
      · split
        · rename_i other
          simp [Ne.symm other]
        · rename_i unknown
          simp [unchanged _ (not_not.mp unknown), not_not.mp unknown]

theorem mergeStep_shared {lhs rhs : Elements} {i : Nat} {ptr : PtrType}
    (left : lhs.type i = ofPtr ptr) (right : rhs.type i = ofPtr ptr) :
    mergeStep lhs rhs i =
      if (lhs.elem i).nr ≠ (rhs.elem i).nr ∨ lhs.readData 64 i 8 ≠ rhs.readData 64 i 8 then
        (lhs.clearTail i, true, 7)
      else (lhs, false, 7) := by
  unfold mergeStep
  change (if lhs.type i = rhs.type i then if (lhs.type i).isPtr = true then _ else _ else _) = _
  rw [if_pos (left.trans right.symm), left, if_pos (isPtr_ofPtr ptr)]

/-! ### The merge loop -/

inductive JoinedAt (lhs rhs merged : Elements) (k : Nat) : Prop
  | shared (ptr : PtrType) : SharedHead lhs rhs k ptr → merged.type k = ofPtr ptr →
      (lhs.elem k).nr = (rhs.elem k).nr → lhs.readData 64 k 8 = rhs.readData 64 k 8 →
      JoinedAt lhs rhs merged k
  | plain : (∀ ptr, ¬ SharedHead lhs rhs k ptr) →
      merged.type k = joinType (lhs.elem k) (rhs.elem k) → JoinedAt lhs rhs merged k
  | cleared (ptr : PtrType) : merged.type k = cleared ptr →
      rhs.type k = ofPtr ptr ∨ rhs.type k = tailOf ptr → JoinedAt lhs rhs merged k

/-- What holds of the left container once its first `done` bytes are merged. -/
structure Joining (lhs rhs : Elements) (done : Nat) (merged : Elements) (diff : Bool) : Prop where
  kept : ∀ k, (merged.elem k).data = (lhs.elem k).data ∧ (merged.elem k).nr = (lhs.elem k).nr
  joined : ∀ k, k < done → k < lhs.size → JoinedAt lhs rhs merged k
  same : diff = false → ∀ k, k < done → k < lhs.size →
    merged.type k = lhs.type k ∨ lhs.type k = .unknown ∧ merged.type k = .dead

theorem Joining.start (lhs rhs : Elements) : Joining lhs rhs 0 lhs false where
  kept := fun _ => ⟨rfl, rfl⟩
  joined := fun k below => absurd below (Nat.not_lt_zero k)
  same := fun _ k below => absurd below (Nat.not_lt_zero k)

theorem JoinedAt.congr {lhs rhs merged next : Elements} {k : Nat}
    (joined : JoinedAt lhs rhs merged k) (same : next.type k = merged.type k) :
    JoinedAt lhs rhs next k := by
  cases joined with
  | shared ptr shared head nr data => exact .shared ptr shared (same.trans head) nr data
  | plain notShared type => exact .plain notShared (same.trans type)
  | cleared ptr wiped right => exact .cleared ptr (same.trans wiped) right

theorem Joining.step {lhs rhs merged : Elements} {i : Nat} {diff : Bool}
    (joining : Joining lhs rhs i merged diff) (merging : Merging lhs rhs i merged)
    (left : lhs.WellFormed) (right : rhs.WellFormed) (sizes : lhs.size = rhs.size)
    (inside : i < lhs.size) :
    Joining lhs rhs (i + 1 + (mergeStep merged rhs i).2.2) (mergeStep merged rhs i).1
      (diff || (mergeStep merged rhs i).2.1) := by
  have elemAt (k : Nat) (later : i ≤ k) : merged.elem k = lhs.elem k := merging.untouched k later
  have typeAt (k : Nat) (later : i ≤ k) : merged.type k = lhs.type k := merging.type_at later
  by_cases shared : ∃ ptr, SharedHead lhs rhs i ptr
  · obtain ⟨ptr, leftHead, rightHead⟩ := shared
    obtain ⟨leftRoom, leftTails⟩ := left.head i ptr inside leftHead
    obtain ⟨rightRoom, rightTails⟩ := right.head i ptr (by omega) rightHead
    have mergedHead : merged.type i = ofPtr ptr := (typeAt i (Nat.le_refl i)).trans leftHead
    have wiped := clearTail_complete merged mergedHead (by rw [merging.size_eq]; exact leftRoom)
      (by
        intro j positive below
        rw [typeAt _ (by omega)]
        exact leftTails j positive below)
      (by
        intro more
        rw [typeAt _ (by omega)]
        exact left.no_tail_after inside leftHead (by rw [← merging.size_eq]; exact more))
    have dataAt : merged.readData 64 i 8 = lhs.readData 64 i 8 := by
      apply LittleEndian.ofBytes_congr
      intro j below
      rw [elemAt _ (by omega)]
    have tailKept (k : Nat) (after : i < k) (below : k < i + 8) : lhs.type k = tailOf ptr ∧
        rhs.type k = tailOf ptr := by
      have leftTail := leftTails (k - i) (by omega) (by omega)
      have rightTail := rightTails (k - i) (by omega) (by omega)
      rw [show i + (k - i) = k by omega] at leftTail rightTail
      exact ⟨leftTail, rightTail⟩
    rw [mergeStep_shared mergedHead rightHead, elemAt i (Nat.le_refl i), dataAt]
    by_cases differ : (lhs.elem i).nr ≠ (rhs.elem i).nr ∨
        lhs.readData 64 i 8 ≠ rhs.readData 64 i 8
    · rw [if_pos differ, wiped]
      change Joining lhs rhs (i + 1 + 7) _ (diff || true)
      refine ⟨?_, ?_, fun impossible => by simp at impossible⟩
      · intro k
        rw [elem_modify]
        split <;> exact joining.kept k
      · intro k below kInside
        by_cases before : k < i
        · apply (joining.joined k before kInside).congr
          rw [type_modify, if_neg (by omega)]
        · refine .cleared ptr ?_ ?_
          · rw [type_modify, if_pos (by omega)]
          · rcases Nat.eq_or_lt_of_le (Nat.le_of_not_lt before) with atHead | after
            · exact Or.inl (atHead ▸ rightHead)
            · exact Or.inr (tailKept k after (by omega)).2
    · rw [if_neg differ]
      change Joining lhs rhs (i + 1 + 7) merged (diff || false)
      rw [Bool.or_false]
      rw [not_or, not_not, not_not] at differ
      refine ⟨joining.kept, ?_, ?_⟩
      · intro k below kInside
        by_cases before : k < i
        · exact joining.joined k before kInside
        · rcases Nat.eq_or_lt_of_le (Nat.le_of_not_lt before) with atHead | after
          · subst atHead
            exact .shared ptr ⟨leftHead, rightHead⟩ mergedHead differ.1 differ.2
          · obtain ⟨leftTail, rightTail⟩ := tailKept k after (by omega)
            refine .plain ?_ ?_
            · intro other shared
              have head := leftTail.symm.trans shared.1
              exact absurd (congrArg DynamicValueType.isPtr head) (by simp)
            · rw [typeAt k (by omega)]
              unfold joinType
              change _ = if lhs.type k = rhs.type k then
                if lhs.type k = .immediate ∧ _ then _ else lhs.type k else _
              rw [if_pos (leftTail.trans rightTail.symm)]
              refine (if_neg ?_).symm
              rintro ⟨imm, _⟩
              rw [leftTail] at imm
              cases ptr <;> cases imm
      · intro same k below kInside
        by_cases before : k < i
        · exact joining.same same k before kInside
        · exact Or.inl (typeAt k (by omega))
  · have notShared : ∀ ptr, ¬ SharedHead merged rhs i ptr := by
      rintro ptr ⟨head, rightHead⟩
      exact shared ⟨ptr, (typeAt i (Nat.le_refl i)).symm.trans head, rightHead⟩
    rw [mergeStep_plain notShared, elemAt i (Nat.le_refl i), typeAt i (Nat.le_refl i)]
    refine ⟨?_, ?_, ?_⟩
    · intro k
      rw [elem_setType]
      split <;> exact joining.kept k
    · intro k below kInside
      rcases Nat.eq_or_lt_of_le (Nat.le_of_lt_succ below) with atByte | before
      · subst atByte
        refine .plain (fun ptr head => shared ⟨ptr, head⟩) ?_
        rw [type_setType, if_pos rfl]
      · apply (joining.joined k before kInside).congr
        rw [type_setType, if_neg (by omega)]
    · intro same k below kInside
      obtain ⟨noDiff, byte⟩ := Bool.or_eq_false_iff.mp same
      rcases Nat.eq_or_lt_of_le (Nat.le_of_lt_succ below) with atByte | before
      · subst atByte
        rw [type_setType, if_pos rfl]
        exact joinType_same (of_decide_eq_false byte)
      · rw [type_setType, if_neg (by omega)]
        exact joining.same noDiff k before kInside

theorem mergeLoop_joining {lhs rhs : Elements} (left : lhs.WellFormed) (right : rhs.WellFormed)
    (sizes : lhs.size = rhs.size) (compatible : MergeCompatible lhs rhs) (n i skip : Nat)
    (merged : Elements) (diff : Bool) (total : i + n = lhs.size)
    (merging : Merging lhs rhs (i + skip) merged) (joining : Joining lhs rhs (i + skip) merged diff) :
    ∃ done, lhs.size ≤ done ∧ Joining lhs rhs done (mergeLoop rhs n i skip merged diff).1
      (mergeLoop rhs n i skip merged diff).2 := by
  induction n generalizing i skip merged diff with
  | zero => exact ⟨i + skip, by omega, joining⟩
  | succ n ih =>
      cases skip with
      | succ skip =>
          have shift : i + 1 + skip = i + (skip + 1) := by omega
          exact ih (i + 1) skip merged diff (by omega) (shift ▸ merging) (shift ▸ joining)
      | zero =>
          have inside : i < lhs.size := by omega
          exact ih (i + 1) _ _ _ (by omega) (merging.step left compatible inside)
            (joining.step merging left right sizes inside)

structure Joined (lhs rhs merged : Elements) (diff : Bool) : Prop where
  size_eq : merged.size = lhs.size
  shape : merged.WellFormed
  kept : ∀ k, (merged.elem k).data = (lhs.elem k).data ∧ (merged.elem k).nr = (lhs.elem k).nr
  joined : ∀ k, k < lhs.size → JoinedAt lhs rhs merged k
  same : diff = false → ∀ k, k < lhs.size →
    merged.type k = lhs.type k ∨ lhs.type k = .unknown ∧ merged.type k = .dead

theorem WellFormed.mergeElements_joined {lhs rhs : Elements} (left : lhs.WellFormed)
    (right : rhs.WellFormed) (sizes : lhs.size = rhs.size)
    (compatible : MergeCompatible lhs rhs) :
    ∃ merged diff, mergeElements lhs rhs = .ok (merged, diff) ∧ Joined lhs rhs merged diff := by
  obtain ⟨merged, diff, returned, sizeEq, shape⟩ := left.mergeElements_ok sizes compatible
  refine ⟨merged, diff, returned, ?_⟩
  obtain ⟨done, finished, joining⟩ := mergeLoop_joining left right sizes compatible lhs.size 0 0 lhs
    false (Nat.zero_add _) (Merging.start lhs rhs) (Joining.start lhs rhs)
  unfold mergeElements at returned
  rw [if_pos sizes] at returned
  injection returned with both
  rw [both] at joining
  exact
    { size_eq := sizeEq
      shape := shape
      kept := joining.kept
      joined := fun k inside => joining.joined k (by omega) inside
      same := fun noDiff k inside => joining.same noDiff k (by omega) inside }

/-! ### What a merged container describes -/

section Joined

variable {lhs rhs merged : Elements} {diff : Bool}

theorem JoinedAt.imm {k : Nat} (joined : JoinedAt lhs rhs merged k)
    (imm : merged.type k = .immediate) :
    lhs.type k = .immediate ∧ rhs.type k = .immediate ∧
      (lhs.elem k).data = (rhs.elem k).data := by
  cases joined with
  | shared ptr _ head =>
      rw [imm] at head
      cases ptr <;> cases head
  | plain _ type => exact joinType_imm (type.symm.trans imm)
  | cleared ptr wiped =>
      rw [imm] at wiped
      cases ptr <;> cases wiped

theorem JoinedAt.head {k : Nat} {ptr : PtrType} (joined : JoinedAt lhs rhs merged k)
    (head : merged.type k = ofPtr ptr) :
    SharedHead lhs rhs k ptr ∧ (lhs.elem k).nr = (rhs.elem k).nr ∧
      lhs.readData 64 k 8 = rhs.readData 64 k 8 := by
  cases joined with
  | shared other shared found nr data =>
      have same : other = ptr := by
        have equal := found.symm.trans head
        cases other <;> cases ptr <;> first | rfl | cases equal
      exact ⟨same ▸ shared, nr, data⟩
  | plain notShared type => exact absurd (joinType_ptr (type.symm.trans head)) (notShared ptr)
  | cleared other wiped =>
      rw [head] at wiped
      exact absurd (congrArg DynamicValueType.isPtr wiped) (by simp)

theorem Joined.readData (joined : Joined lhs rhs merged diff) (k : Nat) :
    merged.readData 64 k 8 = lhs.readData 64 k 8 :=
  LittleEndian.ofBytes_congr (fun j _ => (joined.kept (k + j)).1)

theorem Joined.describes_left (joined : Joined lhs rhs merged diff)
    {base : DynamicValue.PtrBase} {bytes : Nat → BitVec 8} (describes : lhs.Describes base bytes) :
    merged.Describes base bytes := by
  have sizeEq := joined.size_eq
  constructor
  · intro k inside imm
    rw [(joined.kept k).1]
    exact describes.imm k (by omega) ((joined.joined k (by omega)).imm imm).1
  · intro h ptr inside head
    rw [(joined.kept h).2, joined.readData]
    exact describes.ptr h ptr (by omega) ((joined.joined h (by omega)).head head).1.1

theorem Joined.describes_right (joined : Joined lhs rhs merged diff) (sizes : lhs.size = rhs.size)
    {base : DynamicValue.PtrBase} {bytes : Nat → BitVec 8} (describes : rhs.Describes base bytes) :
    merged.Describes base bytes := by
  have sizeEq := joined.size_eq
  constructor
  · intro k inside imm
    obtain ⟨_, right, data⟩ := (joined.joined k (by omega)).imm imm
    rw [(joined.kept k).1, data]
    exact describes.imm k (by omega) right
  · intro h ptr inside head
    obtain ⟨shared, nr, data⟩ := (joined.joined h (by omega)).head head
    rw [(joined.kept h).2, joined.readData, nr, data]
    exact describes.ptr h ptr (by omega) shared.2

theorem Joined.describes_old (joined : Joined lhs rhs merged diff) (noDiff : diff = false)
    {base : DynamicValue.PtrBase} {bytes : Nat → BitVec 8}
    (describes : merged.Describes base bytes) : lhs.Describes base bytes := by
  have sizeEq := joined.size_eq
  have known (k : Nat) (inside : k < lhs.size) (other : lhs.type k ≠ .unknown) :
      merged.type k = lhs.type k := by
    rcases joined.same noDiff k inside with same | ⟨unknown, _⟩
    · exact same
    · exact absurd unknown other
  constructor
  · intro k inside imm
    have same := known k inside (by rw [imm]; exact DynamicValueType.noConfusion)
    rw [← (joined.kept k).1]
    exact describes.imm k (by omega) (same.trans imm)
  · intro h ptr inside head
    have same := known h inside (by rw [head]; cases ptr <;> exact DynamicValueType.noConfusion)
    rw [← (joined.kept h).2, ← joined.readData]
    exact describes.ptr h ptr (by omega) (same.trans head)

/-! ### Merging again -/

theorem mergeLoop_same (n i skip : Nat) (diff : Bool)
    (same : ∀ k, i ≤ k → k < i + n →
      (mergeStep merged rhs k).1 = merged ∧ (mergeStep merged rhs k).2.1 = false) :
    mergeLoop rhs n i skip merged diff = (merged, diff) := by
  induction n generalizing i skip with
  | zero => rfl
  | succ n ih =>
      have later (k : Nat) (after : i + 1 ≤ k) (below : k < i + 1 + n) :=
        same k (by omega) (by omega)
      cases skip with
      | succ skip => exact ih (i + 1) skip later
      | zero =>
          obtain ⟨container, noDiff⟩ := same i (Nat.le_refl i) (by omega)
          unfold mergeLoop
          dsimp only
          rw [container, noDiff, Bool.or_false]
          exact ih (i + 1) _ later

theorem Joined.step_again (joined : Joined lhs rhs merged diff) {k : Nat} (inside : k < lhs.size)
    (keeps : ¬ LosesDead lhs rhs k) :
    (mergeStep merged rhs k).1 = merged ∧ (mergeStep merged rhs k).2.1 = false := by
  have plain (notShared : ∀ ptr, ¬ SharedHead merged rhs k ptr)
      (same : joinType (merged.elem k) (rhs.elem k) = merged.type k) :
      (mergeStep merged rhs k).1 = merged ∧ (mergeStep merged rhs k).2.1 = false := by
    rw [mergeStep_plain notShared, same]
    refine ⟨setType_same rfl, ?_⟩
    simp
  cases joined.joined k inside with
  | shared ptr shared head nr data =>
      rw [mergeStep_shared head shared.2, (joined.kept k).2, joined.readData, if_neg]
      · exact ⟨rfl, rfl⟩
      · rw [not_or, not_not, not_not]
        exact ⟨nr, data⟩
  | plain notShared type =>
      apply plain
      · intro ptr shared
        exact notShared ptr (joinType_ptr (type.symm.trans shared.1))
      · have elem : merged.elem k =
            { lhs.elem k with type := joinType (lhs.elem k) (rhs.elem k) } := by
          obtain ⟨data, nr⟩ := joined.kept k
          unfold Elements.type at type
          rw [← type]
          dsimp only
          rw [← data, ← nr]
        rw [elem, joinType_again, type]
        intro dead
        by_contra lost
        rw [not_or, not_or, Bool.not_eq_true] at lost
        exact keeps ⟨dead, lost.1, lost.2.1, lost.2.2⟩
  | cleared ptr wiped right =>
      apply plain
      · intro other shared
        have head := wiped.symm.trans shared.1
        exact absurd (congrArg DynamicValueType.isPtr head) (by simp)
      · unfold Elements.type at wiped right ⊢
        unfold joinType
        rw [wiped]
        rcases right with head | tail
        · rw [head]
          cases ptr <;> rfl
        · rw [tail]
          cases ptr <;> rfl

theorem Joined.again (joined : Joined lhs rhs merged diff) (sizes : lhs.size = rhs.size)
    (keeps : ∀ k, k < lhs.size → ¬ LosesDead lhs rhs k) :
    mergeElements merged rhs = .ok (merged, false) := by
  have sizeEq := joined.size_eq
  unfold mergeElements
  rw [if_pos (sizeEq.trans sizes), mergeLoop_same]
  intro k _later below
  have inside : k < lhs.size := by omega
  exact joined.step_again inside (keeps k inside)

end Joined

end Elements

end Drob
