import Drob.State.Writes

/-!
Merging two containers keeps the shape of pointers when equal tail bytes belong to
pointers of one kind that start at the same byte.
-/

namespace Drob

namespace Elements

open DynamicValueType

def SharedHead (lhs rhs : Elements) (h : Nat) (ptr : PtrType) : Prop :=
  lhs.type h = ofPtr ptr ∧ rhs.type h = ofPtr ptr

/-- Bytes that are tails of one kind in both containers belong to a shared pointer. -/
def MergeCompatible (lhs rhs : Elements) : Prop :=
  ∀ k, k < lhs.size → lhs.type k = rhs.type k → (lhs.type k).isTail = true →
    ∃ h ptr, h < k ∧ k < h + 8 ∧ SharedHead lhs rhs h ptr

/-- What holds of the left container once its first `done` bytes are merged. -/
structure Merging (lhs rhs : Elements) (done : Nat) (merged : Elements) : Prop where
  size_eq : merged.size = lhs.size
  untouched : ∀ k, done ≤ k → merged.elem k = lhs.elem k
  settled : ∀ k, k < done → k < lhs.size →
    merged.PlainAt k ∨
      ∃ h ptr, h ≤ k ∧ k < h + 8 ∧ h + 8 ≤ done ∧ lhs.type h = ofPtr ptr ∧
        ∀ j, j < 8 → merged.elem (h + j) = lhs.elem (h + j)
  passed : ∀ h ptr, h < done → SharedHead lhs rhs h ptr → h + 8 ≤ done

theorem Merging.start (lhs rhs : Elements) : Merging lhs rhs 0 lhs :=
  { size_eq := rfl
    untouched := fun _ _ => rfl
    settled := fun k below _ => absurd below (Nat.not_lt_zero k)
    passed := fun h _ below _ => absurd below (Nat.not_lt_zero h) }

theorem Merging.type_at {lhs rhs merged : Elements} {done : Nat}
    (merging : Merging lhs rhs done merged) {k : Nat} (later : done ≤ k) :
    merged.type k = lhs.type k :=
  congrArg Element.type (merging.untouched k later)

theorem Merging.shape {lhs rhs merged : Elements} {done : Nat}
    (merging : Merging lhs rhs done merged) (shape : lhs.WellFormed)
    (finished : lhs.size ≤ done) : merged.WellFormed := by
  have sizeEq := merging.size_eq
  constructor
  · intro i ptr inside head
    rcases merging.settled i (by omega) (by omega) with plain | kept
    · exact absurd head (ofPtr_ne_of_isPtr_eq_false plain.1 ptr)
    · obtain ⟨h, other, le, lt, _before, hHead, same⟩ := kept
      have hInside : h < lhs.size := by omega
      have typeSame (j : Nat) (below : j < 8) : merged.type (h + j) = lhs.type (h + j) :=
        congrArg Element.type (same j below)
      have lhsHead : lhs.type i = ofPtr ptr := by
        have found := typeSame (i - h) (by omega)
        rw [show h + (i - h) = i by omega] at found
        rwa [← found]
      have unique := shape.head_unique hInside (by omega) hHead lhsHead ⟨le, lt⟩
        ⟨Nat.le_refl i, by omega⟩
      subst unique
      obtain ⟨room, tails⟩ := shape.head h ptr hInside lhsHead
      refine ⟨by omega, ?_⟩
      intro j positive below
      rw [typeSame j below]
      exact tails j positive below
  · intro i inside tail
    rcases merging.settled i (by omega) (by omega) with plain | kept
    · rw [plain.2] at tail
      cases tail
    · obtain ⟨h, ptr, le, lt, _before, hHead, same⟩ := kept
      have headKept : merged.type h = ofPtr ptr := by
        have found := congrArg Element.type (same 0 (by omega))
        rw [Nat.add_zero] at found
        exact found.trans hHead
      refine ⟨h, ptr, ?_, lt, headKept⟩
      rcases Nat.eq_or_lt_of_le le with atHead | before
      · subst atHead
        rw [headKept, isTail_ofPtr] at tail
        cases tail
      · exact before

theorem Merging.settlePlain {lhs rhs merged next : Elements} {i : Nat}
    (merging : Merging lhs rhs i merged) (notShared : ∀ ptr, ¬ SharedHead lhs rhs i ptr)
    (sizeEq : next.size = merged.size) (plain : next.PlainAt i)
    (others : ∀ k, k ≠ i → next.elem k = merged.elem k) :
    Merging lhs rhs (i + 1) next := by
  refine
    { size_eq := sizeEq.trans merging.size_eq
      untouched := ?_
      settled := ?_
      passed := ?_ }
  · intro k later
    rw [others k (by omega)]
    exact merging.untouched k (by omega)
  · intro k below inside
    by_cases atByte : k = i
    · subst atByte
      exact Or.inl plain
    · rcases merging.settled k (by omega) inside with found | kept
      · left
        unfold PlainAt Elements.type
        rw [others k atByte]
        exact found
      · obtain ⟨h, ptr, le, lt, before, hHead, same⟩ := kept
        right
        refine ⟨h, ptr, le, lt, by omega, hHead, ?_⟩
        intro j jBelow
        rw [others (h + j) (by omega)]
        exact same j jBelow
  · intro h ptr below shared
    rcases Nat.eq_or_lt_of_le (Nat.le_of_lt_succ below) with same | before
    · subst same
      exact absurd shared (notShared ptr)
    · have found := merging.passed h ptr before shared
      omega

theorem Merging.settlePtr {lhs rhs merged next : Elements} {i : Nat} {ptr : PtrType}
    (merging : Merging lhs rhs i merged) (shape : lhs.WellFormed)
    (head : lhs.type i = ofPtr ptr) (inside : i < lhs.size)
    (written : next = merged ∨
      next = merged.modify i 8 (fun _ old => { old with type := cleared ptr })) :
    Merging lhs rhs (i + 8) next := by
  have others (k : Nat) (outside : k < i ∨ i + 8 ≤ k) : next.elem k = merged.elem k := by
    rcases written with rfl | rfl
    · rfl
    · rw [elem_modify, if_neg (by omega)]
  refine
    { size_eq := ?_
      untouched := ?_
      settled := ?_
      passed := ?_ }
  · rcases written with rfl | rfl
    · exact merging.size_eq
    · exact merging.size_eq
  · intro k later
    rw [others k (by omega)]
    exact merging.untouched k (by omega)
  · intro k below kInside
    by_cases here : i ≤ k
    · rcases written with rfl | rfl
      · right
        refine ⟨i, ptr, here, below, Nat.le_refl _, head, ?_⟩
        intro j _jBelow
        exact merging.untouched (i + j) (by omega)
      · left
        unfold PlainAt
        rw [type_modify, if_pos ⟨here, below⟩]
        exact ⟨isPtr_cleared ptr, isTail_cleared ptr⟩
    · rcases merging.settled k (by omega) kInside with found | kept
      · left
        unfold PlainAt Elements.type
        rw [others k (by omega)]
        exact found
      · obtain ⟨h, other, le, lt, before, hHead, same⟩ := kept
        right
        refine ⟨h, other, le, lt, by omega, hHead, ?_⟩
        intro j jBelow
        rw [others (h + j) (by omega)]
        exact same j jBelow
  · intro h other below shared
    by_cases early : h < i
    · have found := merging.passed h other early shared
      omega
    · rcases Nat.eq_or_lt_of_le (Nat.le_of_not_lt early) with same | after
      · omega
      · have isTail := shape.tail_type head inside after (by omega)
        rw [shared.1] at isTail
        exact absurd (congrArg DynamicValueType.isPtr isTail) (by simp)

theorem Merging.no_shared_tail {lhs rhs merged : Elements} {i : Nat}
    (merging : Merging lhs rhs i merged) (compatible : MergeCompatible lhs rhs)
    (inside : i < lhs.size) (same : lhs.type i = rhs.type i) :
    (lhs.type i).isTail = false := by
  by_contra tail
  rw [Bool.not_eq_false] at tail
  obtain ⟨h, ptr, before, within, shared⟩ := compatible i inside same tail
  have passed := merging.passed h ptr before shared
  omega

theorem Merging.step {lhs rhs merged : Elements} {i : Nat}
    (merging : Merging lhs rhs i merged) (shape : lhs.WellFormed)
    (compatible : MergeCompatible lhs rhs) (inside : i < lhs.size) :
    Merging lhs rhs (i + 1 + (mergeStep merged rhs i).2.2) (mergeStep merged rhs i).1 := by
  have typeAt : merged.type i = lhs.type i := merging.type_at (Nat.le_refl i)
  -- a byte that is set to a plain type, or is plain and stays as it is
  have settle (type : DynamicValueType) (plain : type.isPtr = false ∧ type.isTail = false)
      (notShared : ∀ ptr, ¬ SharedHead lhs rhs i ptr) :
      Merging lhs rhs (i + 1 + 0) (merged.setType i type) := by
    refine merging.settlePlain notShared rfl ?_ ?_
    · unfold PlainAt
      rw [type_setType, if_pos rfl]
      exact plain
    · intro k other
      rw [elem_setType, if_neg other]
  have keep (plain : (lhs.type i).isPtr = false ∧ (lhs.type i).isTail = false)
      (notShared : ∀ ptr, ¬ SharedHead lhs rhs i ptr) :
      Merging lhs rhs (i + 1 + 0) merged := by
    refine merging.settlePlain notShared rfl ?_ (fun _ _ => rfl)
    unfold PlainAt
    rw [typeAt]
    exact plain
  suffices key : ∀ out, mergeStep merged rhs i = out → Merging lhs rhs (i + 1 + out.2.2) out.1
    from key _ rfl
  intro out
  unfold mergeStep
  change (if merged.type i = rhs.type i then
    if (merged.type i).isPtr = true then _ else _ else _) = out → _
  by_cases same : merged.type i = rhs.type i
  · rw [if_pos same]
    have sameLhs : lhs.type i = rhs.type i := typeAt ▸ same
    cases isPtr : (merged.type i).isPtr with
    | true =>
        rw [if_pos rfl]
        obtain ⟨ptr, head⟩ := (DynamicValueType.isPtr_iff _).mp isPtr
        have lhsHead : lhs.type i = ofPtr ptr := typeAt ▸ head
        obtain ⟨room, tails⟩ := shape.head i ptr inside lhsHead
        have cleared := clearTail_complete merged head (by rw [merging.size_eq]; exact room)
          (by
            intro j positive below
            rw [merging.type_at (by omega)]
            exact tails j positive below)
          (by
            intro more
            rw [merging.type_at (by omega)]
            exact shape.no_tail_after inside lhsHead (by rw [← merging.size_eq]; exact more))
        split
        · rintro rfl
          exact merging.settlePtr shape lhsHead inside (Or.inr cleared)
        · rintro rfl
          exact merging.settlePtr shape lhsHead inside (Or.inl rfl)
    | false =>
        rw [if_neg Bool.false_ne_true]
        have notShared (ptr : PtrType) (shared : SharedHead lhs rhs i ptr) : False := by
          rw [typeAt, shared.1, isPtr_ofPtr] at isPtr
          cases isPtr
        have plain : (lhs.type i).isPtr = false ∧ (lhs.type i).isTail = false :=
          ⟨typeAt ▸ isPtr, merging.no_shared_tail compatible inside sameLhs⟩
        split
        · split
          · rintro rfl
            exact settle .unknown ⟨rfl, rfl⟩ notShared
          · rintro rfl
            exact keep plain notShared
        · rintro rfl
          exact keep plain notShared
  · rw [if_neg same]
    have notShared (ptr : PtrType) (shared : SharedHead lhs rhs i ptr) : False :=
      same (typeAt.trans (shared.1.trans shared.2.symm))
    split
    · rintro rfl
      exact settle .dead ⟨rfl, rfl⟩ notShared
    · split
      · split
        · rintro rfl
          exact settle .tainted ⟨rfl, rfl⟩ notShared
        · rename_i tainted
          rintro rfl
          have lhsTainted : lhs.type i = .tainted := typeAt ▸ not_not.mp tainted
          exact keep (by rw [lhsTainted]; exact ⟨rfl, rfl⟩) notShared
      · split
        · rintro rfl
          exact settle .unknown ⟨rfl, rfl⟩ notShared
        · rename_i unknown
          rintro rfl
          have lhsUnknown : lhs.type i = .unknown := typeAt ▸ not_not.mp unknown
          exact keep (by rw [lhsUnknown]; exact ⟨rfl, rfl⟩) notShared

theorem mergeLoop_merging {lhs rhs : Elements} (shape : lhs.WellFormed)
    (compatible : MergeCompatible lhs rhs) (n i skip : Nat) (merged : Elements) (diff : Bool)
    (total : i + n = lhs.size) (merging : Merging lhs rhs (i + skip) merged) :
    ∃ done, lhs.size ≤ done ∧ Merging lhs rhs done (mergeLoop rhs n i skip merged diff).1 := by
  induction n generalizing i skip merged diff with
  | zero => exact ⟨i + skip, by omega, merging⟩
  | succ n ih =>
      cases skip with
      | succ skip =>
          exact ih (i + 1) skip merged diff (by omega)
            (by rwa [show i + 1 + skip = i + (skip + 1) by omega])
      | zero =>
          exact ih (i + 1) _ _ _ (by omega) (merging.step shape compatible (by omega))

theorem WellFormed.mergeElements_ok {lhs rhs : Elements} (shape : lhs.WellFormed)
    (sizes : lhs.size = rhs.size) (compatible : MergeCompatible lhs rhs) :
    ∃ merged diff, mergeElements lhs rhs = .ok (merged, diff) ∧
      merged.size = lhs.size ∧ merged.WellFormed := by
  unfold mergeElements
  rw [if_pos sizes]
  obtain ⟨done, finished, merging⟩ := mergeLoop_merging shape compatible lhs.size 0 0 lhs false
    (Nat.zero_add _) (Merging.start lhs rhs)
  exact ⟨_, _, rfl, merging.size_eq, merging.shape shape finished⟩

end Elements

end Drob
