import Drob.State.Bounds

/-!
A rank of program states that merging does not raise, and lowers when it reports a
difference. The exception are bytes that the left side does not know and the right
side has dead: the merge sets them dead without reporting a difference.
-/

namespace Drob

def DynamicValueType.rank : DynamicValueType → Nat
  | .tainted => 0
  | .unknown => 1
  | _ => 2

namespace DynamicValueType

theorem rank_le (type : DynamicValueType) : type.rank ≤ 2 := by
  cases type <;> decide

theorem rank_tainted_lt {type : DynamicValueType} (other : type ≠ .tainted) :
    rank .tainted < type.rank := by
  cases type with
  | tainted => exact absurd rfl other
  | _ => decide

theorem rank_of_precise {type : DynamicValueType} (derived : type.isStackDerived = false)
    (other : type ≠ .unknown) : type.rank = 2 := by
  cases type with
  | tainted => cases derived
  | unknown => exact absurd rfl other
  | _ => rfl

theorem rank_of_isPtr {type : DynamicValueType} (ptr : type.isPtr = true) : type.rank = 2 := by
  cases type with
  | stackPtr | usrPtr | returnPtr => rfl
  | _ => cases ptr

end DynamicValueType

namespace Elements

/-! ### One container -/

def Lowers (before after : Elements) : Prop :=
  ∀ k, after.type k = before.type k ∨
    (before.type k).rank = 2 ∧ (after.type k).rank < 2

theorem Lowers.refl (estate : Elements) : estate.Lowers estate :=
  fun _ => Or.inl rfl

theorem Lowers.trans {first second third : Elements} (left : first.Lowers second)
    (right : second.Lowers third) : first.Lowers third := by
  intro k
  rcases left k with same | ⟨high, low⟩
  · rw [← same]
    exact right k
  · rcases right k with same | ⟨high', _⟩
    · rw [same]
      exact Or.inr ⟨high, low⟩
    · omega

theorem lowers_setType {estate : Elements} {i : Nat} {type : DynamicValueType}
    (high : (estate.type i).rank = 2) (low : type.rank < 2) :
    estate.Lowers (estate.setType i type) := by
  intro k
  rw [type_setType]
  by_cases here : k = i
  · subst here
    rw [if_pos rfl]
    exact Or.inr ⟨high, low⟩
  · rw [if_neg here]
    exact Or.inl rfl

theorem lowers_clearTailLoop (n i : Nat) (estate : Elements) :
    estate.Lowers (clearTailLoop n i estate) ∧
      ∀ k, k < i → (clearTailLoop n i estate).type k = estate.type k := by
  induction n generalizing i estate with
  | zero => exact ⟨Lowers.refl estate, fun _ _ => rfl⟩
  | succ n ih =>
      unfold clearTailLoop
      split
      · rename_i tail
        obtain ⟨lowers, before⟩ := ih (i + 1) (estate.setType i .unknown)
        refine ⟨(lowers_setType (by rw [tail]; rfl) (by decide)).trans lowers, ?_⟩
        intro k below
        rw [before k (by omega), type_setType, if_neg (by omega)]
      · rename_i tail
        obtain ⟨lowers, before⟩ := ih (i + 1) (estate.setType i .tainted)
        refine ⟨(lowers_setType (by rw [tail]; rfl) (by decide)).trans lowers, ?_⟩
        intro k below
        rw [before k (by omega), type_setType, if_neg (by omega)]
      · exact ⟨Lowers.refl estate, fun _ _ => rfl⟩

theorem lowers_clearTail {estate : Elements} {i : Nat} (ptr : (estate.type i).isPtr = true) :
    estate.Lowers (estate.clearTail i) ∧ ((estate.clearTail i).type i).rank < 2 ∧
      ∀ k, k < i → (estate.clearTail i).type k = estate.type k := by
  have high := DynamicValueType.rank_of_isPtr ptr
  unfold clearTail
  dsimp only
  generalize written : (if estate.type i = .stackPtr then DynamicValueType.tainted else .unknown) =
    head
  have low : head.rank < 2 := by
    rw [← written]
    split <;> decide
  obtain ⟨lowers, before⟩ := lowers_clearTailLoop (estate.size - (i + 1)) (i + 1)
    (estate.setType i head)
  refine ⟨(lowers_setType high low).trans lowers, ?_, ?_⟩
  · rw [before i (by omega), type_setType, if_pos rfl]
    exact low
  · intro k below
    rw [before k (by omega), type_setType, if_neg (by omega)]

/-- A byte that the left side does not know is dead on the right side. -/
def RegainsDead (lhs rhs : Elements) (k : Nat) : Prop :=
  lhs.type k = .unknown ∧ rhs.type k = .dead

/-- What holds of the left container once its first `done` bytes are merged. -/
structure Ranked (lhs : Elements) (done : Nat) (merged : Elements) (diff : Bool) : Prop where
  rank_le : ∀ k, (merged.type k).rank ≤ (lhs.type k).rank
  later : ∀ k, done ≤ k → merged.type k = lhs.type k ∨ (lhs.type k).rank = 2
  changed : diff = true → ∃ k, k < done ∧ k < lhs.size ∧ (merged.type k).rank < (lhs.type k).rank

theorem Ranked.start (lhs : Elements) : Ranked lhs 0 lhs false where
  rank_le := fun _ => le_refl _
  later := fun _ _ => Or.inl rfl
  changed := fun impossible => by cases impossible

variable {lhs rhs merged next : Elements} {i : Nat} {diff : Bool}

theorem Ranked.mono (ranked : Ranked lhs i merged diff) {done : Nat} (le : i ≤ done) :
    Ranked lhs done merged diff where
  rank_le := ranked.rank_le
  later := fun k le' => ranked.later k (le_trans le le')
  changed := fun isDiff => by
    obtain ⟨k, below, rest⟩ := ranked.changed isDiff
    exact ⟨k, by omega, rest⟩

theorem Ranked.lower (ranked : Ranked lhs i merged diff) (inside : i < lhs.size)
    (low : (next.type i).rank < (merged.type i).rank)
    (before : ∀ k, k < i → next.type k = merged.type k)
    (after : ∀ k, i < k → next.type k = merged.type k ∨
      (merged.type k).rank = 2 ∧ (next.type k).rank < 2) :
    Ranked lhs (i + 1) next (diff || true) where
  rank_le := by
    intro k
    have le := ranked.rank_le k
    rcases Nat.lt_trichotomy k i with below | rfl | above
    · rw [before k below]
      exact le
    · omega
    · rcases after k above with same | ⟨high, lower⟩
      · rw [same]
        exact le
      · omega
  later := by
    intro k above
    have found := ranked.later k (by omega)
    rcases after k (by omega) with same | ⟨high, _⟩
    · rw [same]
      exact found
    · right
      have le := ranked.rank_le k
      have bound := DynamicValueType.rank_le (lhs.type k)
      omega
  changed := by
    intro _
    have le := ranked.rank_le i
    exact ⟨i, by omega, inside, by omega⟩

theorem Ranked.lowerByte (ranked : Ranked lhs i merged diff) (inside : i < lhs.size)
    {type : DynamicValueType} (low : type.rank < (merged.type i).rank) :
    Ranked lhs (i + 1) (merged.setType i type) (diff || true) := by
  refine ranked.lower inside ?_ ?_ ?_
  · rw [type_setType, if_pos rfl]
    exact low
  · intro k below
    rw [type_setType, if_neg (by omega)]
  · intro k above
    rw [type_setType, if_neg (by omega)]
    exact Or.inl rfl

theorem Ranked.keep (ranked : Ranked lhs i merged diff) :
    Ranked lhs (i + 1) merged (diff || false) := by
  rw [Bool.or_false]
  exact ranked.mono (Nat.le_succ i)

theorem Ranked.setDead (ranked : Ranked lhs i merged diff) (high : (lhs.type i).rank = 2) :
    Ranked lhs (i + 1) (merged.setType i .dead) (diff || false) := by
  rw [Bool.or_false]
  refine
    { rank_le := ?_
      later := ?_
      changed := ?_ }
  · intro k
    rw [type_setType]
    split
    · rename_i here
      rw [here, high]
      exact DynamicValueType.rank_le _
    · exact ranked.rank_le k
  · intro k above
    rw [type_setType, if_neg (by omega)]
    exact ranked.later k (by omega)
  · intro isDiff
    obtain ⟨k, below, inside, low⟩ := ranked.changed isDiff
    refine ⟨k, by omega, inside, ?_⟩
    rw [type_setType, if_neg (by omega)]
    exact low

theorem Ranked.step (ranked : Ranked lhs i merged diff) (inside : i < lhs.size)
    (clean : ¬ RegainsDead lhs rhs i) :
    Ranked lhs (i + 1) (mergeStep merged rhs i).1 (diff || (mergeStep merged rhs i).2.1) := by
  suffices key : ∀ out, mergeStep merged rhs i = out →
      Ranked lhs (i + 1) out.1 (diff || out.2.1) from key _ rfl
  intro out
  unfold mergeStep
  change (if merged.type i = rhs.type i then
    if (merged.type i).isPtr = true then _ else _ else _) = out → _
  split
  · split
    · rename_i ptr
      split
      · rintro rfl
        obtain ⟨lowers, low, before⟩ := lowers_clearTail ptr
        refine ranked.lower inside ?_ before (fun k _ => lowers k)
        rw [DynamicValueType.rank_of_isPtr ptr]
        exact low
      · rintro rfl
        exact ranked.keep
    · split
      · rename_i isImm
        change merged.type i = .immediate at isImm
        split
        · rintro rfl
          refine ranked.lowerByte inside ?_
          rw [isImm]
          decide
        · rintro rfl
          exact ranked.keep
      · rintro rfl
        exact ranked.keep
  · split
    · rename_i deadOrUnknown
      change merged.type i = .dead ∧ rhs.type i = .unknown ∨
        merged.type i = .unknown ∧ rhs.type i = .dead at deadOrUnknown
      rintro rfl
      refine ranked.setDead ?_
      rcases ranked.later i (le_refl i) with same | high
      · rcases deadOrUnknown with ⟨dead, _⟩ | regains
        · rw [← same, dead]
          rfl
        · exact absurd ⟨same ▸ regains.1, regains.2⟩ clean
      · exact high
    · split
      · split
        · rename_i other
          rintro rfl
          exact ranked.lowerByte inside (DynamicValueType.rank_tainted_lt other)
        · rintro rfl
          exact ranked.keep
      · rename_i derived
        split
        · rename_i other
          rintro rfl
          refine ranked.lowerByte inside ?_
          have precise : (merged.type i).isStackDerived = false := by
            rw [Bool.or_eq_true, not_or] at derived
            exact Bool.not_eq_true _ ▸ derived.1
          rw [DynamicValueType.rank_of_precise precise other]
          decide
        · rintro rfl
          exact ranked.keep

theorem mergeLoop_ranked (clean : ∀ k, k < lhs.size → ¬ RegainsDead lhs rhs k) (n i skip : Nat)
    (merged : Elements) (diff : Bool) (total : i + n = lhs.size)
    (ranked : Ranked lhs i merged diff) :
    Ranked lhs lhs.size (mergeLoop rhs n i skip merged diff).1
      (mergeLoop rhs n i skip merged diff).2 := by
  induction n generalizing i skip merged diff with
  | zero => exact ranked.mono (by omega)
  | succ n ih =>
      cases skip with
      | succ skip =>
          exact ih (i + 1) skip merged diff (by omega) (ranked.mono (Nat.le_succ i))
      | zero =>
          exact ih (i + 1) _ _ _ (by omega) (ranked.step (by omega) (clean i (by omega)))

theorem mergeElements_ranked (clean : ∀ k, k < lhs.size → ¬ RegainsDead lhs rhs k)
    (returned : mergeElements lhs rhs = .ok (merged, diff)) :
    (∀ k, (merged.type k).rank ≤ (lhs.type k).rank) ∧
      (diff = true → ∃ k, k < lhs.size ∧ (merged.type k).rank < (lhs.type k).rank) := by
  unfold mergeElements at returned
  obtain ⟨_, found⟩ := ite_ok returned
  have ranked := mergeLoop_ranked clean lhs.size 0 0 lhs false (Nat.zero_add _)
    (Ranked.start lhs)
  injection found with found
  rw [found] at ranked
  refine ⟨ranked.rank_le, ?_⟩
  intro isDiff
  obtain ⟨k, _, rest⟩ := ranked.changed isDiff
  exact ⟨k, rest⟩

end Elements

/-! ### The tracked stack -/

namespace StackState

/-- The element at an offset from the base; it is initial where nothing is tracked. -/
def elemAt (stack : StackState) (offset : Int) : Element :=
  if 0 ≤ stack.base + offset ∧ stack.base + offset < stack.elems.size then
    stack.elems.elem (stack.base + offset).toNat
  else .initial

theorem elemAt_index {stack : StackState} {k : Nat} (inside : k < stack.elems.size) :
    stack.elemAt (k - stack.base) = stack.elems.elem k := by
  unfold elemAt
  rw [if_pos (by omega)]
  congr 1
  omega

theorem elemAt_outside {stack : StackState} {offset : Int}
    (outside : ¬ (0 ≤ stack.base + offset ∧ stack.base + offset < stack.elems.size)) :
    stack.elemAt offset = .initial :=
  if_neg outside

theorem elemAt_growOld (stack : StackState) (needed offset : Int) :
    (stack.growOld needed).elemAt offset = stack.elemAt offset := by
  unfold growOld
  split
  · rename_i grows
    unfold oldStackSize newStackSize at grows
    unfold elemAt newStackSize
    dsimp only
    by_cases tracked : 0 ≤ stack.base + offset ∧ stack.base + offset < stack.elems.size
    · rw [if_pos tracked, if_pos (by omega), if_pos (by omega)]
    · rw [if_neg tracked]
      split
      · rw [if_neg (by omega)]
      · rfl
  · rfl

theorem elemAt_growNew (stack : StackState) (needed offset : Int) :
    (stack.growNew needed).elemAt offset = stack.elemAt offset := by
  unfold growNew
  split
  · rename_i grows
    unfold newStackSize at *
    unfold elemAt
    dsimp only
    by_cases tracked : 0 ≤ stack.base + offset ∧ stack.base + offset < stack.elems.size
    · rw [if_pos tracked, if_pos (by omega), if_neg (by omega)]
      congr 1
      omega
    · rw [if_neg tracked]
      split
      · rw [if_pos (by omega)]
      · rfl
  · rfl

@[simp] theorem elemAt_grow (stack : StackState) (baseOffset : Int) (size : Nat) (offset : Int) :
    (stack.grow baseOffset size).elemAt offset = stack.elemAt offset := by
  unfold grow
  split
  · rfl
  · rw [elemAt_growNew, elemAt_growOld]

def typeAt (stack : StackState) (offset : Int) : DynamicValueType :=
  (stack.elemAt offset).type

/-- The sum of the ranks of all offsets that an access can reach. -/
noncomputable def rank (bound : Int) (stack : StackState) : Nat :=
  if stack.dead then 0 else 1 + ∑ offset ∈ Finset.Ico (-bound) bound, (stack.typeAt offset).rank

theorem rank_alive {bound : Int} {stack : StackState} (alive : stack.dead = false) :
    stack.rank bound =
      1 + ∑ offset ∈ Finset.Ico (-bound) bound, (stack.typeAt offset).rank := by
  unfold rank
  rw [alive, if_neg Bool.false_ne_true]

theorem rank_setDead_lt (bound : Int) {stack : StackState} (alive : stack.dead = false) :
    stack.setDead.rank bound < stack.rank bound := by
  rw [rank_alive alive]
  unfold rank
  rw [if_pos (show stack.setDead.dead = true from rfl)]
  omega

theorem rank_congr {bound : Int} {stack other : StackState} (dead : stack.dead = other.dead)
    (same : ∀ offset, stack.elemAt offset = other.elemAt offset) :
    stack.rank bound = other.rank bound := by
  unfold rank typeAt
  simp only [dead, same]

theorem typeAt_withElems {stack : StackState} {estate : Elements}
    (size : estate.size = stack.elems.size)
    (rankLe : ∀ k, (estate.type k).rank ≤ (stack.elems.type k).rank) (offset : Int) :
    (typeAt { stack with elems := estate } offset).rank ≤ (stack.typeAt offset).rank := by
  unfold typeAt elemAt
  dsimp only
  rw [size]
  split
  · exact rankLe _
  · exact le_refl _

theorem rank_withElems {bound : Int} {stack : StackState} {estate : Elements}
    (within : stack.Within bound) (alive : stack.dead = false)
    (size : estate.size = stack.elems.size)
    (rankLe : ∀ k, (estate.type k).rank ≤ (stack.elems.type k).rank) :
    rank bound { stack with elems := estate } ≤ stack.rank bound ∧
      ((∃ k, k < stack.elems.size ∧ (estate.type k).rank < (stack.elems.type k).rank) →
        rank bound { stack with elems := estate } < stack.rank bound) := by
  have typeLe := typeAt_withElems size rankLe
  have aliveChanged : ({ stack with elems := estate } : StackState).dead = false := alive
  rw [rank_alive alive, rank_alive aliveChanged]
  refine ⟨Nat.add_le_add_left (Finset.sum_le_sum (fun offset _ => typeLe offset)) 1, ?_⟩
  rintro ⟨k, inside, lower⟩
  refine Nat.add_lt_add_left (Finset.sum_lt_sum (fun offset _ => typeLe offset) ?_) 1
  have newLe := within.new_le
  have oldLe := within.old_le
  refine ⟨k - stack.base, Finset.mem_Ico.mpr ⟨by omega, by omega⟩, ?_⟩
  unfold typeAt
  rw [elemAt_index inside]
  have index := @elemAt_index { stack with elems := estate } k
    (by rw [← size] at inside; exact inside)
  rw [index]
  exact lower

end StackState

namespace ProgramState

variable {bound : Int} {lhs rhs merged grown : ProgramState} {diff : Bool}

theorem alignStacks_spec (leftAlive : lhs.stack.dead = false)
    (rightAlive : rhs.stack.dead = false) :
    (alignStacks lhs rhs).1.reg = lhs.reg ∧ (alignStacks lhs rhs).2.reg = rhs.reg ∧
    (alignStacks lhs rhs).1.stack.dead = false ∧ (alignStacks lhs rhs).2.stack.dead = false ∧
    (alignStacks lhs rhs).1.stack.base = (alignStacks lhs rhs).2.stack.base ∧
    (∀ offset, (alignStacks lhs rhs).1.stack.elemAt offset = lhs.stack.elemAt offset) ∧
    ∀ offset, (alignStacks lhs rhs).2.stack.elemAt offset = rhs.stack.elemAt offset := by
  unfold alignStacks growStack
  dsimp only
  refine ⟨rfl, rfl, ?_, ?_, ?_, ?_, ?_⟩
  · rw [StackState.dead_grow, StackState.dead_grow, leftAlive]
  · rw [StackState.dead_grow, StackState.dead_grow, rightAlive]
  · rw [StackState.base_grow ((StackState.dead_grow _ _ _).trans leftAlive),
      StackState.base_grow leftAlive,
      StackState.base_grow ((StackState.dead_grow _ _ _).trans rightAlive),
      StackState.base_grow rightAlive]
    unfold StackState.newStackSize
    omega
  · intro offset
    rw [StackState.elemAt_grow, StackState.elemAt_grow]
  · intro offset
    rw [StackState.elemAt_grow, StackState.elemAt_grow]

/-- A register byte or a byte of the stack that the left side does not know is dead on
the right side. -/
def RegainsDead (lhs rhs : ProgramState) : Prop :=
  (∃ container k, k < container.size ∧ (lhs.reg container).RegainsDead (rhs.reg container) k) ∨
    lhs.stack.dead = false ∧ rhs.stack.dead = false ∧
      ∃ offset, lhs.stack.typeAt offset = .unknown ∧ rhs.stack.typeAt offset = .dead

theorem mergeStacks_ranked (left : lhs.Within bound)
    (clean : lhs.stack.dead = false → rhs.stack.dead = false →
      ∀ offset, ¬ (lhs.stack.typeAt offset = .unknown ∧ rhs.stack.typeAt offset = .dead))
    (right : rhs.Within bound) (returned : mergeStacks lhs rhs = .ok (merged, grown, diff)) :
    merged.reg = lhs.reg ∧ merged.stack.rank bound ≤ lhs.stack.rank bound ∧
      (diff = true → merged.stack.rank bound < lhs.stack.rank bound) := by
  unfold mergeStacks isStackDead at returned
  split at returned
  · cases returned
    exact ⟨rfl, le_refl _, fun impossible => by cases impossible⟩
  · rename_i leftAlive _
    cases returned
    have lower := StackState.rank_setDead_lt bound leftAlive
    exact ⟨rfl, le_of_lt lower, fun _ => lower⟩
  · rename_i leftAlive rightAlive
    have spec := alignStacks_spec leftAlive rightAlive
    have aligned := (left.alignStacks right).1
    generalize alignStacks lhs rhs = pair at returned spec aligned
    obtain ⟨grownLhs, grownRhs⟩ := pair
    obtain ⟨regs, _, alive, _, bases, leftElem, rightElem⟩ := spec
    obtain ⟨⟨estate, changed⟩, first, same⟩ := bind_ok returned
    cases same
    have sizes := (ite_ok first).1
    have cleanBytes : ∀ k, k < grownLhs.stack.elems.size →
        ¬ grownLhs.stack.elems.RegainsDead grown.stack.elems k := by
      rintro k inside ⟨unknown, dead⟩
      refine clean leftAlive rightAlive (k - grownLhs.stack.base) ⟨?_, ?_⟩
      · unfold StackState.typeAt
        rw [← leftElem, StackState.elemAt_index inside]
        exact unknown
      · unfold StackState.typeAt
        rw [← rightElem, bases, StackState.elemAt_index (sizes ▸ inside)]
        exact dead
    obtain ⟨rankLe, changedRank⟩ := Elements.mergeElements_ranked cleanBytes first
    obtain ⟨stackLe, stackLt⟩ := StackState.rank_withElems aligned.stack alive
      (Elements.size_mergeElements first) rankLe
    have sameRank : grownLhs.stack.rank bound = lhs.stack.rank bound :=
      StackState.rank_congr (alive.trans leftAlive.symm) leftElem
    rw [sameRank] at stackLe stackLt
    exact ⟨regs, stackLe, fun isDiff => stackLt (changedRank isDiff)⟩

/-- The rank of a program state: the bytes of all registers and the tracked stack. -/
noncomputable def rank (bound : Int) (ps : ProgramState) : Nat :=
  ∑ container, ∑ k ∈ Finset.range container.size, ((ps.reg container).type k).rank +
    ps.stack.rank bound

theorem merge_rank (left : lhs.Within bound) (right : rhs.Within bound)
    (clean : ¬ RegainsDead lhs rhs) (returned : lhs.merge rhs = .ok (merged, grown, diff)) :
    merged.rank bound ≤ lhs.rank bound ∧
      (diff = true → merged.rank bound < lhs.rank bound) := by
  obtain ⟨⟨registers, changed⟩, first, returned⟩ := bind_ok returned
  obtain ⟨⟨mergedStack, grownRhs, later⟩, second, same⟩ := bind_ok returned
  cases same
  obtain ⟨stackEq, _, inside, some⟩ := mergeRegisters_spec containers_nodup first
  have registersWithin : registers.Within bound := by
    refine ⟨?_, stackEq ▸ left.stack⟩
    intro container
    obtain ⟨flag, found, _⟩ := inside container (mem_containers container)
    rw [Elements.size_mergeElements found]
    exact left.sizes container
  have cleanStack : registers.stack.dead = false → rhs.stack.dead = false → ∀ offset,
      ¬ (registers.stack.typeAt offset = .unknown ∧ rhs.stack.typeAt offset = .dead) := by
    rw [stackEq]
    intro leftAlive rightAlive offset regains
    exact clean (Or.inr ⟨leftAlive, rightAlive, offset, regains⟩)
  obtain ⟨regs, stackLe, stackLt⟩ := mergeStacks_ranked registersWithin cleanStack right second
  rw [stackEq] at stackLe stackLt
  have cleanBytes (container : Container) (k : Nat) (below : k < (lhs.reg container).size) :
      ¬ (lhs.reg container).RegainsDead (rhs.reg container) k := by
    intro regains
    exact clean (Or.inl ⟨container, k, left.sizes container ▸ below, regains⟩)
  have byteLe (container : Container) (k : Nat) :
      ((merged.reg container).type k).rank ≤ ((lhs.reg container).type k).rank := by
    obtain ⟨flag, found, _⟩ := inside container (mem_containers container)
    rw [regs]
    exact (Elements.mergeElements_ranked (cleanBytes container) found).1 k
  have registerLe (container : Container) :
      ∑ k ∈ Finset.range container.size, ((merged.reg container).type k).rank ≤
        ∑ k ∈ Finset.range container.size, ((lhs.reg container).type k).rank :=
    Finset.sum_le_sum (fun k _ => byteLe container k)
  refine ⟨Nat.add_le_add (Finset.sum_le_sum (fun container _ => registerLe container)) stackLe,
    ?_⟩
  intro isDiff
  rcases Bool.or_eq_true_iff.mp isDiff with here | there
  · obtain ⟨container, _, found⟩ := some here
    obtain ⟨k, below, lower⟩ := (Elements.mergeElements_ranked (cleanBytes container) found).2 rfl
    rw [left.sizes container] at below
    rw [← regs] at lower
    refine Nat.add_lt_add_of_lt_of_le (Finset.sum_lt_sum (fun other _ => registerLe other) ?_)
      stackLe
    exact ⟨container, Finset.mem_univ container,
      Finset.sum_lt_sum (fun k _ => byteLe container k) ⟨k, Finset.mem_range.mpr below, lower⟩⟩
  · exact Nat.add_lt_add_of_le_of_lt
      (Finset.sum_le_sum (fun container _ => registerLe container)) (stackLt there)

noncomputable def maxRank (bound : Int) : Nat :=
  (∑ container : Container, ∑ _k ∈ Finset.range container.size, 2) +
    (1 + ∑ _offset ∈ Finset.Ico (-bound) bound, 2)

theorem rank_le_maxRank (bound : Int) (ps : ProgramState) : ps.rank bound ≤ maxRank bound := by
  have stackLe : ps.stack.rank bound ≤ 1 + ∑ _offset ∈ Finset.Ico (-bound) bound, 2 := by
    unfold StackState.rank
    split
    · exact Nat.zero_le _
    · exact Nat.add_le_add_left
        (Finset.sum_le_sum (fun _ _ => DynamicValueType.rank_le _)) 1
  exact Nat.add_le_add (Finset.sum_le_sum (fun _ _ =>
    Finset.sum_le_sum (fun _ _ => DynamicValueType.rank_le _))) stackLe

end ProgramState

end Drob
