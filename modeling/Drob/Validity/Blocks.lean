import Drob.Validity.Edits

/-!
Edits that create, split, merge, remove or unchain blocks. Removing a block invalidates
it first, so the flags stay honest; a new block is invalid and must not be reachable
from a function that is still flagged valid.
-/

namespace Drob

namespace Nodes

variable {ι : Type} [DecidableEq ι] {nodes later : Nodes ι} {a : Analysis} {b n fresh : ι}

/-! ### Removing a block -/

structure Unlinked (before later : ι → SuperBlock ι) (b : ι) : Prop where
  next : ∀ x, (later x).next =
    if x = b then none
    else if (before b).prev = some x then (before b).next else (before x).next
  prev : ∀ x, (later x).prev =
    if x = b then none
    else if (before b).next = some x then (before b).prev else (before x).prev

theorem Unlinked.linked {before later : ι → SuperBlock ι} (unlinked : Unlinked before later b)
    (linked : Linked before) : Linked later := by
  intro x y
  rw [unlinked.next, unlinked.prev]
  -- no block is its own neighbour and the neighbour of another block
  have loop {z : ι} (next : (before b).next = some z) (prev : (before b).prev = some b) : z = b := by
    have back := (linked b b).mpr prev
    exact Option.some.inj (next.symm.trans back)
  by_cases left : x = b
  · rw [if_pos left]
    refine iff_of_false nofun ?_
    split
    · exact nofun
    · rename_i right
      split
      · rename_i next
        rw [left]
        exact fun prev => right (loop next prev)
      · rename_i next
        rw [left]
        exact fun prev => next ((linked b y).mpr prev)
  · rw [if_neg left]
    by_cases right : y = b
    · rw [if_pos right, right]
      refine iff_of_false ?_ nofun
      split
      · rename_i prev
        intro next
        exact left (Option.some.inj (prev.symm.trans ((linked b b).mp next)))
      · rename_i prev
        exact fun next => prev ((linked x b).mp next)
    · rw [if_neg right]
      by_cases before' : (before b).prev = some x
      · rw [if_pos before']
        by_cases after : (before b).next = some y
        · rw [if_pos after]
          exact iff_of_true after before'
        · rw [if_neg after]
          refine iff_of_false after (fun prev => ?_)
          have toY := (linked x y).mpr prev
          have toB := (linked x b).mpr before'
          exact right (Option.some.inj (toY.symm.trans toB))
      · rw [if_neg before']
        by_cases after : (before b).next = some y
        · rw [if_pos after]
          refine iff_of_false (fun next => ?_) before'
          have fromX := (linked x y).mp next
          have fromB := (linked b y).mp after
          exact left (Option.some.inj (fromX.symm.trans fromB))
        · rw [if_neg after]
          exact linked x y

structure Removed (before after : Nodes ι) (b : ι) : Prop where
  flags : FlagsKept (fun x => x = b) before after
  cleared : ∀ a, after.valid a = true → before.blockValid b a = false
  entry : after.entryBlock = if before.entryBlock = some b then none else before.entryBlock
  unlinked : Unlinked before.block after.block b
  edges : ∀ x, x ≠ b → (after.block x).outgoingEdges ⊆ (before.block x).outgoingEdges

theorem unlinked_unlink (nodes : Nodes ι) (b : ι) :
    Unlinked nodes.block (nodes.unlink b).block b := by
  constructor
  · intro x
    unfold unlink
    dsimp only
    split <;> rfl
  · intro x
    unfold unlink
    dsimp only
    split <;> rfl

theorem removed_removeBlock (returned : nodes.removeBlock b = .ok later) :
    Removed nodes later b := by
  obtain ⟨cleaned, removed, same⟩ := bind_ok returned
  cases same
  have told : Keeps (fun x => x = b)
      { nodes with entryBlock := if nodes.entryBlock = some b then none else nodes.entryBlock }
      _ :=
    (keeps_invalidateIf _ (nodes.block b).next .stack).trans
      (keeps_invalidateIf _ (nodes.block b).prev .liveness)
  have noFlags : FlagsKept (fun _ => False)
      { nodes with entryBlock := if nodes.entryBlock = some b then none else nodes.entryBlock }
      _ :=
    ((keeps_invalidateIf _ (nodes.block b).next .stack).trans
      (keeps_invalidateIf _ (nodes.block b).prev .liveness)).flags
  have cleanedUp : Keeps (fun x => x = b) _ _ := keeps_removeAllInstructions removed
  have keeps := (told.trans (keeps_invalidateBoth _ b)).trans cleanedUp
  refine ⟨?_, ?_, ?_, ?_, ?_⟩
  · refine ⟨keeps.flags.function, keeps.flags.icfg, ?_⟩
    intro a valid x kept flagged
    have still := keeps.flags.block a valid x kept flagged
    exact (congrFun (Function.update_of_ne kept _ _) a).trans still
  · intro a valid
    have both := cleanedUp.flags.function a valid
    have first := (keeps_invalidateBoth _ b : Keeps (fun _ => False) _ _).flags.function a both
    exact noFlags.cleared id first (invalid_of_valid_invalidateBoth both)
  · exact keeps.entry
  · have unlinked := unlinked_unlink cleaned b
    constructor
    · intro x
      rw [unlinked.next, keeps.next, keeps.prev, keeps.next]
    · intro x
      rw [unlinked.prev, keeps.next, keeps.prev, keeps.prev]
  · intro x kept
    unfold unlink
    dsimp only
    rw [if_neg kept]
    exact keeps.edges x kept

omit [DecidableEq ι] in
theorem not_reachable (honest : nodes.Honest a) (valid : nodes.valid a = true)
    (invalid : nodes.blockValid b a = false) : ¬ nodes.Reachable b := by
  intro reachable
  have flagged := honest valid b reachable
  rw [invalid] at flagged
  cases flagged

theorem Removed.entry_before (removed : Removed nodes later b) {x : ι}
    (isEntry : later.entryBlock = some x) : nodes.entryBlock = some x := by
  rw [removed.entry] at isEntry
  split at isEntry
  · cases isEntry
  · exact isEntry

theorem Removed.honest (removed : Removed nodes later b) (linked : Linked nodes.block)
    (honest : nodes.Honest a) : later.Honest a := by
  apply removed.flags.honest honest
  intro valid x reachable
  have apart : ¬ nodes.Reachable b :=
    not_reachable honest (removed.flags.function a valid) (removed.cleared a valid)
  have old : nodes.Reachable x := by
    apply FunctionNode.Reachable.induct ?_ ?_ reachable
    · exact fun x entry => FunctionNode.reachable_entry (removed.entry_before entry)
    · intro x y old leads
      have other : x ≠ b := fun same => apart (same ▸ old)
      apply old.step
      rcases leads with next | edge
      · rw [removed.unlinked.next, if_neg other] at next
        split at next
        · rename_i before
          exact absurd (old.step (Or.inl ((linked x b).mpr before))) apart
        · exact Or.inl next
      · exact Or.inr (removed.edges x other edge)
  exact ⟨old, fun same => apart (same ▸ old)⟩

/-! ### Merging a block into the next one -/

/-- A block that is merged is valid, or what it is merged into cannot be reached. -/
def MergesCleanly (nodes : Nodes ι) (b : ι) : Prop :=
  ∀ a, nodes.valid a = true → nodes.blockValid b a = true ∨
    ∀ n, (nodes.block b).next = some n → ¬ nodes.Reachable n

theorem mergeBlockIntoNext_cases (returned : nodes.mergeBlockIntoNext b = .ok later) :
    ∃ n, (nodes.block b).next = some n ∧ n ≠ b ∧
      (nodes.moveIntoNext b n).removeBlock b = .ok later := by
  unfold mergeBlockIntoNext at returned
  split at returned
  · cases returned
  · rename_i n next
    obtain ⟨_, returned⟩ := ite_error returned
    obtain ⟨other, returned⟩ := ite_error returned
    exact ⟨n, next, other, returned⟩

theorem block_moveIntoNext {x : ι} (other : x ≠ b) : (nodes.moveIntoNext b n).block x =
    FunctionCfg.redirectBlock b n
      { (if x = n then FunctionCfg.mergedBlock (nodes.block b) (nodes.block n)
          else nodes.block x) with
        next := if (nodes.block b).prev = some x then some n
          else (if x = n then FunctionCfg.mergedBlock (nodes.block b) (nodes.block n)
            else nodes.block x).next } := by
  unfold moveIntoNext
  exact if_neg other

theorem block_moveIntoNext_self : (nodes.moveIntoNext b n).block b =
    { nodes.block b with instrs := [], incomingEdges := [], outgoingEdges := [] } := by
  unfold moveIntoNext
  exact if_pos rfl

theorem next_moveIntoNext {x : ι} (other : x ≠ b) : ((nodes.moveIntoNext b n).block x).next =
    if (nodes.block b).prev = some x then some n else (nodes.block x).next := by
  rw [block_moveIntoNext other]
  unfold FunctionCfg.redirectBlock
  dsimp only
  split
  · rfl
  · split
    · rename_i here
      rw [here]
      rfl
    · rfl

theorem prev_moveIntoNext {x : ι} (other : x ≠ b) : ((nodes.moveIntoNext b n).block x).prev =
    if x = n then (nodes.block b).prev else (nodes.block x).prev := by
  rw [block_moveIntoNext other]
  unfold FunctionCfg.redirectBlock
  dsimp only
  split <;> rfl

theorem edges_moveIntoNext {x : ι} (other : x ≠ b) (notNext : x ≠ n) :
    ((nodes.moveIntoNext b n).block x).outgoingEdges =
      (nodes.block x).outgoingEdges.map (FunctionCfg.redirect b n) := by
  rw [block_moveIntoNext other, if_neg notNext]
  rfl

theorem unlinked_mergeBlockIntoNext (next : (nodes.block b).next = some n)
    (removed : Removed (nodes.moveIntoNext b n) later b) :
    Unlinked nodes.block later.block b := by
  constructor
  · intro x
    rw [removed.unlinked.next, block_moveIntoNext_self]
    dsimp only
    split
    · rfl
    · rename_i other
      rw [next_moveIntoNext other, next]
      split <;> rfl
  · intro x
    rw [removed.unlinked.prev, block_moveIntoNext_self]
    dsimp only
    split
    · rfl
    · rename_i other
      rw [prev_moveIntoNext other]
      split
      · rfl
      · rename_i notAfter
        refine if_neg (fun same => notAfter ?_)
        rw [same]
        exact next

theorem honest_mergeBlockIntoNext (linked : Linked nodes.block) (honest : nodes.Honest a)
    (clean : nodes.MergesCleanly b) (returned : nodes.mergeBlockIntoNext b = .ok later) :
    later.Honest a := by
  obtain ⟨n, next, other, removes⟩ := mergeBlockIntoNext_cases returned
  have removed := removed_removeBlock removes
  have moved : FlagsKept (fun x => x = b ∨ x = n) nodes (nodes.moveIntoNext b n) := by
    refine ⟨fun _ => id, fun _ valid => ⟨valid, id⟩, ?_⟩
    intro a _ x kept flagged
    unfold moveIntoNext
    dsimp only
    rw [if_neg (fun same => kept (Or.inr same))]
    exact flagged
  have flags := moved.trans (removed.flags.mono (fun x => Or.inl))
  apply flags.honest honest
  intro valid x reachable
  have validBefore := flags.function a valid
  have invalid : nodes.blockValid b a = false := by
    have cleared := removed.cleared a valid
    unfold moveIntoNext at cleared
    dsimp only at cleared
    rwa [if_neg other.symm] at cleared
  have apart : ¬ nodes.Reachable b := not_reachable honest validBefore invalid
  have apartNext : ¬ nodes.Reachable n := by
    rcases clean a validBefore with flagged | unreachable
    · rw [invalid] at flagged
      cases flagged
    · exact unreachable n next
  have unlinked := unlinked_mergeBlockIntoNext next removed
  have old : nodes.Reachable x := by
    apply FunctionNode.Reachable.induct ?_ ?_ reachable
    · intro x entry
      obtain ⟨start, isEntry, rfl⟩ := Option.map_eq_some_iff.mp (removed.entry_before entry)
      have startOther : start ≠ b := fun same =>
        apart (same ▸ FunctionNode.reachable_entry isEntry)
      unfold FunctionCfg.redirect
      rw [if_neg startOther]
      exact FunctionNode.reachable_entry isEntry
    · intro x y old leads
      have notB : x ≠ b := fun same => apart (same ▸ old)
      have notN : x ≠ n := fun same => apartNext (same ▸ old)
      rcases leads with nextOf | edge
      · rw [unlinked.next, if_neg notB] at nextOf
        split at nextOf
        · rename_i before
          exact absurd (old.step (Or.inl ((linked x b).mpr before))) apart
        · exact old.step (Or.inl nextOf)
      · have before := removed.edges x notB edge
        rw [edges_moveIntoNext notB notN] at before
        obtain ⟨dst, member, rfl⟩ := List.mem_map.mp before
        have reach := old.step (Or.inr member)
        have dstOther : dst ≠ b := fun same => apart (same ▸ reach)
        unfold FunctionCfg.redirect
        rw [if_neg dstOther]
        exact reach
  refine ⟨old, ?_⟩
  rintro (rfl | rfl)
  · exact apart old
  · exact apartNext old

/-! ### New blocks -/

/-- The block is in no chain. -/
structure Unchained (block : SuperBlock ι) : Prop where
  next : block.next = none
  prev : block.prev = none

omit [DecidableEq ι] in
theorem Unchained.of_unallocated (unallocated : nodes.Unallocated fresh) :
    Unchained (nodes.block fresh) := by
  rw [unallocated.empty]
  exact ⟨rfl, rfl⟩

omit [DecidableEq ι] in
theorem unallocated_apart (linked : Linked nodes.block) (unallocated : nodes.Unallocated fresh)
    (reachable : nodes.Reachable b) : b ≠ fresh := by
  apply FunctionNode.Reachable.induct ?_ ?_ reachable
  · rintro b entry rfl
    exact unallocated.notEntry entry
  · rintro b n _ (next | edge) rfl
    · have prev := (linked b n).mp next
      rw [unallocated.empty] at prev
      cases prev
    · exact unallocated.noEdge b edge

omit [DecidableEq ι] in
theorem addBlock_of_entry (entered : nodes.entryBlock ≠ none) (fresh : ι) :
    nodes.addBlock fresh = nodes := by
  obtain ⟨entry, isEntry⟩ := Option.ne_none_iff_exists'.mp entered
  have kept : nodes.entryBlock.or (some fresh) = nodes.entryBlock := by
    rw [isEntry]
    rfl
  unfold addBlock
  rw [kept]

theorem keeps_newBlock (unchained : Unchained (nodes.block fresh)) (block : SuperBlock ι)
    (next : block.next = none) (prev : block.prev = none) :
    Keeps (fun x => x = fresh) (nodes.addBlock fresh) (nodes.newBlock fresh block) := by
  have record (x : ι) : (nodes.newBlock fresh block).block x =
      if x = fresh then block else nodes.block x :=
    Function.update_apply nodes.block fresh block x
  refine ⟨⟨fun _ => id, fun _ valid => ⟨valid, id⟩, ?_⟩, rfl, ?_, ?_, ?_⟩
  · intro a _ x kept flagged
    exact (congrFun (Function.update_of_ne kept _ _) a).trans flagged
  · intro x
    rw [record]
    split
    · rename_i here
      rw [next, here]
      exact unchained.next.symm
    · rfl
  · intro x
    rw [record]
    split
    · rename_i here
      rw [prev, here]
      exact unchained.prev.symm
    · rfl
  · intro x kept
    rw [record, if_neg kept]
    exact List.Subset.refl _

omit [DecidableEq ι] in
theorem Keeps.addBlock {exempt : ι → Prop} (keeps : Keeps exempt nodes later) :
    Keeps exempt (nodes.addBlock fresh) (later.addBlock fresh) where
  flags := ⟨keeps.flags.function, keeps.flags.icfg, keeps.flags.block⟩
  entry := congrArg (Option.or · (some fresh)) keeps.entry
  next := keeps.next
  prev := keeps.prev
  edges := keeps.edges

theorem keeps_decodeBlock (unallocated : nodes.Unallocated fresh) (instrs : List Instruction) :
    Keeps (fun x => x = fresh) (nodes.addBlock fresh) (nodes.decodeBlock fresh instrs) := by
  have invalidated : Keeps (fun x => x = fresh) nodes
      ((nodes.invalidateFunction .liveness).invalidateFunction .liveness) :=
    (keeps_invalidateFunction nodes .liveness).trans (keeps_invalidateFunction _ .liveness)
  apply invalidated.addBlock.trans
  apply keeps_newBlock (Unchained.of_unallocated ?_) _ rfl rfl
  have same : ((nodes.invalidateFunction .liveness).invalidateFunction .liveness).block =
      nodes.block := by
    unfold invalidateFunction
    split <;> (try split) <;> rfl
  refine ⟨same ▸ unallocated.empty, ?_, fun x => same ▸ unallocated.noEdge x⟩
  rw [invalidated.entry]
  exact unallocated.notEntry

theorem keeps_copyInstruction (nodes : Nodes ι) (b fresh : ι) (instr : BlockInstruction ι) :
    Keeps (fun x => x = fresh) nodes (copyInstruction b fresh nodes instr) := by
  unfold copyInstruction
  split
  · apply (keeps_addOutgoingEdge nodes fresh _).trans
    apply (keeps_addIncomingEdge _ _ fresh).trans
    exact keeps_setBlock _ fresh _ rfl rfl (fun kept => absurd rfl kept)
  · exact keeps_setBlock nodes fresh _ rfl rfl (fun kept => absurd rfl kept)

theorem keeps_copyBlock (unchained : Unchained (nodes.block fresh)) (b : ι) :
    Keeps (fun x => x = fresh) (nodes.addBlock fresh) (nodes.copyBlock b fresh) := by
  have copies (instrs : List (BlockInstruction ι)) (copied : Nodes ι) :
      Keeps (fun x => x = fresh) copied (instrs.foldl (copyInstruction b fresh) copied) := by
    induction instrs generalizing copied with
    | nil => exact .refl copied
    | cons instr rest ih => exact (keeps_copyInstruction copied b fresh instr).trans (ih _)
  exact (keeps_newBlock unchained _ rfl rfl).trans (copies _ _)

omit [DecidableEq ι] in
theorem honest_created (keeps : Keeps (fun x => x = fresh) (nodes.addBlock fresh) later)
    (entered : later.valid a = true → nodes.entryBlock ≠ none) (linked : Linked nodes.block)
    (unallocated : nodes.Unallocated fresh) (honest : nodes.Honest a) : later.Honest a := by
  intro valid
  rw [addBlock_of_entry (entered valid)] at keeps
  exact keeps.honest honest (fun _ b => unallocated_apart linked unallocated) valid

theorem invalid_decodeBlock (nodes : Nodes ι) (fresh : ι) (instrs : List Instruction) :
    (nodes.decodeBlock fresh instrs).valid .liveness = false := by
  change ((nodes.invalidateFunction .liveness).invalidateFunction .liveness).valid .liveness = _
  generalize nodes.invalidateFunction .liveness = once
  unfold invalidateFunction
  split
  · exact Function.update_self Analysis.liveness false once.valid
  · rename_i invalid
    exact (Bool.not_eq_true _).mp invalid

/-- A copy becomes the entry block of a function without one. -/
def CopiesCleanly (nodes : Nodes ι) : Prop :=
  nodes.valid .liveness = true → nodes.entryBlock ≠ none

/-! ### Splitting a block -/

/-- A split leaves the flags honest if it moves a branch, as this invalidates the block
that is split, or if nothing was to be invalidated. Without an entry block the new block
becomes the entry block, so the flags must be taken away. -/
def SplitsCleanly (nodes : Nodes ι) (b : ι) (kept : ℕ) : Prop :=
  nodes.valid .liveness = true →
    ((∃ instr ∈ (nodes.block b).instrs.drop kept, instr.branchEdge.isSome = true) ∧
        (nodes.entryBlock = none → nodes.blockValid b .liveness = true)) ∨
      (nodes.entryBlock ≠ none ∧ ¬ nodes.Reachable b)

theorem keeps_moveEdge {instr : BlockInstruction ι}
    (returned : moveEdge b fresh nodes instr = .ok later) :
    Keeps (fun x => x = fresh) nodes later := by
  unfold moveEdge at returned
  split at returned
  · cases returned
    exact .refl _
  · refine Keeps.trans ?_ (keeps_removeOutgoingEdge returned)
    refine Keeps.trans ?_ (keeps_setBlock _ _ _ rfl rfl (fun _ => List.Subset.refl _))
    exact keeps_setBlock nodes fresh _ rfl rfl (fun kept => absurd rfl kept)

theorem invalid_of_moved (other : b ≠ fresh) (instrs : List (BlockInstruction ι))
    (moves : ∃ instr ∈ instrs, instr.branchEdge.isSome = true)
    (returned : instrs.foldlM (moveEdge b fresh) nodes = .ok later)
    (valid : later.valid .liveness = true) : nodes.blockValid b .liveness = false := by
  induction instrs generalizing nodes with
  | nil =>
      obtain ⟨_, impossible, _⟩ := moves
      cases impossible
  | cons instr rest ih =>
      rw [List.foldlM_cons] at returned
      obtain ⟨middle, first, others⟩ := bind_ok returned
      have validMiddle : middle.valid .liveness = true :=
        (keeps_foldlM (fun _ _ _ => keeps_moveEdge) rest others :
          Keeps (fun x => x = fresh) _ _).flags.function .liveness valid
      obtain ⟨moved, member, isBranch⟩ := moves
      rcases List.mem_cons.mp member with rfl | inRest
      · unfold moveEdge at first
        split at first
        · rename_i noEdge
          rw [noEdge] at isBranch
          cases isBranch
        · change Nodes.removeOutgoingEdge _ b _ = _ at first
          have invalid := invalid_of_removeOutgoingEdge first validMiddle
          exact invalid
      · have invalid := ih ⟨moved, inRest, isBranch⟩ others
        exact (keeps_moveEdge first).flags.cleared other validMiddle invalid

theorem next_splitChain (nodes : Nodes ι) (b : ι) (kept : ℕ) (fresh x : ι) :
    ((nodes.splitChain b kept fresh).block x).next =
      if x = fresh then (nodes.block b).next
      else if x = b then some fresh else (nodes.block x).next := by
  unfold splitChain
  dsimp only
  split
  · rfl
  · split
    · rfl
    · split <;> rfl

theorem prev_splitChain (nodes : Nodes ι) (b : ι) (kept : ℕ) (fresh x : ι) :
    ((nodes.splitChain b kept fresh).block x).prev =
      if x = fresh then some b
      else if (nodes.block b).next = some x then some fresh else (nodes.block x).prev := by
  unfold splitChain
  dsimp only
  split
  · rfl
  · split
    · rename_i here
      rw [here]
    · split <;> rfl

theorem linked_splitChain (unallocated : nodes.Unallocated fresh) (linked : Linked nodes.block)
    (other : b ≠ fresh) (kept : ℕ) : Linked (nodes.splitChain b kept fresh).block := by
  have noNext (x : ι) : (nodes.block x).next ≠ some fresh := by
    intro next
    have prev := (linked x fresh).mp next
    rw [unallocated.empty] at prev
    cases prev
  have noPrev (x : ι) : (nodes.block x).prev ≠ some fresh := by
    intro prev
    have next := (linked fresh x).mpr prev
    rw [unallocated.empty] at next
    cases next
  intro x y
  rw [next_splitChain, prev_splitChain]
  by_cases right : y = fresh
  · rw [if_pos right, right, Option.some.injEq]
    split
    · rename_i left
      exact iff_of_false (noNext b) (fun same => other (same.trans left))
    · split
      · rename_i here
        exact iff_of_true rfl here.symm
      · rename_i here
        exact iff_of_false (noNext x) (Ne.symm here)
  · rw [if_neg right]
    by_cases left : x = fresh
    · rw [if_pos left, left]
      split
      · rename_i after
        exact iff_of_true after rfl
      · rename_i after
        exact iff_of_false after (noPrev y)
    · rw [if_neg left]
      split
      · rename_i here
        refine iff_of_false (fun same => right (Option.some.inj same).symm) ?_
        split
        · exact fun same => left (Option.some.inj same).symm
        · rename_i after
          rw [here]
          exact fun prevOf => after ((linked b y).mpr prevOf)
      · rename_i here
        split
        · rename_i after
          refine iff_of_false (fun nextOf => ?_) (fun same => left (Option.some.inj same).symm)
          have fromX := (linked x y).mp nextOf
          have fromB := (linked b y).mp after
          exact here (Option.some.inj (fromX.symm.trans fromB))
        · exact linked x y

theorem flags_splitChain (nodes : Nodes ι) (b : ι) (kept : ℕ) (fresh : ι) :
    FlagsKept (fun x => x = fresh) nodes (nodes.splitChain b kept fresh) := by
  refine ⟨fun _ => id, fun _ valid => ⟨valid, id⟩, ?_⟩
  intro a _ x apart flagged
  exact (congrFun (Function.update_of_ne apart _ _) a).trans flagged

theorem keeps_splitBlock {kept : ℕ} (returned : nodes.splitBlock b kept fresh = .ok later) :
    Keeps (fun x => x = fresh) (nodes.splitChain b kept fresh) later := by
  obtain ⟨moved, first, same⟩ := bind_ok returned
  cases same
  apply (keeps_foldlM (fun _ _ _ => keeps_moveEdge) _ first).trans
  apply (keeps_invalidate moved b .stack).trans
  exact (keeps_invalidate _ fresh .liveness).trans (keeps_invalidate _ fresh .stack)

theorem invalid_of_split {kept : ℕ} (other : b ≠ fresh)
    (entered : nodes.valid .stack = true → nodes.entryBlock ≠ none)
    (clean : nodes.SplitsCleanly b kept) (returned : nodes.splitBlock b kept fresh = .ok later)
    (valid : later.valid a = true) : nodes.valid a = true ∧ nodes.entryBlock ≠ none ∧
      (nodes.blockValid b a = false ∨ ¬ nodes.Reachable b) := by
  obtain ⟨moved, first, same⟩ := bind_ok returned
  cases same
  have validSplit : (moved.invalidate b .stack).valid a = true :=
    ((keeps_invalidate (moved.invalidate b .stack) fresh .liveness).trans
      (keeps_invalidate _ fresh .stack) : Keeps (fun _ => False) _ _).flags.function a valid
  have validMoved : moved.valid a = true :=
    (keeps_invalidate moved b .stack : Keeps (fun _ => False) _ _).flags.function a validSplit
  have moves := (flags_splitChain nodes b kept fresh).trans
    (keeps_foldlM (fun _ _ _ => keeps_moveEdge) _ first).flags
  have validBefore := moves.function a validMoved
  refine ⟨validBefore, ?_⟩
  cases a with
  | stack =>
      refine ⟨entered validBefore, Or.inl ?_⟩
      exact moves.cleared other validMoved (invalid_of_valid_invalidate validSplit)
  | liveness =>
      rcases clean validBefore with ⟨moved, flagged⟩ | ⟨entry, unreachable⟩
      · have invalid := invalid_of_moved other _ moved first validMoved
        have chained : (nodes.splitChain b kept fresh).valid .liveness = true := validBefore
        have cleared := (flags_splitChain nodes b kept fresh).cleared other chained invalid
        refine ⟨fun noEntry => ?_, Or.inl cleared⟩
        exact Bool.false_ne_true (cleared.symm.trans (flagged noEntry))
      · exact ⟨entry, Or.inr unreachable⟩

theorem honest_splitBlock {kept : ℕ} (linked : Linked nodes.block)
    (unallocated : nodes.Unallocated fresh) (other : b ≠ fresh) (honest : nodes.Honest a)
    (entered : nodes.valid .stack = true → nodes.entryBlock ≠ none)
    (clean : nodes.SplitsCleanly b kept) (returned : nodes.splitBlock b kept fresh = .ok later) :
    later.Honest a := by
  have keeps := keeps_splitBlock returned
  have flags := (flags_splitChain nodes b kept fresh).trans keeps.flags
  apply flags.honest honest
  intro valid x reachable
  obtain ⟨validBefore, entry, invalid⟩ := invalid_of_split other entered clean returned valid
  have apart : ¬ nodes.Reachable b :=
    invalid.elim (fun cleared => not_reachable honest validBefore cleared) id
  have sameEntry : (nodes.splitChain b kept fresh).entryBlock = nodes.entryBlock := by
    change (nodes.addBlock fresh).entryBlock = nodes.entryBlock
    rw [addBlock_of_entry entry]
  have old : nodes.Reachable x := by
    apply FunctionNode.Reachable.induct ?_ ?_ reachable
    · intro x isEntry
      exact FunctionNode.reachable_entry
        (sameEntry.symm.trans (keeps.entry.symm.trans isEntry))
    · intro x y old leads
      have notB : x ≠ b := fun same => apart (same ▸ old)
      have notFresh := unallocated_apart linked unallocated old
      have record : ((nodes.splitChain b kept fresh).block x).next = (nodes.block x).next ∧
          ((nodes.splitChain b kept fresh).block x).outgoingEdges =
            (nodes.block x).outgoingEdges := by
        unfold splitChain
        dsimp only
        rw [if_neg notFresh, if_neg notB]
        split <;> exact ⟨rfl, rfl⟩
      apply old.step
      rcases leads with next | edge
      · exact Or.inl ((record.1.symm.trans (keeps.next x).symm).trans next)
      · exact Or.inr (record.2 ▸ keeps.edges x notFresh edge)
  exact ⟨old, unallocated_apart linked unallocated old⟩

/-! ### Branch edges and fallthroughs -/

/-- A new edge leads to a valid block, or from one that cannot be reached. -/
def AddsCleanly (nodes : Nodes ι) (src dst : ι) : Prop :=
  nodes.valid .stack = true → nodes.blockValid dst .stack = true ∨ ¬ nodes.Reachable src

theorem keeps_addBranchEdge (nodes : Nodes ι) (src : ι) (index : ℕ) (dst : ι) :
    Keeps (fun x => x = src) nodes (nodes.addBranchEdge src index dst) :=
  ((keeps_setBranchEdge nodes src index (some dst)).trans
    (keeps_addOutgoingEdge _ src dst)).trans (keeps_addIncomingEdge _ dst src)

theorem honest_addBranchEdge {src dst : ι} (index : ℕ) (honest : nodes.Honest a)
    (clean : nodes.AddsCleanly src dst) : (nodes.addBranchEdge src index dst).Honest a := by
  apply (keeps_addBranchEdge nodes src index dst).honest honest
  intro valid
  have validBefore := (keeps_addBranchEdge nodes src index dst).flags.function a valid
  suffices apart : ¬ nodes.Reachable src from fun x old same => apart (same ▸ old)
  have set : FlagsKept (fun _ => False) nodes (nodes.setBranchEdge src index (some dst)) :=
    (keeps_setBranchEdge nodes src index (some dst)).flags
  have added : FlagsKept (fun _ => False) (nodes.setBranchEdge src index (some dst))
      ((nodes.setBranchEdge src index (some dst)).addOutgoingEdge src dst) :=
    flags_addOutgoingEdge (nodes.setBranchEdge src index (some dst)) src dst
  have listed : FlagsKept (fun _ => False)
      ((nodes.setBranchEdge src index (some dst)).addOutgoingEdge src dst)
      (nodes.addBranchEdge src index dst) := (keeps_addIncomingEdge _ dst src).flags
  cases a with
  | liveness =>
      apply not_reachable honest validBefore
      have middle := listed.function .liveness valid
      exact set.cleared id (added.function .liveness middle) (invalid_of_valid_invalidate middle)
  | stack =>
      rcases clean validBefore with flagged | unreachable
      · have invalid := (set.trans added).cleared id (listed.function .stack valid)
          (invalid_of_valid_invalidate valid)
        rw [flagged] at invalid
        cases invalid
      · exact unreachable

theorem unchainNext_spec (next : (nodes.block b).next = some n) :
    FlagsKept (fun _ => False) nodes (nodes.unchainNext b) ∧
      (nodes.unchainNext b).entryBlock = nodes.entryBlock ∧
      (∀ x, ((nodes.unchainNext b).block x).next = if x = b then none else (nodes.block x).next) ∧
      (∀ x, ((nodes.unchainNext b).block x).prev = if x = n then none else (nodes.block x).prev) ∧
      ∀ x, ∀ y ∈ ((nodes.unchainNext b).block x).outgoingEdges,
        y ∈ (nodes.block x).outgoingEdges ∨ x = b ∧ y = n := by
  have added : FlagsKept (fun _ => False) nodes
      (((nodes.setBlock b { nodes.block b with
        instrs := (nodes.block b).instrs ++ [chainJump n] }).addOutgoingEdge b n).addIncomingEdge
          n b) := by
    apply FlagsKept.trans (keeps_setBlock nodes b
      { nodes.block b with instrs := (nodes.block b).instrs ++ [chainJump n] } rfl rfl
      (fun _ => List.Subset.refl _)).flags
    exact (flags_addOutgoingEdge _ b n).trans (keeps_addIncomingEdge _ n b).flags
  have keeps : Keeps (fun x => x = b) nodes
      (((nodes.setBlock b { nodes.block b with
        instrs := (nodes.block b).instrs ++ [chainJump n] }).addOutgoingEdge b n).addIncomingEdge
          n b) := by
    apply Keeps.trans (keeps_setBlock nodes b
      { nodes.block b with instrs := (nodes.block b).instrs ++ [chainJump n] } rfl rfl
      (fun _ => List.Subset.refl _))
    exact (keeps_addOutgoingEdge _ b n).trans (keeps_addIncomingEdge _ n b)
  unfold unchainNext
  rw [next]
  refine ⟨⟨added.function, added.icfg, added.block⟩, keeps.entry, ?_, ?_, ?_⟩
  · intro x
    dsimp only
    rw [keeps.next]
  · intro x
    dsimp only
    rw [keeps.prev]
  · intro x y member
    dsimp only at member
    by_cases here : x = b
    · subst here
      have listed :=
        (keeps_addIncomingEdge _ n x : Keeps (fun _ => False) _ _).edges x id member
      unfold addOutgoingEdge at listed
      rw [block_setBlock, if_pos rfl] at listed
      dsimp only at listed
      rw [block_setBlock, if_pos rfl] at listed
      rcases List.mem_append.mp listed with old | new
      · exact Or.inl old
      · exact Or.inr ⟨rfl, List.mem_singleton.mp new⟩
    · exact Or.inl (keeps.edges x here member)

theorem linked_unchainNext (linked : Linked nodes.block) (b : ι) :
    Linked (nodes.unchainNext b).block := by
  cases next : (nodes.block b).next with
  | none =>
      unfold unchainNext
      rw [next]
      exact linked
  | some n =>
      obtain ⟨_, _, nextEq, prevEq, _⟩ := unchainNext_spec next
      intro x y
      rw [nextEq, prevEq]
      by_cases left : x = b
      · rw [if_pos left]
        refine iff_of_false nofun ?_
        split
        · exact nofun
        · rename_i right
          intro prev
          have toY := (linked x y).mpr prev
          rw [left, next] at toY
          exact right (Option.some.inj toY).symm
      · rw [if_neg left]
        split
        · rename_i right
          refine iff_of_false (fun toY => ?_) nofun
          rw [right] at toY
          have fromX := (linked x n).mp toY
          have fromB := (linked b n).mp next
          exact left (Option.some.inj (fromX.symm.trans fromB))
        · exact linked x y

theorem honest_unchainNext (honest : nodes.Honest a) (b : ι) : (nodes.unchainNext b).Honest a := by
  cases next : (nodes.block b).next with
  | none =>
      unfold unchainNext
      rw [next]
      exact honest
  | some n =>
      obtain ⟨flags, entry, nextEq, _, edges⟩ := unchainNext_spec next
      apply flags.honest honest
      intro _ x reachable
      refine ⟨?_, id⟩
      apply FunctionNode.Reachable.induct ?_ ?_ reachable
      · exact fun x isEntry => FunctionNode.reachable_entry (entry.symm.trans isEntry)
      · intro x y old leads
        apply old.step
        rcases leads with nextOf | edge
        · rw [nextEq] at nextOf
          split at nextOf
          · cases nextOf
          · exact Or.inl nextOf
        · rcases edges x y edge with before | ⟨rfl, rfl⟩
          · exact Or.inr before
          · exact Or.inl next

end Nodes

end Drob
