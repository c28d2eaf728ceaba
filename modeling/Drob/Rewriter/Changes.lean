import Drob.Passes.DeadWriteElimination
import Drob.Validity.NeverLies

/-!
What the passes do to a function, as far as its validity flags go. Before the first
analysis there is nothing to invalidate; what is changed afterwards leaves the flags as
true as they were.
-/

namespace Drob

variable {ι : Type}

namespace Nodes

/-! ### Flags that can be trusted -/

structure Trusted (nodes : Nodes ι) : Prop where
  linked : Linked nodes.block
  honest : ∀ a, nodes.Honest a
  entered : nodes.Entered

/-- Flags are only taken away, and the chains of blocks stay linked. -/
structure Tame (before after : Nodes ι) : Prop where
  flags : FlagsKept (fun _ => True) before after
  linked : Linked before.block → Linked after.block

structure Harmless (before after : Nodes ι) : Prop extends Tame before after where
  trusted : before.Trusted → after.Trusted

variable {before middle after nodes later : Nodes ι} {b : ι} {exempt : ι → Prop}

theorem Tame.refl (nodes : Nodes ι) : Tame nodes nodes :=
  ⟨.refl nodes, id⟩

theorem Tame.trans (first : Tame before middle) (second : Tame middle after) :
    Tame before after :=
  ⟨first.flags.trans second.flags, fun linked => second.linked (first.linked linked)⟩

theorem Tame.of_keeps (keeps : Keeps exempt before after) : Tame before after :=
  ⟨keeps.flags.mono (fun _ _ => trivial), keeps.linked⟩

theorem Harmless.refl (nodes : Nodes ι) : Harmless nodes nodes :=
  ⟨.refl nodes, id⟩

theorem Harmless.trans (first : Harmless before middle) (second : Harmless middle after) :
    Harmless before after :=
  ⟨first.toTame.trans second.toTame, fun trusted => second.trusted (first.trusted trusted)⟩

theorem Harmless.foldlM {α : Type} {step : Nodes ι → α → Except Failure (Nodes ι)}
    (harmless : ∀ nodes item later, step nodes item = .ok later → Harmless nodes later)
    (items : List α) (returned : items.foldlM step nodes = .ok later) : Harmless nodes later := by
  induction items generalizing nodes with
  | nil =>
      cases returned
      exact .refl _
  | cons item rest ih =>
      rw [List.foldlM_cons] at returned
      obtain ⟨middle, first, others⟩ := bind_ok returned
      exact (harmless nodes item middle first).trans (ih others)

theorem Harmless.foldl {α : Type} {step : Nodes ι → α → Nodes ι}
    (harmless : ∀ nodes item, Harmless nodes (step nodes item)) (items : List α) :
    Harmless nodes (items.foldl step nodes) := by
  induction items generalizing nodes with
  | nil => exact .refl nodes
  | cons item rest ih => exact (harmless nodes item).trans ih

/-- The flags stay true if, while the function is flagged, no block that could be reached
leads to another one than before. -/
theorem Harmless.of_leads (flags : FlagsKept (fun _ => False) before after)
    (entry : after.entryBlock = before.entryBlock)
    (linked : Linked before.block → Linked after.block)
    (leads : before.Trusted → ∀ a, after.valid a = true → ∀ x y, before.Reachable x →
      FunctionNode.Leads after.block x y → FunctionNode.Leads before.block x y) :
    Harmless before after := by
  refine ⟨⟨flags.mono (fun _ => False.elim), linked⟩, fun trusted => ⟨?_, ?_, ?_⟩⟩
  · exact linked trusted.linked
  · intro a
    apply flags.honest (trusted.honest a)
    intro valid b reachable
    refine ⟨?_, id⟩
    apply FunctionNode.Reachable.induct ?_ ?_ reachable
    · exact fun x isEntry => FunctionNode.reachable_entry (entry.symm.trans isEntry)
    · exact fun x y old step => old.step (leads trusted a valid x y old step)
  · intro valid
    rw [entry]
    exact trusted.entered (flags.function .stack valid)

theorem Harmless.of_keeps (keeps : Keeps (fun _ => False) before after) :
    Harmless before after := by
  apply Harmless.of_leads keeps.flags keeps.entry keeps.linked
  intro _ _ _ x y _ leads
  rcases leads with next | edge
  · exact Or.inl ((keeps.next x).symm.trans next)
  · exact Or.inr (keeps.edges x id edge)

variable [DecidableEq ι]

end Nodes

section Edits

variable [DecidableEq ι] {nodes later : Nodes ι} {edit : Edit ι}

theorem Edit.tame (allocates : edit.Allocates nodes.toFunctionNode)
    (applied : edit.apply nodes = .ok later) : nodes.Tame later := by
  obtain ⟨_, flags⟩ := Edit.flags allocates applied
  exact ⟨flags.mono (fun _ _ => trivial), fun linked => Edit.linked allocates linked applied⟩

theorem Edit.harmless (allocates : edit.Allocates nodes.toFunctionNode)
    (clean : edit.Clean nodes) (applied : edit.apply nodes = .ok later) :
    nodes.Harmless later := by
  refine ⟨Edit.tame allocates applied, fun trusted => ⟨?_, ?_, ?_⟩⟩
  · exact Edit.linked allocates trusted.linked applied
  · exact fun a => Edit.honest allocates trusted.linked (trusted.honest a) trusted.entered clean
      applied
  · exact Edit.entered allocates (trusted.honest .stack) trusted.entered applied

end Edits

namespace Nodes

variable [DecidableEq ι] {nodes later : Nodes ι} {b : ι} {exempt : ι → Prop}

theorem harmless_removeInstruction {index : ℕ}
    (returned : nodes.removeInstruction b index = .ok later) : Harmless nodes later :=
  .of_keeps (keeps_removeInstruction returned)

theorem harmless_removeBlock (returned : nodes.removeBlock b = .ok later) :
    Harmless nodes later := by
  have applied : Edit.apply nodes (.removeBlock b) = .ok later := returned
  have allocates : Edit.Allocates nodes.toFunctionNode (.removeBlock b) := trivial
  exact Edit.harmless allocates trivial applied

/-! ### Instructions that are changed in place -/

/-- `setOpcode` and `setOperand`, after which a pass invalidates the block. -/
def setInstruction (nodes : Nodes ι) (b : ι) (index : ℕ) (instruction : Instruction) : Nodes ι :=
  (nodes.setBlock b
    { nodes.block b with
      instrs := (nodes.block b).instrs.modify index (fun instr =>
        { instr with instruction }) }).invalidateBoth b

theorem harmless_setInstruction (nodes : Nodes ι) (b : ι) (index : ℕ)
    (instruction : Instruction) : Harmless nodes (nodes.setInstruction b index instruction) := by
  apply Harmless.of_keeps
  apply Keeps.trans ?_ (keeps_invalidateBoth _ b)
  exact keeps_setBlock nodes b _ rfl rfl (fun _ => List.Subset.refl _)

/-! ### Dead writes -/

theorem keeps_deleteDeadWrite {index : ℕ}
    (returned : nodes.deleteDeadWrite b index = .ok later) :
    Keeps (fun _ => False) nodes later := by
  obtain ⟨removed, first, same⟩ := bind_ok returned
  cases same
  apply (keeps_removeInstruction first).trans
  refine ⟨⟨?_, ?_, ?_⟩, rfl, fun _ => rfl, fun _ => rfl, fun _ _ => List.Subset.refl _⟩
  · intro a valid
    cases a with
    | stack => exact valid
    | liveness => cases valid
  · intro a valid
    cases a with
    | stack => exact ⟨valid, id⟩
    | liveness => cases valid
  · intro a valid x _ flagged
    cases a with
    | stack =>
        dsimp only
        rw [Function.update_apply]
        split
        · rename_i here
          rw [Function.update_of_ne (by decide), ← here]
          exact flagged
        · exact flagged
    | liveness => cases valid

theorem harmless_deleteDeadWrites {dead : List Bool} {index : ℕ}
    (returned : deleteDeadWrites b dead index nodes = .ok later) : Harmless nodes later := by
  induction dead generalizing nodes index with
  | nil =>
      cases returned
      exact .refl _
  | cons isDead rest ih =>
      cases isDead with
      | true =>
          obtain ⟨deleted, first, others⟩ := bind_ok returned
          exact (Harmless.of_keeps (keeps_deleteDeadWrite first)).trans (ih others)
      | false => exact ih returned

theorem harmless_eliminateDeadWrites {blocks : List ι}
    (returned : eliminateDeadWrites blocks nodes = .ok later) : Harmless nodes later :=
  Harmless.foldlM (fun _ _ _ => harmless_deleteDeadWrites) blocks returned

/-! ### Dead code -/

theorem harmless_convertBranch (nodes : Nodes ι) (b : ι) (index : ℕ) :
    Harmless nodes (nodes.convertBranch b index) := by
  have cut : Harmless nodes (nodes.cutChain b) := by
    have flags : FlagsKept (fun _ => False) nodes (nodes.cutChain b) :=
      ⟨fun _ => id, fun _ valid => ⟨valid, id⟩, fun _ _ _ _ => id⟩
    apply Harmless.of_leads flags rfl
    · exact fun linked => linked_cutChain linked b
    · intro _ _ _ x y _ leads
      rcases leads with next | edge
      · unfold cutChain at next
        dsimp only at next
        split at next
        · cases next
        · exact Or.inl next
      · exact Or.inr edge
  apply cut.trans
  apply Harmless.of_keeps
  apply Keeps.trans ?_ (keeps_invalidate _ b .liveness)
  apply Keeps.trans ?_ (keeps_invalidate _ b .stack)
  exact keeps_setBlock _ b _ rfl rfl (fun _ => List.Subset.refl _)

theorem harmless_removeCollected {fates : List Fate} {index : ℕ}
    (returned : removeCollected b fates index nodes = .ok later) : Harmless nodes later := by
  induction fates generalizing nodes index with
  | nil =>
      cases returned
      exact .refl _
  | cons fate rest ih =>
      cases fate with
      | delete =>
          obtain ⟨removed, first, others⟩ := bind_ok returned
          exact (harmless_removeInstruction first).trans (ih others)
      | keep => exact ih returned
      | convert => exact ih returned

theorem harmless_convertCollected (b : ι) (fates : List Fate) (index : ℕ) (nodes : Nodes ι) :
    Harmless nodes (convertCollected b fates index nodes) := by
  induction fates generalizing nodes index with
  | nil => exact .refl nodes
  | cons fate rest ih =>
      cases fate with
      | delete => exact ih index nodes
      | keep => exact ih (index + 1) nodes
      | convert => exact (harmless_convertBranch nodes b index).trans (ih (index + 1) _)

theorem harmless_eliminateDeadCode {blocks : List ι} {willExecute : ι → ℕ → Option TriState}
    (returned : eliminateDeadCode blocks willExecute nodes = .ok later) :
    Harmless nodes later := by
  unfold eliminateDeadCode at returned
  split at returned
  · cases returned
  · split at returned
    · obtain ⟨removed, first, second⟩ := bind_ok returned
      have instructions : Harmless nodes removed :=
        Harmless.foldlM (fun _ _ _ => harmless_removeCollected) _ first
      apply instructions.trans
      apply (Harmless.foldl (fun nodes b => harmless_convertCollected b _ 0 nodes) _).trans
      exact Harmless.foldlM (fun _ _ _ => harmless_removeBlock) _ second
    · cases returned
      exact .refl _

/-! ### Chains -/

/-- Two blocks that are in no chain yet, at these ends, are chained. -/
theorem linked_wire {before later : ι → SuperBlock ι} {b dst : ι}
    (next : ∀ x, (later x).next = if x = b then some dst else (before x).next)
    (prev : ∀ x, (later x).prev = if x = dst then some b else (before x).prev)
    (noNext : (before b).next = none) (noPrev : (before dst).prev = none)
    (linked : Linked before) : Linked later := by
  intro x y
  rw [next, prev]
  by_cases left : x = b
  · by_cases right : y = dst
    · rw [if_pos left, if_pos right, left, right]
      exact iff_of_true rfl rfl
    · rw [if_pos left, if_neg right, left]
      refine iff_of_false (fun same => right (Option.some.inj same).symm) ?_
      intro fromB
      have toY := (linked b y).mpr fromB
      rw [noNext] at toY
      cases toY
  · by_cases right : y = dst
    · rw [if_neg left, if_pos right, right]
      refine iff_of_false ?_ (fun same => left (Option.some.inj same).symm)
      intro toDst
      have fromX := (linked x dst).mp toDst
      rw [noPrev] at fromX
      cases fromX
    · rw [if_neg left, if_neg right]
      exact linked x y

/-- The jump at the end of a block gives way to a fallthrough. -/
def chain (nodes : Nodes ι) (b dst : ι) : Except Failure (Nodes ι) :=
  removeInstruction
    { nodes with
      block := fun x =>
        { nodes.block x with
          next := if x = b then some dst else (nodes.block x).next
          prev := if x = dst then some b else (nodes.block x).prev } }
    b ((nodes.block b).instrs.length - 1)

/-- `BlockLayout.tryChain` with what it does to the flags. -/
def tryChain (nodes : Nodes ι) (b : ι) : Except Failure (Nodes ι) :=
  match (nodes.block b).next, BlockLayout.jumpTarget (nodes.block b) with
  | none, some dst => if (nodes.block dst).prev.isSome then .ok nodes else nodes.chain b dst
  | _, _ => .ok nodes

theorem invalid_of_removeInstruction {index : ℕ} {a : Analysis}
    (returned : nodes.removeInstruction b index = .ok later) (valid : later.valid a = true) :
    nodes.blockValid b a = false := by
  unfold removeInstruction at returned
  split at returned
  · cases returned
  · obtain ⟨cleaned, first, same⟩ := bind_ok returned
    cases same
    have keeps : Keeps (fun _ => False) _ cleaned := keeps_cleanupInstruction first
    exact invalid_of_valid_invalidateBoth (keeps.flags.function a valid)

/-- A block that is chained was not flagged if the function still is, so it cannot be
reached. -/
theorem harmless_chain {dst : ι} (noNext : (nodes.block b).next = none)
    (noPrev : (nodes.block dst).prev = none) (returned : nodes.chain b dst = .ok later) :
    Harmless nodes later := by
  unfold chain at returned
  have keeps : Keeps (fun _ => False) _ later := keeps_removeInstruction returned
  have flags : FlagsKept (fun _ => False) nodes later :=
    ⟨keeps.flags.function, keeps.flags.icfg, keeps.flags.block⟩
  apply Harmless.of_leads flags keeps.entry
  · exact linked_wire keeps.next keeps.prev noNext noPrev
  · intro trusted a valid x y reachable leads
    have invalid := invalid_of_removeInstruction returned valid
    have apart := not_reachable (trusted.honest a) (keeps.flags.function a valid) invalid
    have other : x ≠ b := fun same => apart (same ▸ reachable)
    rcases leads with next | edge
    · have old := (keeps.next x).symm.trans next
      exact Or.inl ((if_neg other).symm.trans old)
    · exact Or.inr (keeps.edges x id edge)

theorem harmless_tryChain (returned : nodes.tryChain b = .ok later) : Harmless nodes later := by
  unfold tryChain at returned
  split at returned
  · rename_i dst noNext _
    split at returned
    · cases returned
      exact .refl _
    · rename_i noPrev
      exact harmless_chain noNext (Option.not_isSome_iff_eq_none.mp noPrev) returned
  · cases returned
    exact .refl _

theorem instrs_cleanupInstruction {instr : BlockInstruction ι}
    (returned : cleanupInstruction b nodes instr = .ok later) (x : ι) :
    (later.block x).instrs = (nodes.block x).instrs := by
  unfold cleanupInstruction at returned
  split at returned
  · obtain ⟨apart, first, second⟩ := bind_ok returned
    obtain ⟨_, sameFirst⟩ := ite_ok first
    cases sameFirst
    obtain ⟨_, sameSecond⟩ := ite_ok second
    cases sameSecond
    have outgoing (y : ι) := block_setBlock (nodes.invalidate b .liveness) b y
    rw [block_setBlock, block_invalidate]
    split
    · rename_i here
      rw [here]
      dsimp only
      rw [outgoing, block_invalidate]
      split
      · rename_i atSource
        rw [atSource]
      · rfl
    · rw [outgoing, block_invalidate]
      split
      · rename_i atSource
        rw [atSource]
      · rfl
  · cases returned
    rfl

theorem chain_agrees {entry dst : ι} {chained : FunctionCfg ι}
    (expected : BlockLayout.chain (nodes.cfg entry) b dst = .ok chained)
    (returned : nodes.chain b dst = .ok later) (x : ι) :
    (later.block x).instrs = (chained.block x).instrs ∧
      (later.block x).next = (chained.block x).next ∧
        (later.block x).prev = (chained.block x).prev := by
  obtain ⟨_, same⟩ := ite_ok expected
  cases same
  unfold chain at returned
  have keeps : Keeps (fun _ => False) _ later := keeps_removeInstruction returned
  refine ⟨?_, keeps.next x, keeps.prev x⟩
  change (later.block x).instrs =
    if x = b then (nodes.block x).instrs.dropLast else (nodes.block x).instrs
  unfold removeInstruction at returned
  split at returned
  · cases returned
  · obtain ⟨cleaned, first, same⟩ := bind_ok returned
    cases same
    rw [block_setBlock]
    by_cases here : x = b
    · rw [if_pos here, if_pos here, here]
      exact List.eraseIdx_length_sub_one
    · rw [if_neg here, if_neg here, instrs_cleanupInstruction first, block_invalidateBoth]

/-- Apart from flags and edges, chaining does what it does where there are no flags. -/
theorem tryChain_agrees {entry : ι} {chained : FunctionCfg ι}
    (expected : BlockLayout.tryChain (nodes.cfg entry) b = .ok chained)
    (returned : nodes.tryChain b = .ok later) (x : ι) :
    (later.block x).instrs = (chained.block x).instrs ∧
      (later.block x).next = (chained.block x).next ∧
        (later.block x).prev = (chained.block x).prev := by
  have same (before : Except.ok (nodes.cfg entry) = (.ok chained : Except Failure (FunctionCfg ι)))
      (after : Except.ok nodes = (.ok later : Except Failure (Nodes ι))) :
      (later.block x).instrs = (chained.block x).instrs ∧
        (later.block x).next = (chained.block x).next ∧
          (later.block x).prev = (chained.block x).prev := by
    cases before
    cases after
    exact ⟨rfl, rfl, rfl⟩
  unfold tryChain at returned
  unfold BlockLayout.tryChain at expected
  cases next : (nodes.block b).next with
  | some n =>
      have nextCfg : ((nodes.cfg entry).block b).next = some n := next
      rw [next] at returned
      rw [nextCfg] at expected
      exact same expected returned
  | none =>
      have nextCfg : ((nodes.cfg entry).block b).next = none := next
      rw [next] at returned
      rw [nextCfg] at expected
      cases jump : BlockLayout.jumpTarget (nodes.block b) with
      | none =>
          have jumpCfg : BlockLayout.jumpTarget ((nodes.cfg entry).block b) = none := jump
          rw [jump] at returned
          rw [jumpCfg] at expected
          exact same expected returned
      | some dst =>
          have jumpCfg : BlockLayout.jumpTarget ((nodes.cfg entry).block b) = some dst := jump
          rw [jump] at returned
          rw [jumpCfg] at expected
          dsimp only at returned expected
          by_cases prev : (nodes.block dst).prev.isSome = true
          · rw [if_pos prev] at returned
            have prevCfg : ((nodes.cfg entry).block dst).prev.isSome = true := prev
            rw [if_pos prevCfg] at expected
            exact same expected returned
          · rw [if_neg prev] at returned
            have prevCfg : ¬ ((nodes.cfg entry).block dst).prev.isSome = true := prev
            rw [if_neg prevCfg] at expected
            exact chain_agrees expected returned x

/-! ### Unrolled loops -/

theorem keeps_retargetEdge {copy dst : ι} (returned : retargetEdge b copy nodes dst = .ok later) :
    Keeps exempt nodes later := by
  unfold retargetEdge at returned
  split at returned
  · obtain ⟨apart, first, same⟩ := bind_ok returned
    cases same
    exact (keeps_removeIncomingEdge first).trans (keeps_addIncomingEdge apart copy b)
  · cases returned
    exact .refl _

theorem keeps_retargetEdges {copy : ι} (returned : nodes.retargetEdges b copy = .ok later) :
    Keeps (fun x => x = b) nodes later := by
  obtain ⟨moved, first, same⟩ := bind_ok returned
  cases same
  apply (keeps_foldlM (fun _ _ _ => keeps_retargetEdge) _ first).trans
  exact keeps_setBlock moved b _ rfl rfl (fun kept => absurd rfl kept)

/-- What chaining a block to its copy may do to the chains. -/
structure ChainsTo (b copy : ι) (before after : Nodes ι) : Prop where
  tame : Tame before after
  next : ∀ x, x ≠ b → (after.block x).next = (before.block x).next
  prev : ∀ x, x ≠ copy → (after.block x).prev = (before.block x).prev

theorem chainsTo_chainInverted {copy : ι} {opcode : Opcode}
    {lastInstruction : BlockInstruction ι} (noNext : (nodes.block b).next = none)
    (returned : nodes.chainInverted b copy opcode lastInstruction = .ok later) :
    ChainsTo b copy nodes later := by
  obtain ⟨removed, first, returned⟩ := bind_ok returned
  obtain ⟨noPrev, same⟩ := ite_error returned
  cases same
  have keeps : Keeps (fun _ => True) nodes removed := keeps_removeInstruction first
  rw [Option.not_isSome_iff_eq_none] at noPrev
  constructor
  · constructor
    · exact ⟨keeps.flags.function, keeps.flags.icfg, keeps.flags.block⟩
    · intro linked
      apply linked_wire (fun _ => rfl) (fun _ => rfl) ?_ noPrev (keeps.linked linked)
      exact (keeps.next b).trans noNext
  · intro x other
    exact (if_neg other).trans (keeps.next x)
  · intro x other
    exact (if_neg other).trans (keeps.prev x)

theorem chainsTo_chainToCopy {copy : ι} (noNext : (nodes.block b).next = none)
    (returned : nodes.chainToCopy b copy = .ok later) : ChainsTo b copy nodes later := by
  have same (unchanged : Except.ok nodes = (.ok later : Except Failure (Nodes ι))) :
      ChainsTo b copy nodes later := by
    cases unchanged
    exact ⟨.refl _, fun _ _ => rfl, fun _ _ => rfl⟩
  unfold chainToCopy at returned
  split at returned
  · cases returned
  · split at returned
    · cases returned
    · split at returned
      · exact same returned
      · split at returned
        · cases returned
        · split at returned
          · cases returned
          · split at returned
            · exact same returned
            · exact chainsTo_chainInverted noNext returned

/-- Each copy starts out of any chain, and so do the ones that come after it. -/
theorem tame_unrollCopies {fresh : ℕ → ι} (distinct : Function.Injective fresh) {count i : ℕ}
    (noNext : (nodes.block b).next = none)
    (unchained : ∀ j, i ≤ j → fresh j ≠ b ∧ Unchained (nodes.block (fresh j)))
    (returned : unrollCopies fresh count i b nodes = .ok later) : Tame nodes later := by
  induction count generalizing nodes i b with
  | zero =>
      cases returned
      exact .refl _
  | succ count ih =>
      obtain ⟨retargeted, moved, returned⟩ := bind_ok returned
      obtain ⟨chained, chains, returned⟩ := bind_ok returned
      obtain ⟨other, out⟩ := unchained i (Nat.le_refl i)
      have copied := keeps_copyBlock out b
      have keeps := keeps_retargetEdges moved
      have toCopy : ChainsTo b (fresh i) retargeted chained :=
        chainsTo_chainToCopy ((keeps.next b).trans ((copied.next b).trans noNext)) chains
      have copying : Tame nodes (nodes.copyBlock b (fresh i)) :=
        ⟨(⟨copied.flags.function, copied.flags.icfg, fun _ _ _ kept => absurd trivial kept⟩),
          copied.linked⟩
      apply (copying.trans (.of_keeps keeps)).trans
      apply toCopy.tame.trans
      apply ih ?_ ?_ returned
      · rw [toCopy.next _ other, keeps.next, copied.next]
        exact out.next
      · intro j later
        have differ : fresh j ≠ fresh i := fun same => Nat.ne_of_gt later (distinct same)
        obtain ⟨notBlock, free⟩ := unchained j (Nat.le_of_lt later)
        refine ⟨differ, ?_, ?_⟩
        · rw [toCopy.next _ notBlock, keeps.next, copied.next]
          exact free.next
        · rw [toCopy.prev _ differ, keeps.prev, copied.prev]
          exact free.prev

/-- The new blocks that a split does not use stay out of any chain. -/
theorem unchained_splitBlockAfter {index : ℕ} {fresh x : ι} (linked : Linked nodes.block)
    (unchained : Unchained (nodes.block x)) (other : x ≠ b) (apart : x ≠ fresh)
    (returned : nodes.splitBlockAfter b index fresh = .ok later) :
    Unchained (later.block x) := by
  have keeps := keeps_splitBlock returned
  constructor
  · rw [keeps.next, next_splitChain, if_neg apart, if_neg other]
    exact unchained.next
  · have notNext : (nodes.block b).next ≠ some x := by
      intro next
      have prev := (linked b x).mp next
      rw [unchained.prev] at prev
      cases prev
    rw [keeps.prev, prev_splitChain, if_neg apart, if_neg notNext]
    exact unchained.prev

theorem unchained_unchainNext {x : ι} (unchained : Unchained (nodes.block x)) (b : ι) :
    Unchained ((nodes.unchainNext b).block x) := by
  cases next : (nodes.block b).next with
  | none =>
      unfold unchainNext
      rw [next]
      exact unchained
  | some n =>
      obtain ⟨_, _, nextEq, prevEq, _⟩ := unchainNext_spec next
      constructor
      · rw [nextEq, unchained.next, ite_self]
      · rw [prevEq, unchained.prev, ite_self]

theorem next_unchainNext (nodes : Nodes ι) (b : ι) :
    ((nodes.unchainNext b).block b).next = none := by
  cases next : (nodes.block b).next with
  | none =>
      unfold unchainNext
      rw [next]
      exact next
  | some n =>
      obtain ⟨_, _, nextEq, _⟩ := unchainNext_spec next
      rw [nextEq, if_pos rfl]

theorem tame_unrollSingleBlockLoop {count : ℕ} {fresh : ℕ → ι} (linked : Linked nodes.block)
    (distinct : Function.Injective fresh) (other : ∀ i, fresh i ≠ b)
    (unallocated : ∀ i, nodes.Unallocated (fresh i))
    (returned : nodes.unrollSingleBlockLoop b count fresh = .ok later) : Tame nodes later := by
  have unrolled {split : Nodes ι} (tame : Tame nodes split)
      (unchained : ∀ j, 1 ≤ j → Unchained (split.block (fresh j)))
      (copies : unrollCopies fresh count 1 b (split.unchainNext b) = .ok later) :
      Tame nodes later := by
    have applied : Edit.apply split (.unchainNext b) = .ok (split.unchainNext b) := rfl
    have allocates : Edit.Allocates split.toFunctionNode (.unchainNext b) := trivial
    apply (tame.trans (Edit.tame allocates applied)).trans
    apply tame_unrollCopies distinct (next_unchainNext split b) ?_ copies
    exact fun j later => ⟨other j, unchained_unchainNext (unchained j later) b⟩
  unfold unrollSingleBlockLoop at returned
  split at returned
  · cases returned
  · rename_i index _
    split at returned
    · obtain ⟨split, first, copies⟩ := bind_ok returned
      have applied : Edit.apply nodes (.splitBlockAfter b index (fresh 0)) = .ok split := first
      have allocates : Edit.Allocates nodes.toFunctionNode
          (.splitBlockAfter b index (fresh 0)) := ⟨unallocated 0, (other 0).symm⟩
      apply unrolled (Edit.tame allocates applied) ?_ copies
      intro j later
      apply unchained_splitBlockAfter linked (.of_unallocated (unallocated j)) (other j) ?_ first
      exact fun same => Nat.ne_of_gt later (distinct same)
    · exact unrolled (.refl nodes) (fun j _ => .of_unallocated (unallocated j)) returned

end Nodes

/-! ### Changes -/

/-- What the passes do to a function. -/
inductive Change (ι : Type) where
  | edit (edit : Edit ι)
  | unrollSingleBlockLoop (b : ι) (simple_loop_unroll_count : ℕ) (fresh : ℕ → ι)
  | tryChain (b : ι)
  | eliminateDeadCode (blocks : List ι) (willExecute : ι → ℕ → Option TriState)
  | setInstruction (b : ι) (index : ℕ) (instruction : Instruction)
  | eliminateDeadWrites (blocks : List ι)

namespace Change

variable [DecidableEq ι]

def apply (nodes : Nodes ι) : Change ι → Except Failure (Nodes ι)
  | .edit single => single.apply nodes
  | .unrollSingleBlockLoop b count fresh => nodes.unrollSingleBlockLoop b count fresh
  | .tryChain b => nodes.tryChain b
  | .eliminateDeadCode blocks willExecute => nodes.eliminateDeadCode blocks willExecute
  | .setInstruction b index instruction => .ok (nodes.setInstruction b index instruction)
  | .eliminateDeadWrites blocks => nodes.eliminateDeadWrites blocks

def Allocates (function : FunctionNode ι) : Change ι → Prop
  | .edit single => single.Allocates function
  | .unrollSingleBlockLoop b _ fresh =>
      Function.Injective fresh ∧ ∀ i, fresh i ≠ b ∧ function.Unallocated (fresh i)
  | _ => True

variable {nodes later : Nodes ι} {change : Change ι}

theorem tame (linked : Linked nodes.block) (allocates : change.Allocates nodes.toFunctionNode)
    (applied : change.apply nodes = .ok later) : nodes.Tame later := by
  cases change with
  | edit single => exact Edit.tame allocates applied
  | unrollSingleBlockLoop b count fresh =>
      obtain ⟨distinct, apart⟩ := allocates
      exact Nodes.tame_unrollSingleBlockLoop linked distinct (fun i => (apart i).1)
        (fun i => (apart i).2) applied
  | tryChain b => exact (Nodes.harmless_tryChain applied).toTame
  | eliminateDeadCode blocks willExecute =>
      exact (Nodes.harmless_eliminateDeadCode applied).toTame
  | setInstruction b index instruction =>
      cases applied
      exact (Nodes.harmless_setInstruction nodes b index instruction).toTame
  | eliminateDeadWrites blocks => exact (Nodes.harmless_eliminateDeadWrites applied).toTame

end Change

end Drob
