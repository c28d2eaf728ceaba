import Drob.Validity.Runs

/-!
What the edits keep: the flags of a function are honest if every block that is reachable
from the entry block is flagged valid whenever the function is.
-/

namespace Drob

variable {ι : Type}

def FunctionNode.Honest (function : FunctionNode ι) (a : Analysis) : Prop :=
  function.valid a = true → ∀ b, function.Reachable b → function.blockValid b a = true

namespace Nodes

/-! ### What a step may do to the flags -/

/-- Flags are only taken away, and from blocks that are not exempt only along with the
flag of the function, and from it only along with the flag of the ICFG. -/
structure FlagsKept (exempt : ι → Prop) (before after : Nodes ι) : Prop where
  function : ∀ a, after.valid a = true → before.valid a = true
  icfg : ∀ a, after.icfgValid a = true →
    before.icfgValid a = true ∧ (before.valid a = true → after.valid a = true)
  block : ∀ a, after.valid a = true → ∀ b, ¬ exempt b → before.blockValid b a = true →
    after.blockValid b a = true

variable {exempt more : ι → Prop} {before middle after nodes later : Nodes ι} {a : Analysis}

theorem FlagsKept.refl (nodes : Nodes ι) : FlagsKept exempt nodes nodes :=
  ⟨fun _ => id, fun _ valid => ⟨valid, id⟩, fun _ _ _ _ => id⟩

theorem FlagsKept.trans (first : FlagsKept exempt before middle)
    (second : FlagsKept exempt middle after) : FlagsKept exempt before after := by
  refine ⟨?_, ?_, ?_⟩
  · exact fun a valid => first.function a (second.function a valid)
  · intro a valid
    obtain ⟨icfg, keeps⟩ := second.icfg a valid
    obtain ⟨icfg, keepsFirst⟩ := first.icfg a icfg
    exact ⟨icfg, fun valid => keeps (keepsFirst valid)⟩
  · intro a valid b kept flagged
    apply second.block a valid b kept
    exact first.block a (second.function a valid) b kept flagged

theorem FlagsKept.mono (kept : FlagsKept exempt before after) (grows : ∀ b, exempt b → more b) :
    FlagsKept more before after :=
  ⟨kept.function, kept.icfg, fun a valid b not => kept.block a valid b (fun is => not (grows b is))⟩

theorem FlagsKept.honest (kept : FlagsKept exempt before after) (honest : before.Honest a)
    (reach : after.valid a = true → ∀ b, after.Reachable b → before.Reachable b ∧ ¬ exempt b) :
    after.Honest a := by
  intro valid b reachable
  obtain ⟨old, notExempt⟩ := reach valid b reachable
  apply kept.block a valid b notExempt
  exact honest (kept.function a valid) b old

/-- Chains stay, and edges are only taken away, except from exempt blocks. -/
structure Keeps (exempt : ι → Prop) (before after : Nodes ι) : Prop where
  flags : FlagsKept exempt before after
  entry : after.entryBlock = before.entryBlock
  next : ∀ b, (after.block b).next = (before.block b).next
  prev : ∀ b, (after.block b).prev = (before.block b).prev
  edges : ∀ b, ¬ exempt b → (after.block b).outgoingEdges ⊆ (before.block b).outgoingEdges

theorem Keeps.refl (nodes : Nodes ι) : Keeps exempt nodes nodes :=
  ⟨.refl nodes, rfl, fun _ => rfl, fun _ => rfl, fun _ _ => List.Subset.refl _⟩

theorem Keeps.trans (first : Keeps exempt before middle) (second : Keeps exempt middle after) :
    Keeps exempt before after where
  flags := first.flags.trans second.flags
  entry := second.entry.trans first.entry
  next := fun b => (second.next b).trans (first.next b)
  prev := fun b => (second.prev b).trans (first.prev b)
  edges := fun b kept => List.Subset.trans (second.edges b kept) (first.edges b kept)

theorem Keeps.mono (keeps : Keeps exempt before after) (grows : ∀ b, exempt b → more b) :
    Keeps more before after :=
  { keeps with
    flags := keeps.flags.mono grows
    edges := fun b not => keeps.edges b (fun is => not (grows b is)) }

theorem Keeps.linked (keeps : Keeps exempt before after) (linked : Linked before.block) :
    Linked after.block := by
  intro b n
  rw [keeps.next, keeps.prev]
  exact linked b n

theorem Keeps.reachable (keeps : Keeps exempt before after)
    (apart : ∀ b, before.Reachable b → ¬ exempt b) {b : ι} (reachable : after.Reachable b) :
    before.Reachable b := by
  apply FunctionNode.Reachable.induct ?_ ?_ reachable
  · intro b entry
    exact FunctionNode.reachable_entry (keeps.entry.symm.trans entry)
  · intro b n old leads
    apply old.step
    rcases leads with next | edge
    · exact Or.inl ((keeps.next b).symm.trans next)
    · exact Or.inr (keeps.edges b (apart b old) edge)

theorem Keeps.honest (keeps : Keeps exempt before after) (honest : before.Honest a)
    (apart : after.valid a = true → ∀ b, before.Reachable b → ¬ exempt b) : after.Honest a := by
  apply keeps.flags.honest honest
  intro valid b reachable
  have old := keeps.reachable (apart valid) reachable
  exact ⟨old, apart valid b old⟩

theorem FlagsKept.cleared (kept : FlagsKept exempt before middle) {b : ι} (notExempt : ¬ exempt b)
    (valid : middle.valid a = true) (invalid : middle.blockValid b a = false) :
    before.blockValid b a = false := by
  apply Bool.eq_false_iff.mpr
  intro flagged
  have still := kept.block a valid b notExempt flagged
  rw [invalid] at still
  cases still

variable [DecidableEq ι]

/-! ### Invalidation -/

omit [DecidableEq ι] in
theorem keeps_invalidateFunction (nodes : Nodes ι) (a : Analysis) :
    Keeps exempt nodes (nodes.invalidateFunction a) := by
  unfold invalidateFunction
  split
  · refine ⟨⟨?_, ?_, ?_⟩, rfl, fun _ => rfl, fun _ => rfl, fun _ _ => List.Subset.refl _⟩
    · intro other valid
      dsimp only at valid
      rw [Function.update_apply] at valid
      split at valid
      · cases valid
      · exact valid
    · intro other valid
      dsimp only at valid ⊢
      rw [Function.update_apply] at valid ⊢
      split at valid
      · cases valid
      · rename_i differ
        rw [if_neg differ]
        exact ⟨valid, id⟩
    · exact fun _ _ _ _ => id
  · exact .refl nodes

theorem keeps_invalidate (nodes : Nodes ι) (b : ι) (a : Analysis) :
    Keeps exempt nodes (nodes.invalidate b a) := by
  unfold invalidate
  split
  · have later : Keeps exempt _ _ := keeps_invalidateFunction
      { nodes with
        blockValid := Function.update nodes.blockValid b
          (Function.update (nodes.blockValid b) a false) } a
    refine ⟨⟨later.flags.function, later.flags.icfg, ?_⟩, later.entry, later.next, later.prev,
      later.edges⟩
    intro other valid c kept flagged
    apply later.flags.block other valid c kept
    by_cases same : other = a
    · -- the function is not valid for this analysis any more
      subst same
      have before := later.flags.function other valid
      unfold invalidateFunction at valid
      rw [if_pos before] at valid
      dsimp only at valid
      rw [Function.update_self] at valid
      cases valid
    · dsimp only
      by_cases here : c = b
      · rw [here, Function.update_self, Function.update_of_ne same]
        exact here ▸ flagged
      · rw [Function.update_of_ne here]
        exact flagged
  · exact .refl nodes

/-- If a function is valid after one of its blocks was invalidated, the block was not
valid. -/
theorem invalid_of_valid_invalidate {b : ι} (valid : (nodes.invalidate b a).valid a = true) :
    nodes.blockValid b a = false := by
  apply Bool.eq_false_iff.mpr
  intro flagged
  unfold invalidate at valid
  rw [if_pos flagged] at valid
  unfold invalidateFunction at valid
  split at valid
  · dsimp only at valid
    rw [Function.update_self] at valid
    cases valid
  · exact absurd valid ‹_›

@[simp]
theorem block_invalidate (nodes : Nodes ι) (b : ι) (a : Analysis) :
    (nodes.invalidate b a).block = nodes.block := by
  unfold invalidate invalidateFunction
  split
  · split <;> rfl
  · rfl

theorem keeps_invalidateIf (nodes : Nodes ι) (b : Option ι) (a : Analysis) :
    Keeps exempt nodes (nodes.invalidateIf b a) := by
  cases b with
  | none => exact .refl nodes
  | some b => exact keeps_invalidate nodes b a

theorem keeps_invalidateBoth (nodes : Nodes ι) (b : ι) :
    Keeps exempt nodes (nodes.invalidateBoth b) :=
  (keeps_invalidate nodes b .liveness).trans (keeps_invalidate _ b .stack)

theorem invalid_of_valid_invalidateBoth {b : ι} (valid : (nodes.invalidateBoth b).valid a = true) :
    nodes.blockValid b a = false := by
  have told : Keeps (fun _ => False) _ _ :=
    keeps_invalidate (nodes.invalidate b .liveness) b .stack
  have first := told.flags
  cases a with
  | liveness => exact invalid_of_valid_invalidate (first.function .liveness valid)
  | stack =>
      have told : Keeps (fun _ => False) _ _ := keeps_invalidate nodes b .liveness
      apply told.flags.cleared id
      · exact first.function .stack valid
      · exact invalid_of_valid_invalidate valid

/-! ### Edges -/

theorem block_setBlock (nodes : Nodes ι) (b c : ι) (block : SuperBlock ι) :
    (nodes.setBlock b block).block c = if c = b then block else nodes.block c :=
  Function.update_apply nodes.block b block c

theorem keeps_setBlock (nodes : Nodes ι) (b : ι) (block : SuperBlock ι)
    (next : block.next = (nodes.block b).next) (prev : block.prev = (nodes.block b).prev)
    (edges : ¬ exempt b → block.outgoingEdges ⊆ (nodes.block b).outgoingEdges) :
    Keeps exempt nodes (nodes.setBlock b block) := by
  refine ⟨⟨fun _ => id, fun _ valid => ⟨valid, id⟩, fun _ _ _ _ => id⟩, rfl, ?_, ?_, ?_⟩
  · intro c
    rw [block_setBlock]
    split
    · rename_i here
      exact here ▸ next
    · rfl
  · intro c
    rw [block_setBlock]
    split
    · rename_i here
      exact here ▸ prev
    · rfl
  · intro c kept
    rw [block_setBlock]
    split
    · rename_i here
      rw [here] at kept ⊢
      exact edges kept
    · exact List.Subset.refl _

theorem keeps_addIncomingEdge (nodes : Nodes ι) (dst src : ι) :
    Keeps exempt nodes (nodes.addIncomingEdge dst src) := by
  apply (keeps_invalidate nodes dst .stack).trans
  apply keeps_setBlock <;> rw [block_invalidate]
  exact fun _ => List.Subset.refl _

theorem flags_addOutgoingEdge (nodes : Nodes ι) (src dst : ι) :
    FlagsKept exempt nodes (nodes.addOutgoingEdge src dst) := by
  have told : Keeps exempt _ _ := keeps_invalidate nodes src .liveness
  have kept := told.flags
  exact ⟨kept.function, kept.icfg, kept.block⟩

theorem keeps_addOutgoingEdge (nodes : Nodes ι) (src dst : ι) :
    Keeps (fun x => x = src) nodes (nodes.addOutgoingEdge src dst) := by
  apply (keeps_invalidate nodes src .liveness).trans
  apply keeps_setBlock <;> rw [block_invalidate]
  exact fun kept => absurd rfl kept

theorem keeps_removeIncomingEdge {dst src : ι}
    (returned : nodes.removeIncomingEdge dst src = .ok later) : Keeps exempt nodes later := by
  obtain ⟨_, same⟩ := ite_ok returned
  cases same
  apply (keeps_invalidate nodes dst .stack).trans
  apply keeps_setBlock <;> rw [block_invalidate]
  exact fun _ => List.Subset.refl _

theorem keeps_removeOutgoingEdge {src dst : ι}
    (returned : nodes.removeOutgoingEdge src dst = .ok later) : Keeps exempt nodes later := by
  obtain ⟨_, same⟩ := ite_ok returned
  cases same
  apply (keeps_invalidate nodes src .liveness).trans
  apply keeps_setBlock <;> rw [block_invalidate]
  exact fun _ => List.erase_subset

theorem invalid_of_removeOutgoingEdge {src dst : ι}
    (returned : nodes.removeOutgoingEdge src dst = .ok later)
    (valid : later.valid .liveness = true) : nodes.blockValid src .liveness = false := by
  obtain ⟨_, same⟩ := ite_ok returned
  cases same
  exact invalid_of_valid_invalidate valid

theorem keeps_invalidateEdge {src dst : ι} (returned : nodes.invalidateEdge src dst = .ok later) :
    Keeps exempt nodes later := by
  obtain ⟨apart, first, second⟩ := bind_ok returned
  exact (keeps_removeOutgoingEdge first).trans (keeps_removeIncomingEdge second)

theorem keeps_cleanupInstruction {b : ι} {instr : BlockInstruction ι}
    (returned : cleanupInstruction b nodes instr = .ok later) : Keeps exempt nodes later := by
  unfold cleanupInstruction at returned
  split at returned
  · exact keeps_invalidateEdge returned
  · cases returned
    exact .refl nodes

omit [DecidableEq ι] in
theorem keeps_foldlM {α : Type} {step : Nodes ι → α → Except Failure (Nodes ι)}
    (keeps : ∀ nodes item later, step nodes item = .ok later → Keeps exempt nodes later)
    (items : List α) (returned : items.foldlM step nodes = .ok later) :
    Keeps exempt nodes later := by
  induction items generalizing nodes with
  | nil =>
      cases returned
      exact .refl _
  | cons item rest ih =>
      rw [List.foldlM_cons] at returned
      obtain ⟨middle, first, others⟩ := bind_ok returned
      exact (keeps _ item middle first).trans (ih others)

theorem keeps_setBranchEdge (nodes : Nodes ι) (src : ι) (index : ℕ) (edge : Option ι) :
    Keeps exempt nodes (nodes.setBranchEdge src index edge) :=
  keeps_setBlock nodes src _ rfl rfl (fun _ => List.Subset.refl _)

/-! ### Removing instructions and edges -/

theorem keeps_removeInstruction {b : ι} {index : ℕ}
    (returned : nodes.removeInstruction b index = .ok later) : Keeps exempt nodes later := by
  unfold removeInstruction at returned
  split at returned
  · cases returned
  · obtain ⟨cleaned, first, same⟩ := bind_ok returned
    cases same
    apply (keeps_invalidateBoth nodes b).trans
    apply (keeps_cleanupInstruction first).trans
    exact keeps_setBlock cleaned b _ rfl rfl (fun _ => List.Subset.refl _)

theorem keeps_removeBranchEdge {src : ι} {index : ℕ}
    (returned : nodes.removeBranchEdge src index = .ok later) : Keeps exempt nodes later := by
  unfold removeBranchEdge at returned
  split at returned
  · cases returned
  · obtain ⟨apart, first, same⟩ := bind_ok returned
    cases same
    exact (keeps_invalidateEdge first).trans (keeps_setBranchEdge apart src index none)

theorem keeps_removeAllInstructions {b : ι}
    (returned : nodes.removeAllInstructions b = .ok later) :
    Keeps exempt (nodes.invalidateBoth b) later := by
  obtain ⟨cleaned, first, returned⟩ := bind_ok returned
  obtain ⟨_, returned⟩ := ite_error returned
  obtain ⟨apart, second, same⟩ := bind_ok returned
  cases same
  apply (keeps_foldlM (fun _ _ _ => keeps_cleanupInstruction) _ first).trans
  apply (keeps_foldlM (fun _ _ _ => keeps_invalidateEdge) _ second).trans
  refine ⟨⟨fun _ => id, fun _ valid => ⟨valid, id⟩, fun _ _ _ _ => id⟩, rfl, ?_, ?_, ?_⟩
  · intro c
    dsimp only
    split
    · rename_i here
      rw [here]
    · rfl
  · intro c
    dsimp only
    split
    · rename_i here
      rw [here]
    · rfl
  · intro c _
    dsimp only
    split
    · rename_i here
      rw [here]
      exact List.Subset.refl _
    · exact List.Subset.refl _

end Nodes

end Drob
