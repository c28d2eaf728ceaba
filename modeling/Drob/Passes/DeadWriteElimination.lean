import Drob.Passes.DeadCodeRuns

/-!
The dead write elimination pass: the instructions that liveness analysis left without data
are removed.
-/

namespace Drob

namespace Nodes

variable {ι : Type} [DecidableEq ι]

/-- `handleInstruction`: the instruction is collected. -/
def isDeadWrite (instr : BlockInstruction ι) : Bool :=
  instr.livenessData.isNone

/-- Besides what removing an instruction invalidates, the pass clears the flags of all
parents. -/
def deleteDeadWrite (nodes : Nodes ι) (b : ι) (index : ℕ) : Except Failure (Nodes ι) := do
  let removed ← nodes.removeInstruction b index
  .ok
    { removed with
      icfgValid := Function.update removed.icfgValid .liveness false
      valid := Function.update removed.valid .liveness false
      blockValid := Function.update removed.blockValid b
        (Function.update (removed.blockValid b) .liveness false) }

/-- Delete the instructions of a block that were collected, from the given one on. -/
def deleteDeadWrites (b : ι) : List Bool → ℕ → Nodes ι → Except Failure (Nodes ι)
  | [], _, nodes => .ok nodes
  | true :: rest, index, nodes => do
      let deleted ← nodes.deleteDeadWrite b index
      deleteDeadWrites b rest index deleted
  | false :: rest, index, nodes => deleteDeadWrites b rest (index + 1) nodes

/-- All instructions are collected before the first one is deleted; `blocks` is the list that
the function keeps its blocks in. -/
def eliminateDeadWrites (blocks : List ι) (nodes : Nodes ι) : Except Failure (Nodes ι) :=
  let collected := fun b => (nodes.block b).instrs.map isDeadWrite
  blocks.foldlM (fun nodes b => deleteDeadWrites b (collected b) 0 nodes) nodes

/-! ### What is left -/

variable {nodes later : Nodes ι} {b : ι}

def liveWrites (instrs : List (BlockInstruction ι)) : List (BlockInstruction ι) :=
  instrs.filter (fun instr => !isDeadWrite instr)

theorem deleteDeadWrite_spec (balanced : nodes.Balanced)
    {front back : List (BlockInstruction ι)} {instr : BlockInstruction ι}
    (split : (nodes.block b).instrs = front ++ instr :: back) :
    ∃ later, nodes.deleteDeadWrite b front.length = .ok later ∧ Trimmed nodes later ∧
      ∀ x, (later.block x).instrs = if x = b then front ++ back else (nodes.block x).instrs := by
  obtain ⟨removed, returned, balancedRemoved, entry, instrs⟩ := balanced.removeInstruction split
  have keeps : Keeps (fun _ => False) nodes removed := keeps_removeInstruction returned
  unfold deleteDeadWrite
  rw [returned]
  exact ⟨_, rfl, ⟨⟨balancedRemoved.outgoing, balancedRemoved.incoming⟩, entry, keeps.next,
    keeps.prev⟩, instrs⟩

theorem deleteDeadWrites_spec {front rest : List (BlockInstruction ι)} (balanced : nodes.Balanced)
    (split : (nodes.block b).instrs = front ++ rest) :
    ∃ later, deleteDeadWrites b (rest.map isDeadWrite) front.length nodes = .ok later ∧
      Trimmed nodes later ∧ ∀ x, (later.block x).instrs =
        if x = b then front ++ liveWrites rest else (nodes.block x).instrs := by
  induction rest generalizing nodes front with
  | nil =>
      refine ⟨nodes, rfl, ⟨balanced, rfl, fun _ => rfl, fun _ => rfl⟩, ?_⟩
      intro x
      by_cases here : x = b
      · rw [if_pos here, here]
        exact split
      · rw [if_neg here]
  | cons instr rest ih =>
      rw [List.map_cons]
      unfold liveWrites
      cases dead : isDeadWrite instr with
      | true =>
          obtain ⟨middle, deleted, trimmed, instrs⟩ := deleteDeadWrite_spec balanced split
          obtain ⟨later, ran, more, instrsLater⟩ := ih trimmed.balanced
            ((instrs b).trans (if_pos rfl))
          refine ⟨later, ?_, trimmed.trans more, ?_⟩
          · unfold deleteDeadWrites
            rw [deleted]
            exact ran
          · intro x
            rw [instrsLater, instrs, List.filter_cons_of_neg (by rw [dead]; decide)]
            split
            · rfl
            · rfl
      | false =>
          have shifted : (nodes.block b).instrs = (front ++ [instr]) ++ rest := by
            rw [split, List.append_assoc, List.singleton_append]
          obtain ⟨later, ran, trimmed, instrs⟩ := ih balanced shifted
          rw [List.length_append, List.length_singleton] at ran
          refine ⟨later, ran, trimmed, ?_⟩
          intro x
          rw [instrs, List.filter_cons_of_pos (by rw [dead]; rfl), List.append_assoc,
            List.singleton_append]
          rfl

theorem eliminateDeadWrites_spec (balanced : nodes.Balanced) {blocks : List ι}
    (once : blocks.Nodup) :
    ∃ later, eliminateDeadWrites blocks nodes = .ok later ∧ Trimmed nodes later ∧
      ∀ x, (later.block x).instrs =
        if x ∈ blocks then liveWrites (nodes.block x).instrs else (nodes.block x).instrs := by
  have run (rest : List ι) (once : rest.Nodup) (now : Nodes ι) (trimmed : Trimmed nodes now)
      (same : ∀ x ∈ rest, (now.block x).instrs = (nodes.block x).instrs) :
      ∃ later, rest.foldlM (fun now b => deleteDeadWrites b
          ((nodes.block b).instrs.map isDeadWrite) 0 now) now = .ok later ∧
        Trimmed nodes later ∧ ∀ x, (later.block x).instrs =
          if x ∈ rest then liveWrites (nodes.block x).instrs else (now.block x).instrs := by
    induction rest generalizing now with
    | nil =>
        refine ⟨now, rfl, trimmed, ?_⟩
        intro x
        rw [if_neg List.not_mem_nil]
    | cons b rest ih =>
        obtain ⟨notIn, onceRest⟩ := List.nodup_cons.mp once
        have start : (now.block b).instrs = [] ++ (now.block b).instrs := rfl
        obtain ⟨middle, deleted, more, instrs⟩ := deleteDeadWrites_spec trimmed.balanced start
        rw [same b List.mem_cons_self] at deleted instrs
        obtain ⟨later, ran, trimmedLater, instrsLater⟩ := ih onceRest middle (trimmed.trans more)
          (by
            intro x member
            have other : x ≠ b := fun here => notIn (here ▸ member)
            rw [instrs, if_neg other]
            exact same x (List.mem_cons_of_mem b member))
        refine ⟨later, ?_, trimmedLater, ?_⟩
        · rw [List.foldlM_cons]
          change (deleteDeadWrites b ((nodes.block b).instrs.map isDeadWrite)
            ([] : List (BlockInstruction ι)).length now >>= _) = _
          rw [deleted]
          exact ran
        · intro x
          rw [instrsLater, instrs]
          by_cases later : x ∈ rest
          · rw [if_pos later, if_pos (List.mem_cons_of_mem b later)]
          · rw [if_neg later]
            by_cases here : x = b
            · rw [if_pos here, if_pos (here ▸ List.mem_cons_self), here]
              rfl
            · rw [if_neg here, if_neg]
              exact fun member => (List.mem_cons.mp member).elim here later
  exact run blocks once nodes ⟨balanced, rfl, fun _ => rfl, fun _ => rfl⟩ (fun _ _ => rfl)

end Nodes

end Drob
