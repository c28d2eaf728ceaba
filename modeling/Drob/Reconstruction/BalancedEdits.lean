import Drob.Passes.DeadCodeRuns
import Drob.Validity.TraversalRuns

/-!
The edits that build a function keep every edge listed once at both of its ends: decoding a
block, splitting a block, and resolving the destination of a branch.
-/

namespace Drob

namespace Nodes

variable {ι : Type} [DecidableEq ι] {nodes later : Nodes ι} {b fresh : ι}

/-! ### Moving edges to a new block -/

structure EdgesMoved (b fresh : ι) (moved : List (BlockInstruction ι))
    (nodes later : Nodes ι) : Prop where
  entry : later.entryBlock = nodes.entryBlock
  instrs : ∀ x, (later.block x).instrs = (nodes.block x).instrs
  outgoing : ∀ x n, (later.block x).outgoingEdges.count n =
    if x = b then (nodes.block b).outgoingEdges.count n - moved.countP (leadsTo n)
    else if x = fresh then (nodes.block fresh).outgoingEdges.count n + moved.countP (leadsTo n)
    else (nodes.block x).outgoingEdges.count n
  incoming : ∀ x n, (later.block n).incomingEdges.count x =
    if x = b then (nodes.block n).incomingEdges.count b - moved.countP (leadsTo n)
    else if x = fresh then (nodes.block n).incomingEdges.count fresh + moved.countP (leadsTo n)
    else (nodes.block n).incomingEdges.count x

theorem EdgesMoved.nil (b fresh : ι) (nodes : Nodes ι) : EdgesMoved b fresh [] nodes nodes := by
  refine ⟨rfl, fun _ => rfl, ?_, ?_⟩
  · intro x n
    split
    · rename_i here
      rw [here, List.countP_nil, Nat.sub_zero]
    · split
      · rename_i here
        rw [here, List.countP_nil, Nat.add_zero]
      · rfl
  · intro x n
    split
    · rename_i here
      rw [here, List.countP_nil, Nat.sub_zero]
    · split
      · rename_i here
        rw [here, List.countP_nil, Nat.add_zero]
      · rfl

theorem EdgesMoved.trans {front back : List (BlockInstruction ι)} {middle : Nodes ι}
    (other : b ≠ fresh) (first : EdgesMoved b fresh front nodes middle)
    (second : EdgesMoved b fresh back middle later) :
    EdgesMoved b fresh (front ++ back) nodes later := by
  refine ⟨second.entry.trans first.entry, fun x => (second.instrs x).trans (first.instrs x), ?_, ?_⟩
  · intro x n
    rw [second.outgoing, first.outgoing, first.outgoing, first.outgoing, List.countP_append,
      if_pos rfl, if_neg other.symm, if_pos rfl]
    split
    · omega
    · split <;> omega
  · intro x n
    rw [second.incoming, first.incoming, first.incoming, first.incoming, List.countP_append,
      if_pos rfl, if_neg other.symm, if_pos rfl]
    split
    · omega
    · split <;> omega

theorem countP_singleton_of_edge {instr : BlockInstruction ι} {dst : ι}
    (edge : instr.branchEdge = some dst) (n : ι) :
    [instr].countP (leadsTo n) = if dst = n then 1 else 0 := by
  rw [count_eq_countP, edge, List.countP_nil, Nat.zero_add]
  simp only [Option.some.injEq]

theorem moveEdge_moved (other : b ≠ fresh) {instr : BlockInstruction ι} {dst : ι}
    (edge : instr.branchEdge = some dst) (out : dst ∈ (nodes.block b).outgoingEdges)
    (listed : b ∈ (nodes.block dst).incomingEdges) :
    ∃ later, moveEdge b fresh nodes instr = .ok later ∧ EdgesMoved b fresh [instr] nodes later := by
  let grown := nodes.setBlock fresh
    { nodes.block fresh with outgoingEdges := (nodes.block fresh).outgoingEdges ++ [dst] }
  let renamed := grown.setBlock dst
    { grown.block dst with incomingEdges := (grown.block dst).incomingEdges.replace b fresh }
  have atGrown (x : ι) : grown.block x = if x = fresh then
      { nodes.block fresh with outgoingEdges := (nodes.block fresh).outgoingEdges ++ [dst] }
      else nodes.block x := block_setBlock nodes fresh x _
  have atRenamed (x : ι) : renamed.block x = if x = dst then
      { grown.block dst with incomingEdges := (grown.block dst).incomingEdges.replace b fresh }
      else grown.block x := block_setBlock grown dst x _
  have instrs (x : ι) : (renamed.block x).instrs = (nodes.block x).instrs := by
    rw [atRenamed, atGrown, atGrown]
    split
    · rename_i here
      rw [here]
      split
      · rename_i new
        rw [new]
      · rfl
    · split
      · rename_i new
        rw [new]
      · rfl
  have outgoing (x : ι) : (renamed.block x).outgoingEdges =
      if x = fresh then (nodes.block fresh).outgoingEdges ++ [dst]
      else (nodes.block x).outgoingEdges := by
    rw [atRenamed, atGrown, atGrown]
    split
    · rename_i here
      rw [here]
      dsimp only
      split <;> rfl
    · split <;> rfl
  have incoming (x : ι) : (renamed.block x).incomingEdges =
      if x = dst then (nodes.block dst).incomingEdges.replace b fresh
      else (nodes.block x).incomingEdges := by
    have same (y : ι) : (grown.block y).incomingEdges = (nodes.block y).incomingEdges := by
      rw [atGrown]
      split
      · rename_i new
        rw [new]
      · rfl
    rw [atRenamed]
    split
    · dsimp only
      rw [same]
    · exact same x
  have still : dst ∈ (renamed.block b).outgoingEdges := by
    rw [outgoing, if_neg other]
    exact out
  obtain ⟨later, ran, entry, blocks⟩ := removeOutgoingEdge_spec still
  have moves : moveEdge b fresh nodes instr = .ok later := by
    unfold moveEdge
    rw [edge]
    exact ran
  refine ⟨later, moves, entry, ?_, ?_, ?_⟩
  · intro x
    rw [blocks]
    split
    · rename_i here
      rw [here]
      exact instrs b
    · exact instrs x
  · intro x n
    rw [blocks, countP_singleton_of_edge edge]
    split
    · dsimp only
      rw [outgoing, if_neg other, List.count_erase]
      simp only [beq_iff_eq]
    · rw [outgoing]
      split
      · rw [List.count_append, List.count_singleton]
        simp only [beq_iff_eq]
      · rfl
  · intro x n
    have code : (later.block n).incomingEdges = (renamed.block n).incomingEdges := by
      rw [blocks]
      split
      · rename_i here
        rw [here]
      · rfl
    rw [code, incoming, countP_singleton_of_edge edge]
    by_cases here : n = dst
    · rw [if_pos here, if_pos here.symm, here, List.count_replace]
      have member : ((nodes.block dst).incomingEdges.contains b) = true :=
        List.contains_iff_mem.mpr listed
      rw [if_pos member]
      by_cases old : x = b
      · rw [if_pos old, old, if_neg (by simpa using other.symm), if_pos (beq_self_eq_true b)]
        rfl
      · rw [if_neg old]
        by_cases new : x = fresh
        · rw [if_pos new, new, if_pos (beq_self_eq_true fresh), if_neg (by simpa using other)]
          rfl
        · rw [if_neg new, if_neg (by simpa using fun same => new same.symm),
            if_neg (by simpa using fun same => old same.symm)]
          rfl
    · have apart : ¬ dst = n := fun same => here same.symm
      rw [if_neg here, if_neg apart]
      split
      · rename_i old
        rw [old, Nat.sub_zero]
      · split
        · rename_i new
          rw [new, Nat.add_zero]
        · rfl

theorem foldlM_moveEdge_moved (other : b ≠ fresh) (moved : List (BlockInstruction ι))
    (out : ∀ n, moved.countP (leadsTo n) ≤ (nodes.block b).outgoingEdges.count n)
    (listed : ∀ n, moved.countP (leadsTo n) ≤ (nodes.block n).incomingEdges.count b) :
    ∃ later, moved.foldlM (moveEdge b fresh) nodes = .ok later ∧
      EdgesMoved b fresh moved nodes later := by
  induction moved generalizing nodes with
  | nil => exact ⟨nodes, rfl, .nil b fresh nodes⟩
  | cons instr rest ih =>
      rw [List.foldlM_cons]
      have first : ∃ middle, moveEdge b fresh nodes instr = .ok middle ∧
          EdgesMoved b fresh [instr] nodes middle := by
        cases edge : instr.branchEdge with
        | none =>
            refine ⟨nodes, ?_, ?_⟩
            · unfold moveEdge
              rw [edge]
            · have none (n : ι) : [instr].countP (leadsTo n) = 0 := by
                rw [count_eq_countP, edge, List.countP_nil]
                rfl
              have stays : EdgesMoved b fresh [] nodes nodes := .nil b fresh nodes
              refine ⟨rfl, fun _ => rfl, ?_, ?_⟩
              · intro x n
                rw [none]
                exact stays.outgoing x n
              · intro x n
                rw [none]
                exact stays.incoming x n
        | some dst =>
            have outHere := out dst
            have listedHere := listed dst
            rw [count_eq_countP, if_pos edge] at outHere listedHere
            exact moveEdge_moved other edge (List.count_pos_iff.mp (by omega))
              (List.count_pos_iff.mp (by omega))
      obtain ⟨middle, ran, moves⟩ := first
      have split (n : ι) : (instr :: rest).countP (leadsTo n) =
          [instr].countP (leadsTo n) + rest.countP (leadsTo n) := by
        rw [← List.countP_append]
        rfl
      have outNow (n : ι) : rest.countP (leadsTo n) ≤ (middle.block b).outgoingEdges.count n := by
        have enough := out n
        rw [split] at enough
        rw [moves.outgoing, if_pos rfl]
        omega
      have listedNow (n : ι) :
          rest.countP (leadsTo n) ≤ (middle.block n).incomingEdges.count b := by
        have enough := listed n
        rw [split] at enough
        rw [moves.incoming, if_pos rfl]
        omega
      obtain ⟨later, others, more⟩ := ih outNow listedNow
      rw [ran]
      exact ⟨later, others, moves.trans other more⟩

/-! ### Splitting a block -/

structure SplitInto (b : ι) (kept : ℕ) (fresh : ι) (nodes later : Nodes ι) : Prop where
  entry : later.entryBlock = nodes.entryBlock.or (some fresh)
  next : ∀ x, (later.block x).next =
    if x = fresh then (nodes.block b).next
    else if x = b then some fresh else (nodes.block x).next
  instrs : ∀ x, (later.block x).instrs =
    if x = fresh then (nodes.block b).instrs.drop kept
    else if x = b then (nodes.block b).instrs.take kept else (nodes.block x).instrs

theorem instrs_splitChain (nodes : Nodes ι) (b : ι) (kept : ℕ) (fresh x : ι) :
    ((nodes.splitChain b kept fresh).block x).instrs =
      if x = fresh then (nodes.block b).instrs.drop kept
      else if x = b then (nodes.block b).instrs.take kept else (nodes.block x).instrs := by
  unfold splitChain
  dsimp only
  split
  · rfl
  · split
    · rfl
    · split <;> rfl

theorem edges_splitChain (unallocated : nodes.Unallocated fresh) (b : ι) (kept : ℕ) (x : ι) :
    ((nodes.splitChain b kept fresh).block x).outgoingEdges = (nodes.block x).outgoingEdges ∧
      ((nodes.splitChain b kept fresh).block x).incomingEdges =
        (nodes.block x).incomingEdges := by
  unfold splitChain
  dsimp only
  split
  · rename_i new
    rw [new, unallocated.empty]
    exact ⟨rfl, rfl⟩
  · split
    · rename_i old
      rw [old]
      exact ⟨rfl, rfl⟩
    · split <;> exact ⟨rfl, rfl⟩

theorem Balanced.splitBlock (balanced : nodes.Balanced) (unallocated : nodes.Unallocated fresh)
    (other : b ≠ fresh) (kept : ℕ) :
    ∃ later, nodes.splitBlock b kept fresh = .ok later ∧ later.Balanced ∧
      SplitInto b kept fresh nodes later := by
  have edges := edges_splitChain unallocated b kept
  have parts (n : ι) : (nodes.block b).instrs.countP (leadsTo n) =
      ((nodes.block b).instrs.take kept).countP (leadsTo n) +
        ((nodes.block b).instrs.drop kept).countP (leadsTo n) := by
    rw [← List.countP_append, List.take_append_drop]
  have noInstrs (n : ι) : (nodes.block fresh).instrs.countP (leadsTo n) = 0 := by
    rw [unallocated.empty]
    rfl
  obtain ⟨moved, ran, moves⟩ := foldlM_moveEdge_moved other ((nodes.block b).instrs.drop kept)
    (fun n => by
      rw [(edges b).1, balanced.outgoing, parts]
      omega)
    (fun n => by
      rw [(edges n).2, balanced.incoming, parts]
      omega)
  have blocks : (((moved.invalidate b .stack).invalidate fresh .liveness).invalidate fresh
      .stack).block = moved.block := by
    rw [block_invalidate, block_invalidate, block_invalidate]
  have returned : nodes.splitBlock b kept fresh =
      .ok (((moved.invalidate b .stack).invalidate fresh .liveness).invalidate fresh .stack) := by
    unfold Nodes.splitBlock
    rw [ran]
    rfl
  refine ⟨_, returned, ⟨?_, ?_⟩, ⟨?_, ?_, ?_⟩⟩
  · intro x n
    rw [blocks, moves.outgoing, moves.instrs, instrs_splitChain, (edges b).1, (edges fresh).1,
      (edges x).1, balanced.outgoing, balanced.outgoing, balanced.outgoing, parts, noInstrs]
    by_cases old : x = b
    · rw [if_pos old, if_neg (old ▸ other), if_pos old]
      omega
    · rw [if_neg old]
      by_cases new : x = fresh
      · rw [if_pos new, if_pos new, Nat.zero_add]
      · rw [if_neg new, if_neg new, if_neg old]
  · intro x n
    rw [blocks, moves.incoming, moves.instrs, instrs_splitChain, (edges n).2, balanced.incoming,
      balanced.incoming, balanced.incoming, parts, noInstrs]
    by_cases old : x = b
    · rw [if_pos old, if_neg (old ▸ other), if_pos old]
      omega
    · rw [if_neg old]
      by_cases new : x = fresh
      · rw [if_pos new, if_pos new, Nat.zero_add]
      · rw [if_neg new, if_neg new, if_neg old]
  · rw [entryBlock_invalidate, entryBlock_invalidate, entryBlock_invalidate]
    exact moves.entry
  · intro x
    rw [(keeps_splitBlock returned).next, next_splitChain]
  · intro x
    rw [blocks, moves.instrs, instrs_splitChain]

/-! ### Decoding a block -/

theorem block_decodeBlock (nodes : Nodes ι) (fresh x : ι) (instrs : List Instruction) :
    (nodes.decodeBlock fresh instrs).block x =
      if x = fresh then
        { FunctionCfg.removedBlock with
          instrs := instrs.map (fun instruction =>
            { instruction, livenessData := none, branchEdge := none }) }
      else nodes.block x := by
  have same : ((nodes.invalidateFunction .liveness).invalidateFunction .liveness).block =
      nodes.block := by
    unfold invalidateFunction
    split <;> (try split) <;> rfl
  unfold decodeBlock newBlock
  dsimp only
  rw [same, Function.update_apply]

theorem Balanced.decodeBlock (balanced : nodes.Balanced) (unallocated : nodes.Unallocated fresh)
    (instrs : List Instruction) : (nodes.decodeBlock fresh instrs).Balanced := by
  have noEdges (n : ι) : (instrs.map (fun instruction =>
      ({ instruction, livenessData := none, branchEdge := none } :
        BlockInstruction ι))).countP (leadsTo n) = 0 := by
    rw [List.countP_eq_zero]
    intro instr member
    obtain ⟨instruction, _, rfl⟩ := List.mem_map.mp member
    unfold leadsTo
    simp
  have none (n : ι) : (nodes.block fresh).instrs.countP (leadsTo n) = 0 := by
    rw [unallocated.empty]
    rfl
  have incoming (n : ι) : ((nodes.decodeBlock fresh instrs).block n).incomingEdges =
      (nodes.block n).incomingEdges := by
    rw [block_decodeBlock]
    split
    · rename_i new
      rw [new, unallocated.empty]
    · rfl
  constructor
  · intro x n
    rw [block_decodeBlock]
    split
    · exact (noEdges n).symm
    · exact balanced.outgoing x n
  · intro x n
    rw [incoming, balanced.incoming, block_decodeBlock]
    split
    · rename_i new
      rw [new, none]
      exact (noEdges n).symm
    · rfl

/-! ### Resolving a branch -/

theorem block_addOutgoingEdge (nodes : Nodes ι) (src dst x : ι) :
    (nodes.addOutgoingEdge src dst).block x =
      if x = src then
        { nodes.block src with outgoingEdges := (nodes.block src).outgoingEdges ++ [dst] }
      else nodes.block x := by
  unfold addOutgoingEdge
  rw [block_setBlock, block_invalidate]

theorem block_setBranchEdge (nodes : Nodes ι) (src x : ι) (index : ℕ) (edge : Option ι) :
    (nodes.setBranchEdge src index edge).block x =
      if x = src then
        { nodes.block src with
          instrs := (nodes.block src).instrs.modify index (fun instr =>
            { instr with branchEdge := edge }) }
      else nodes.block x :=
  block_setBlock nodes src x _

theorem instrs_addBranchEdge (nodes : Nodes ι) (src dst x : ι) (index : ℕ) :
    ((nodes.addBranchEdge src index dst).block x).instrs =
      if x = src then (nodes.block src).instrs.modify index (fun instr =>
        { instr with branchEdge := some dst })
      else (nodes.block x).instrs := by
  unfold addBranchEdge
  rw [sameCode_addIncomingEdge, block_addOutgoingEdge, block_setBranchEdge, block_setBranchEdge,
    if_pos rfl]
  split <;> rfl

theorem edges_addBranchEdge (nodes : Nodes ι) (src dst x : ι) (index : ℕ) :
    ((nodes.addBranchEdge src index dst).block x).outgoingEdges =
        (if x = src then (nodes.block src).outgoingEdges ++ [dst]
        else (nodes.block x).outgoingEdges) ∧
      ((nodes.addBranchEdge src index dst).block x).incomingEdges =
        if x = dst then (nodes.block dst).incomingEdges ++ [src]
        else (nodes.block x).incomingEdges := by
  have set (y : ι) : ((nodes.setBranchEdge src index (some dst)).block y).incomingEdges =
      (nodes.block y).incomingEdges := by
    rw [block_setBranchEdge]
    split
    · rename_i here
      rw [here]
    · rfl
  have added (y : ι) : (((nodes.setBranchEdge src index (some dst)).addOutgoingEdge src
      dst).block y).incomingEdges = (nodes.block y).incomingEdges := by
    rw [block_addOutgoingEdge]
    split
    · rename_i here
      rw [here]
      exact set src
    · exact set y
  constructor
  · unfold addBranchEdge
    rw [sameCode_addIncomingEdge, block_addOutgoingEdge, block_setBranchEdge, block_setBranchEdge,
      if_pos rfl]
    split <;> rfl
  · unfold addBranchEdge
    rw [incomingEdges_addIncomingEdge, added, added]

theorem countP_modify {instrs : List (BlockInstruction ι)} {index : ℕ}
    {instr : BlockInstruction ι} (found : instrs[index]? = some instr)
    (open_ : instr.branchEdge = none) (dst n : ι) :
    (instrs.modify index (fun instr => { instr with branchEdge := some dst })).countP (leadsTo n) =
      instrs.countP (leadsTo n) + if dst = n then 1 else 0 := by
  induction instrs generalizing index with
  | nil => cases found
  | cons first rest ih =>
      cases index with
      | zero =>
          cases found
          rw [List.modify_zero_cons, count_eq_countP, count_eq_countP, open_]
          simp only [Option.some.injEq, reduceCtorEq, if_false, Nat.add_zero]
      | succ index =>
          rw [List.modify_succ_cons, count_eq_countP, count_eq_countP, ih found]
          omega

theorem Balanced.addBranchEdge (balanced : nodes.Balanced) {src : ι} {index : ℕ}
    {instr : BlockInstruction ι} (found : (nodes.block src).instrs[index]? = some instr)
    (open_ : instr.branchEdge = none) (dst : ι) :
    (nodes.addBranchEdge src index dst).Balanced := by
  constructor
  · intro x n
    rw [(edges_addBranchEdge nodes src dst x index).1, instrs_addBranchEdge]
    split
    · rw [List.count_append, List.count_singleton, countP_modify found open_, balanced.outgoing]
      simp only [beq_iff_eq]
    · exact balanced.outgoing x n
  · intro x n
    rw [(edges_addBranchEdge nodes src dst n index).2, instrs_addBranchEdge]
    by_cases atSrc : x = src
    · rw [if_pos atSrc, countP_modify found open_, atSrc]
      split
      · rename_i atDst
        rw [List.count_append, List.count_singleton, if_pos (beq_self_eq_true src),
          if_pos atDst.symm, balanced.incoming, atDst]
      · rename_i atDst
        rw [if_neg (fun same => atDst same.symm), balanced.incoming]
        rfl
    · rw [if_neg atSrc]
      split
      · rename_i atDst
        rw [List.count_append, List.count_singleton,
          if_neg (by simpa using fun same => atSrc same.symm), balanced.incoming, atDst]
        rfl
      · exact balanced.incoming x n

end Nodes

end Drob
