import Drob.Passes.LoopRuns
import Drob.Validity.Blocks

/-!
Unrolling a loop of a single block keeps the runs, for any number of copies.
-/

namespace Drob

namespace Nodes

open FunctionCfg

variable {ι : Type} [DecidableEq ι] {nodes later : Nodes ι} {b copy fresh : ι}

def cfg (nodes : Nodes ι) (entry : ι) : FunctionCfg ι :=
  { block := nodes.block, entryBlock := entry }

@[simp]
theorem entryBlock_invalidate (nodes : Nodes ι) (b : ι) (a : Analysis) :
    (nodes.invalidate b a).entryBlock = nodes.entryBlock := by
  unfold invalidate invalidateFunction
  split
  · split <;> rfl
  · rfl

omit [DecidableEq ι] in
theorem count_eq_countP [DecidableEq ι] (n : ι) (instr : BlockInstruction ι)
    (rest : List (BlockInstruction ι)) :
    (instr :: rest).countP (leadsTo n) =
      rest.countP (leadsTo n) + if instr.branchEdge = some n then 1 else 0 := by
  rw [List.countP_cons]
  unfold leadsTo
  simp only [decide_eq_true_eq]

/-! ### Edges -/

theorem incomingEdges_addIncomingEdge (nodes : Nodes ι) (dst src x : ι) :
    ((nodes.addIncomingEdge dst src).block x).incomingEdges =
      if x = dst then (nodes.block dst).incomingEdges ++ [src]
      else (nodes.block x).incomingEdges := by
  unfold addIncomingEdge
  rw [block_setBlock, block_invalidate]
  split <;> rfl

def SameCode (before after : SuperBlock ι) : Prop :=
  after = { before with incomingEdges := after.incomingEdges }

omit [DecidableEq ι] in
theorem SameCode.trans {first second third : SuperBlock ι} (left : SameCode first second)
    (right : SameCode second third) : SameCode first third := by
  unfold SameCode at left right ⊢
  rw [right, left]

theorem sameCode_addIncomingEdge (nodes : Nodes ι) (dst src x : ι) :
    SameCode (nodes.block x) ((nodes.addIncomingEdge dst src).block x) := by
  unfold addIncomingEdge
  rw [block_setBlock, block_invalidate]
  split
  · rename_i here
    rw [here]
    rfl
  · rfl

theorem removeIncomingEdge_spec {dst src : ι} (listed : src ∈ (nodes.block dst).incomingEdges) :
    ∃ later, nodes.removeIncomingEdge dst src = .ok later ∧
      later.entryBlock = nodes.entryBlock ∧ (∀ x, SameCode (nodes.block x) (later.block x)) ∧
      ∀ x, (later.block x).incomingEdges =
        if x = dst then (nodes.block dst).incomingEdges.erase src
        else (nodes.block x).incomingEdges := by
  unfold removeIncomingEdge
  rw [if_pos listed]
  refine ⟨_, rfl, entryBlock_invalidate nodes dst .stack, ?_, ?_⟩
  · intro x
    rw [block_setBlock, block_invalidate]
    split
    · rename_i here
      rw [here]
      rfl
    · rfl
  · intro x
    rw [block_setBlock, block_invalidate]
    split <;> rfl

theorem removeOutgoingEdge_spec {dst src : ι} (listed : dst ∈ (nodes.block src).outgoingEdges) :
    ∃ later, nodes.removeOutgoingEdge src dst = .ok later ∧
      later.entryBlock = nodes.entryBlock ∧
      ∀ x, later.block x =
        if x = src then
          { nodes.block src with outgoingEdges := (nodes.block src).outgoingEdges.erase dst }
        else nodes.block x := by
  unfold removeOutgoingEdge
  rw [if_pos listed]
  refine ⟨_, rfl, entryBlock_invalidate nodes src .liveness, ?_⟩
  intro x
  rw [block_setBlock, block_invalidate]

/-! ### Retargeting the self branches -/

theorem retargetEdge_spec (other : copy ≠ b) (ends : List ι)
    (enough : ends.count b ≤ (nodes.block b).incomingEdges.count b) :
    ∃ later, ends.foldlM (retargetEdge b copy) nodes = .ok later ∧
      later.entryBlock = nodes.entryBlock ∧ (∀ x, SameCode (nodes.block x) (later.block x)) ∧
      (later.block copy).incomingEdges =
        (nodes.block copy).incomingEdges ++ List.replicate (ends.count b) b := by
  induction ends generalizing nodes with
  | nil => exact ⟨nodes, rfl, rfl, fun _ => rfl, (List.append_nil _).symm⟩
  | cons dst rest ih =>
      rw [List.foldlM_cons]
      unfold retargetEdge
      by_cases self : dst = b
      · rw [self, List.count_cons_self] at enough
        obtain ⟨apart, removed, entry, code, incoming⟩ := @removeIncomingEdge_spec _ _ nodes b b
          (List.count_pos_iff.mp (by omega))
        rw [if_pos self, removed, self, List.count_cons_self]
        have remaining : rest.count b ≤
            ((apart.addIncomingEdge copy b).block b).incomingEdges.count b := by
          rw [incomingEdges_addIncomingEdge, if_neg other.symm, incoming, if_pos rfl,
            List.count_erase_self]
          omega
        obtain ⟨later, ran, entryLater, codeLater, listed⟩ := ih remaining
        refine ⟨later, ran, ?_, ?_, ?_⟩
        · rw [entryLater]
          exact (entryBlock_invalidate apart copy .stack).trans entry
        · intro x
          exact ((code x).trans (sameCode_addIncomingEdge apart copy b x)).trans (codeLater x)
        · rw [listed, incomingEdges_addIncomingEdge, if_pos rfl, incoming, if_neg other,
            List.append_assoc, List.replicate_succ]
          rfl
      · rw [List.count_cons_of_ne self] at enough ⊢
        rw [if_neg self]
        exact ih enough

theorem retargetEdges_spec (other : copy ≠ b)
    (enough : (nodes.block b).outgoingEdges.count b ≤ (nodes.block b).incomingEdges.count b) :
    ∃ later, nodes.retargetEdges b copy = .ok later ∧ later.entryBlock = nodes.entryBlock ∧
      (∀ x, (later.block x).next = (nodes.block x).next ∧
        (later.block x).prev = (nodes.block x).prev) ∧
      (∀ x, (later.block x).instrs =
        if x = b then (nodes.block b).instrs.map (redirectInstr b copy)
        else (nodes.block x).instrs) ∧
      (∀ x, (later.block x).outgoingEdges =
        if x = b then (nodes.block b).outgoingEdges.map (redirect b copy)
        else (nodes.block x).outgoingEdges) ∧
      (later.block copy).incomingEdges = (nodes.block copy).incomingEdges ++
        List.replicate ((nodes.block b).outgoingEdges.count b) b := by
  obtain ⟨moved, ran, entry, code, listed⟩ := retargetEdge_spec other _ enough
  unfold retargetEdges
  rw [ran]
  refine ⟨_, rfl, entry, ?_, ?_, ?_, ?_⟩
  · intro x
    rw [block_setBlock]
    split
    · rename_i here
      rw [here, code b]
      exact ⟨rfl, rfl⟩
    · rw [code x]
      exact ⟨rfl, rfl⟩
  · intro x
    rw [block_setBlock]
    split
    · rw [code b]
    · rw [code x]
  · intro x
    rw [block_setBlock]
    split
    · rw [code b]
    · rw [code x]
  · rw [block_setBlock, if_neg other]
    exact listed

/-! ### Copying the block -/

def copiedInstr (b fresh : ι) (instr : BlockInstruction ι) : BlockInstruction ι :=
  { redirectInstr b fresh instr with livenessData := none }

theorem mirrors_copiedInstr (b fresh : ι) (instrs : List (BlockInstruction ι)) :
    List.Forall₂ (Mirrors b fresh) instrs (instrs.map (copiedInstr b fresh)) := by
  rw [List.forall₂_map_right_iff]
  exact List.forall₂_same.mpr (fun _ _ => ⟨rfl, rfl⟩)

theorem mirrors_redirectInstr (b fresh : ι) (instrs : List (BlockInstruction ι)) :
    List.Forall₂ (Mirrors b fresh) instrs (instrs.map (redirectInstr b fresh)) := by
  rw [List.forall₂_map_right_iff]
  exact List.forall₂_same.mpr (fun _ _ => ⟨rfl, rfl⟩)

structure Copied (b fresh : ι) (items : List (BlockInstruction ι)) (nodes later : Nodes ι) :
    Prop where
  entry : later.entryBlock = nodes.entryBlock
  others : ∀ x, x ≠ fresh → SameCode (nodes.block x) (later.block x)
  chain : (later.block fresh).next = (nodes.block fresh).next ∧
    (later.block fresh).prev = (nodes.block fresh).prev
  instrs : (later.block fresh).instrs =
    (nodes.block fresh).instrs ++ items.map (copiedInstr b fresh)
  outgoing : (later.block fresh).outgoingEdges.count fresh =
    (nodes.block fresh).outgoingEdges.count fresh +
      (items.map (copiedInstr b fresh)).countP (leadsTo fresh)
  incoming : (later.block fresh).incomingEdges.count fresh =
    (nodes.block fresh).incomingEdges.count fresh +
      (items.map (copiedInstr b fresh)).countP (leadsTo fresh)
  own : (later.block b).incomingEdges.count b = (nodes.block b).incomingEdges.count b

theorem copyInstruction_spec (other : b ≠ fresh) (instr : BlockInstruction ι) :
    Copied b fresh [instr] nodes (copyInstruction b fresh nodes instr) := by
  unfold copyInstruction
  cases edge : instr.branchEdge with
  | none =>
      have copied : copiedInstr b fresh instr =
          { instr with livenessData := none, branchEdge := none } := by
        unfold copiedInstr redirectInstr
        rw [edge]
        rfl
      have count : [copiedInstr b fresh instr].countP (leadsTo fresh) = 0 := by
        rw [count_eq_countP, copied]
        rfl
      refine ⟨rfl, ?_, ?_, ?_, ?_, ?_, ?_⟩ <;> dsimp only
      · intro x apart
        rw [block_setBlock, if_neg apart]
        rfl
      · rw [block_setBlock, if_pos rfl]
        exact ⟨rfl, rfl⟩
      · rw [block_setBlock, if_pos rfl, List.map_singleton, copied]
      · rw [block_setBlock, if_pos rfl, List.map_singleton, count]
        rfl
      · rw [block_setBlock, if_pos rfl, List.map_singleton, count]
        rfl
      · rw [block_setBlock, if_neg other]
  | some dst =>
      have copied : copiedInstr b fresh instr =
          { instr with livenessData := none, branchEdge := some (redirect b fresh dst) } := by
        unfold copiedInstr redirectInstr
        rw [edge]
        rfl
      have count : [copiedInstr b fresh instr].countP (leadsTo fresh) =
          if redirect b fresh dst = fresh then 1 else 0 := by
        rw [count_eq_countP, copied]
        simp only [Option.some.injEq, List.countP_nil, Nat.zero_add]
      have outgoing (x : ι) : ((nodes.addOutgoingEdge fresh (redirect b fresh dst)).block x) =
          if x = fresh then
            { nodes.block fresh with
              outgoingEdges := (nodes.block fresh).outgoingEdges ++ [redirect b fresh dst] }
          else nodes.block x := by
        unfold addOutgoingEdge
        rw [block_setBlock, block_invalidate]
      have code (x : ι) := sameCode_addIncomingEdge
        (nodes.addOutgoingEdge fresh (redirect b fresh dst)) (redirect b fresh dst) fresh x
      refine ⟨?_, ?_, ?_, ?_, ?_, ?_, ?_⟩ <;> dsimp only
      · exact (entryBlock_invalidate _ _ .stack).trans (entryBlock_invalidate nodes fresh .liveness)
      · intro x apart
        have same := code x
        rw [outgoing x, if_neg apart] at same
        rw [block_setBlock, if_neg apart]
        exact same
      · rw [block_setBlock, if_pos rfl, code fresh, outgoing fresh, if_pos rfl]
        exact ⟨rfl, rfl⟩
      · rw [block_setBlock, if_pos rfl, code fresh, outgoing fresh, if_pos rfl,
          List.map_singleton, copied]
      · rw [block_setBlock, if_pos rfl, code fresh, outgoing fresh, if_pos rfl,
          List.map_singleton, count, List.count_append, List.count_singleton]
        simp only [beq_iff_eq]
      · rw [block_setBlock, if_pos rfl, List.map_singleton, count]
        dsimp only
        rw [incomingEdges_addIncomingEdge, outgoing, outgoing]
        by_cases self : redirect b fresh dst = fresh
        · rw [self, if_pos rfl, if_pos rfl, if_pos rfl, List.count_append, List.count_singleton_self]
        · rw [if_neg (fun same => self same.symm), if_neg self, if_pos rfl, Nat.add_zero]
      · rw [block_setBlock, if_neg other, incomingEdges_addIncomingEdge, outgoing, outgoing]
        by_cases self : b = redirect b fresh dst
        · rw [if_pos self, ← self, if_neg other, List.count_append,
            List.count_singleton, if_neg (by simpa using other.symm), Nat.add_zero]
        · rw [if_neg self, if_neg other]

theorem Copied.trans {first second : List (BlockInstruction ι)} {middle : Nodes ι}
    (left : Copied b fresh first nodes middle) (right : Copied b fresh second middle later) :
    Copied b fresh (first ++ second) nodes later where
  entry := right.entry.trans left.entry
  others := fun x apart => (left.others x apart).trans (right.others x apart)
  chain := ⟨right.chain.1.trans left.chain.1, right.chain.2.trans left.chain.2⟩
  instrs := by rw [right.instrs, left.instrs, List.map_append, List.append_assoc]
  outgoing := by rw [right.outgoing, left.outgoing, List.map_append, List.countP_append, Nat.add_assoc]
  incoming := by rw [right.incoming, left.incoming, List.map_append, List.countP_append, Nat.add_assoc]
  own := right.own.trans left.own

theorem foldl_copyInstruction_spec (other : b ≠ fresh) (instrs : List (BlockInstruction ι))
    (nodes : Nodes ι) :
    Copied b fresh instrs nodes (instrs.foldl (copyInstruction b fresh) nodes) := by
  induction instrs generalizing nodes with
  | nil =>
      exact ⟨rfl, fun _ _ => rfl, ⟨rfl, rfl⟩, (List.append_nil _).symm, rfl, rfl, rfl⟩
  | cons instr rest ih =>
      rw [List.foldl_cons]
      exact (copyInstruction_spec other instr).trans (ih (copyInstruction b fresh nodes instr))

theorem copyBlock_spec (other : b ≠ fresh) (entered : nodes.entryBlock ≠ none) :
    (nodes.copyBlock b fresh).entryBlock = nodes.entryBlock ∧
      (∀ x, x ≠ fresh → SameCode (nodes.block x) ((nodes.copyBlock b fresh).block x)) ∧
      ((nodes.copyBlock b fresh).block fresh).next = none ∧
      ((nodes.copyBlock b fresh).block fresh).prev = none ∧
      ((nodes.copyBlock b fresh).block fresh).instrs =
        (nodes.block b).instrs.map (copiedInstr b fresh) ∧
      ((nodes.copyBlock b fresh).block fresh).outgoingEdges.count fresh =
        ((nodes.block b).instrs.map (copiedInstr b fresh)).countP (leadsTo fresh) ∧
      ((nodes.copyBlock b fresh).block fresh).incomingEdges.count fresh =
        ((nodes.block b).instrs.map (copiedInstr b fresh)).countP (leadsTo fresh) ∧
      ((nodes.copyBlock b fresh).block b).incomingEdges.count b =
        (nodes.block b).incomingEdges.count b := by
  have copied := foldl_copyInstruction_spec other (nodes.block b).instrs
    (nodes.newBlock fresh removedBlock)
  have made : (nodes.newBlock fresh removedBlock).block fresh = removedBlock :=
    by unfold newBlock; exact Function.update_self fresh removedBlock nodes.block
  have kept (x : ι) (apart : x ≠ fresh) :
      (nodes.newBlock fresh removedBlock).block x = nodes.block x :=
    by unfold newBlock; exact Function.update_of_ne apart removedBlock nodes.block
  have entry := copied.entry.trans
    (congrArg (fun made => made.entryBlock) (addBlock_of_entry entered fresh))
  refine ⟨entry, ?_, ?_, ?_, ?_, ?_, ?_, ?_⟩
  · intro x apart
    rw [← kept x apart]
    exact copied.others x apart
  · exact copied.chain.1.trans (by rw [made]; rfl)
  · exact copied.chain.2.trans (by rw [made]; rfl)
  · exact copied.instrs.trans (by rw [made]; rfl)
  · exact copied.outgoing.trans (by rw [made]; exact Nat.zero_add _)
  · exact copied.incoming.trans (by rw [made]; exact Nat.zero_add _)
  · exact copied.own.trans (by rw [kept b other])

/-! ### Splitting the block -/

omit [DecidableEq ι] in
structure Moved [DecidableEq ι] (b : ι) (nodes later : Nodes ι) : Prop where
  entry : later.entryBlock = nodes.entryBlock
  chain : ∀ x, (later.block x).next = (nodes.block x).next ∧
    (later.block x).prev = (nodes.block x).prev
  instrs : ∀ x, (later.block x).instrs = (nodes.block x).instrs
  outgoing : (later.block b).outgoingEdges.count b = (nodes.block b).outgoingEdges.count b
  incoming : (later.block b).incomingEdges = (nodes.block b).incomingEdges

theorem moveEdge_spec (other : b ≠ fresh) {instr : BlockInstruction ι} {dst : ι}
    (edge : instr.branchEdge = some dst) (away : dst ≠ b) (apart : dst ≠ fresh)
    (listed : dst ∈ (nodes.block b).outgoingEdges) :
    ∃ later, moveEdge b fresh nodes instr = .ok later ∧ Moved b nodes later ∧
      (later.block b).outgoingEdges = (nodes.block b).outgoingEdges.erase dst := by
  unfold moveEdge
  rw [edge]
  dsimp only
  have shown (x : ι) := block_setBlock (nodes.setBlock fresh
    { nodes.block fresh with outgoingEdges := (nodes.block fresh).outgoingEdges ++ [dst] }) dst x
  have first (x : ι) := block_setBlock nodes fresh x
    { nodes.block fresh with outgoingEdges := (nodes.block fresh).outgoingEdges ++ [dst] }
  have still : dst ∈ (((nodes.setBlock fresh
      { nodes.block fresh with outgoingEdges := (nodes.block fresh).outgoingEdges ++ [dst] }).setBlock
        dst
        { (nodes.setBlock fresh
            { nodes.block fresh with
              outgoingEdges := (nodes.block fresh).outgoingEdges ++ [dst] }).block dst with
          incomingEdges := ((nodes.setBlock fresh
            { nodes.block fresh with
              outgoingEdges := (nodes.block fresh).outgoingEdges ++ [dst] }).block dst).incomingEdges.replace
                b fresh }).block b).outgoingEdges := by
    rw [shown, if_neg (fun same => away same.symm), first, if_neg other]
    exact listed
  obtain ⟨later, ran, entry, blocks⟩ := removeOutgoingEdge_spec still
  refine ⟨later, ran, ⟨entry, ?_, ?_, ?_, ?_⟩, ?_⟩
  · intro x
    rw [blocks]
    by_cases here : x = b
    · rw [if_pos here, shown, if_neg (fun same => away same.symm), first, if_neg other, here]
      exact ⟨rfl, rfl⟩
    · rw [if_neg here, shown]
      by_cases there : x = dst
      · rw [if_pos there, first, if_neg apart, there]
        exact ⟨rfl, rfl⟩
      · rw [if_neg there, first]
        split
        · rename_i new
          rw [new]
          exact ⟨rfl, rfl⟩
        · exact ⟨rfl, rfl⟩
  · intro x
    rw [blocks]
    by_cases here : x = b
    · rw [if_pos here, shown, if_neg (fun same => away same.symm), first, if_neg other, here]
    · rw [if_neg here, shown]
      by_cases there : x = dst
      · rw [if_pos there, first, if_neg apart, there]
      · rw [if_neg there, first]
        split
        · rename_i new
          rw [new]
        · rfl
  · rw [blocks, if_pos rfl, shown, if_neg (fun same => away same.symm), first, if_neg other]
    exact List.count_erase_of_ne (fun same => away same.symm)
  · rw [blocks, if_pos rfl, shown, if_neg (fun same => away same.symm), first, if_neg other]
  · rw [blocks, if_pos rfl, shown, if_neg (fun same => away same.symm), first, if_neg other]

theorem foldlM_moveEdge_spec (other : b ≠ fresh) (instrs : List (BlockInstruction ι))
    (avoidsSelf : Avoids b instrs) (avoidsFresh : Avoids fresh instrs)
    (listed : ∀ n, instrs.countP (leadsTo n) ≤ (nodes.block b).outgoingEdges.count n) :
    ∃ later, instrs.foldlM (moveEdge b fresh) nodes = .ok later ∧ Moved b nodes later := by
  induction instrs generalizing nodes with
  | nil => exact ⟨nodes, rfl, rfl, fun _ => ⟨rfl, rfl⟩, fun _ => rfl, rfl, rfl⟩
  | cons instr rest ih =>
      rw [List.foldlM_cons]
      have self := avoidsSelf.tail
      have new := avoidsFresh.tail
      cases edge : instr.branchEdge with
      | none =>
          have stays : moveEdge b fresh nodes instr = .ok nodes := by
            unfold moveEdge
            rw [edge]
          rw [stays]
          refine ih self new ?_
          intro n
          have enough := listed n
          rw [count_eq_countP] at enough
          omega
      | some dst =>
          have away : dst ≠ b := by
            rintro rfl
            exact avoidsSelf instr List.mem_cons_self edge
          have apart : dst ≠ fresh := by
            rintro rfl
            exact avoidsFresh instr List.mem_cons_self edge
          have enough := listed dst
          rw [count_eq_countP, if_pos edge] at enough
          have present : dst ∈ (nodes.block b).outgoingEdges :=
            List.count_pos_iff.mp (by omega)
          obtain ⟨middle, first, moved, outgoing⟩ := moveEdge_spec other edge away apart present
          rw [first]
          have remaining (n : ι) :
              rest.countP (leadsTo n) ≤ (middle.block b).outgoingEdges.count n := by
            have enough := listed n
            rw [count_eq_countP, edge] at enough
            rw [outgoing, List.count_erase]
            by_cases same : dst = n
            · rw [if_pos (congrArg some same)] at enough
              rw [if_pos (beq_iff_eq.mpr same)]
              omega
            · rw [if_neg (fun equal => same (Option.some.inj equal))] at enough
              rw [if_neg (by simpa using same)]
              omega
          obtain ⟨later, ran, others⟩ := ih self new remaining
          refine ⟨later, ran, others.entry.trans moved.entry, ?_, ?_, ?_, ?_⟩
          · intro x
            exact ⟨(others.chain x).1.trans (moved.chain x).1, (others.chain x).2.trans (moved.chain x).2⟩
          · intro x
            exact (others.instrs x).trans (moved.instrs x)
          · exact others.outgoing.trans moved.outgoing
          · exact others.incoming.trans moved.incoming

/-- A block without a self branch behind `kept` instructions is split. -/
theorem splitBlock_spec (other : b ≠ fresh) (entered : nodes.entryBlock ≠ none) {kept : ℕ}
    {back : List (BlockInstruction ι)}
    (split : (nodes.block b).instrs.drop kept = back)
    (avoidsSelf : Avoids b back) (avoidsFresh : Avoids fresh back)
    (listed : ∀ n, back.countP (leadsTo n) ≤ (nodes.block b).outgoingEdges.count n) :
    ∃ later, nodes.splitBlock b kept fresh = .ok later ∧ later.entryBlock = nodes.entryBlock ∧
      (later.block b).instrs = (nodes.block b).instrs.take kept ∧
      (later.block b).next = some fresh ∧ (later.block fresh).instrs = back ∧
      (later.block fresh).next = (nodes.block b).next ∧
      (∀ x, x ≠ b → x ≠ fresh → (later.block x).instrs = (nodes.block x).instrs ∧
        (later.block x).next = (nodes.block x).next) ∧
      (later.block b).outgoingEdges.count b = (nodes.block b).outgoingEdges.count b ∧
      (later.block b).incomingEdges.count b = (nodes.block b).incomingEdges.count b := by
  have chained (x : ι) : (nodes.splitChain b kept fresh).block x =
      if x = fresh then
        { removedBlock with
          instrs := (nodes.block b).instrs.drop kept
          next := (nodes.block b).next
          prev := some b }
      else if x = b then
        { nodes.block b with
          instrs := (nodes.block b).instrs.take kept
          next := some fresh
          prev := if (nodes.block b).next = some b then some fresh else (nodes.block b).prev }
      else if (nodes.block b).next = some x then { nodes.block x with prev := some fresh }
      else nodes.block x := rfl
  have atBlock := chained b
  rw [if_neg other, if_pos rfl] at atBlock
  have atFresh := chained fresh
  rw [if_pos rfl] at atFresh
  have listedNow (n : ι) : back.countP (leadsTo n) ≤
      ((nodes.splitChain b kept fresh).block b).outgoingEdges.count n := by
    rw [atBlock]
    exact listed n
  obtain ⟨moved, ran, keeps⟩ :=
    foldlM_moveEdge_spec other back avoidsSelf avoidsFresh listedNow
  unfold splitBlock
  rw [split, ran]
  refine ⟨_, rfl, ?_, ?_, ?_, ?_, ?_, ?_, ?_, ?_⟩
  · simp only [entryBlock_invalidate]
    exact keeps.entry.trans
      (congrArg (fun made => made.entryBlock) (addBlock_of_entry entered fresh))
  · simp only [block_invalidate]
    rw [keeps.instrs, atBlock]
  · simp only [block_invalidate]
    rw [(keeps.chain b).1, atBlock]
  · simp only [block_invalidate]
    rw [keeps.instrs, atFresh]
    exact split
  · simp only [block_invalidate]
    rw [(keeps.chain fresh).1, atFresh]
  · intro x notBlock notFresh
    simp only [block_invalidate]
    rw [keeps.instrs, (keeps.chain x).1, chained, if_neg notFresh, if_neg notBlock]
    split <;> exact ⟨rfl, rfl⟩
  · simp only [block_invalidate]
    rw [keeps.outgoing, atBlock]
  · simp only [block_invalidate]
    rw [keeps.incoming, atBlock]

/-! ### The explicit jump -/

omit [DecidableEq ι] in
theorem jumpsTo_chainJump (dst : ι) : JumpsTo (chainJump dst) dst :=
  JumpsTo.of_branch rfl rfl rfl

theorem unchainNext_code {n : ι} (next : (nodes.block b).next = some n) (other : n ≠ b) :
    (nodes.unchainNext b).entryBlock = nodes.entryBlock ∧
      (∀ x, ((nodes.unchainNext b).block x).instrs =
        if x = b then (nodes.block b).instrs ++ [chainJump n] else (nodes.block x).instrs) ∧
      (∀ x, ((nodes.unchainNext b).block x).next =
        if x = b then none else (nodes.block x).next) ∧
      ((nodes.unchainNext b).block b).outgoingEdges.count b =
        (nodes.block b).outgoingEdges.count b ∧
      ((nodes.unchainNext b).block b).incomingEdges.count b =
        (nodes.block b).incomingEdges.count b := by
  obtain ⟨_, entry, nexts, _⟩ := unchainNext_spec next
  have added (x : ι) : ((nodes.setBlock b
      { nodes.block b with instrs := (nodes.block b).instrs ++ [chainJump n] }).addOutgoingEdge b
        n).block x =
      if x = b then
        { nodes.block b with
          instrs := (nodes.block b).instrs ++ [chainJump n]
          outgoingEdges := (nodes.block b).outgoingEdges ++ [n] }
      else nodes.block x := by
    unfold addOutgoingEdge
    rw [block_setBlock, block_invalidate, block_setBlock]
    split
    · rw [if_pos rfl]
    · rename_i apart
      rw [block_setBlock, if_neg apart]
  have code (x : ι) := sameCode_addIncomingEdge ((nodes.setBlock b
    { nodes.block b with instrs := (nodes.block b).instrs ++ [chainJump n] }).addOutgoingEdge b n)
      n b x
  refine ⟨entry, ?_, nexts, ?_, ?_⟩
  · intro x
    unfold unchainNext
    rw [next]
    dsimp only
    rw [code x, added]
    split
    · rfl
    · rfl
  · unfold unchainNext
    rw [next]
    dsimp only
    rw [code b, added, if_pos rfl]
    dsimp only
    rw [List.count_append, List.count_singleton, if_neg (by simpa using other), Nat.add_zero]
  · unfold unchainNext
    rw [next]
    dsimp only
    rw [incomingEdges_addIncomingEdge, if_neg other.symm, added, if_pos rfl]

/-! ### Chaining the copy -/

theorem removeInstruction_spec {index : ℕ} {instr : BlockInstruction ι}
    (found : (nodes.block b).instrs[index]? = some instr) (edge : instr.branchEdge = some copy)
    (other : copy ≠ b) (out : copy ∈ (nodes.block b).outgoingEdges)
    (listed : b ∈ (nodes.block copy).incomingEdges) :
    ∃ later, nodes.removeInstruction b index = .ok later ∧
      later.entryBlock = nodes.entryBlock ∧
      (∀ x, (later.block x).next = (nodes.block x).next ∧
        (later.block x).prev = (nodes.block x).prev) ∧
      (∀ x, (later.block x).instrs =
        if x = b then (nodes.block b).instrs.eraseIdx index else (nodes.block x).instrs) ∧
      (later.block copy).outgoingEdges = (nodes.block copy).outgoingEdges ∧
      (later.block copy).incomingEdges = (nodes.block copy).incomingEdges.erase b := by
  have told (x : ι) : (nodes.invalidateBoth b).block x = nodes.block x := by
    unfold invalidateBoth
    rw [block_invalidate, block_invalidate]
  have outNow : copy ∈ ((nodes.invalidateBoth b).block b).outgoingEdges := by
    rw [told]
    exact out
  obtain ⟨apart, first, entry, blocks⟩ := removeOutgoingEdge_spec outNow
  have atCopy : apart.block copy = nodes.block copy := by
    rw [blocks, if_neg other, told]
  have listedNow : b ∈ (apart.block copy).incomingEdges := by
    rw [atCopy]
    exact listed
  obtain ⟨cleaned, second, entryCleaned, code, incoming⟩ := removeIncomingEdge_spec listedNow
  unfold removeInstruction
  rw [found]
  dsimp only
  have ran : cleanupInstruction b (nodes.invalidateBoth b) instr = .ok cleaned := by
    unfold cleanupInstruction
    rw [edge]
    dsimp only
    unfold invalidateEdge
    rw [first]
    exact second
  rw [ran]
  refine ⟨_, rfl, ?_, ?_, ?_, ?_, ?_⟩
  · refine (entryCleaned.trans entry).trans ?_
    unfold invalidateBoth
    rw [entryBlock_invalidate, entryBlock_invalidate]
  · intro x
    rw [block_setBlock]
    by_cases here : x = b
    · rw [if_pos here, code b, blocks, if_pos rfl, told, here]
      exact ⟨rfl, rfl⟩
    · rw [if_neg here, code x, blocks, if_neg here, told]
      exact ⟨rfl, rfl⟩
  · intro x
    rw [block_setBlock]
    by_cases here : x = b
    · rw [if_pos here, if_pos here]
    · rw [if_neg here, if_neg here, code x, blocks, if_neg here, told]
  · rw [block_setBlock, if_neg other, code copy, atCopy]
  · rw [block_setBlock, if_neg other, incoming, if_pos rfl, atCopy]

theorem chainInverted_spec {front : List (BlockInstruction ι)}
    {branch lastInstruction : BlockInstruction ι}
    (shape : (nodes.block b).instrs = front ++ [branch, lastInstruction])
    (toCopy : branch.branchEdge = some copy) (other : copy ≠ b)
    (out : copy ∈ (nodes.block b).outgoingEdges) (listed : b ∈ (nodes.block copy).incomingEdges)
    (prev : (nodes.block copy).prev = none) (opcode : Opcode) :
    ∃ later, nodes.chainInverted b copy opcode lastInstruction = .ok later ∧
      later.entryBlock = nodes.entryBlock ∧
      (∀ x, (later.block x).instrs =
        if x = b then
          front ++ [{ lastInstruction with
            instruction := { lastInstruction.instruction with opcode } }]
        else (nodes.block x).instrs) ∧
      (∀ x, (later.block x).next = if x = b then some copy else (nodes.block x).next) ∧
      (later.block copy).outgoingEdges = (nodes.block copy).outgoingEdges ∧
      (later.block copy).incomingEdges = (nodes.block copy).incomingEdges.erase b := by
  have index : (nodes.block b).instrs[(nodes.block b).instrs.length - 2]? = some branch := by
    rw [shape]
    simp
  obtain ⟨removed, ran, entry, chain, instrs, outgoing, incoming⟩ :=
    removeInstruction_spec index toCopy other out listed
  have left : (removed.block b).instrs = front ++ [lastInstruction] := by
    have length : (front ++ [branch, lastInstruction]).length - 2 = front.length := by simp
    rw [instrs, if_pos rfl, shape, length, List.eraseIdx_append_of_length_le (le_refl _),
      Nat.sub_self]
    rfl
  have free : ¬ (removed.block copy).prev.isSome = true := by
    rw [(chain copy).2, prev]
    exact Bool.false_ne_true
  unfold chainInverted
  rw [ran]
  refine ⟨_, if_neg free, entry, ?_, ?_, outgoing, incoming⟩
  · intro x
    dsimp only
    by_cases here : x = b
    · rw [if_pos here, if_pos here, left, List.dropLast_concat]
    · rw [if_neg here, if_neg here, instrs, if_neg here]
  · intro x
    dsimp only
    rw [(chain x).1]

/-- A block at the end of its chain that ends with a self branch, and maybe a jump. -/
structure Looping (nodes : Nodes ι) (b : ι) : Prop where
  ends : (nodes.block b).next = none
  shape : ∃ front self, self.branchEdge = some b ∧ ((nodes.block b).instrs = front ++ [self] ∨
    ∃ dst, dst ≠ b ∧ (nodes.block b).instrs = front ++ [self, chainJump dst])
  outgoing : (nodes.block b).outgoingEdges.count b = (nodes.block b).instrs.countP (leadsTo b)
  incoming : (nodes.block b).incomingEdges.count b = (nodes.block b).instrs.countP (leadsTo b)

theorem chainToCopy_spec (entry : ι) (inside : ι → Prop) (other : copy ≠ b) (block : inside b)
    (new : inside copy) {front : List (BlockInstruction ι)} {self : BlockInstruction ι}
    (toCopy : self.branchEdge = some copy)
    (shape : (nodes.block b).instrs = front ++ [self] ∨
      ∃ dst, dst ≠ b ∧ dst ≠ copy ∧ (nodes.block b).instrs = front ++ [self, chainJump dst])
    (out : copy ∈ (nodes.block b).outgoingEdges) (listed : b ∈ (nodes.block copy).incomingEdges)
    (prev : (nodes.block copy).prev = none) (looping : Looping nodes copy) :
    ∃ later, nodes.chainToCopy b copy = .ok later ∧ later.entryBlock = nodes.entryBlock ∧
      SameRuns inside (nodes.cfg entry) (later.cfg entry) ∧ Looping later copy ∧
      ∀ x, x ≠ copy → (nodes.cfg entry).Unused x → (later.cfg entry).Unused x := by
  unfold chainToCopy
  rcases shape with single | ⟨dst, away, apart, pair⟩
  · rw [single, List.getLast?_concat]
    dsimp only
    rw [toCopy]
    dsimp only
    rw [if_pos rfl]
    exact ⟨nodes, rfl, rfl, SameRuns.refl inside _, looping, fun _ _ => id⟩
  · have split : front ++ [self, chainJump dst] = (front ++ [self]) ++ [chainJump dst] := by simp
    rw [pair, split, List.getLast?_concat, List.dropLast_concat, List.getLast?_concat]
    dsimp only [chainJump]
    rw [if_neg apart, if_neg (by decide)]
    cases found : archInvertBranch self.instruction.opcode with
    | none => exact ⟨nodes, rfl, rfl, SameRuns.refl inside _, looping, fun _ _ => id⟩
    | some opcode =>
        obtain ⟨later, ran, entryLater, instrs, nexts, outgoing, incoming⟩ :=
          chainInverted_spec pair toCopy other out listed prev opcode
        obtain ⟨predicate, opposite, isBranch, conditional, isOther, conditionalOther, negates⟩ :=
          archInvertBranch_spec found self.instruction.rawOperands
            (chainJump dst).instruction.rawOperands
        have inverts : Inverts (nodes.cfg entry) (later.cfg entry) b copy dst front self
            (chainJump dst)
            { chainJump dst with instruction := { (chainJump dst).instruction with opcode } } :=
          { entry := rfl
            block := pair
            replaced := (instrs b).trans (if_pos rfl)
            falls := (nexts b).trans (if_pos rfl)
            instrs := fun x notBlock => (instrs x).trans (if_neg notBlock)
            others := fun x notBlock => (nexts x).trans (if_neg notBlock)
            other := other
            away := away
            toCopy := toCopy
            jumps := jumpsTo_chainJump dst
            target := rfl
            opposite :=
              ⟨predicate, opposite, isBranch, conditional, isOther, conditionalOther, negates⟩ }
        refine ⟨later, ran, entryLater, inverts.sameRuns block new, ⟨?_, ?_, ?_, ?_⟩,
          fun x differs unused => inverts.unused_later unused differs⟩
        · rw [nexts, if_neg other]
          exact looping.ends
        · rw [instrs, if_neg other]
          exact looping.shape
        · rw [instrs, if_neg other, outgoing]
          exact looping.outgoing
        · rw [instrs, if_neg other, incoming, List.count_erase_of_ne other]
          exact looping.incoming

/-! ### Copies in a row -/

theorem copy_spec (entry : ι) (inside : ι → Prop) (block : inside b) (new : inside copy)
    (looping : Looping nodes b) (unused : (nodes.cfg entry).Unused copy) (other : copy ≠ b)
    (entered : nodes.entryBlock ≠ none) :
    ∃ later, (do
        let retargeted ← (nodes.copyBlock b copy).retargetEdges b copy
        retargeted.chainToCopy b copy) = .ok later ∧ later.entryBlock = nodes.entryBlock ∧
      SameRuns inside (nodes.cfg entry) (later.cfg entry) ∧ Looping later copy ∧
      ∀ x, x ≠ copy → (nodes.cfg entry).Unused x → (later.cfg entry).Unused x := by
  obtain ⟨entryCopied, code, nextCopy, prevCopy, instrsCopy, outsCopy, insCopy, own⟩ :=
    copyBlock_spec other.symm entered
  have codeBlock := code b other.symm
  have outgoing : ((nodes.copyBlock b copy).block b).outgoingEdges =
      (nodes.block b).outgoingEdges := by rw [codeBlock]
  have enough : ((nodes.copyBlock b copy).block b).outgoingEdges.count b ≤
      ((nodes.copyBlock b copy).block b).incomingEdges.count b := by
    rw [outgoing, own, looping.outgoing, looping.incoming]
  obtain ⟨retargeted, ran, entryRetargeted, chain, instrs, outgoings, incoming⟩ :=
    retargetEdges_spec other enough
  have instrsBlock : (retargeted.block b).instrs =
      (nodes.block b).instrs.map (redirectInstr b copy) := by
    rw [instrs, if_pos rfl, codeBlock]
  have instrsFresh : (retargeted.block copy).instrs =
      (nodes.block b).instrs.map (copiedInstr b copy) := by
    rw [instrs, if_neg other, instrsCopy]
  have copies : Copies (nodes.cfg entry) (retargeted.cfg entry) b copy := by
    refine ⟨unused, rfl, looping.ends, ?_, ?_, ?_, ?_, ?_, ?_⟩
    · exact (chain b).1.trans (by rw [codeBlock]; exact looping.ends)
    · exact (chain copy).1.trans nextCopy
    · change List.Forall₂ _ _ (retargeted.block b).instrs
      rw [instrsBlock]
      exact mirrors_redirectInstr b copy _
    · change List.Forall₂ _ _ (retargeted.block copy).instrs
      rw [instrsFresh]
      exact mirrors_copiedInstr b copy _
    · intro x notBlock notCopy
      exact (instrs x).trans (by rw [if_neg notBlock, code x notCopy]; rfl)
    · intro x notBlock notCopy
      exact (chain x).1.trans (by rw [code x notCopy]; rfl)
  obtain ⟨front, self, toSelf, shape⟩ := looping.shape
  have toCopy (redirected : BlockInstruction ι)
      (edge : redirected.branchEdge = self.branchEdge.map (redirect b copy)) :
      redirected.branchEdge = some copy := by
    rw [edge, toSelf]
    exact congrArg some (if_pos rfl)
  have apart {dst : ι} (pair : (nodes.block b).instrs = front ++ [self, chainJump dst]) :
      dst ≠ copy := by
    rintro rfl
    have avoids : Avoids dst (nodes.block b).instrs := unused.avoids b
    rw [pair] at avoids
    exact avoids (chainJump dst) (by simp) rfl
  have jumpStays {dst : ι} (away : dst ≠ b) :
      redirectInstr b copy (chainJump dst) = chainJump dst := by
    unfold redirectInstr chainJump redirect
    simp [away]
  have selfMember : self ∈ (nodes.block b).instrs := by
    rcases shape with single | ⟨dst, _, pair⟩
    · rw [single]
      simp
    · rw [pair]
      simp
  have listed : 0 < (nodes.block b).outgoingEdges.count b := by
    rw [looping.outgoing, List.countP_pos_iff]
    exact ⟨self, selfMember, decide_eq_true toSelf⟩
  have loopingCopy : Looping retargeted copy := by
    refine ⟨(chain copy).1.trans nextCopy, ?_, ?_, ?_⟩
    · refine ⟨front.map (copiedInstr b copy), copiedInstr b copy self, toCopy _ rfl, ?_⟩
      rw [instrsFresh]
      rcases shape with single | ⟨dst, away, pair⟩
      · rw [single, List.map_append]
        exact Or.inl rfl
      · refine Or.inr ⟨dst, apart pair, ?_⟩
        rw [pair, List.map_append, List.map_cons, List.map_singleton]
        unfold copiedInstr
        rw [jumpStays away]
        rfl
    · rw [instrsFresh, outgoings, if_neg other]
      exact outsCopy
    · rw [instrsFresh, incoming, List.count_append, insCopy, List.count_replicate,
        if_neg (by simpa using other.symm), Nat.add_zero]
  have shapeBlock : (retargeted.block b).instrs =
        front.map (redirectInstr b copy) ++ [redirectInstr b copy self] ∨
      ∃ dst, dst ≠ b ∧ dst ≠ copy ∧ (retargeted.block b).instrs =
        front.map (redirectInstr b copy) ++ [redirectInstr b copy self, chainJump dst] := by
    rw [instrsBlock]
    rcases shape with single | ⟨dst, away, pair⟩
    · rw [single, List.map_append]
      exact Or.inl rfl
    · refine Or.inr ⟨dst, away, apart pair, ?_⟩
      rw [pair, List.map_append, List.map_cons, List.map_singleton, jumpStays away]
  have out : copy ∈ (retargeted.block b).outgoingEdges := by
    rw [outgoings, if_pos rfl, outgoing]
    exact List.mem_map.mpr ⟨b, List.count_pos_iff.mp listed, if_pos rfl⟩
  have listedCopy : b ∈ (retargeted.block copy).incomingEdges := by
    rw [incoming, outgoing]
    exact List.mem_append_right _ (List.mem_replicate.mpr ⟨by omega, rfl⟩)
  obtain ⟨later, chained, entryLater, runs, loopingLater, unusedLater⟩ :=
    chainToCopy_spec entry inside other block new (toCopy (redirectInstr b copy self) rfl)
      shapeBlock out listedCopy ((chain copy).2.trans prevCopy) loopingCopy
  refine ⟨later, ?_, ?_, ?_, loopingLater, ?_⟩
  · rw [ran]
    exact chained
  · exact entryLater.trans (entryRetargeted.trans entryCopied)
  · exact (copies.sameRuns block new).trans runs
  · intro x differs before
    exact unusedLater x differs (copies.unused_later before differs)

theorem unrollCopies_spec (entry : ι) (inside : ι → Prop) {fresh : ℕ → ι}
    (distinct : Function.Injective fresh) (new : ∀ i, inside (fresh i)) (count i : ℕ)
    (block : inside b) (looping : Looping nodes b) (entered : nodes.entryBlock ≠ none)
    (unused : ∀ j, i ≤ j → (nodes.cfg entry).Unused (fresh j) ∧ fresh j ≠ b) :
    ∃ later, unrollCopies fresh count i b nodes = .ok later ∧
      later.entryBlock = nodes.entryBlock ∧
      SameRuns inside (nodes.cfg entry) (later.cfg entry) := by
  induction count generalizing nodes b i with
  | zero => exact ⟨nodes, rfl, rfl, SameRuns.refl inside _⟩
  | succ count ih =>
      obtain ⟨free, other⟩ := unused i (le_refl i)
      obtain ⟨middle, copied, entryMiddle, runs, loopingMiddle, unusedMiddle⟩ :=
        copy_spec entry inside block (new i) looping free other entered
      have unusedNow (j : ℕ) (after : i + 1 ≤ j) :
          (middle.cfg entry).Unused (fresh j) ∧ fresh j ≠ fresh i := by
        have differs : fresh j ≠ fresh i := by
          intro same
          have equal := distinct same
          omega
        exact ⟨unusedMiddle _ differs (unused j (by omega)).1, differs⟩
      obtain ⟨later, ran, entryLater, more⟩ := ih (i + 1) (new i) loopingMiddle (by rw [entryMiddle]; exact entered) unusedNow
      obtain ⟨retargeted, first, second⟩ := bind_ok copied
      refine ⟨later, ?_, entryLater.trans entryMiddle, runs.trans more⟩
      unfold unrollCopies
      rw [first]
      change (do
        let chained ← retargeted.chainToCopy b (fresh i)
        unrollCopies fresh count (i + 1) (fresh i) chained) = _
      rw [second]
      exact ran

/-! ### The whole unrolling -/

theorem lastSelfBranch_none {instrs : List (BlockInstruction ι)}
    (none : lastSelfBranch b instrs = none) : Avoids b instrs := by
  induction instrs with
  | nil => nofun
  | cons instr rest ih =>
      unfold lastSelfBranch at none
      cases later : lastSelfBranch b rest with
      | some index =>
          rw [later] at none
          cases none
      | none =>
          rw [later] at none
          intro other member
          rcases List.mem_cons.mp member with rfl | inRest
          · intro edge
            rw [show leadsTo b other = true from decide_eq_true edge] at none
            cases none
          · exact ih later other inRest

theorem lastSelfBranch_some {instrs : List (BlockInstruction ι)} {index : ℕ}
    (found : lastSelfBranch b instrs = some index) :
    ∃ front self back, instrs = front ++ self :: back ∧ front.length = index ∧
      self.branchEdge = some b ∧ Avoids b back := by
  induction instrs generalizing index with
  | nil => cases found
  | cons instr rest ih =>
      unfold lastSelfBranch at found
      cases later : lastSelfBranch b rest with
      | some behind =>
          rw [later] at found
          cases found
          obtain ⟨front, self, back, split, length, toSelf, avoids⟩ := ih later
          exact ⟨instr :: front, self, back, by rw [split]; rfl, congrArg Nat.succ length, toSelf,
            avoids⟩
      | none =>
          rw [later] at found
          obtain ⟨leads, same⟩ : leadsTo b instr = true ∧ 0 = index := by
            cases leads : leadsTo b instr with
            | false =>
                rw [leads] at found
                cases found
            | true =>
                rw [leads] at found
                exact ⟨rfl, Option.some.inj found⟩
          exact ⟨[], instr, rest, rfl, same, of_decide_eq_true leads, lastSelfBranch_none later⟩

theorem unchainNext_looping (entry : ι) (inside : ι → Prop) (block : inside b)
    {front : List (BlockInstruction ι)} {self : BlockInstruction ι}
    (shape : (nodes.block b).instrs = front ++ [self]) (toSelf : self.branchEdge = some b)
    (notNext : (nodes.block b).next ≠ some b)
    (outgoing : (nodes.block b).outgoingEdges.count b = (nodes.block b).instrs.countP (leadsTo b))
    (incoming :
      (nodes.block b).incomingEdges.count b = (nodes.block b).instrs.countP (leadsTo b)) :
    (nodes.unchainNext b).entryBlock = nodes.entryBlock ∧
      SameRuns inside (nodes.cfg entry) ((nodes.unchainNext b).cfg entry) ∧
      Looping (nodes.unchainNext b) b ∧
      ∀ x, (nodes.cfg entry).Unused x → ((nodes.unchainNext b).cfg entry).Unused x := by
  cases next : (nodes.block b).next with
  | none =>
      have same : nodes.unchainNext b = nodes := by
        unfold unchainNext
        rw [next]
      rw [same]
      exact ⟨rfl, SameRuns.refl inside _,
        ⟨next, ⟨front, self, toSelf, Or.inl shape⟩, outgoing, incoming⟩, fun _ => id⟩
  | some n =>
      have other : n ≠ b := fun same => notNext (same ▸ next)
      obtain ⟨entryLater, instrs, nexts, outs, ins⟩ := unchainNext_code next other
      have count : ((nodes.block b).instrs ++ [chainJump n]).countP (leadsTo b) =
          (nodes.block b).instrs.countP (leadsTo b) := by
        rw [List.countP_append, count_eq_countP]
        simp [chainJump, other]
      have chains : Chains ((nodes.unchainNext b).cfg entry) (nodes.cfg entry) b n := by
        refine ⟨rfl, (nexts b).trans (if_pos rfl), ?_, ?_, (nodes.block b).instrs, chainJump n,
          (instrs b).trans (if_pos rfl), rfl, jumpsTo_chainJump n⟩
        · intro x y
          change (nodes.block x).next = some y ↔
            ((nodes.unchainNext b).block x).next = some y ∨ x = b ∧ y = n
          rw [nexts]
          by_cases here : x = b
          · rw [if_pos here, here, next]
            constructor
            · intro same
              exact Or.inr ⟨rfl, (Option.some.inj same).symm⟩
            · rintro (impossible | ⟨_, rfl⟩)
              · cases impossible
              · rfl
          · rw [if_neg here]
            exact ⟨Or.inl, fun either => either.resolve_right (fun both => here both.1)⟩
        · intro x
          change (nodes.block x).instrs = if x = b then
            ((nodes.unchainNext b).block x).instrs.dropLast
              else ((nodes.unchainNext b).block x).instrs
          rw [instrs]
          by_cases here : x = b
          · rw [if_pos here, if_pos here, List.dropLast_concat, here]
          · rw [if_neg here, if_neg here]
      refine ⟨entryLater, chains.sameRuns block, ⟨?_, ?_, ?_, ?_⟩,
        fun x unused => chains.unused_before unused⟩
      · exact (nexts b).trans (if_pos rfl)
      · refine ⟨front, self, toSelf, Or.inr ⟨n, other, ?_⟩⟩
        rw [instrs, if_pos rfl, shape, List.append_assoc]
        rfl
      · rw [outs, instrs, if_pos rfl, count]
        exact outgoing
      · rw [ins, instrs, if_pos rfl, count]
        exact incoming

/-- The chains are well formed, and every edge is listed once at both of its ends. -/
structure Structured (nodes : Nodes ι) (entry : ι) : Prop where
  entryBlock : nodes.entryBlock = some entry
  wellFormed : (nodes.cfg entry).WellFormed
  outgoing : ∀ x n, (nodes.block x).outgoingEdges.count n =
    (nodes.block x).instrs.countP (leadsTo n)
  incoming : ∀ x n, (nodes.block n).incomingEdges.count x =
    (nodes.block x).instrs.countP (leadsTo n)

theorem Structured.unused {entry x : ι} (structured : Structured nodes entry)
    (unallocated : nodes.Unallocated x) : (nodes.cfg entry).Unused x := by
  refine ⟨?_, ?_, ?_⟩
  · intro same
    exact unallocated.notEntry (structured.entryBlock.trans (congrArg some same))
  · intro y next
    have prev := (structured.wellFormed.next_prev y x).mp next
    rw [show ((nodes.cfg entry).block x) = removedBlock from unallocated.empty] at prev
    cases prev
  · intro y instr member edge
    apply unallocated.noEdge y
    rw [← List.count_pos_iff, structured.outgoing, List.countP_pos_iff]
    exact ⟨instr, member, decide_eq_true edge⟩

/-- Unrolling a block with a self branch keeps the runs: whatever the conditional branches
find, the same instructions are executed and the loop is left to the same place. -/
theorem unrollSingleBlockLoop_sameRuns (nodes : Nodes ι) (entry b : ι)
    (simple_loop_unroll_count : ℕ) (fresh : ℕ → ι) (structured : nodes.Structured entry)
    (loop : b ∈ (nodes.block b).outgoingEdges) (distinct : Function.Injective fresh)
    (unallocated : ∀ i, nodes.Unallocated (fresh i)) :
    ∃ later, nodes.unrollSingleBlockLoop b simple_loop_unroll_count fresh = .ok later ∧
      later.entryBlock = some entry ∧
      SameRuns (fun x => x = b ∨ ∃ i, x = fresh i) (nodes.cfg entry) (later.cfg entry) := by
  have unused (i : ℕ) := structured.unused (unallocated i)
  have branches : 0 < (nodes.block b).instrs.countP (leadsTo b) := by
    rw [← structured.outgoing, List.count_pos_iff]
    exact loop
  have other (i : ℕ) : fresh i ≠ b := by
    intro same
    rw [← same, (unallocated i).empty] at branches
    exact Nat.lt_irrefl 0 branches
  have notNext : (nodes.block b).next ≠ some b :=
    fun next => structured.wellFormed.acyclic b (.single next)
  have entered : nodes.entryBlock ≠ none := by
    rw [structured.entryBlock]
    exact Option.some_ne_none entry
  have new (i : ℕ) : fresh i = b ∨ ∃ j, fresh i = fresh j := Or.inr ⟨i, rfl⟩
  cases found : lastSelfBranch b (nodes.block b).instrs with
  | none =>
      obtain ⟨instr, member, leads⟩ := List.countP_pos_iff.mp branches
      exact absurd (of_decide_eq_true leads) (lastSelfBranch_none found instr member)
  | some index =>
      obtain ⟨front, self, back, shape, length, toSelf, avoids⟩ := lastSelfBranch_some found
      unfold unrollSingleBlockLoop
      rw [found]
      dsimp only
      by_cases atEnd : back = []
      · rw [atEnd] at shape
        have last : ¬ index + 1 < (nodes.block b).instrs.length := by
          rw [shape, List.length_append, length]
          exact Nat.lt_irrefl _
        rw [if_neg last]
        obtain ⟨entryUnchained, runs, looping, unusedLater⟩ := unchainNext_looping entry
          (fun x => x = b ∨ ∃ i, x = fresh i) (Or.inl rfl) shape toSelf notNext
          (structured.outgoing b b) (structured.incoming b b)
        obtain ⟨later, ran, entryLater, more⟩ := unrollCopies_spec entry
          (fun x => x = b ∨ ∃ i, x = fresh i) distinct new simple_loop_unroll_count 1
          (Or.inl rfl) looping (by rw [entryUnchained]; exact entered)
          (fun j _ => ⟨unusedLater _ (unused j), other j⟩)
        exact ⟨later, ran, (entryLater.trans entryUnchained).trans structured.entryBlock,
          runs.trans more⟩
      · have inner : index + 1 < (nodes.block b).instrs.length := by
          have nonempty := List.length_pos_iff.mpr atEnd
          rw [shape, List.length_append, List.length_cons, length]
          omega
        have whole : (nodes.block b).instrs = (front ++ [self]) ++ back := by
          rw [shape, List.append_assoc]
          rfl
        have kept : (front ++ [self]).length = index + 1 := by
          rw [List.length_append, length]
          rfl
        have drop : (nodes.block b).instrs.drop (index + 1) = back := by
          rw [whole, ← kept, List.drop_left]
        have take : (nodes.block b).instrs.take (index + 1) = front ++ [self] := by
          rw [whole, ← kept, List.take_left]
        have avoidsFresh : Avoids (fresh 0) back := by
          have all := (unused 0).avoids b
          change Avoids (fresh 0) (nodes.block b).instrs at all
          rw [whole] at all
          exact fun instr member => all instr (List.mem_append_right _ member)
        have counted (n : ι) : (nodes.block b).instrs.countP (leadsTo n) =
            (front ++ [self]).countP (leadsTo n) + back.countP (leadsTo n) := by
          rw [whole, List.countP_append]
        have none : back.countP (leadsTo b) = 0 := by
          rw [List.countP_eq_zero]
          intro instr member leads
          exact avoids instr member (of_decide_eq_true leads)
        obtain ⟨split, ran, entrySplit, instrs, next, moved, nextMoved, others, outs, ins⟩ :=
          splitBlock_spec (other 0).symm entered drop avoids avoidsFresh (by
            intro n
            rw [structured.outgoing, counted]
            omega)
        have splits : Splits (nodes.cfg entry) (split.cfg entry) b (fresh 0) back := by
          refine ⟨unused 0, rfl, ?_, moved, fun x notBlock notNew => (others x notBlock notNew).1,
            next, nextMoved, fun x notBlock notNew => (others x notBlock notNew).2⟩
          change (nodes.block b).instrs = (split.block b).instrs ++ back
          rw [instrs, take]
          exact whole
        rw [take] at instrs
        have away : (split.block b).next ≠ some b := by
          rw [next]
          exact fun same => other 0 (Option.some.inj same)
        obtain ⟨entryUnchained, runs, looping, unusedLater⟩ := unchainNext_looping entry
          (fun x => x = b ∨ ∃ i, x = fresh i) (Or.inl rfl) instrs toSelf away
          (by rw [outs, structured.outgoing, counted, none, instrs, Nat.add_zero])
          (by rw [ins, structured.incoming, counted, none, instrs, Nat.add_zero])
        have unusedNow (j : ℕ) (after : 1 ≤ j) :
            ((split.unchainNext b).cfg entry).Unused (fresh j) ∧ fresh j ≠ b := by
          have differs : fresh j ≠ fresh 0 := by
            intro same
            have equal := distinct same
            omega
          exact ⟨unusedLater _ (splits.unused_later (unused j) differs), other j⟩
        obtain ⟨later, unrolled, entryLater, more⟩ := unrollCopies_spec entry
          (fun x => x = b ∨ ∃ i, x = fresh i) distinct new simple_loop_unroll_count 1
          (Or.inl rfl) looping (by rw [entryUnchained, entrySplit]; exact entered) unusedNow
        refine ⟨later, ?_, ?_, ?_⟩
        · unfold splitBlockAfter
          rw [if_pos inner, ran]
          exact unrolled
        · exact ((entryLater.trans entryUnchained).trans entrySplit).trans structured.entryBlock
        · exact ((splits.sameRuns (Or.inl rfl) (new 0)).trans runs).trans more

def countingLoop : Nodes ℕ where
  valid := fun _ => false
  hasInfo := false
  entryBlock := some 0
  block
    | 0 =>
        { instrs :=
            [⟨⟨.ADD64rr, [.reg (.gprs64 .A), .reg (.gprs64 .B)]⟩, none, none⟩,
              ⟨⟨.JNZa, [.mem (.direct (.plain 0))]⟩, none, some 0⟩]
          next := some 1
          prev := none
          incomingEdges := [0]
          outgoingEdges := [0] }
    | 1 =>
        { instrs := [⟨⟨.RET, []⟩, none, none⟩]
          next := none
          prev := some 0
          incomingEdges := []
          outgoingEdges := [] }
    | _ => removedBlock
  blockValid := fun _ _ => false
  entryState := fun _ => none
  visited := []
  icfgValid := fun _ => false

theorem countingLoop_structured : countingLoop.Structured 0 := by
  have ahead (b n : ℕ) (next : (countingLoop.block b).next = some n) : b < n := by
    match b with
    | 0 =>
        cases next
        exact Nat.zero_lt_one
    | 1 => cases next
    | _ + 2 => cases next
  have less {b n : ℕ}
      (path : Relation.TransGen (fun b n => (countingLoop.block b).next = some n) b n) : b < n := by
    induction path with
    | single step => exact ahead _ _ step
    | tail _ step ih => exact lt_trans ih (ahead _ _ step)
  refine ⟨rfl, ⟨?_, fun b cycle => lt_irrefl b (less cycle), ?_, ?_⟩, ?_, ?_⟩
  · rintro (_ | _ | b) (_ | _ | n) <;> simp [cfg, countingLoop, removedBlock]
  · rintro (_ | _ | b) (_ | _ | n) <;> simp [cfg, countingLoop, removedBlock]
  · rintro (_ | _ | b) (_ | _ | n) <;> simp [cfg, countingLoop, removedBlock]
  · rintro (_ | _ | b) (_ | _ | n) <;>
      simp [countingLoop, removedBlock, leadsTo]
  · rintro (_ | _ | b) (_ | _ | n) <;>
      simp [countingLoop, removedBlock, leadsTo]

theorem unrollSingleBlockLoop_sameRuns_countingLoop :
    ∃ later, countingLoop.unrollSingleBlockLoop 0 10 (fun i => i + 2) = .ok later ∧
      later.entryBlock = some 0 ∧
      SameRuns (fun x => x = 0 ∨ ∃ i, x = i + 2) (countingLoop.cfg 0) (later.cfg 0) := by
  refine unrollSingleBlockLoop_sameRuns countingLoop 0 0 10 (fun i => i + 2)
    countingLoop_structured (List.mem_singleton_self 0) (fun i j same => Nat.add_right_cancel same)
    (fun i => ⟨rfl, ?_, ?_⟩)
  · exact nofun
  · rintro (_ | _ | x) <;> simp [countingLoop, removedBlock]

/-- The block and its first copy fall through to the next iteration. -/
example : (countingLoop.unrollSingleBlockLoop 0 2 (fun i => i + 2)).toOption.map (fun later =>
    [0, 3, 4].map (fun b => ((later.block b).instrs.map (fun instr =>
      (instr.instruction.opcode, instr.branchEdge)), (later.block b).next))) =
    some [([(.ADD64rr, none), (.JZa, some 1)], some 3), ([(.ADD64rr, none), (.JZa, some 1)], some 4),
      ([(.ADD64rr, none), (.JNZa, some 4), (.JMPa, some 1)], none)] := by rfl

end Nodes

end Drob
