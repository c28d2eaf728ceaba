import Drob.Passes.DeadCodeElimination

/-!
Dead code elimination keeps the runs that agree with the analysis, less what it removed.
-/

namespace Drob

namespace Nodes

open FunctionCfg

variable {ι : Type} [DecidableEq ι] {nodes later : Nodes ι} {b : ι}

/-! ### Edges are listed at both ends -/

/-- Every edge is listed once at both of its ends. -/
structure Balanced (nodes : Nodes ι) : Prop where
  outgoing : ∀ x n, (nodes.block x).outgoingEdges.count n =
    (nodes.block x).instrs.countP (leadsTo n)
  incoming : ∀ x n, (nodes.block n).incomingEdges.count x =
    (nodes.block x).instrs.countP (leadsTo n)

structure Drops (edges : List (ι × ι)) (nodes later : Nodes ι) : Prop where
  entry : later.entryBlock = nodes.entryBlock
  instrs : ∀ x, (later.block x).instrs = (nodes.block x).instrs
  outgoing : ∀ x n, (later.block x).outgoingEdges.count n =
    (nodes.block x).outgoingEdges.count n - edges.count (x, n)
  incoming : ∀ x n, (later.block n).incomingEdges.count x =
    (nodes.block n).incomingEdges.count x - edges.count (x, n)

theorem invalidateEdge_spec {src dst : ι} (out : dst ∈ (nodes.block src).outgoingEdges)
    (listed : src ∈ (nodes.block dst).incomingEdges) :
    ∃ later, nodes.invalidateEdge src dst = .ok later ∧ Drops [(src, dst)] nodes later := by
  obtain ⟨apart, first, entry, blocks⟩ := removeOutgoingEdge_spec out
  have same (x : ι) : (apart.block x).incomingEdges = (nodes.block x).incomingEdges := by
    rw [blocks]
    split
    · rename_i here
      rw [here]
    · rfl
  have listedNow : src ∈ (apart.block dst).incomingEdges := by
    rw [same]
    exact listed
  obtain ⟨later, second, entryLater, code, incoming⟩ := removeIncomingEdge_spec listedNow
  have single (x n : ι) : [(src, dst)].count (x, n) = if src = x ∧ dst = n then 1 else 0 := by
    rw [List.count_singleton]
    simp only [beq_iff_eq, Prod.mk.injEq]
  refine ⟨later, ?_, entryLater.trans entry, ?_, ?_, ?_⟩
  · unfold invalidateEdge
    rw [first]
    exact second
  · intro x
    rw [code x, blocks]
    split
    · rename_i here
      rw [here]
    · rfl
  · intro x n
    rw [code x, blocks, single]
    by_cases here : x = src
    · rw [if_pos here, here]
      dsimp only
      rw [List.count_erase]
      simp only [beq_iff_eq, true_and]
    · rw [if_neg here, if_neg (fun both => here both.1.symm), Nat.sub_zero]
  · intro x n
    rw [incoming, single]
    by_cases here : n = dst
    · rw [if_pos here, same, here, List.count_erase]
      simp only [beq_iff_eq, and_true]
    · rw [if_neg here, same, if_neg (fun both => here both.2.symm), Nat.sub_zero]

theorem foldlM_invalidateEdge_spec (edges : List (ι × ι))
    (out : ∀ x n, edges.count (x, n) ≤ (nodes.block x).outgoingEdges.count n)
    (listed : ∀ x n, edges.count (x, n) ≤ (nodes.block n).incomingEdges.count x) :
    ∃ later, edges.foldlM (fun nodes edge => nodes.invalidateEdge edge.1 edge.2) nodes =
      .ok later ∧ Drops edges nodes later := by
  induction edges generalizing nodes with
  | nil => exact ⟨nodes, rfl, rfl, fun _ => rfl, fun _ _ => rfl, fun _ _ => rfl⟩
  | cons edge rest ih =>
      obtain ⟨src, dst⟩ := edge
      have outHere := out src dst
      have listedHere := listed src dst
      rw [List.count_cons_self] at outHere listedHere
      have first : dst ∈ (nodes.block src).outgoingEdges := List.count_pos_iff.mp (by omega)
      have second : src ∈ (nodes.block dst).incomingEdges := List.count_pos_iff.mp (by omega)
      obtain ⟨middle, ran, drops⟩ := invalidateEdge_spec first second
      have split (x n : ι) : ((src, dst) :: rest).count (x, n) =
          [(src, dst)].count (x, n) + rest.count (x, n) := by
        rw [← List.count_append]
        rfl
      have outNow (x n : ι) : rest.count (x, n) ≤ (middle.block x).outgoingEdges.count n := by
        have enough := out x n
        rw [split] at enough
        rw [drops.outgoing]
        omega
      have listedNow (x n : ι) : rest.count (x, n) ≤ (middle.block n).incomingEdges.count x := by
        have enough := listed x n
        rw [split] at enough
        rw [drops.incoming]
        omega
      obtain ⟨later, others, more⟩ := ih outNow listedNow
      refine ⟨later, ?_, more.entry.trans drops.entry, ?_, ?_, ?_⟩
      · rw [List.foldlM_cons, ran]
        exact others
      · intro x
        exact (more.instrs x).trans (drops.instrs x)
      · intro x n
        rw [more.outgoing, drops.outgoing, split]
        omega
      · intro x n
        rw [more.incoming, drops.incoming, split]
        omega

def edgesOf (b : ι) (instrs : List (BlockInstruction ι)) : List (ι × ι) :=
  instrs.filterMap (fun instr => instr.branchEdge.map (fun dst => (b, dst)))

theorem count_edgesOf (b x n : ι) (instrs : List (BlockInstruction ι)) :
    (edgesOf b instrs).count (x, n) = if x = b then instrs.countP (leadsTo n) else 0 := by
  induction instrs with
  | nil =>
      unfold edgesOf
      simp
  | cons instr rest ih =>
      unfold edgesOf at ih ⊢
      rw [List.filterMap_cons, count_eq_countP]
      cases edge : instr.branchEdge with
      | none =>
          rw [Option.map_none]
          dsimp only
          rw [ih]
          simp
      | some dst =>
          rw [Option.map_some]
          dsimp only
          rw [List.count_cons, ih]
          by_cases here : x = b
          · rw [if_pos here, if_pos here, here]
            simp
          · rw [if_neg here, if_neg here]
            simpa using fun same => absurd same.symm here

theorem foldlM_cleanupInstruction (b : ι) (instrs : List (BlockInstruction ι)) (nodes : Nodes ι) :
    instrs.foldlM (cleanupInstruction b) nodes =
      (edgesOf b instrs).foldlM (fun nodes edge => nodes.invalidateEdge edge.1 edge.2) nodes := by
  induction instrs generalizing nodes with
  | nil => rfl
  | cons instr rest ih =>
      unfold edgesOf at ih ⊢
      rw [List.foldlM_cons, List.filterMap_cons]
      unfold cleanupInstruction
      cases edge : instr.branchEdge with
      | none => exact ih nodes
      | some dst =>
          rw [Option.map_some]
          dsimp only
          rw [List.foldlM_cons]
          exact congrArg _ (funext fun middle => ih middle)

/-! ### Removing an instruction -/

theorem block_invalidateBoth (nodes : Nodes ι) (b : ι) :
    (nodes.invalidateBoth b).block = nodes.block := by
  unfold invalidateBoth
  rw [block_invalidate, block_invalidate]

theorem entryBlock_invalidateBoth (nodes : Nodes ι) (b : ι) :
    (nodes.invalidateBoth b).entryBlock = nodes.entryBlock := by
  unfold invalidateBoth
  rw [entryBlock_invalidate, entryBlock_invalidate]

theorem Balanced.removeInstruction (balanced : nodes.Balanced)
    {front back : List (BlockInstruction ι)} {instr : BlockInstruction ι}
    (split : (nodes.block b).instrs = front ++ instr :: back) :
    ∃ later, nodes.removeInstruction b front.length = .ok later ∧ later.Balanced ∧
      later.entryBlock = nodes.entryBlock ∧
      ∀ x, (later.block x).instrs = if x = b then front ++ back else (nodes.block x).instrs := by
  have found : (nodes.block b).instrs[front.length]? = some instr := by
    rw [split]
    simp
  have erased : (nodes.block b).instrs.eraseIdx front.length = front ++ back := by
    rw [split, List.eraseIdx_append_of_length_le (le_refl _), Nat.sub_self]
    rfl
  have count (n : ι) : (nodes.block b).instrs.countP (leadsTo n) =
      (front ++ back).countP (leadsTo n) + [instr].countP (leadsTo n) := by
    rw [split, ← List.singleton_append, List.countP_append, List.countP_append, List.countP_append]
    omega
  have single (x n : ι) : (edgesOf b [instr]).count (x, n) =
      if x = b then [instr].countP (leadsTo n) else 0 := count_edgesOf b x n [instr]
  obtain ⟨cleaned, ran, drops⟩ := foldlM_invalidateEdge_spec (edgesOf b [instr])
    (fun x n => by
      rw [block_invalidateBoth nodes b, balanced.outgoing, single]
      split
      · rename_i here
        rw [here, count]
        omega
      · exact Nat.zero_le _)
    (fun x n => by
      rw [block_invalidateBoth nodes b, balanced.incoming, single]
      split
      · rename_i here
        rw [here, count]
        omega
      · exact Nat.zero_le _)
  have cleans : cleanupInstruction b (nodes.invalidateBoth b) instr = .ok cleaned := by
    rw [← foldlM_cleanupInstruction, List.foldlM_cons] at ran
    obtain ⟨middle, first, same⟩ := bind_ok ran
    cases same
    exact first
  have instrs (x : ι) : ((cleaned.setBlock b
      { cleaned.block b with
        instrs := (nodes.block b).instrs.eraseIdx front.length }).block x).instrs =
      if x = b then front ++ back else (nodes.block x).instrs := by
    rw [block_setBlock]
    by_cases here : x = b
    · rw [if_pos here, if_pos here]
      exact erased
    · rw [if_neg here, if_neg here, drops.instrs, block_invalidateBoth]
  have outgoing (x : ι) : ((cleaned.setBlock b
      { cleaned.block b with
        instrs := (nodes.block b).instrs.eraseIdx front.length }).block x).outgoingEdges =
      (cleaned.block x).outgoingEdges := by
    rw [block_setBlock]
    split
    · rename_i here
      rw [here]
    · rfl
  have incoming (x : ι) : ((cleaned.setBlock b
      { cleaned.block b with
        instrs := (nodes.block b).instrs.eraseIdx front.length }).block x).incomingEdges =
      (cleaned.block x).incomingEdges := by
    rw [block_setBlock]
    split
    · rename_i here
      rw [here]
    · rfl
  have remaining (x n : ι) : (nodes.block x).instrs.countP (leadsTo n) -
      (if x = b then [instr].countP (leadsTo n) else 0) =
        (if x = b then front ++ back else (nodes.block x).instrs).countP (leadsTo n) := by
    by_cases here : x = b
    · rw [if_pos here, if_pos here, here, count]
      omega
    · rw [if_neg here, if_neg here, Nat.sub_zero]
  unfold Nodes.removeInstruction
  rw [found]
  dsimp only
  rw [cleans]
  refine ⟨_, rfl, ⟨?_, ?_⟩, ?_, instrs⟩
  · intro x n
    rw [outgoing, drops.outgoing, block_invalidateBoth, balanced.outgoing, single, instrs,
      remaining]
  · intro x n
    rw [incoming, drops.incoming, block_invalidateBoth, balanced.incoming, single, instrs,
      remaining]
  · exact drops.entry.trans (entryBlock_invalidateBoth nodes b)

/-! ### Removing a block -/

theorem block_invalidateIf (nodes : Nodes ι) (b : Option ι) (a : Analysis) :
    (nodes.invalidateIf b a).block = nodes.block := by
  cases b with
  | none => rfl
  | some b => exact block_invalidate nodes b a

theorem entryBlock_invalidateIf (nodes : Nodes ι) (b : Option ι) (a : Analysis) :
    (nodes.invalidateIf b a).entryBlock = nodes.entryBlock := by
  cases b with
  | none => rfl
  | some b => exact entryBlock_invalidate nodes b a

def forgetEdge (b : ι) (instr : BlockInstruction ι) : BlockInstruction ι :=
  if instr.branchEdge = some b then { instr with branchEdge := none } else instr

theorem countP_forgetEdge (b n : ι) (instrs : List (BlockInstruction ι)) :
    (instrs.map (forgetEdge b)).countP (leadsTo n) =
      if n = b then 0 else instrs.countP (leadsTo n) := by
  induction instrs with
  | nil => simp
  | cons instr rest ih =>
      rw [List.map_cons, count_eq_countP, count_eq_countP, ih]
      unfold forgetEdge
      by_cases here : n = b
      · rw [if_pos here, if_pos here, here]
        split <;> simp
      · rw [if_neg here, if_neg here]
        split
        · rename_i same
          simpa [same] using fun equal => here equal.symm
        · rfl

theorem Balanced.removeAllInstructions (balanced : nodes.Balanced) (b : ι) :
    ∃ later, nodes.removeAllInstructions b = .ok later ∧ later.entryBlock = nodes.entryBlock ∧
      (∀ x, (later.block x).instrs =
        if x = b then [] else (nodes.block x).instrs.map (forgetEdge b)) ∧
      (∀ x n, (later.block x).outgoingEdges.count n =
        if x = b ∨ n = b then 0 else (nodes.block x).instrs.countP (leadsTo n)) ∧
      ∀ x n, (later.block n).incomingEdges.count x =
        if x = b ∨ n = b then 0 else (nodes.block x).instrs.countP (leadsTo n) := by
  obtain ⟨cleaned, ran, drops⟩ := foldlM_invalidateEdge_spec (edgesOf b (nodes.block b).instrs)
    (fun x n => by
      rw [block_invalidateBoth nodes b, balanced.outgoing, count_edgesOf]
      split
      · rename_i here
        rw [here]
      · exact Nat.zero_le _)
    (fun x n => by
      rw [block_invalidateBoth nodes b, balanced.incoming, count_edgesOf]
      split
      · rename_i here
        rw [here]
      · exact Nat.zero_le _)
  have outgoing (x n : ι) : (cleaned.block x).outgoingEdges.count n =
      if x = b then 0 else (nodes.block x).instrs.countP (leadsTo n) := by
    rw [drops.outgoing, block_invalidateBoth, balanced.outgoing, count_edgesOf]
    split
    · rename_i here
      rw [here, Nat.sub_self]
    · rfl
  have incoming (x n : ι) : (cleaned.block n).incomingEdges.count x =
      if x = b then 0 else (nodes.block x).instrs.countP (leadsTo n) := by
    rw [drops.incoming, block_invalidateBoth, balanced.incoming, count_edgesOf]
    split
    · rename_i here
      rw [here, Nat.sub_self]
    · rfl
  have noEdges : (cleaned.block b).outgoingEdges = [] := by
    rw [List.eq_nil_iff_forall_not_mem]
    intro n member
    have some_ := List.count_pos_iff.mpr member
    rw [outgoing, if_pos rfl] at some_
    exact Nat.lt_irrefl 0 some_
  have pairs (x n : ι) : ((cleaned.block b).incomingEdges.map (fun src => (src, b))).count (x, n) =
      if n = b then (cleaned.block b).incomingEdges.count x else 0 := by
    by_cases here : n = b
    · rw [if_pos here, here]
      exact List.count_map_of_injective _ _ (fun left right same => (Prod.mk.inj same).1) x
    · rw [if_neg here, List.count_eq_zero]
      intro member
      obtain ⟨src, _, same⟩ := List.mem_map.mp member
      exact here (Prod.mk.inj same).2.symm
  obtain ⟨apart, ranLater, more⟩ := foldlM_invalidateEdge_spec
    ((cleaned.block b).incomingEdges.map (fun src => (src, b)))
    (fun x n => by
      rw [pairs]
      split
      · rename_i here
        rw [here, incoming, outgoing]
      · exact Nat.zero_le _)
    (fun x n => by
      rw [pairs]
      split
      · rename_i here
        rw [here]
      · exact Nat.zero_le _)
  rw [List.foldlM_map] at ranLater
  unfold Nodes.removeAllInstructions
  rw [foldlM_cleanupInstruction, ran]
  change ∃ later, (if (cleaned.block b).outgoingEdges ≠ [] then _ else _) = _ ∧ _
  rw [if_neg (not_not.mpr noEdges), ranLater]
  refine ⟨_, rfl, ?_, ?_, ?_, ?_⟩
  · exact (more.entry.trans drops.entry).trans (entryBlock_invalidateBoth nodes b)
  · intro x
    dsimp only
    by_cases here : x = b
    · rw [if_pos here, if_pos here]
    · rw [if_neg here, if_neg here]
      change (apart.block x).instrs.map (forgetEdge b) = _
      rw [more.instrs, drops.instrs, block_invalidateBoth]
  · intro x n
    dsimp only
    have same : (if x = b then { apart.block b with instrs := [] }
        else forgetEdges b (apart.block x)).outgoingEdges = (apart.block x).outgoingEdges := by
      split
      · rename_i here
        rw [here]
      · rfl
    rw [same, more.outgoing, pairs, outgoing, incoming]
    by_cases left : x = b
    · rw [if_pos left, if_pos (Or.inl left), Nat.zero_sub]
    · by_cases right : n = b
      · rw [if_pos right, if_neg left, if_pos (Or.inr right), right, if_neg left, Nat.sub_self]
      · rw [if_neg right, if_neg left, if_neg (not_or.mpr ⟨left, right⟩), Nat.sub_zero]
  · intro x n
    dsimp only
    have same : (if n = b then { apart.block b with instrs := [] }
        else forgetEdges b (apart.block n)).incomingEdges = (apart.block n).incomingEdges := by
      split
      · rename_i here
        rw [here]
      · rfl
    rw [same, more.incoming, pairs, incoming]
    by_cases right : n = b
    · rw [if_pos right, right, incoming, Nat.sub_self, if_pos (Or.inr rfl)]
    · rw [if_neg right, Nat.sub_zero]
      by_cases left : x = b
      · rw [if_pos left, if_pos (Or.inl left)]
      · rw [if_neg left, if_neg (not_or.mpr ⟨left, right⟩)]

theorem Balanced.removeBlock (balanced : nodes.Balanced) {entry : ι}
    (entryBlock : nodes.entryBlock = some entry) (other : entry ≠ b) :
    ∃ later, nodes.removeBlock b = .ok later ∧ later.Balanced ∧
      later.entryBlock = some entry ∧
      ∀ x, x ≠ b → (later.block x).instrs = (nodes.block x).instrs.map (forgetEdge b) := by
  have notEntry : ¬ nodes.entryBlock = some b := by
    rw [entryBlock]
    exact fun same => other (Option.some.inj same)
  have told : (((({ nodes with entryBlock := if nodes.entryBlock = some b then none
      else nodes.entryBlock } : Nodes ι)).invalidateIf (nodes.block b).next .stack).invalidateIf
        (nodes.block b).prev .liveness).block = nodes.block := by
    rw [block_invalidateIf, block_invalidateIf]
  have toldBalanced : (((({ nodes with entryBlock := if nodes.entryBlock = some b then none
      else nodes.entryBlock } : Nodes ι)).invalidateIf (nodes.block b).next .stack).invalidateIf
        (nodes.block b).prev .liveness).Balanced := by
    refine ⟨?_, ?_⟩
    · rw [told]
      exact balanced.outgoing
    · rw [told]
      exact balanced.incoming
  obtain ⟨cleaned, ran, entryCleaned, instrs, outgoing, incoming⟩ :=
    toldBalanced.removeAllInstructions b
  rw [told] at instrs outgoing incoming
  have kept (x : ι) (differs : x ≠ b) : ((cleaned.unlink b).block x) =
      { cleaned.block x with
        next := if (cleaned.block b).prev = some x then (cleaned.block b).next
          else (cleaned.block x).next
        prev := if (cleaned.block b).next = some x then (cleaned.block b).prev
          else (cleaned.block x).prev } := by
    unfold unlink
    dsimp only
    rw [if_neg differs]
  have gone : (cleaned.unlink b).block b = removedBlock := by
    unfold unlink
    dsimp only
    rw [if_pos rfl]
  unfold Nodes.removeBlock
  dsimp only
  rw [ran]
  refine ⟨cleaned.unlink b, rfl, ⟨?_, ?_⟩, ?_, ?_⟩
  · intro x n
    by_cases here : x = b
    · rw [here, gone]
      rfl
    · rw [kept x here]
      dsimp only
      rw [outgoing, instrs, if_neg here, countP_forgetEdge]
      by_cases there : n = b
      · rw [if_pos (Or.inr there), if_pos there]
      · rw [if_neg (not_or.mpr ⟨here, there⟩), if_neg there]
  · intro x n
    by_cases there : n = b
    · rw [there, gone]
      by_cases here : x = b
      · rw [here, gone]
        rfl
      · rw [kept x here]
        dsimp only
        rw [instrs, if_neg here, countP_forgetEdge, if_pos rfl]
        rfl
    · rw [kept n there]
      dsimp only
      rw [incoming]
      by_cases here : x = b
      · rw [if_pos (Or.inl here), here, gone]
        rfl
      · rw [if_neg (not_or.mpr ⟨here, there⟩), kept x here]
        dsimp only
        rw [instrs, if_neg here, countP_forgetEdge, if_neg there]
  · change cleaned.entryBlock = some entry
    rw [entryCleaned, entryBlock_invalidateIf, entryBlock_invalidateIf]
    exact (if_neg notEntry).trans entryBlock
  · intro x differs
    rw [kept x differs]
    exact (instrs x).trans (if_neg differs)

/-! ### Removing the collected instructions -/

def survivors : List Fate → List (BlockInstruction ι) → List (BlockInstruction ι)
  | .delete :: fates, _ :: rest => survivors fates rest
  | .keep :: fates, instr :: rest => instr :: survivors fates rest
  | .convert :: fates, instr :: rest => instr :: survivors fates rest
  | _, _ => []

def remaining : List Fate → List (BlockInstruction ι) → List (BlockInstruction ι)
  | .delete :: fates, _ :: rest => remaining fates rest
  | .keep :: fates, instr :: rest => instr :: remaining fates rest
  | .convert :: fates, instr :: rest => toJump instr :: remaining fates rest
  | _, _ => []

omit [DecidableEq ι] in
theorem length_fatesFrom (willExecute : ℕ → Option TriState) (index : ℕ)
    (instrs : List (BlockInstruction ι)) :
    (fatesFrom willExecute index instrs).length = instrs.length := by
  induction instrs generalizing index with
  | nil => rfl
  | cons instr rest ih => exact congrArg Nat.succ (ih (index + 1))

structure Trimmed (nodes later : Nodes ι) : Prop where
  balanced : later.Balanced
  entry : later.entryBlock = nodes.entryBlock
  next : ∀ x, (later.block x).next = (nodes.block x).next
  prev : ∀ x, (later.block x).prev = (nodes.block x).prev

theorem Trimmed.trans {middle : Nodes ι} (first : Trimmed nodes middle)
    (second : Trimmed middle later) : Trimmed nodes later :=
  ⟨second.balanced, second.entry.trans first.entry,
    fun x => (second.next x).trans (first.next x), fun x => (second.prev x).trans (first.prev x)⟩

theorem removeCollected_spec {fates : List Fate} {front rest : List (BlockInstruction ι)}
    (length : fates.length = rest.length) (balanced : nodes.Balanced)
    (split : (nodes.block b).instrs = front ++ rest) :
    ∃ later, removeCollected b fates front.length nodes = .ok later ∧ Trimmed nodes later ∧
      ∀ x, (later.block x).instrs =
        if x = b then front ++ survivors fates rest else (nodes.block x).instrs := by
  induction fates generalizing nodes front rest with
  | nil =>
      cases List.length_eq_zero_iff.mp length.symm
      refine ⟨nodes, rfl, ⟨balanced, rfl, fun _ => rfl, fun _ => rfl⟩, ?_⟩
      intro x
      by_cases here : x = b
      · rw [if_pos here, here]
        exact split
      · rw [if_neg here]
  | cons fate fates ih =>
      cases rest with
      | nil => cases length
      | cons instr rest =>
          have shorter : fates.length = rest.length := Nat.succ.inj length
          have longer : (front ++ [instr]).length = front.length + 1 := by simp
          have shifted : (nodes.block b).instrs = (front ++ [instr]) ++ rest := by
            rw [split]
            simp
          have joined (more : List (BlockInstruction ι)) :
              (front ++ [instr]) ++ more = front ++ instr :: more := by simp
          cases fate with
          | delete =>
              obtain ⟨middle, removed, balancedMiddle, entry, instrs⟩ :=
                balanced.removeInstruction split
              have keeps : Keeps (fun _ => False) nodes middle := keeps_removeInstruction removed
              obtain ⟨later, ran, trimmed, instrsLater⟩ := ih shorter balancedMiddle
                ((instrs b).trans (if_pos rfl))
              refine ⟨later, ?_, Trimmed.trans ⟨balancedMiddle, entry, keeps.next, keeps.prev⟩
                trimmed, ?_⟩
              · unfold removeCollected
                rw [removed]
                exact ran
              · intro x
                rw [instrsLater, instrs]
                by_cases here : x = b
                · rw [if_pos here, if_pos here]
                  rfl
                · rw [if_neg here, if_neg here, if_neg here]
          | keep | convert =>
              obtain ⟨later, ran, trimmed, instrs⟩ := ih shorter balanced shifted
              rw [longer] at ran
              refine ⟨later, ran, trimmed, ?_⟩
              intro x
              rw [instrs, joined]
              rfl

theorem foldlM_removeCollected_spec {collected : ι → List Fate} (analysed : List ι)
    (once : analysed.Nodup) (balanced : nodes.Balanced)
    (length : ∀ b ∈ analysed, (collected b).length = (nodes.block b).instrs.length) :
    ∃ later, analysed.foldlM (fun nodes b => removeCollected b (collected b) 0 nodes) nodes =
        .ok later ∧ Trimmed nodes later ∧
      ∀ x, (later.block x).instrs =
        if x ∈ analysed then survivors (collected x) (nodes.block x).instrs
        else (nodes.block x).instrs := by
  induction analysed generalizing nodes with
  | nil =>
      refine ⟨nodes, rfl, ⟨balanced, rfl, fun _ => rfl, fun _ => rfl⟩, ?_⟩
      intro x
      rw [if_neg List.not_mem_nil]
  | cons b rest ih =>
      obtain ⟨notIn, onceRest⟩ := List.nodup_cons.mp once
      have start : (nodes.block b).instrs = [] ++ (nodes.block b).instrs := rfl
      obtain ⟨middle, removed, trimmed, instrs⟩ :=
        removeCollected_spec (length b List.mem_cons_self) balanced start
      have same (x : ι) (member : x ∈ rest) : (middle.block x).instrs = (nodes.block x).instrs := by
        rw [instrs, if_neg]
        rintro rfl
        exact notIn member
      obtain ⟨later, ran, more, instrsLater⟩ := ih onceRest trimmed.balanced (by
        intro x member
        rw [same x member]
        exact length x (List.mem_cons_of_mem b member))
      refine ⟨later, ?_, trimmed.trans more, ?_⟩
      · rw [List.foldlM_cons]
        change (removeCollected b (collected b) ([] : List (BlockInstruction ι)).length nodes >>= _) =
          _
        rw [removed]
        exact ran
      · intro x
        rw [instrsLater]
        by_cases later : x ∈ rest
        · rw [if_pos later, if_pos (List.mem_cons_of_mem b later), same x later]
        · rw [if_neg later, instrs]
          by_cases here : x = b
          · rw [if_pos here, if_pos (here ▸ List.mem_cons_self), here]
            rfl
          · rw [if_neg here, if_neg]
            exact fun member => (List.mem_cons.mp member).elim here later

/-! ### Converting conditional branches -/

omit [DecidableEq ι] in
theorem modify_append (front rest : List (BlockInstruction ι)) (instr : BlockInstruction ι)
    (change : BlockInstruction ι → BlockInstruction ι) :
    (front ++ instr :: rest).modify front.length change = front ++ change instr :: rest := by
  induction front with
  | nil => rfl
  | cons first others ih => exact congrArg (List.cons first) ih

theorem linked_cutChain (linked : Linked nodes.block) (b : ι) :
    Linked (nodes.cutChain b).block := by
  intro x y
  unfold cutChain
  dsimp only
  by_cases here : x = b
  · rw [if_pos here, here]
    refine iff_of_false nofun ?_
    split
    · exact nofun
    · rename_i apart
      exact fun prev => apart ((linked b y).mpr prev)
  · rw [if_neg here]
    split
    · rename_i next
      refine iff_of_false ?_ nofun
      intro other
      exact here (Option.some.inj (((linked x y).mp other).symm.trans ((linked b y).mp next)))
    · exact linked x y

structure Converts (b : ι) (cuts : Prop) (nodes later : Nodes ι) : Prop where
  balanced : later.Balanced
  linked : Linked later.block
  entry : later.entryBlock = nodes.entryBlock
  next : ∀ x, (x = b → ¬ cuts) → (later.block x).next = (nodes.block x).next

theorem convertBranch_spec (balanced : nodes.Balanced) (linked : Linked nodes.block)
    {front rest : List (BlockInstruction ι)} {instr : BlockInstruction ι}
    (split : (nodes.block b).instrs = front ++ instr :: rest) :
    Converts b True nodes (nodes.convertBranch b front.length) ∧
      ∀ x, ((nodes.convertBranch b front.length).block x).instrs =
        if x = b then front ++ toJump instr :: rest else (nodes.block x).instrs := by
  have blocks (x : ι) : (nodes.convertBranch b front.length).block x =
      if x = b then
        { (nodes.cutChain b).block b with
          instrs := ((nodes.cutChain b).block b).instrs.modify front.length toJump }
      else (nodes.cutChain b).block x := by
    unfold convertBranch
    dsimp only
    rw [block_invalidate, block_invalidate, block_setBlock]
  have instrs (x : ι) : ((nodes.convertBranch b front.length).block x).instrs =
      if x = b then front ++ toJump instr :: rest else (nodes.block x).instrs := by
    rw [blocks]
    by_cases here : x = b
    · rw [if_pos here, if_pos here]
      change (nodes.block b).instrs.modify front.length toJump = _
      rw [split, modify_append]
    · rw [if_neg here, if_neg here]
      rfl
  have lists (x : ι) :
      ((nodes.convertBranch b front.length).block x).outgoingEdges =
          (nodes.block x).outgoingEdges ∧
        ((nodes.convertBranch b front.length).block x).incomingEdges =
          (nodes.block x).incomingEdges := by
    rw [blocks]
    by_cases here : x = b
    · rw [if_pos here, here]
      exact ⟨rfl, rfl⟩
    · rw [if_neg here]
      exact ⟨rfl, rfl⟩
  have chain (x : ι) :
      ((nodes.convertBranch b front.length).block x).next = ((nodes.cutChain b).block x).next ∧
        ((nodes.convertBranch b front.length).block x).prev =
          ((nodes.cutChain b).block x).prev := by
    rw [blocks]
    by_cases here : x = b
    · rw [if_pos here, here]
      exact ⟨rfl, rfl⟩
    · rw [if_neg here]
      exact ⟨rfl, rfl⟩
  have count (x n : ι) : ((nodes.convertBranch b front.length).block x).instrs.countP (leadsTo n) =
      (nodes.block x).instrs.countP (leadsTo n) := by
    rw [instrs]
    by_cases here : x = b
    · rw [if_pos here, here, split, List.countP_append, List.countP_append, count_eq_countP,
        count_eq_countP]
      rfl
    · rw [if_neg here]
  refine ⟨⟨⟨?_, ?_⟩, ?_, ?_, ?_⟩, instrs⟩
  · intro x n
    rw [(lists x).1, count]
    exact balanced.outgoing x n
  · intro x n
    rw [(lists n).2, count]
    exact balanced.incoming x n
  · intro x y
    rw [(chain x).1, (chain y).2]
    exact linked_cutChain linked b x y
  · unfold convertBranch
    dsimp only
    rw [entryBlock_invalidate, entryBlock_invalidate]
    rfl
  · intro x apart
    rw [(chain x).1]
    exact if_neg (fun here => apart here trivial)

theorem convertCollected_spec {fates : List Fate} {front rest : List (BlockInstruction ι)}
    (length : fates.length = rest.length) (balanced : nodes.Balanced)
    (linked : Linked nodes.block) (split : (nodes.block b).instrs = front ++ survivors fates rest) :
    Converts b (Fate.convert ∈ fates) nodes (convertCollected b fates front.length nodes) ∧
      ∀ x, ((convertCollected b fates front.length nodes).block x).instrs =
        if x = b then front ++ remaining fates rest else (nodes.block x).instrs := by
  induction fates generalizing nodes front rest with
  | nil =>
      cases List.length_eq_zero_iff.mp length.symm
      refine ⟨⟨balanced, linked, rfl, fun _ _ => rfl⟩, ?_⟩
      intro x
      by_cases here : x = b
      · rw [if_pos here, here]
        exact split
      · rw [if_neg here]
        rfl
  | cons fate fates ih =>
      cases rest with
      | nil => cases length
      | cons instr rest =>
          have shorter : fates.length = rest.length := Nat.succ.inj length
          cases fate with
          | delete =>
              obtain ⟨converts, instrs⟩ := ih shorter balanced linked split
              refine ⟨⟨converts.balanced, converts.linked, converts.entry, ?_⟩, instrs⟩
              intro x apart
              exact converts.next x
                (fun here member => apart here (List.mem_cons_of_mem _ member))
          | keep =>
              have longer : (front ++ [instr]).length = front.length + 1 := by simp
              have shifted : (nodes.block b).instrs = (front ++ [instr]) ++ survivors fates rest := by
                rw [split]
                simp [survivors]
              have later := ih shorter balanced linked shifted
              rw [longer] at later
              refine ⟨⟨later.1.balanced, later.1.linked, later.1.entry, ?_⟩, ?_⟩
              · intro x apart
                exact later.1.next x
                  (fun here member => apart here (List.mem_cons_of_mem _ member))
              · intro x
                refine (later.2 x).trans ?_
                rw [List.append_assoc]
                rfl
          | convert =>
              obtain ⟨converts, instrs⟩ := convertBranch_spec balanced linked split
              have longer : (front ++ [toJump instr]).length = front.length + 1 := by simp
              have shifted : ((nodes.convertBranch b front.length).block b).instrs =
                  (front ++ [toJump instr]) ++ survivors fates rest := by
                rw [instrs, if_pos rfl, List.append_assoc]
                rfl
              have later := ih shorter converts.balanced converts.linked shifted
              rw [longer] at later
              refine ⟨⟨later.1.balanced, later.1.linked, later.1.entry.trans converts.entry, ?_⟩,
                ?_⟩
              · intro x apart
                have other : x = b → ¬ True :=
                  fun here _ => apart here List.mem_cons_self
                exact (later.1.next x (fun here _ => other here trivial)).trans
                  (converts.next x other)
              · intro x
                refine (later.2 x).trans ?_
                by_cases here : x = b
                · rw [if_pos here, if_pos here, List.append_assoc]
                  rfl
                · rw [if_neg here, if_neg here, instrs, if_neg here]

theorem foldl_convertCollected_spec {collected : ι → List Fate} (analysed : List ι)
    (once : analysed.Nodup) {original : ι → List (BlockInstruction ι)} (balanced : nodes.Balanced)
    (linked : Linked nodes.block)
    (length : ∀ b ∈ analysed, (collected b).length = (original b).length)
    (survive : ∀ b ∈ analysed,
      (nodes.block b).instrs = survivors (collected b) (original b)) {converted : Nodes ι}
    (convertedEq : converted =
      analysed.foldl (fun nodes b => convertCollected b (collected b) 0 nodes) nodes) :
    converted.Balanced ∧ Linked converted.block ∧ converted.entryBlock = nodes.entryBlock ∧
      (∀ x, (x ∈ analysed → Fate.convert ∉ collected x) →
        (converted.block x).next = (nodes.block x).next) ∧
      ∀ x, (converted.block x).instrs =
        if x ∈ analysed then remaining (collected x) (original x) else (nodes.block x).instrs := by
  induction analysed generalizing nodes with
  | nil =>
      rw [convertedEq]
      refine ⟨balanced, linked, rfl, fun _ _ => rfl, ?_⟩
      intro x
      exact (if_neg List.not_mem_nil).symm
  | cons b rest ih =>
      obtain ⟨notIn, onceRest⟩ := List.nodup_cons.mp once
      have start : (nodes.block b).instrs = [] ++ survivors (collected b) (original b) :=
        survive b List.mem_cons_self
      have first := convertCollected_spec (length b List.mem_cons_self) balanced linked start
      obtain ⟨converts, instrs⟩ := first
      have differ {x : ι} (member : x ∈ rest) : x ≠ b := by
        rintro rfl
        exact notIn member
      obtain ⟨balancedLater, linkedLater, entry, next, instrsLater⟩ :=
        ih onceRest converts.balanced converts.linked
          (fun x member => length x (List.mem_cons_of_mem b member))
          (by
            intro x member
            rw [instrs, if_neg (differ member)]
            exact survive x (List.mem_cons_of_mem b member))
          convertedEq
      refine ⟨balancedLater, linkedLater, entry.trans converts.entry, ?_, ?_⟩
      · intro x apart
        refine (next x (fun member => apart (List.mem_cons_of_mem b member))).trans ?_
        exact converts.next x (fun here => here ▸ apart (here ▸ List.mem_cons_self))
      · intro x
        rw [instrsLater]
        by_cases later : x ∈ rest
        · rw [if_pos later, if_pos (List.mem_cons_of_mem b later)]
        · rw [if_neg later, instrs]
          by_cases here : x = b
          · rw [if_pos here, if_pos (here ▸ List.mem_cons_self), here]
            rfl
          · rw [if_neg here, if_neg]
            exact fun member => (List.mem_cons.mp member).elim here later

/-! ### Removing the blocks -/

/-- The same instruction, unless it forgot an edge to a block that was removed. -/
def Forgets (gone : List ι) (instr other : BlockInstruction ι) : Prop :=
  other.instruction = instr.instruction ∧
    other.branchEdge = instr.branchEdge.filter (fun dst => decide (dst ∉ gone))

theorem forgets_forgetEdge {gone : List ι} {instr other : BlockInstruction ι}
    (forgets : Forgets gone (forgetEdge b instr) other) : Forgets (b :: gone) instr other := by
  unfold forgetEdge at forgets
  cases edge : instr.branchEdge with
  | none =>
      rw [if_neg (by rw [edge]; exact nofun)] at forgets
      refine ⟨forgets.1, ?_⟩
      rw [forgets.2, edge]
      rfl
  | some dst =>
      by_cases here : dst = b
      · rw [if_pos (by rw [edge, here])] at forgets
        refine ⟨forgets.1, ?_⟩
        rw [forgets.2, edge, here]
        simp [Option.filter]
      · rw [if_neg (by rw [edge]; exact fun same => here (Option.some.inj same))] at forgets
        refine ⟨forgets.1, ?_⟩
        rw [forgets.2, edge]
        simp [Option.filter, here]

theorem foldlM_removeBlock_spec (gone : List ι) {entry : ι} (balanced : nodes.Balanced)
    (linked : Linked nodes.block) (entryBlock : nodes.entryBlock = some entry)
    (stays : entry ∉ gone) :
    ∃ later, gone.foldlM removeBlock nodes = .ok later ∧ later.entryBlock = some entry ∧
      (∀ x, x ∉ gone →
        List.Forall₂ (Forgets gone) (nodes.block x).instrs (later.block x).instrs) ∧
      ∀ x n, x ∉ gone → n ∉ gone → (nodes.block x).next = some n →
        (later.block x).next = some n := by
  induction gone generalizing nodes with
  | nil =>
      refine ⟨nodes, rfl, entryBlock, ?_, fun _ _ _ _ next => next⟩
      intro x _
      refine List.forall₂_same.mpr (fun instr _ => ⟨rfl, ?_⟩)
      cases instr.branchEdge <;> rfl
  | cons b rest ih =>
      obtain ⟨notFirst, notRest⟩ := not_or.mp (fun either => stays (List.mem_cons.mpr either))
      obtain ⟨middle, removed, balancedMiddle, entryMiddle, instrs⟩ :=
        balanced.removeBlock entryBlock notFirst
      have unlinked := (removed_removeBlock removed).unlinked
      obtain ⟨later, ran, entryLater, forgets, next⟩ :=
        ih balancedMiddle (unlinked.linked linked) entryMiddle notRest
      refine ⟨later, ?_, entryLater, ?_, ?_⟩
      · rw [List.foldlM_cons, removed]
        exact ran
      · intro x kept
        obtain ⟨other, keptRest⟩ := not_or.mp (fun either => kept (List.mem_cons.mpr either))
        have left := forgets x keptRest
        rw [instrs x other, List.forall₂_map_left_iff] at left
        exact left.imp (fun _ _ => forgets_forgetEdge)
      · intro x n kept stays falls
        obtain ⟨other, keptRest⟩ := not_or.mp (fun either => kept (List.mem_cons.mpr either))
        obtain ⟨apart, staysRest⟩ := not_or.mp (fun either => stays (List.mem_cons.mpr either))
        refine next x n keptRest staysRest ?_
        rw [unlinked.next, if_neg other]
        split
        · rename_i before
          have toRemoved := (linked x b).mpr before
          exact absurd (Option.some.inj (falls.symm.trans toRemoved)) apart
        · exact falls

/-! ### Runs that agree with the analysis -/

/-- What the analysis attached to an instruction is true of what it does. Without dynamic
information an instruction is dead, and nothing needs its effect. -/
def Agrees (willExecute : Option TriState) (instr : BlockInstruction ι) (goes : Goes ι) : Prop :=
  match willExecute with
  | none => instr.instruction.isBranch = false ∧ instr.instruction.isCall = false ∧
      instr.instruction.isRet = false
  | some .False => instr.instruction.isBranch = true ∧
      instr.instruction.getPredicate.isSome = true ∧ goes = .on
  | some .True => instr.instruction.isBranch = true →
      instr.instruction.getPredicate.isSome = true → goes ≠ .on
  | some .Unknown => True

def shownOf (willExecute : Option TriState) (instr : BlockInstruction ι) (label : Option Event) :
    Option Event :=
  match handleInstruction willExecute instr with
  | .keep => label
  | .delete => none
  | .convert =>
      if instr.branchEdge.isSome then none else some (.exec (toJump instr).instruction)

/-- A step that agrees with the analysis: no block without an entry state is entered. -/
inductive AgreedStep (nodes : Nodes ι) (willExecute : ι → ℕ → Option TriState) (entry : ι) :
    Option (Point ι) → Option Event → Option (Point ι) → Prop where
  | fall {b n : ι} (falls : (nodes.block b).next = some n)
      (entered : nodes.hasEntryState n = true) :
      AgreedStep nodes willExecute entry (some { block := b, rest := [] }) none
        (some ((nodes.cfg entry).enter n))
  | instr {b : ι} {passed : List (BlockInstruction ι)} {instr : BlockInstruction ι}
      {rest : List (BlockInstruction ι)} {label : Option Event} {goes : Goes ι}
      (split : (nodes.block b).instrs = passed ++ instr :: rest)
      (outcome : Outcome instr label goes)
      (agrees : Agrees (willExecute b passed.length) instr goes)
      (entered : ∀ dst, goes = .block dst → nodes.hasEntryState dst = true) :
      AgreedStep nodes willExecute entry (some { block := b, rest := instr :: rest })
        (shownOf (willExecute b passed.length) instr label) ((nodes.cfg entry).place b rest goes)

structure Eliminated (nodes later : Nodes ι) (willExecute : ι → ℕ → Option TriState)
    (gone : List ι) : Prop where
  stays : ∀ b, nodes.hasEntryState b = true → b ∉ gone
  instrs : ∀ b, nodes.hasEntryState b = true →
    List.Forall₂ (Forgets gone)
      (remaining (fatesFrom (willExecute b) 0 (nodes.block b).instrs) (nodes.block b).instrs)
      (later.block b).instrs
  next : ∀ b n, nodes.hasEntryState b = true → nodes.hasEntryState n = true →
    Fate.convert ∉ fatesFrom (willExecute b) 0 (nodes.block b).instrs →
      (nodes.block b).next = some n → (later.block b).next = some n

/-- In front of what is left of the same instructions, with no converted branch behind. -/
inductive EliminatedRelated (nodes : Nodes ι) (willExecute : ι → ℕ → Option TriState)
    (gone : List ι) : Option (Point ι) → Option (Point ι) → Prop where
  | left : EliminatedRelated nodes willExecute gone none none
  | inside {b : ι} {passed rest left : List (BlockInstruction ι)}
      (state : nodes.hasEntryState b = true) (split : (nodes.block b).instrs = passed ++ rest)
      (straight : Fate.convert ∉ fatesFrom (willExecute b) 0 passed)
      (leaves : List.Forall₂ (Forgets gone)
        (remaining (fatesFrom (willExecute b) passed.length rest) rest) left) :
      EliminatedRelated nodes willExecute gone (some { block := b, rest })
        (some { block := b, rest := left })

omit [DecidableEq ι] in
theorem fatesFrom_append (willExecute : ℕ → Option TriState) (index : ℕ)
    (passed : List (BlockInstruction ι)) (instr : BlockInstruction ι) :
    fatesFrom willExecute index (passed ++ [instr]) = fatesFrom willExecute index passed ++
      [handleInstruction (willExecute (index + passed.length)) instr] := by
  induction passed generalizing index with
  | nil => rfl
  | cons first rest ih =>
      have shifted := ih (index + 1)
      rw [Nat.add_right_comm] at shifted
      exact congrArg (List.cons _) shifted

section Run

variable {willExecute : ι → ℕ → Option TriState} {gone : List ι} {entry : ι}

theorem Eliminated.enter (eliminated : Eliminated nodes later willExecute gone) {b : ι}
    (state : nodes.hasEntryState b = true) :
    EliminatedRelated nodes willExecute gone (some ((nodes.cfg entry).enter b))
      (some ((later.cfg entry).enter b)) := by
  have split : (nodes.block b).instrs = [] ++ (nodes.block b).instrs := rfl
  exact .inside state split nofun (eliminated.instrs b state)

theorem Forgets.outcome {instr other : BlockInstruction ι} (forgets : Forgets gone instr other)
    {label : Option Event} {goes : Goes ι} (outcome : Outcome instr label goes)
    (stays : ∀ dst, goes = .block dst → dst ∉ gone) : Outcome other label goes := by
  obtain ⟨instruction, edge⟩ := forgets
  by_cases same : other.branchEdge = instr.branchEdge
  · exact outcome_congr instruction same outcome
  · -- the branch leads to a block that was removed, so it is not taken
    have lost : ∀ dst, goes ≠ .block dst := by
      rintro dst rfl
      have before := branchEdge_of_outcome outcome rfl
      apply same
      rw [edge, before]
      simp [Option.filter, stays dst rfl]
    have some_ : instr.branchEdge ≠ none := by
      intro none
      apply same
      rw [edge, none]
      rfl
    cases outcome with
    | jump _ _ _ => exact absurd rfl (lost _)
    | away _ _ none => exact absurd none some_
    | taken _ _ _ _ =>
        obtain ⟨dst, target⟩ := Option.ne_none_iff_exists'.mp some_
        rw [target] at lost
        exact absurd rfl (lost dst)
    | passed branch sometimes condition holds =>
        rw [← instruction] at branch sometimes
        exact .passed branch sometimes condition holds
    | ret branch ret =>
        rw [← instruction] at branch ret ⊢
        exact .ret branch ret
    | exec branch ret =>
        rw [← instruction] at branch ret ⊢
        exact .exec branch ret

omit [DecidableEq ι] in
theorem on_of_delete {mark : Option TriState} {instr : BlockInstruction ι} {label : Option Event}
    {goes : Goes ι} (fate : handleInstruction mark instr = .delete)
    (outcome : Outcome instr label goes) (agrees : Agrees mark instr goes) : goes = .on := by
  cases mark with
  | none =>
      obtain ⟨noBranch, _, noRet⟩ := agrees
      cases outcome with
      | jump branch | away branch | taken branch | passed branch =>
          exact absurd (noBranch.symm.trans branch) Bool.false_ne_true
      | ret _ ret =>
          rw [noRet] at ret
          cases ret
      | exec => rfl
  | some value =>
      cases value with
      | False => exact agrees.2.2
      | True =>
          unfold handleInstruction at fate
          dsimp only at fate
          split at fate <;> cases fate
      | Unknown => cases fate

theorem convert_outcome {mark : Option TriState} {instr other : BlockInstruction ι}
    {label : Option Event} {goes : Goes ι} (fate : handleInstruction mark instr = .convert)
    (outcome : Outcome instr label goes) (agrees : Agrees mark instr goes)
    (forgets : Forgets gone (toJump instr) other)
    (stays : ∀ dst, goes = .block dst → dst ∉ gone) :
    goes ≠ .on ∧ Outcome other (shownOf mark instr label) goes := by
  obtain ⟨branch, conditional, taken⟩ : instr.instruction.isBranch = true ∧
      instr.instruction.getPredicate.isSome = true ∧ goes ≠ .on := by
    cases mark with
    | none => cases fate
    | some value =>
        cases value with
        | False | Unknown => cases fate
        | True =>
            unfold handleInstruction at fate
            dsimp only at fate
            split at fate
            · rename_i both
              obtain ⟨branch, conditional⟩ := Bool.and_eq_true_iff.mp both
              exact ⟨branch, conditional, agrees branch conditional⟩
            · cases fate
  have shown : shownOf mark instr label =
      if instr.branchEdge.isSome then none else some (.exec (toJump instr).instruction) := by
    unfold shownOf
    rw [fate]
  have isJump : other.instruction.isBranch = true ∧ other.instruction.getPredicate = none := by
    rw [forgets.1]
    exact ⟨rfl, rfl⟩
  have edge : other.branchEdge = instr.branchEdge.filter (fun dst => decide (dst ∉ gone)) :=
    forgets.2
  refine ⟨taken, ?_⟩
  rw [shown]
  cases outcome with
  | jump _ always | away _ always =>
      rw [always] at conditional
      cases conditional
  | passed => exact absurd rfl taken
  | ret no | exec no =>
      rw [branch] at no
      cases no
  | taken _ _ _ _ =>
      cases target : instr.branchEdge with
      | none =>
          rw [target] at edge
          rw [Option.isSome_none, if_neg Bool.false_ne_true, ← forgets.1]
          exact .away isJump.1 isJump.2 edge
      | some dst =>
          rw [target] at edge stays
          have kept : other.branchEdge = some dst := by
            rw [edge]
            simp [Option.filter, stays dst rfl]
          rw [Option.isSome_some, if_pos rfl]
          exact .jump isJump.1 isJump.2 kept

theorem Eliminated.simulates (eliminated : Eliminated nodes later willExecute gone) :
    Traces.Simulates (nodes.AgreedStep willExecute entry) (later.cfg entry).Step
      (EliminatedRelated nodes willExecute gone) := by
  intro before after next label related step
  cases related with
  | left => cases step
  | @inside b passed rest left state split straight leaves =>
      cases step with
      | @fall _ n falls entered =>
          cases leaves
          rw [List.append_nil] at split
          rw [← split] at straight
          exact ⟨_, eliminated.enter entered,
            .single (.fall (eliminated.next b n state entered straight falls))⟩
      | @instr _ passed' instr rest label goes split' outcome agrees entered =>
          cases List.append_cancel_right (split'.symm.trans split)
          have stays (dst : ι) (leads : goes = .block dst) : dst ∉ gone :=
            eliminated.stays dst (entered dst leads)
          have whole : (nodes.block b).instrs = (passed ++ [instr]) ++ rest := by
            rw [split]
            simp
          have fates := fatesFrom_append (willExecute b) 0 passed instr
          rw [Nat.zero_add] at fates
          have behind : (passed ++ [instr]).length = passed.length + 1 := by simp
          have onward {left : List (BlockInstruction ι)}
              (apart : handleInstruction (willExecute b passed.length) instr ≠ .convert)
              (leaves : List.Forall₂ (Forgets gone)
                (remaining (fatesFrom (willExecute b) (passed.length + 1) rest) rest) left)
              (leads : ∀ dst, goes = .block dst → nodes.hasEntryState dst = true) :
              EliminatedRelated nodes willExecute gone ((nodes.cfg entry).place b rest goes)
                ((later.cfg entry).place b left goes) := by
            cases goes with
            | on =>
                refine .inside state whole ?_ (behind ▸ leaves)
                rw [fates]
                intro member
                rcases List.mem_append.mp member with old | new
                · exact straight old
                · exact apart (List.mem_singleton.mp new).symm
            | block dst => exact eliminated.enter (leads dst rfl)
            | leave => exact .left
          unfold fatesFrom at leaves
          cases fate : handleInstruction (willExecute b passed.length) instr with
          | delete =>
              rw [fate] at leaves
              cases on_of_delete fate outcome agrees
              have shown : shownOf (willExecute b passed.length) instr label = none := by
                unfold shownOf
                rw [fate]
              rw [shown]
              exact ⟨_, onward (by rw [fate]; exact nofun) leaves entered, .stay _⟩
          | keep =>
              rw [fate] at leaves
              have shown : shownOf (willExecute b passed.length) instr label = label := by
                unfold shownOf
                rw [fate]
              rw [shown]
              cases leaves with
              | cons first others =>
                  exact ⟨_, onward (by rw [fate]; exact nofun) others entered,
                    .single (.instr (first.outcome outcome stays))⟩
          | convert =>
              rw [fate] at leaves
              cases leaves with
              | cons first others =>
                  obtain ⟨leads, converted⟩ := convert_outcome fate outcome agrees first stays
                  refine ⟨_, ?_, .single (.instr converted)⟩
                  cases goes with
                  | on => exact absurd rfl leads
                  | block dst => exact eliminated.enter (entered dst rfl)
                  | leave => exact .left

theorem Eliminated.reaches (eliminated : Eliminated nodes later willExecute gone)
    (analysed : nodes.hasEntryState entry = true) {events : List Event} {place : Option (Point ι)}
    (run : Traces.Run (nodes.AgreedStep willExecute entry)
      (some ((nodes.cfg entry).enter entry)) events place) :
    ∃ last, (later.cfg entry).Reaches events last ∧
      last.map Point.block = place.map Point.block := by
  obtain ⟨last, related, reached⟩ := eliminated.simulates.run (eliminated.enter analysed) run
  refine ⟨last, reached, ?_⟩
  cases related with
  | left => rfl
  | inside => rfl

end Run

theorem exists_eliminated {blocks : List ι} {entry : ι} (willExecute : ι → ℕ → Option TriState)
    (entryBlock : nodes.entryBlock = some entry) (balanced : nodes.Balanced)
    (linked : Linked nodes.block) (once : blocks.Nodup)
    (listed : ∀ b, nodes.hasEntryState b = true → b ∈ blocks) :
    ∃ later, nodes.eliminateDeadCode blocks willExecute = .ok later ∧
      later.entryBlock = some entry ∧
      (nodes.hasEntryState entry = true → Eliminated nodes later willExecute
        (blocks.filter (fun b => !nodes.hasEntryState b))) := by
  unfold eliminateDeadCode
  rw [entryBlock]
  dsimp only
  by_cases analysed : nodes.hasEntryState entry = true
  · rw [if_pos analysed]
    have kept (b : ι) (state : nodes.hasEntryState b = true) :
        b ∈ blocks.filter nodes.hasEntryState :=
      List.mem_filter.mpr ⟨listed b state, state⟩
    have stays (b : ι) (state : nodes.hasEntryState b = true) :
        b ∉ blocks.filter (fun b => !nodes.hasEntryState b) := by
      intro member
      have none := (List.mem_filter.mp member).2
      rw [state] at none
      cases none
    have onceAnalysed := once.filter nodes.hasEntryState
    have length (b : ι) (_ : b ∈ blocks.filter nodes.hasEntryState) :
        (fatesFrom (willExecute b) 0 (nodes.block b).instrs).length =
          (nodes.block b).instrs.length := length_fatesFrom (willExecute b) 0 _
    obtain ⟨removed, ranRemoved, trimmed, survive⟩ :=
      foldlM_removeCollected_spec (blocks.filter nodes.hasEntryState) onceAnalysed balanced length
    have linkedRemoved : Linked removed.block := by
      intro x y
      rw [trimmed.next, trimmed.prev]
      exact linked x y
    obtain ⟨balancedLater, linkedLater, entryConverted, next, instrs⟩ :=
      foldl_convertCollected_spec (blocks.filter nodes.hasEntryState) onceAnalysed trimmed.balanced
        linkedRemoved length (fun b member => (survive b).trans (if_pos member)) rfl
    obtain ⟨later, ran, entryLater, forgets, nextLater⟩ :=
      foldlM_removeBlock_spec (blocks.filter (fun b => !nodes.hasEntryState b)) balancedLater
        linkedLater ((entryConverted.trans trimmed.entry).trans entryBlock) (stays entry analysed)
    refine ⟨later, ?_, entryLater, fun _ => ⟨stays, ?_, ?_⟩⟩
    · rw [ranRemoved]
      exact ran
    · intro b state
      have left := forgets b (stays b state)
      rw [instrs, if_pos (kept b state)] at left
      exact left
    · intro b n stateB stateN straight falls
      refine nextLater b n (stays b stateB) (stays n stateN) ?_
      rw [next b (fun _ => straight), trimmed.next]
      exact falls
  · rw [if_neg analysed]
    exact ⟨nodes, rfl, entryBlock, fun state => absurd state analysed⟩

/-- Every run that agrees with the analysis shows after the pass what is left of it, and
gets to the same block; a branch forgets its edge only if no such run takes it. -/
theorem eliminateDeadCode_runs (nodes : Nodes ι) (blocks : List ι)
    (willExecute : ι → ℕ → Option TriState) (entry : ι)
    (entryBlock : nodes.entryBlock = some entry) (balanced : nodes.Balanced)
    (linked : Linked nodes.block) (once : blocks.Nodup)
    (listed : ∀ b, nodes.hasEntryState b = true → b ∈ blocks) :
    ∃ later, nodes.eliminateDeadCode blocks willExecute = .ok later ∧
      later.entryBlock = some entry ∧
      (nodes.hasEntryState entry = true →
        (∀ b, nodes.hasEntryState b = true →
          List.Forall₂ (Forgets (blocks.filter (fun b => !nodes.hasEntryState b)))
            (remaining (fatesFrom (willExecute b) 0 (nodes.block b).instrs) (nodes.block b).instrs)
            (later.block b).instrs) ∧
        ∀ events place,
          Traces.Run (nodes.AgreedStep willExecute entry)
            (some ((nodes.cfg entry).enter entry)) events place →
          ∃ last, (later.cfg entry).Reaches events last ∧
            last.map Point.block = place.map Point.block) := by
  obtain ⟨later, ran, entryLater, eliminated⟩ :=
    exists_eliminated willExecute entryBlock balanced linked once listed
  refine ⟨later, ran, entryLater, fun analysed => ⟨(eliminated analysed).instrs, ?_⟩⟩
  exact fun _ _ run => (eliminated analysed).reaches analysed run

def decidedBranch : Nodes (Fin 3) where
  valid := fun _ => false
  hasInfo := false
  entryBlock := some 0
  block
    | 0 =>
        { instrs :=
            [⟨⟨.ADD64rr, [.reg (.gprs64 .A), .reg (.gprs64 .B)]⟩, none, none⟩,
              ⟨⟨.JNZa, [.mem (.direct (.plain 0))]⟩, none, some 1⟩]
          next := some 2
          prev := none
          incomingEdges := []
          outgoingEdges := [1] }
    | 1 =>
        { instrs := [⟨⟨.RET, []⟩, none, none⟩]
          next := none
          prev := none
          incomingEdges := [0]
          outgoingEdges := [] }
    | 2 =>
        { instrs := [⟨⟨.RET, []⟩, none, none⟩]
          next := none
          prev := some 0
          incomingEdges := []
          outgoingEdges := [] }
  blockValid := fun _ _ => false
  entryState := fun b => if b = 2 then none else some .initial
  visited := []
  icfgValid := fun _ => false

theorem eliminateDeadCode_runs_decidedBranch :
    ∃ later, decidedBranch.eliminateDeadCode [0, 1, 2] (fun _ _ => some .True) = .ok later ∧
      later.entryBlock = some 0 ∧
      (decidedBranch.hasEntryState 0 = true →
        (∀ b, decidedBranch.hasEntryState b = true →
          List.Forall₂ (Forgets ([0, 1, 2].filter (fun b => !decidedBranch.hasEntryState b)))
            (remaining (fatesFrom (fun _ => some .True) 0 (decidedBranch.block b).instrs)
              (decidedBranch.block b).instrs)
            (later.block b).instrs) ∧
        ∀ events place,
          Traces.Run (decidedBranch.AgreedStep (fun _ _ => some .True) 0)
            (some ((decidedBranch.cfg 0).enter 0)) events place →
          ∃ last, (later.cfg 0).Reaches events last ∧
            last.map Point.block = place.map Point.block) := by
  refine eliminateDeadCode_runs decidedBranch [0, 1, 2] (fun _ _ => some .True) 0 rfl
    ⟨by decide, by decide⟩ ?_ (by decide) ?_
  · unfold Linked
    decide
  · intro b _
    have all : ∀ b : Fin 3, b ∈ [(0 : Fin 3), 1, 2] := by decide
    exact all b

/-- The branch is the only way on, and what is behind it is gone. -/
example : (decidedBranch.eliminateDeadCode [0, 1, 2] (fun _ _ => some .True)).toOption.map
    (fun later => ((later.block 0).instrs.map (fun instr =>
      (instr.instruction.opcode, instr.branchEdge)), (later.block 0).next, (later.block 2).instrs.length)) =
    some ([(.ADD64rr, none), (.JMPa, some 1)], none, 0) := by rfl

end Nodes

end Drob
