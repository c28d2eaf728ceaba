import Drob.CodeGeneration.BinaryPool

/-!
When the generated code falls through: a block is followed by its fallthrough block
exactly if the walk reaches it before that block. No jump repairs the other case.
-/

namespace Drob

namespace CodeGeneration

open DepthFirst

variable {ι : Type}

/-! ### Places -/

theorem Laid.lower {text : List (CodeByte ι)} {start : Nat} {places : List (EmittedBlock ι)}
    (laid : Laid text start places) {place : EmittedBlock ι} (member : place ∈ places) :
    start ≤ place.start ∧ place.start < place.stop := by
  induction places generalizing start with
  | nil => cases member
  | cons first rest ih =>
      obtain ⟨padding, nonempty, later⟩ := laid
      rcases List.mem_cons.mp member with rfl | inside
      · exact ⟨padding.1, nonempty⟩
      · have found := ih later inside
        have le := padding.1
        omega

theorem Laid.append {text : List (CodeByte ι)} {start : Nat}
    {before rest : List (EmittedBlock ι)} (laid : Laid text start (before ++ rest)) :
    ∃ middle, start ≤ middle ∧ Laid text middle rest ∧
      ∀ place ∈ before, place.stop ≤ middle := by
  induction before generalizing start with
  | nil => exact ⟨start, le_refl _, laid, fun _ impossible => absurd impossible List.not_mem_nil⟩
  | cons first before ih =>
      obtain ⟨padding, nonempty, later⟩ := laid
      obtain ⟨middle, le, laidRest, stops⟩ := ih later
      have begins := padding.1
      refine ⟨middle, by omega, laidRest, ?_⟩
      intro place member
      rcases List.mem_cons.mp member with rfl | inside
      · exact le
      · exact stops place inside

theorem places_split {places : List (EmittedBlock ι)} {before rest : List ι} {b : ι}
    (blocks : places.map EmittedBlock.block = before ++ b :: rest) :
    ∃ early place late, places = early ++ place :: late ∧ place.block = b ∧
      early.map EmittedBlock.block = before ∧ late.map EmittedBlock.block = rest := by
  obtain ⟨early, tail, rfl, earlyBlocks, tailBlocks⟩ := List.map_eq_append_iff.mp blocks
  obtain ⟨place, late, rfl, placeBlock, lateBlocks⟩ := List.map_eq_cons_iff.mp tailBlocks
  exact ⟨early, place, late, rfl, placeBlock, earlyBlocks, lateBlocks⟩

/-! ### The order of the blocks -/

/-- Every fallthrough block is first reached through its predecessor: where at each
block the fallthrough comes before the branch edges, the first simple path to the
predecessor comes before the first one to the block. -/
def EntersChainsFirst (cfg : FunctionCfg ι) : Prop :=
  ∀ b n, (cfg.block b).next = some n →
    (∃ p, SimplePath cfg.successors cfg.entryBlock p b) →
    ∃ p, SimplePath cfg.successors cfg.entryBlock p b ∧
      ∀ q, SimplePath cfg.successors cfg.entryBlock q n → p < q

section Order

variable [DecidableEq ι] {cfg : FunctionCfg ι} {order : List ι} {pathTo : ι → List ℕ}

variable {text : List (CodeByte ι)} {places : List (EmittedBlock ι)} {start : Nat}

omit [DecidableEq ι] in
theorem fallsThrough_iff_before (dfsOrder : cfg.DfsOrder order pathTo)
    (blocks : places.map EmittedBlock.block = order) (laid : Laid text start places)
    {place : EmittedBlock ι} (member : place ∈ places) {n : ι}
    (next : (cfg.block place.block).next = some n) :
    (∃ target ∈ places, target.block = n ∧ Padding text place.stop target.start) ↔
      pathTo place.block < pathTo n := by
  have distinct : (places.map EmittedBlock.block).Nodup := blocks ▸ dfsOrder.nodup
  have seen : place.block ∈ order := blocks ▸ List.mem_map_of_mem member
  have same (other : EmittedBlock ι) (otherMember : other ∈ places)
      (sameBlock : other.block = place.block) : other = place :=
    List.inj_on_of_nodup_map distinct otherMember member sameBlock
  have sorted := dfsOrder.sorted
  rcases dfsOrder.followed _ n next seen with ⟨before, rest, split, inside⟩ | ⟨before, rest, split⟩
  · -- the fallthrough block was emitted before
    obtain ⟨early, own, late, whole, ownBlock, earlyBlocks, _⟩ :=
      places_split (blocks.trans split)
    have isOwn : own = place := same own (by rw [whole]; simp) ownBlock
    refine iff_of_false ?_ ?_
    · rintro ⟨target, targetMember, targetBlock, padding⟩
      have targetEarly : target ∈ early := by
        rw [← earlyBlocks] at inside
        obtain ⟨found, foundMember, foundBlock⟩ := List.mem_map.mp inside
        have equal : found = target := List.inj_on_of_nodup_map distinct
          (by rw [whole]; exact List.mem_append_left _ foundMember) targetMember
          (foundBlock.trans targetBlock.symm)
        rwa [← equal]
      rw [whole] at laid
      have targetPlace := laid.lower (List.mem_append_left _ targetEarly)
      obtain ⟨middle, _le, ⟨begins, nonempty, _⟩, stops⟩ := laid.append
      have stop := stops target targetEarly
      have gap := padding.1
      rw [isOwn] at begins nonempty
      have after := begins.1
      omega
    · rw [split] at sorted
      have less := (List.pairwise_append.mp sorted).2.2 n inside _ List.mem_cons_self
      exact fun impossible => lt_irrefl _ (lt_trans less impossible)
  · refine iff_of_true ?_ ?_
    · obtain ⟨early, own, late, whole, ownBlock, _, lateBlocks⟩ :=
        places_split (blocks.trans split)
      obtain ⟨target, later, rfl, targetBlock, _⟩ := List.map_eq_cons_iff.mp lateBlocks
      have isOwn : own = place := same own (by rw [whole]; simp) ownBlock
      refine ⟨target, by rw [whole]; simp, targetBlock, ?_⟩
      rw [whole] at laid
      obtain ⟨middle, _le, ⟨_begins, _nonempty, padding, _⟩, _⟩ := laid.append
      rwa [isOwn] at padding
    · rw [split] at sorted
      have tail := (List.pairwise_append.mp sorted).2.1
      exact (List.pairwise_cons.mp tail).1 n List.mem_cons_self

/-- The generated code of a function falls through where the graph does, if and only
if every fallthrough chain is entered at the top. -/
theorem fallsThrough_iff (wellFormed : cfg.WellFormed) {encoder : Encoder ι}
    (positive : ∀ block nr address, 0 < encoder block nr address) {fuel : Nat}
    {pool last : BinaryPool ι} {places : List (EmittedBlock ι)}
    (returned : handleFunction cfg encoder fuel pool = some (.ok (last, places))) :
    FallsThrough cfg last.text places ↔ EntersChainsFirst cfg := by
  unfold handleFunction at returned
  obtain ⟨order, finished, emitted⟩ := Option.map_eq_some_iff.mp returned
  obtain ⟨pathTo, dfsOrder⟩ := FunctionCfg.dfsOrder_of_dfs wellFormed finished
  obtain ⟨_grown, blocks, laid⟩ := handleBlocks_laid positive emitted
  constructor
  · intro falls b n next reachable
    obtain ⟨p, path⟩ := reachable
    have seen := dfsOrder.mem_of_path path
    rw [← dfsOrder.first_iff next seen]
    rw [← blocks] at seen
    obtain ⟨place, member, rfl⟩ := List.mem_map.mp seen
    exact (fallsThrough_iff_before dfsOrder blocks laid member next).mp
      (falls place member n next)
  · intro enters place member n next
    have seen : place.block ∈ order := blocks ▸ List.mem_map_of_mem member
    rw [fallsThrough_iff_before dfsOrder blocks laid member next,
      dfsOrder.first_iff next seen]
    exact enters _ n next ⟨_, dfsOrder.search.path _ (List.mem_reverse.mpr seen)⟩

end Order

/-! ### A while loop -/

/-- `while (condition) body` with the condition after the body: the entry jumps to the
condition, which the body falls into. -/
def whileLoop : FunctionCfg (Fin 3) where
  entryBlock := 0
  block
    | 0 =>
        { instrs := [⟨⟨.JMPa, [.mem (.direct (.plain 0))]⟩, none, some 2⟩]
          next := none
          prev := none
          incomingEdges := []
          outgoingEdges := [2] }
    | 1 =>
        { instrs := [⟨⟨.ADD64rr, [.reg (.gprs64 .A), .reg (.gprs64 .B)]⟩, none, none⟩]
          next := some 2
          prev := none
          incomingEdges := [2]
          outgoingEdges := [] }
    | 2 =>
        { instrs := [⟨⟨.JNZa, [.mem (.direct (.plain 0))]⟩, none, some 1⟩, ⟨⟨.RET, []⟩, none, none⟩]
          next := none
          prev := some 1
          incomingEdges := [0]
          outgoingEdges := [1] }

theorem whileLoop_wellFormed : whileLoop.WellFormed where
  next_prev := by decide
  acyclic := FunctionCfg.acyclic_of_lt (by decide)
  edges := by decide
  incoming := by decide

theorem fallsThrough_iff_whileLoop : ∃ last places,
    handleFunction whileLoop (fun _ _ _ => 1) 20 .resetCodePool = some (.ok (last, places)) ∧
      (FallsThrough whileLoop last.text places ↔ EntersChainsFirst whileLoop) :=
  ⟨_, _, rfl, fallsThrough_iff whileLoop_wellFormed (fun _ _ _ => Nat.one_pos)
    (rfl : handleFunction whileLoop (fun _ _ _ => 1) 20 .resetCodePool = _)⟩

/-- The body of the loop runs into whatever comes after the function. -/
theorem not_fallsThrough_whileLoop : ∃ last places,
    handleFunction whileLoop (fun _ _ _ => 1) 20 .resetCodePool = some (.ok (last, places)) ∧
      ¬ FallsThrough whileLoop last.text places := by
  refine ⟨_, _, rfl, ?_⟩
  intro falls
  obtain ⟨target, member, isNext, padding⟩ := falls ⟨1, 32, 33⟩
    (List.mem_cons_of_mem _ (List.mem_cons_of_mem _ List.mem_cons_self)) 2 rfl
  have after := padding.1
  rcases List.mem_cons.mp member with rfl | member
  · cases isNext
  · rcases List.mem_cons.mp member with rfl | member
    · exact absurd after (by decide)
    · rcases List.mem_cons.mp member with rfl | member
      · cases isNext
      · cases member

end CodeGeneration

end Drob
