import Drob.Library.Contraction
import Drob.Validity.NeverLies
import Drob.Validity.Traversals

/-!
Runs of edits and complete traversals. No edit makes a fallthrough chain cyclic, so every
traversal ends. The breadth-first traversal of functions stops at the entry function, and the
traversals of blocks are stopped by marks once the entry block was merged into a new block.
-/

namespace Drob

variable {ι : Type}

/-! ### What edits leave of the chains -/

namespace FunctionNode

theorem Acyclic.of_next {before after : ι → SuperBlock ι} (acyclic : Acyclic before)
    (paths : ∀ x y, (after x).next = some y →
      Relation.TransGen (fun b n => (before b).next = some n) x y) : Acyclic after := by
  have before_of_after {x y : ι}
      (path : Relation.TransGen (fun b n => (after b).next = some n) x y) :
      Relation.TransGen (fun b n => (before b).next = some n) x y := by
    induction path with
    | single step => exact paths _ _ step
    | tail _ step ih => exact ih.trans (paths _ _ step)
  exact fun b cycle => acyclic b (before_of_after cycle)

theorem FinitelyLinked.of_leads {before after : FunctionNode ι} (finite : before.FinitelyLinked)
    {exempt : Set ι} (few : exempt.Finite)
    (leads : ∀ x, x ∉ exempt → ∀ y, Leads after.block x y → ∃ z, Leads before.block x z) :
    after.FinitelyLinked := by
  refine (finite.union few).subset ?_
  rintro x ⟨y, lead⟩
  by_cases isExempt : x ∈ exempt
  · exact Or.inr isExempt
  · exact Or.inl (leads x isExempt y lead)

end FunctionNode

namespace Nodes

open FunctionNode

variable [DecidableEq ι] {nodes later : Nodes ι} {exempt : ι → Prop} {b fresh : ι}

omit [DecidableEq ι] in
theorem Keeps.acyclic (keeps : Keeps exempt nodes later) (acyclic : Acyclic nodes.block) :
    Acyclic later.block := by
  apply acyclic.of_next
  intro x y next
  exact .single ((keeps.next x).symm.trans next)

omit [DecidableEq ι] in
theorem Keeps.finitelyLinked (keeps : Keeps exempt nodes later) (few : {x | exempt x}.Finite)
    (finite : nodes.FinitelyLinked) : later.FinitelyLinked := by
  apply finite.of_leads few
  rintro x kept y (next | edge)
  · exact ⟨y, Or.inl ((keeps.next x).symm.trans next)⟩
  · exact ⟨y, Or.inr (keeps.edges x kept edge)⟩

theorem Unlinked.acyclic {before after : ι → SuperBlock ι} (unlinked : Unlinked before after b)
    (linked : Linked before) (acyclic : Acyclic before) : Acyclic after := by
  apply acyclic.of_next
  intro x y next
  rw [unlinked.next] at next
  split at next
  · cases next
  · split at next
    · rename_i isPrev
      exact .tail (.single ((linked x b).mpr isPrev)) next
    · exact .single next

theorem acyclic_splitChain (unallocated : nodes.Unallocated fresh) (linked : Linked nodes.block)
    (other : b ≠ fresh) (kept : ℕ) (acyclic : Acyclic nodes.block) :
    Acyclic (nodes.splitChain b kept fresh).block := by
  have noNext (x : ι) : (nodes.block x).next ≠ some fresh := by
    intro next
    have prev := (linked x fresh).mp next
    rw [unallocated.empty] at prev
    cases prev
  let chained : ι → ι → Prop := fun x y => ((nodes.splitChain b kept fresh).block x).next = some y
  have contracted (x y : ι) (step : Contraction.Contracted chained fresh x y) :
      (nodes.block x).next = some y := by
    obtain ⟨notFresh, target, direct | ⟨first, second⟩⟩ := step
    · have next : ((nodes.splitChain b kept fresh).block x).next = some y := direct
      rw [next_splitChain, if_neg notFresh] at next
      split at next
      · exact absurd (Option.some.inj next).symm target
      · exact next
    · have next : ((nodes.splitChain b kept fresh).block x).next = some fresh := first
      rw [next_splitChain, if_neg notFresh] at next
      split at next
      · rename_i isSplit
        have after : ((nodes.splitChain b kept fresh).block fresh).next = some y := second
        rw [next_splitChain, if_pos rfl] at after
        rw [isSplit]
        exact after
      · exact absurd next (noNext x)
  have elsewhere (x : ι) (notFresh : x ≠ fresh) : ¬ Relation.TransGen chained x x := by
    intro cycle
    have around := (Contraction.transGen_contracted_iff notFresh notFresh).mpr cycle
    exact acyclic x (Relation.TransGen.mono contracted _ _ around)
  intro x cycle
  by_cases isFresh : x = fresh
  · subst isFresh
    obtain ⟨y, first, rest⟩ := Relation.TransGen.head'_iff.mp cycle
    have toY : chained x y := first
    have next : ((nodes.splitChain b kept x).block x).next = some y := toY
    rw [next_splitChain, if_pos rfl] at next
    refine elsewhere y ?_ (Relation.TransGen.tail' rest toY)
    rintro rfl
    exact noNext b next
  · exact elsewhere x isFresh cycle

theorem finitelyLinked_splitChain (nodes : Nodes ι) (b : ι) (kept : ℕ) (fresh : ι)
    (finite : nodes.FinitelyLinked) : (nodes.splitChain b kept fresh).FinitelyLinked := by
  apply finite.of_leads (Set.toFinite {b, fresh})
  intro x kept' y lead
  have notSplit : x ≠ b := fun same => kept' (Or.inl same)
  have notFresh : x ≠ fresh := fun same => kept' (Or.inr same)
  rcases lead with next | edge
  · rw [next_splitChain, if_neg notFresh, if_neg notSplit] at next
    exact ⟨y, Or.inl next⟩
  · refine ⟨y, Or.inr ?_⟩
    unfold splitChain at edge
    dsimp only at edge
    rw [if_neg notFresh, if_neg notSplit] at edge
    split at edge <;> exact edge

theorem Unlinked.leads {before after : ι → SuperBlock ι} (unlinked : Unlinked before after b)
    (linked : Linked before) {x y : ι} (next : (after x).next = some y) :
    ∃ z, (before x).next = some z := by
  rw [unlinked.next] at next
  split at next
  · cases next
  · split at next
    · rename_i isPrev
      exact ⟨b, (linked x b).mpr isPrev⟩
    · exact ⟨y, next⟩

end Nodes

namespace Edit

open FunctionNode

variable [DecidableEq ι] {nodes later : Nodes ι} {edit : Edit ι}

theorem acyclic (allocates : edit.Allocates nodes.toFunctionNode) (linked : Linked nodes.block)
    (acyclic : Acyclic nodes.block) (applied : edit.apply nodes = .ok later) :
    Acyclic later.block := by
  cases edit with
  | decodeBlock fresh instrs =>
      cases applied
      have before : Acyclic (nodes.addBlock fresh).block := acyclic
      exact (Nodes.keeps_decodeBlock allocates instrs).acyclic before
  | splitBlock b kept fresh =>
      apply (Nodes.keeps_splitBlock applied).acyclic
      exact Nodes.acyclic_splitChain allocates.1 linked allocates.2 kept acyclic
  | splitBlockAfter b index fresh =>
      apply (Nodes.keeps_splitBlock applied).acyclic
      exact Nodes.acyclic_splitChain allocates.1 linked allocates.2 (index + 1) acyclic
  | copyBlock b fresh =>
      cases applied
      have before : Acyclic (nodes.addBlock fresh).block := acyclic
      exact (Nodes.keeps_copyBlock (.of_unallocated allocates.1) b).acyclic before
  | mergeBlockIntoNext b =>
      obtain ⟨n, next, _, removes⟩ := Nodes.mergeBlockIntoNext_cases applied
      have removed := Nodes.removed_removeBlock removes
      exact (Nodes.unlinked_mergeBlockIntoNext next removed).acyclic linked acyclic
  | removeBlock b =>
      exact (Nodes.removed_removeBlock applied).unlinked.acyclic linked acyclic
  | removeInstruction b index =>
      have keeps : Nodes.Keeps (fun _ => False) _ _ := Nodes.keeps_removeInstruction applied
      exact keeps.acyclic acyclic
  | addBranchEdge src index dst =>
      cases applied
      exact (Nodes.keeps_addBranchEdge nodes src index dst).acyclic acyclic
  | removeBranchEdge src index =>
      have keeps : Nodes.Keeps (fun _ => False) _ _ := Nodes.keeps_removeBranchEdge applied
      exact keeps.acyclic acyclic
  | unchainNext b =>
      cases applied
      cases next : (nodes.block b).next with
      | none =>
          unfold Nodes.unchainNext
          rw [next]
          exact acyclic
      | some n =>
          obtain ⟨_, _, nextEq, _, _⟩ := Nodes.unchainNext_spec next
          apply acyclic.of_next
          intro x y step
          rw [nextEq] at step
          split at step
          · cases step
          · exact .single step

theorem finitelyLinked (allocates : edit.Allocates nodes.toFunctionNode)
    (linked : Linked nodes.block) (finite : nodes.FinitelyLinked)
    (applied : edit.apply nodes = .ok later) : later.FinitelyLinked := by
  have one (x : ι) : {y | y = x}.Finite := Set.finite_singleton x
  have empty : {x : ι | False}.Finite := Set.finite_empty.subset (fun _ => id)
  cases edit with
  | decodeBlock fresh instrs =>
      cases applied
      have before : (nodes.addBlock fresh).FinitelyLinked := finite
      exact (Nodes.keeps_decodeBlock allocates instrs).finitelyLinked (one fresh) before
  | splitBlock b kept fresh =>
      apply (Nodes.keeps_splitBlock applied).finitelyLinked (one fresh)
      exact nodes.finitelyLinked_splitChain b kept fresh finite
  | splitBlockAfter b index fresh =>
      apply (Nodes.keeps_splitBlock applied).finitelyLinked (one fresh)
      exact nodes.finitelyLinked_splitChain b (index + 1) fresh finite
  | copyBlock b fresh =>
      cases applied
      have before : (nodes.addBlock fresh).FinitelyLinked := finite
      exact (Nodes.keeps_copyBlock (.of_unallocated allocates.1) b).finitelyLinked (one fresh) before
  | mergeBlockIntoNext b =>
      obtain ⟨n, next, _, removes⟩ := Nodes.mergeBlockIntoNext_cases applied
      have removed := Nodes.removed_removeBlock removes
      apply finite.of_leads (Set.toFinite {b, n})
      intro x kept y lead
      have notMerged : x ≠ b := fun same => kept (Or.inl same)
      have notNext : x ≠ n := fun same => kept (Or.inr same)
      rcases lead with falls | edge
      · obtain ⟨z, before⟩ :=
          (Nodes.unlinked_mergeBlockIntoNext next removed).leads linked falls
        exact ⟨z, Or.inl before⟩
      · have moved := removed.edges x notMerged edge
        rw [Nodes.edges_moveIntoNext notMerged notNext] at moved
        obtain ⟨dst, member, _⟩ := List.mem_map.mp moved
        exact ⟨dst, Or.inr member⟩
  | removeBlock b =>
      have removed := Nodes.removed_removeBlock applied
      apply finite.of_leads (one b)
      rintro x kept y (falls | edge)
      · obtain ⟨z, before⟩ := removed.unlinked.leads linked falls
        exact ⟨z, Or.inl before⟩
      · exact ⟨y, Or.inr (removed.edges x kept edge)⟩
  | removeInstruction b index =>
      exact (Nodes.keeps_removeInstruction applied).finitelyLinked empty finite
  | addBranchEdge src index dst =>
      cases applied
      exact (Nodes.keeps_addBranchEdge nodes src index dst).finitelyLinked (one src) finite
  | removeBranchEdge src index =>
      exact (Nodes.keeps_removeBranchEdge applied).finitelyLinked empty finite
  | unchainNext b =>
      cases applied
      cases next : (nodes.block b).next with
      | none =>
          unfold Nodes.unchainNext
          rw [next]
          exact finite
      | some n =>
          obtain ⟨_, _, nextEq, _, edges⟩ := Nodes.unchainNext_spec next
          apply finite.of_leads (one b)
          rintro x kept y (falls | edge)
          · rw [nextEq, if_neg (show x ≠ b from kept)] at falls
            exact ⟨y, Or.inl falls⟩
          · exact ⟨y, Or.inr ((edges x y edge).resolve_right (fun same => kept same.1))⟩

end Edit

/-! ### Runs -/

namespace MarkedIcfg

variable {φ : Type} [DecidableEq φ] [DecidableEq ι]

def withFunction (icfg : MarkedIcfg φ ι) (f : φ) (function : FunctionNode ι) :
    MarkedIcfg φ ι :=
  { icfg with function := Function.update icfg.function f function }

/-- An edit of a function, which copies or drops some of its call edges, or a complete
traversal. -/
inductive Changes (icfg : MarkedIcfg φ ι) : MarkedIcfg φ ι → Prop where
  | edit (f : φ) (edit : Edit ι) (later : Nodes ι) (calls : List φ)
      (allocates : edit.Allocates (icfg.function f))
      (applied : edit.apply (icfg.toIcfg.nodes f) = .ok later)
      (among : calls ⊆ icfg.outgoingEdges f) :
      Changes icfg
        { icfg with
          toIcfg := icfg.toIcfg.withNodes f later
          outgoingEdges := Function.update icfg.outgoingEdges f calls }
  | functionsDfs {fuel : ℕ} {later : MarkedIcfg φ ι} {handled : List φ}
      (ended : icfg.for_each_function_dfs fuel = some (later, handled)) : Changes icfg later
  | functionsBfs {fuel : ℕ} {later : MarkedIcfg φ ι} {handled : List φ}
      (ended : icfg.for_each_function_bfs fuel = some (later, handled)) : Changes icfg later
  | blocksDfs (f : φ) {fuel : ℕ} {later : FunctionNode ι} {handled : List ι}
      (ended : (icfg.function f).for_each_block_dfs fuel = some (later, handled)) :
      Changes icfg (icfg.withFunction f later)
  | blocksBfs (f : φ) {fuel : ℕ} {later : FunctionNode ι} {handled : List ι}
      (ended : (icfg.function f).for_each_block_bfs fuel = some (later, handled)) :
      Changes icfg (icfg.withFunction f later)

omit [DecidableEq φ] [DecidableEq ι] in
structure FiniteGraph (icfg : MarkedIcfg φ ι) : Prop where
  calls : icfg.FinitelyCalls
  linked : ∀ f, Linked (icfg.function f).block
  acyclic : ∀ f, FunctionNode.Acyclic (icfg.function f).block
  finite : ∀ f, (icfg.function f).FinitelyLinked

omit [DecidableEq φ] [DecidableEq ι] in
/-- Nothing was traversed yet. -/
structure Unvisited (icfg : MarkedIcfg φ ι) : Prop extends icfg.FiniteGraph where
  functions : icfg.visited = []
  blocks : ∀ f, (icfg.function f).visited = []

omit [DecidableEq φ] [DecidableEq ι] in
/-- What holds in every state of a run: the entry function is marked if any function is. -/
structure Sound (icfg : MarkedIcfg φ ι) : Prop extends icfg.FiniteGraph where
  entry : icfg.visited = [] ∨
    ∃ entry, icfg.entryFunction = some entry ∧ entry ∈ icfg.visited

variable {icfg later : MarkedIcfg φ ι}

omit [DecidableEq φ] [DecidableEq ι] in
theorem Sound.unhindered (sound : icfg.Sound) : icfg.Unhindered := by
  intro start isStart
  rcases sound.entry with none | ⟨entry, isEntry, marked⟩
  · right
    intro f _
    rw [none]
    exact List.not_mem_nil
  · cases isStart.symm.trans isEntry
    exact Or.inl marked

omit [DecidableEq ι] in
theorem for_each_function_marks {follows : φ → φ → List φ → Bool}
    {push : List φ → List φ → List φ} {fuel : ℕ} {handled : List φ}
    (ended : icfg.for_each_function follows push fuel = some (later, handled)) :
    later = icfg ∧ icfg.entryFunction = none ∨
      ∃ entry marks, icfg.entryFunction = some entry ∧ entry ∈ marks ∧
        later = { icfg with visited := marks } := by
  cases isEntry : icfg.entryFunction with
  | none =>
      unfold for_each_function at ended
      rw [isEntry] at ended
      cases ended
      exact Or.inl ⟨rfl, rfl⟩
  | some entry =>
      rw [for_each_function_eq isEntry] at ended
      obtain ⟨walk, finished, same⟩ := Option.map_eq_some_iff.mp ended
      cases same
      refine Or.inr ⟨entry, walk.visited, rfl, ?_, rfl⟩
      let motive (walk : FunctionWalk φ) : Prop :=
        entry ∈ walk.visited ∨ walk.functions = [entry]
      have start : motive { functions := [entry], visited := icfg.staleMarks entry } :=
        Or.inr rfl
      have keeps (walk next : FunctionWalk φ) (holds : motive walk)
          (steps : walk.step icfg.outgoingEdges follows push = some next) : motive next := by
        obtain ⟨functions, visited⟩ := walk
        unfold FunctionWalk.step at steps
        rcases holds with marked | waits
        · cases functions with
          | nil => cases steps
          | cons f rest =>
              dsimp only at steps
              split at steps <;> cases steps
              · exact Or.inl marked
              · exact Or.inl (List.mem_cons_of_mem f marked)
        · dsimp only at waits
          subst waits
          dsimp only at steps
          split at steps <;> cases steps
          · exact Or.inl ‹_›
          · exact Or.inl List.mem_cons_self
      obtain ⟨holds, stopped⟩ := Worklist.run_induct keeps start finished
      rcases holds with marked | waits
      · exact marked
      · unfold FunctionWalk.step at stopped
        rw [waits] at stopped
        dsimp only at stopped
        split at stopped <;> cases stopped

omit [DecidableEq ι] in
theorem Sound.functions (sound : icfg.Sound) {follows : φ → φ → List φ → Bool}
    {push : List φ → List φ → List φ} {fuel : ℕ} {handled : List φ}
    (ended : icfg.for_each_function follows push fuel = some (later, handled)) :
    later.Sound := by
  rcases for_each_function_marks ended with ⟨rfl, _⟩ | ⟨entry, marks, isEntry, marked, rfl⟩
  · exact sound
  · exact ⟨⟨sound.calls, sound.linked, sound.acyclic, sound.finite⟩,
      Or.inr ⟨entry, isEntry, marked⟩⟩

omit [DecidableEq ι] in
theorem Sound.withFunction (sound : icfg.Sound) (f : φ) {function : FunctionNode ι}
    (linked : Linked function.block) (acyclic : FunctionNode.Acyclic function.block)
    (finite : function.FinitelyLinked) : (icfg.withFunction f function).Sound := by
  have updated {motive : FunctionNode ι → Prop} (old : ∀ g, motive (icfg.function g))
      (new : motive function) (g : φ) :
      motive (Function.update icfg.function f function g) := by
    rw [Function.update_apply]
    split
    · exact new
    · exact old g
  exact ⟨⟨sound.calls, updated (motive := fun function => Linked function.block) sound.linked linked,
    updated (motive := fun function => FunctionNode.Acyclic function.block) sound.acyclic acyclic,
    updated sound.finite finite⟩, sound.entry⟩

theorem Sound.blocks (sound : icfg.Sound) (f : φ) {push : List ι → List ι → List ι} {fuel : ℕ}
    {function : FunctionNode ι} {handled : List ι}
    (ended : (icfg.function f).for_each_block push fuel = some (function, handled)) :
    (icfg.withFunction f function).Sound := by
  have same : function.block = (icfg.function f).block := by
    unfold FunctionNode.for_each_block at ended
    split at ended
    · cases ended
      rfl
    · obtain ⟨walk, _, same⟩ := Option.map_eq_some_iff.mp ended
      cases same
      rfl
  apply sound.withFunction f
  · rw [same]
    exact sound.linked f
  · rw [same]
    exact sound.acyclic f
  · unfold FunctionNode.FinitelyLinked
    rw [same]
    exact sound.finite f

theorem Sound.step (sound : icfg.Sound) (changes : Changes icfg later) : later.Sound := by
  cases changes with
  | functionsDfs ended => exact sound.functions ended
  | functionsBfs ended => exact sound.functions ended
  | blocksDfs f ended => exact sound.blocks f ended
  | blocksBfs f ended => exact sound.blocks f ended
  | edit f edit nodes calls allocates applied among =>
      have edited := sound.withFunction f (Edit.linked allocates (sound.linked f) applied)
        (Edit.acyclic allocates (sound.linked f) (sound.acyclic f) applied)
        (Edit.finitelyLinked allocates (sound.linked f) (sound.finite f) applied)
      refine ⟨⟨?_, edited.linked, edited.acyclic, edited.finite⟩, edited.entry⟩
      refine sound.calls.subset (fun g calls' none => calls' ?_)
      dsimp only
      rw [Function.update_apply]
      split
      · rename_i here
        rw [here] at none
        rw [none] at among
        exact List.eq_nil_of_subset_nil among
      · exact none

omit [DecidableEq φ] [DecidableEq ι] in
theorem Unvisited.sound (unvisited : icfg.Unvisited) : icfg.Sound :=
  ⟨unvisited.toFiniteGraph, Or.inl unvisited.functions⟩

theorem Sound.run (sound : icfg.Sound) (run : Relation.ReflTransGen Changes icfg later) :
    later.Sound := by
  induction run with
  | refl => exact sound
  | tail _ changes ih => exact ih.step changes

/-- In every state of a run the depth-first traversal of functions is exact, the breadth-first
one if and only if no function but the entry function can be reached, and a traversal of blocks
if and only if the entry block is marked or no block that can be reached is. -/
theorem traversals_iff {start icfg : MarkedIcfg φ ι} (unvisited : start.Unvisited)
    (run : Relation.ReflTransGen Changes start icfg) :
    TraversesExactly for_each_function_dfs icfg ∧
      (TraversesExactly for_each_function_bfs icfg ↔ icfg.CallsNothing) ∧
        ∀ f, (FunctionNode.TraversesExactly FunctionNode.for_each_block_dfs (icfg.function f) ↔
            (icfg.function f).Unhindered) ∧
          (FunctionNode.TraversesExactly FunctionNode.for_each_block_bfs (icfg.function f) ↔
            (icfg.function f).Unhindered) := by
  have sound := unvisited.sound.run run
  refine ⟨(traversesExactly_dfs_iff sound.calls).mpr sound.unhindered,
    traversesExactly_bfs_iff, fun f => ⟨?_, ?_⟩⟩
  · exact (FunctionNode.traversesExactly_iff FunctionCfg.adds_pushEdges (sound.acyclic f)
      (sound.finite f)).2
  · exact (FunctionNode.traversesExactly_iff FunctionCfg.adds_queue (sound.acyclic f)
      (sound.finite f)).2

def rowBlock (b : Fin 3) : SuperBlock (Fin 3) :=
  if b = 0 then { FunctionCfg.removedBlock with next := some 1 }
  else if b = 1 then { FunctionCfg.removedBlock with prev := some 0 }
  else FunctionCfg.removedBlock

def twoFunctions : MarkedIcfg Bool (Fin 3) where
  valid := fun _ => false
  entryFunction := some false
  function := fun _ =>
    { valid := fun _ => false
      hasInfo := true
      entryBlock := some 0
      block := rowBlock
      blockValid := fun _ _ => false
      entryState := fun _ => none
      visited := [] }
  outgoingEdges := fun f => if f then [] else [true]
  visited := []

theorem twoFunctions_unvisited : twoFunctions.Unvisited := by
  have linked : ∀ b n : Fin 3, (rowBlock b).next = some n ↔ (rowBlock n).prev = some b := by
    decide
  have upwards : ∀ b n : Fin 3, (rowBlock b).next = some n → b < n := by decide
  refine ⟨⟨Set.toFinite _, fun _ => linked, fun _ b cycle => ?_, fun _ => Set.toFinite _⟩, rfl,
    fun _ => rfl⟩
  have less {b n : Fin 3} (path : Relation.TransGen (fun b n => (rowBlock b).next = some n) b n) :
      b < n := by
    induction path with
    | single step => exact upwards _ _ step
    | tail _ step ih => exact ih.trans (upwards _ _ step)
  exact lt_irrefl b (less cycle)

def visitedFunction : FunctionNode (Fin 3) :=
  { twoFunctions.function false with visited := [1, 0] }

def visitedIcfg : MarkedIcfg Bool (Fin 3) :=
  twoFunctions.withFunction false visitedFunction

theorem changes_mergedEntry :
    ∃ icfg, Relation.ReflTransGen Changes twoFunctions icfg ∧
      (icfg.function false).entryBlock = some 2 ∧ (icfg.function false).visited = [1] ∧
        ((icfg.function false).block 2).next = some 1 := by
  have traversed : Changes twoFunctions visitedIcfg :=
    .blocksDfs false (show (twoFunctions.function false).for_each_block_dfs 10 =
      some (visitedFunction, [0, 1]) from rfl)
  obtain ⟨split, isSplit⟩ :
      ∃ split, Edit.apply (visitedIcfg.toIcfg.nodes false) (.splitBlock 0 0 2) = .ok split :=
    ⟨_, rfl⟩
  have allocates : (Edit.splitBlock (0 : Fin 3) 0 2).Allocates (visitedIcfg.function false) := by
    refine ⟨⟨rfl, by decide, ?_⟩, by decide⟩
    have noEdge : ∀ x : Fin 3, 2 ∉ (rowBlock x).outgoingEdges := by decide
    exact noEdge
  have splits := Changes.edit false _ split (visitedIcfg.outgoingEdges false) allocates isSplit
    (List.Subset.refl _)
  cases isSplit
  refine ⟨_, .tail (.tail (.single traversed) splits)
    (.edit false (.mergeBlockIntoNext 0) _ (visitedIcfg.outgoingEdges false) trivial rfl
      (List.Subset.refl _)), rfl, rfl, rfl⟩

theorem traversals_iff_mergedEntry :
    ∃ icfg : MarkedIcfg Bool (Fin 3), (icfg.function false).entryBlock = some 2 ∧
      (icfg.function false).visited = [1] ∧
        TraversesExactly for_each_function_dfs icfg ∧
          (TraversesExactly for_each_function_bfs icfg ↔ icfg.CallsNothing) ∧
            ∀ f, (FunctionNode.TraversesExactly FunctionNode.for_each_block_dfs
                (icfg.function f) ↔ (icfg.function f).Unhindered) ∧
              (FunctionNode.TraversesExactly FunctionNode.for_each_block_bfs
                (icfg.function f) ↔ (icfg.function f).Unhindered) := by
  obtain ⟨icfg, run, isEntry, marks, _⟩ := changes_mergedEntry
  exact ⟨icfg, isEntry, marks, traversals_iff twoFunctions_unvisited run⟩

/-- The called function is missed, and so is the second block after the edits. -/
theorem not_traversesExactly_twoFunctions :
    twoFunctions.Unvisited ∧ ¬ TraversesExactly for_each_function_bfs twoFunctions ∧
      ∃ icfg, Relation.ReflTransGen Changes twoFunctions icfg ∧
        ¬ FunctionNode.TraversesExactly FunctionNode.for_each_block_dfs (icfg.function false) ∧
          ¬ FunctionNode.TraversesExactly FunctionNode.for_each_block_bfs
            (icfg.function false) := by
  refine ⟨twoFunctions_unvisited, ?_, ?_⟩
  · rw [traversesExactly_bfs_iff]
    intro callsNothing
    have only := callsNothing true ⟨false, rfl, .single List.mem_cons_self⟩
    cases only
  · obtain ⟨icfg, run, isEntry, marks, next⟩ := changes_mergedEntry
    have sound := twoFunctions_unvisited.sound.run run
    have hindered : ¬ (icfg.function false).Unhindered := by
      intro unhindered
      rcases unhindered 2 isEntry with marked | clear
      · rw [marks] at marked
        revert marked
        decide
      · refine clear 1 ⟨2, isEntry, .single (Or.inl next)⟩ ?_
        rw [marks]
        exact List.mem_cons_self
    refine ⟨icfg, run, fun exact => hindered ?_, fun exact => hindered ?_⟩
    · exact (FunctionNode.traversesExactly_iff FunctionCfg.adds_pushEdges (sound.acyclic false)
        (sound.finite false)).2.mp exact
    · exact (FunctionNode.traversesExactly_iff FunctionCfg.adds_queue (sound.acyclic false)
        (sound.finite false)).2.mp exact

end MarkedIcfg

end Drob
