import Drob.Cfg.Function
import Drob.Library.Worklist

/-!
The depth-first walk visits the blocks in the order of their first simple paths, and
a fallthrough block directly after its predecessor unless it was visited before.
-/

namespace Drob

namespace FunctionCfg

open DepthFirst

variable {ι : Type} [DecidableEq ι] {cfg : FunctionCfg ι}

def pushEdges (edges stack : List ι) : List ι :=
  edges ++ stack

/-- Destinations are added to the blocks that wait, and nothing else happens to these. -/
def Adds (push : List ι → List ι → List ι) : Prop :=
  ∀ edges blocks b, b ∈ push edges blocks ↔ b ∈ edges ∨ b ∈ blocks

omit [DecidableEq ι] in
theorem adds_pushEdges : Adds (@pushEdges ι) :=
  fun _ _ _ => List.mem_append

omit [DecidableEq ι] in
theorem adds_queue : Adds (fun edges queue : List ι => queue ++ edges) :=
  fun _ _ _ => List.mem_append.trans or_comm

namespace Walk

/-- The block the inner loop is at is searched before the ones on the stack. -/
def front (walk : Walk ι) (here : List ℕ) : List (ι × List ℕ) :=
  match walk.current with
  | some b => if b ∈ walk.visited then [] else [(b, here)]
  | none => []

structure Searching (cfg : FunctionCfg ι) (walk : Walk ι) (waiting : List (ι × List ℕ))
    (here : List ℕ) (pathTo : ι → List ℕ) : Prop where
  blocks : waiting.map Prod.fst = walk.blocks
  search : Search cfg.successors cfg.entryBlock walk.visited (walk.front here ++ waiting) pathTo
  chained : ∀ b ∈ walk.visited, ∀ n, (cfg.block b).next = some n →
    n ∈ walk.visited ∨ walk.current = some n

def edgeEntries (cfg : FunctionCfg ι) (visited : List ι) (b : ι) (path : List ℕ) :
    List (ι × List ℕ) :=
  (((cfg.block b).outgoingEdges.zipIdx (cfg.block b).next.toList.length).filter
    (fun entry => decide (entry.1 ∉ visited))).map (fun entry => (entry.1, path ++ [entry.2]))

theorem edgeEntries_fst (cfg : FunctionCfg ι) (visited : List ι) (b : ι) (path : List ℕ) :
    (edgeEntries cfg visited b path).map Prod.fst =
      (cfg.block b).outgoingEdges.filter (fun dst => decide (dst ∉ visited)) := by
  unfold edgeEntries
  generalize (cfg.block b).next.toList.length = start
  induction (cfg.block b).outgoingEdges generalizing start with
  | nil => rfl
  | cons dst rest ih =>
      rw [List.zipIdx_cons, List.filter_cons, List.filter_cons]
      cases decide (dst ∉ visited) with
      | false => exact ih (start + 1)
      | true => exact congrArg (dst :: ·) (ih (start + 1))

theorem children_eq (cfg : FunctionCfg ι) (walk : Walk ι) (b : ι) (path : List ℕ) :
    children cfg.successors (b :: walk.visited) b path =
      (walk.visit cfg pushEdges b).front (path ++ [0]) ++
        edgeEntries cfg (b :: walk.visited) b path := by
  unfold children successors edgeEntries front visit
  rw [List.zipIdx_append, List.filter_append, List.map_append, Nat.zero_add]
  congr 1
  dsimp only
  cases (cfg.block b).next with
  | none => rfl
  | some n =>
      change List.map _ (List.filter _ [(n, 0)]) = _
      rw [List.filter_singleton]
      by_cases seen : n ∈ b :: walk.visited
      · dsimp only
        rw [if_pos seen, decide_eq_false (not_not.mpr seen)]
        rfl
      · dsimp only
        rw [if_neg seen, decide_eq_true seen]
        rfl

theorem Searching.start (cfg : FunctionCfg ι) :
    Searching cfg cfg.walkStart [(cfg.entryBlock, [])] [] (fun _ => []) where
  blocks := rfl
  search := Search.start cfg.successors cfg.entryBlock
  chained := fun _ impossible => absurd impossible List.not_mem_nil

theorem Searching.step {walk later : Walk ι} {waiting : List (ι × List ℕ)} {here : List ℕ}
    {pathTo : ι → List ℕ} (searching : Searching cfg walk waiting here pathTo)
    (steps : walk.step cfg pushEdges = some later) :
    ∃ waiting' here' pathTo', Searching cfg later waiting' here' pathTo' := by
  obtain ⟨current, blocks, visited⟩ := walk
  have blocksEq : waiting.map Prod.fst = blocks := searching.blocks
  unfold Walk.step at steps
  cases current with
  | some b =>
      dsimp only at steps
      by_cases seen : b ∈ visited
      · -- the rest of the chain was visited with the block
        rw [if_pos seen] at steps
        cases steps
        have chainSeen (n : ι) (next : (cfg.block b).next = some n) : n ∈ visited := by
          rcases searching.chained b seen n next with found | same
          · exact found
          · cases same
            exact seen
        refine ⟨waiting, here, pathTo, searching.blocks, ?_, ?_⟩
        · have search := searching.search
          have empty : (Walk.mk (some b) blocks visited).front here = [] := if_pos seen
          have empty' : (Walk.mk (cfg.block b).next blocks visited).front here = [] := by
            unfold front
            dsimp only
            cases next : (cfg.block b).next with
            | none => rfl
            | some n => exact if_pos (chainSeen n next)
          rw [empty] at search
          rw [empty']
          exact search
        · intro x seenX n next
          left
          rcases searching.chained x seenX n next with found | same
          · exact found
          · cases same
            exact seen
      · rw [if_neg seen] at steps
        cases steps
        have search := searching.search
        have single : (Walk.mk (some b) blocks visited).front here = [(b, here)] := if_neg seen
        rw [single] at search
        have visitedSearch := search.visit seen
        have entries := children_eq cfg (Walk.mk (some b) blocks visited) b here
        dsimp only at entries
        rw [entries, List.append_assoc] at visitedSearch
        refine ⟨edgeEntries cfg (b :: visited) b here ++ waiting, here ++ [0],
          Function.update pathTo b here, ?_, visitedSearch, ?_⟩
        · rw [List.map_append, edgeEntries_fst, blocksEq]
          rfl
        · intro x seenX n next
          rcases List.mem_cons.mp seenX with rfl | before
          · exact Or.inr next
          · left
            rcases searching.chained x before n next with found | same
            · exact List.mem_cons_of_mem _ found
            · cases same
              exact List.mem_cons_self
  | none =>
      have search := searching.search
      have empty : (Walk.mk none blocks visited).front here = [] := rfl
      rw [empty] at search
      cases blocks with
      | nil => cases steps
      | cons b rest =>
          cases waiting with
          | nil => cases blocksEq
          | cons entry others =>
              obtain ⟨node, path⟩ := entry
              injection blocksEq with same restEq
              dsimp only at same
              subst same
              dsimp only at steps
              by_cases seen : node ∈ visited
              · rw [if_pos seen] at steps
                cases steps
                refine ⟨others, here, pathTo, restEq, Search.drop search seen, ?_⟩
                exact searching.chained
              · rw [if_neg seen] at steps
                cases steps
                refine ⟨others, path, pathTo, restEq, ?_, ?_⟩
                · have single : (Walk.mk (some node) rest visited).front path =
                      [(node, path)] := if_neg seen
                  rw [single]
                  exact search
                · intro x seenX n next
                  left
                  exact (searching.chained x seenX n next).resolve_right
                    (fun impossible => by cases impossible)

/-- A fallthrough block is visited before its predecessor, directly after it, or next. -/
def Followed (cfg : FunctionCfg ι) (walk : Walk ι) : Prop :=
  ∀ b n, (cfg.block b).next = some n → b ∈ walk.visited →
    (∃ before rest, walk.visited = before ++ b :: rest ∧ n ∈ rest) ∨
      (∃ before rest, walk.visited = before ++ n :: b :: rest) ∨
        walk.current = some n ∧ n ∉ walk.visited ∧ ∃ rest, walk.visited = b :: rest

theorem Followed.step (wellFormed : cfg.WellFormed) {push : List ι → List ι → List ι}
    {walk later : Walk ι} (followed : Followed cfg walk)
    (steps : walk.step cfg push = some later) : Followed cfg later := by
  obtain ⟨current, blocks, visited⟩ := walk
  unfold Walk.step at steps
  intro b n next seenB
  -- a step that leaves the visited blocks as they are
  have unchanged (same : later.visited = visited)
      (notWaiting : current = some n → n ∈ visited) :
      (∃ before rest, later.visited = before ++ b :: rest ∧ n ∈ rest) ∨
        (∃ before rest, later.visited = before ++ n :: b :: rest) ∨
          later.current = some n ∧ n ∉ later.visited ∧ ∃ rest, later.visited = b :: rest := by
    rw [same] at seenB ⊢
    rcases followed b n next seenB with found | found | ⟨isCurrent, unseen, _⟩
    · exact Or.inl found
    · exact Or.inr (Or.inl found)
    · exact absurd (notWaiting isCurrent) unseen
  cases current with
  | some c =>
      dsimp only at steps
      by_cases seen : c ∈ visited
      · rw [if_pos seen] at steps
        cases steps
        refine unchanged rfl ?_
        intro same
        cases same
        exact seen
      · rw [if_neg seen] at steps
        cases steps
        change b ∈ c :: visited at seenB
        rcases List.mem_cons.mp seenB with rfl | before
        · by_cases seenN : n ∈ visited
          · exact Or.inl ⟨[], visited, rfl, seenN⟩
          · right
            right
            refine ⟨next, ?_, visited, rfl⟩
            intro seenLater
            rcases List.mem_cons.mp seenLater with same | impossible
            · rw [same] at next
              exact wellFormed.acyclic b (Relation.TransGen.single next)
            · exact seenN impossible
        · rcases followed b n next before with
            ⟨front, rest, whole, inside⟩ | ⟨front, rest, whole⟩ | ⟨isCurrent, _, rest, whole⟩
          · exact Or.inl ⟨c :: front, rest, congrArg (c :: ·) whole, inside⟩
          · exact Or.inr (Or.inl ⟨c :: front, rest, congrArg (c :: ·) whole⟩)
          · cases isCurrent
            exact Or.inr (Or.inl ⟨[], rest, congrArg (n :: ·) whole⟩)
  | none =>
      cases blocks with
      | nil => cases steps
      | cons c rest =>
          dsimp only at steps
          split at steps
          · cases steps
            exact unchanged rfl (fun impossible => by cases impossible)
          · cases steps
            exact unchanged rfl (fun impossible => by cases impossible)

theorem run_eq (push : List ι → List ι → List ι) (fuel : Nat) (walk : Walk ι) :
    walk.run cfg push fuel = Worklist.run (fun walk => walk.step cfg push) fuel walk := by
  induction fuel generalizing walk with
  | zero => rfl
  | succ fuel ih =>
      unfold Walk.run Worklist.run
      cases walk.step cfg push with
      | none => rfl
      | some later => exact ih later

theorem waiting_of_finished {push : List ι → List ι → List ι} {walk : Walk ι}
    (finished : walk.step cfg push = none) : walk.current = none ∧ walk.blocks = [] := by
  obtain ⟨current, blocks, visited⟩ := walk
  unfold Walk.step at finished
  cases current with
  | some b =>
      dsimp only at finished
      split at finished <;> cases finished
  | none =>
      cases blocks with
      | nil => exact ⟨rfl, rfl⟩
      | cons b rest =>
          dsimp only at finished
          split at finished <;> cases finished

theorem run_induct {push : List ι → List ι → List ι} {motive : Walk ι → Prop}
    (step : ∀ walk later, motive walk → walk.step cfg push = some later → motive later)
    {fuel : Nat} {walk final : Walk ι} (start : motive walk)
    (finished : walk.run cfg push fuel = some final) :
    motive final ∧ final.step cfg push = none := by
  rw [run_eq] at finished
  exact Worklist.run_induct step start finished

end Walk

structure DfsOrder (cfg : FunctionCfg ι) (order : List ι) (pathTo : ι → List ℕ) : Prop where
  search : Search cfg.successors cfg.entryBlock order.reverse [] pathTo
  followed : ∀ b n, (cfg.block b).next = some n → b ∈ order →
    (∃ before rest, order = before ++ b :: rest ∧ n ∈ before) ∨
      ∃ before rest, order = before ++ b :: n :: rest

theorem dfsOrder_of_dfs (wellFormed : cfg.WellFormed) {fuel : Nat} {order : List ι}
    (finished : cfg.dfs fuel = some order) : ∃ pathTo, DfsOrder cfg order pathTo := by
  unfold dfs at finished
  obtain ⟨final, ran, rfl⟩ := Option.map_eq_some_iff.mp finished
  have invariant := Walk.run_induct
    (motive := fun walk => (∃ waiting here pathTo, walk.Searching cfg waiting here pathTo) ∧
      walk.Followed cfg)
    (by
      rintro walk later ⟨⟨waiting, here, pathTo, searching⟩, followed⟩ steps
      exact ⟨searching.step steps, followed.step wellFormed steps⟩)
    ⟨⟨_, _, _, Walk.Searching.start cfg⟩,
      fun _ _ _ impossible => absurd impossible List.not_mem_nil⟩ ran
  obtain ⟨⟨⟨waiting, here, pathTo, searching⟩, followed⟩, ended⟩ := invariant
  obtain ⟨atNone, noneWait⟩ := Walk.waiting_of_finished ended
  obtain ⟨current, blocks, visited⟩ := final
  dsimp only at atNone noneWait
  subst atNone noneWait
  have none : waiting = [] := List.map_eq_nil_iff.mp searching.blocks
  subst none
  refine ⟨pathTo, ?_, ?_⟩
  · rw [List.reverse_reverse]
    exact searching.search
  · intro b n next seen
    rcases followed b n next (List.mem_reverse.mp seen) with
      ⟨before, rest, whole, inside⟩ | ⟨before, rest, whole⟩ | ⟨impossible, _⟩
    · left
      refine ⟨rest.reverse, before.reverse, ?_, List.mem_reverse.mpr inside⟩
      dsimp only at whole ⊢
      rw [whole, List.reverse_append, List.reverse_cons, List.append_assoc]
      rfl
    · right
      refine ⟨rest.reverse, before.reverse, ?_⟩
      dsimp only at whole ⊢
      rw [whole, List.reverse_append, List.reverse_cons, List.reverse_cons,
        List.append_assoc, List.append_assoc]
      rfl
    · cases impossible

namespace DfsOrder

omit [DecidableEq ι]

variable {order : List ι} {pathTo : ι → List ℕ}

theorem sorted (dfsOrder : cfg.DfsOrder order pathTo) :
    order.Pairwise (fun earlier later => pathTo earlier < pathTo later) := by
  have found := dfsOrder.search.ordered
  rwa [List.pairwise_reverse] at found

theorem nodup (dfsOrder : cfg.DfsOrder order pathTo) : order.Nodup := by
  refine dfsOrder.sorted.imp ?_
  rintro x y less rfl
  exact lt_irrefl _ less

theorem next_mem (dfsOrder : cfg.DfsOrder order pathTo) {b n : ι}
    (next : (cfg.block b).next = some n) (seen : b ∈ order) : n ∈ order := by
  rcases dfsOrder.followed b n next seen with ⟨before, rest, rfl, inside⟩ | ⟨before, rest, rfl⟩
  · exact List.mem_append_left _ inside
  · exact List.mem_append_right _ (List.mem_cons_of_mem _ List.mem_cons_self)

theorem mem_of_path (dfsOrder : cfg.DfsOrder order pathTo) {b : ι} {p : List ℕ}
    (path : SimplePath cfg.successors cfg.entryBlock p b) : b ∈ order :=
  List.mem_reverse.mp (dfsOrder.search.visited_of_follow path.ends)

theorem first_iff (dfsOrder : cfg.DfsOrder order pathTo) {b n : ι}
    (next : (cfg.block b).next = some n) (seen : b ∈ order) :
    pathTo b < pathTo n ↔
      ∃ p, SimplePath cfg.successors cfg.entryBlock p b ∧
        ∀ q, SimplePath cfg.successors cfg.entryBlock q n → p < q :=
  dfsOrder.search.before_iff (List.mem_reverse.mpr seen)
    (List.mem_reverse.mpr (dfsOrder.next_mem next seen))

end DfsOrder

/-! ### Termination of the walk -/

def Closed (cfg : FunctionCfg ι) (within : Finset ι) : Prop :=
  ∀ b ∈ within, ∀ n ∈ cfg.successors b, n ∈ within

noncomputable def chainLength (cfg : FunctionCfg ι) (b : ι) : ℕ :=
  {n | Relation.TransGen (fun b n => (cfg.block b).next = some n) b n}.ncard

/-- Unvisited blocks, then waiting blocks, then the rest of the chain. -/
noncomputable def Walk.potential (cfg : FunctionCfg ι) (within : Finset ι) (walk : Walk ι) :
    ℕ ×ₗ ℕ ×ₗ ℕ :=
  toLex ((within.filter (fun b => b ∉ walk.visited)).card,
    toLex (walk.blocks.length, walk.current.elim 0 (fun b => cfg.chainLength b + 1)))

structure Walk.Inside (within : Finset ι) (walk : Walk ι) : Prop where
  current : ∀ b, walk.current = some b → b ∈ within
  blocks : ∀ b ∈ walk.blocks, b ∈ within

section Finite

variable {within : Finset ι}

omit [DecidableEq ι] in
theorem Closed.next (closed : cfg.Closed within) {b n : ι} (inside : b ∈ within)
    (next : (cfg.block b).next = some n) : n ∈ within := by
  apply closed b inside
  exact List.mem_append_left _ (Option.mem_toList.mpr next)

omit [DecidableEq ι] in
theorem Closed.edge (closed : cfg.Closed within) {b n : ι} (inside : b ∈ within)
    (edge : n ∈ (cfg.block b).outgoingEdges) : n ∈ within :=
  closed b inside n (List.mem_append_right _ edge)

omit [DecidableEq ι] in
theorem chainLength_next (closed : cfg.Closed within)
    (acyclic : ∀ b, ¬ Relation.TransGen (fun b n => (cfg.block b).next = some n) b b) {b n : ι}
    (inside : b ∈ within) (next : (cfg.block b).next = some n) :
    cfg.chainLength n < cfg.chainLength b := by
  have chainInside : {m | Relation.TransGen (fun b n => (cfg.block b).next = some n) b m} ⊆
      (within : Set ι) := by
    intro m path
    induction path with
    | single step => exact closed.next inside step
    | tail _ step ih => exact closed.next ih step
  refine Set.ncard_lt_ncard ?_ (within.finite_toSet.subset chainInside)
  refine ⟨fun m path => Relation.TransGen.head next path, ?_⟩
  intro contained
  exact acyclic n (contained (Relation.TransGen.single next))

theorem Walk.potential_step (closed : cfg.Closed within)
    (acyclic : ∀ b, ¬ Relation.TransGen (fun b n => (cfg.block b).next = some n) b b)
    {push : List ι → List ι → List ι} (adds : Adds push)
    {walk later : Walk ι} (walkInside : walk.Inside within)
    (steps : walk.step cfg push = some later) :
    later.Inside within ∧ later.potential cfg within < walk.potential cfg within := by
  obtain ⟨current, blocks, visited⟩ := walk
  unfold Walk.step at steps
  cases current with
  | some b =>
      have inside : b ∈ within := walkInside.current b rfl
      dsimp only at steps
      by_cases seen : b ∈ visited
      · rw [if_pos seen] at steps
        cases steps
        refine ⟨⟨fun n next => closed.next inside next, walkInside.blocks⟩, ?_⟩
        refine Prod.Lex.toLex_lt_toLex.mpr (Or.inr ⟨rfl, ?_⟩)
        refine Prod.Lex.toLex_lt_toLex.mpr (Or.inr ⟨rfl, ?_⟩)
        change (cfg.block b).next.elim 0 (fun b => cfg.chainLength b + 1) <
          cfg.chainLength b + 1
        cases next : (cfg.block b).next with
        | none => exact Nat.succ_pos _
        | some n => exact Nat.succ_lt_succ (chainLength_next closed acyclic inside next)
      · rw [if_neg seen] at steps
        cases steps
        refine ⟨⟨fun n next => closed.next inside next, ?_⟩, ?_⟩
        · intro n member
          rcases (adds _ _ n).mp member with edge | waiting
          · exact closed.edge inside (List.mem_filter.mp edge).1
          · exact walkInside.blocks n waiting
        · refine Prod.Lex.toLex_lt_toLex.mpr (Or.inl ?_)
          apply Finset.card_lt_card
          rw [Finset.ssubset_iff_of_subset]
          · refine ⟨b, ?_, ?_⟩
            · rw [Finset.mem_filter]
              exact ⟨inside, seen⟩
            · rw [Finset.mem_filter]
              exact fun impossible => impossible.2 List.mem_cons_self
          · intro m member
            rw [Finset.mem_filter] at member ⊢
            exact ⟨member.1, fun before => member.2 (List.mem_cons_of_mem _ before)⟩
  | none =>
      cases blocks with
      | nil => cases steps
      | cons b rest =>
          have restInside (n : ι) (member : n ∈ rest) : n ∈ within :=
            walkInside.blocks n (List.mem_cons_of_mem _ member)
          dsimp only at steps
          split at steps
          · cases steps
            refine ⟨⟨nofun, restInside⟩, ?_⟩
            exact Prod.Lex.toLex_lt_toLex.mpr (Or.inr ⟨rfl,
              Prod.Lex.toLex_lt_toLex.mpr (Or.inl (Nat.lt_succ_self _))⟩)
          · cases steps
            refine ⟨⟨?_, restInside⟩, ?_⟩
            · rintro n ⟨⟩
              exact walkInside.blocks b List.mem_cons_self
            · exact Prod.Lex.toLex_lt_toLex.mpr (Or.inr ⟨rfl,
                Prod.Lex.toLex_lt_toLex.mpr (Or.inl (Nat.lt_succ_self _))⟩)

theorem Walk.exists_run (closed : cfg.Closed within)
    (acyclic : ∀ b, ¬ Relation.TransGen (fun b n => (cfg.block b).next = some n) b b)
    {push : List ι → List ι → List ι} (adds : Adds push)
    {walk : Walk ι} (inside : walk.Inside within) :
    ∃ fuel final, walk.run cfg push fuel = some final := by
  obtain ⟨fuel, final, ran⟩ := Worklist.exists_run (Walk.potential cfg within)
    (fun walk later inside steps => potential_step closed acyclic adds inside steps) walk inside
  exact ⟨fuel, final, (run_eq push fuel walk).trans ran⟩

theorem exists_dfs [Fintype ι] (wellFormed : cfg.WellFormed) :
    ∃ fuel order, cfg.dfs fuel = some order := by
  obtain ⟨fuel, final, ran⟩ := Walk.exists_run
    (show cfg.Closed Finset.univ from fun _ _ n _ => Finset.mem_univ n) wellFormed.acyclic adds_pushEdges
    (show cfg.walkStart.Inside Finset.univ from
      ⟨fun b _ => Finset.mem_univ b, fun b _ => Finset.mem_univ b⟩)
  exact ⟨fuel, final.visited.reverse, Option.map_eq_some_iff.mpr ⟨final, ran, rfl⟩⟩

end Finite

end FunctionCfg

end Drob
