import Drob.Validity.TraversalRuns

/-!
Two traversals one after the other. Stale marks may be in the way of the first one, but the
second one finds the entry marked and handles all that can be reached. Both handle the same
nodes, and in the same order, exactly if no mark is in the way.
-/

namespace Drob

open Worklist

namespace FunctionCfg

variable {ι : Type}

def Walk.addMarks (marks : List ι) (walk : Walk ι) : Walk ι :=
  { walk with visited := walk.visited ++ marks }

variable [DecidableEq ι] {cfg : FunctionCfg ι} {push : List ι → List ι → List ι}
variable {reached : ι → Prop} {marks : List ι} {walk later : Walk ι}

theorem Walk.waiting_step (adds : Adds push)
    (closed : ∀ b n, reached b → n ∈ cfg.successors b → reached n)
    (waiting : ∀ b ∈ walk.current.toList ++ walk.blocks, reached b)
    (steps : walk.step cfg push = some later) :
    ∀ b ∈ later.current.toList ++ later.blocks, reached b := by
  obtain ⟨current, blocks, visited⟩ := walk
  unfold Walk.step at steps
  cases current with
  | some b =>
      have here : reached b := waiting b List.mem_cons_self
      have next (n : ι) (follows : n ∈ (cfg.block b).next.toList) : reached n :=
        closed b n here (List.mem_append_left _ follows)
      dsimp only at steps
      split at steps
      · cases steps
        intro n member
        rcases List.mem_append.mp member with follows | later
        · exact next n follows
        · exact waiting n (List.mem_append_right _ later)
      · cases steps
        intro n member
        rcases List.mem_append.mp member with follows | pushed
        · exact next n follows
        · rcases (adds _ _ n).mp pushed with edge | later
          · exact closed b n here (List.mem_append_right _ (List.mem_filter.mp edge).1)
          · exact waiting n (List.mem_append_right _ later)
  | none =>
      cases blocks with
      | nil => cases steps
      | cons b rest =>
          dsimp only at steps
          split at steps
          · cases steps
            exact fun n member => waiting n (List.mem_cons_of_mem b member)
          · cases steps
            exact waiting

theorem Walk.step_addMarks (clear : ∀ b, reached b → b ∉ marks)
    (closed : ∀ b n, reached b → n ∈ cfg.successors b → reached n)
    (waiting : ∀ b ∈ walk.current.toList ++ walk.blocks, reached b) :
    (walk.addMarks marks).step cfg push = (walk.step cfg push).map (Walk.addMarks marks) := by
  obtain ⟨current, blocks, visited⟩ := walk
  have seen_iff {b : ι} (here : reached b) : b ∈ visited ++ marks ↔ b ∈ visited := by
    rw [List.mem_append]
    exact or_iff_left (clear b here)
  unfold Walk.step addMarks
  cases current with
  | some b =>
      have here : reached b := waiting b List.mem_cons_self
      dsimp only
      by_cases seen : b ∈ visited
      · rw [if_pos ((seen_iff here).mpr seen), if_pos seen]
        rfl
      · rw [if_neg (fun still => seen ((seen_iff here).mp still)), if_neg seen]
        have edges : (cfg.block b).outgoingEdges.filter
              (fun dst => decide (dst ∉ b :: (visited ++ marks))) =
            (cfg.block b).outgoingEdges.filter (fun dst => decide (dst ∉ b :: visited)) := by
          apply List.filter_congr
          intro dst edge
          have there := closed b dst here (List.mem_append_right _ edge)
          rw [decide_eq_decide, List.mem_cons, List.mem_cons, seen_iff there]
        unfold visit
        dsimp only
        rw [edges]
        rfl
  | none =>
      cases blocks with
      | nil => rfl
      | cons b rest =>
          have here : reached b := waiting b List.mem_cons_self
          dsimp only
          by_cases seen : b ∈ visited
          · rw [if_pos ((seen_iff here).mpr seen), if_pos seen]
            rfl
          · rw [if_neg (fun still => seen ((seen_iff here).mp still)), if_neg seen]
            rfl

end FunctionCfg

/-! ### Blocks -/

namespace FunctionNode

variable {ι : Type} [DecidableEq ι] {function later last : FunctionNode ι}
variable {push : List ι → List ι → List ι} {entry : ι} {fuel again : ℕ} {handled handled' : List ι}

theorem for_each_block_eq (isEntry : function.entryBlock = some entry)
    (push : List ι → List ι → List ι) (fuel : ℕ) :
    function.for_each_block push fuel =
      (FunctionCfg.Walk.run (function.cfg entry) push fuel
        { current := none, blocks := [entry], visited := function.staleMarks entry }).map
        (fun walk => ({ function with visited := walk.visited }, function.handled entry walk)) := by
  unfold for_each_block
  rw [isEntry]

theorem entry_not_stale (function : FunctionNode ι) (entry : ι) :
    entry ∉ function.staleMarks entry := by
  unfold staleMarks
  split
  · exact List.not_mem_nil
  · assumption

theorem for_each_block_mono {more : ℕ} (le : fuel ≤ more) {result : FunctionNode ι × List ι}
    (ended : function.for_each_block push fuel = some result) :
    function.for_each_block push more = some result := by
  cases isEntry : function.entryBlock with
  | none =>
      unfold for_each_block at ended ⊢
      rw [isEntry] at ended ⊢
      exact ended
  | some entry =>
      rw [for_each_block_eq isEntry] at ended ⊢
      obtain ⟨walk, finished, same⟩ := Option.map_eq_some_iff.mp ended
      rw [FunctionCfg.Walk.run_eq] at finished ⊢
      rw [run_mono le finished]
      exact congrArg some same

structure Traversed (function later : FunctionNode ι) (handled : List ι) : Prop where
  block : later.block = function.block
  entryBlock : later.entryBlock = function.entryBlock
  nodup : handled.Nodup
  marked : ∀ entry, function.entryBlock = some entry → entry ∈ later.visited
  entry : ∀ entry, function.entryBlock = some entry → entry ∈ handled
  reachable : ∀ b ∈ handled, function.Reachable b
  unmarked : ∀ entry, function.entryBlock = some entry → ∀ b ∈ handled,
    b ∉ function.staleMarks entry
  exact : function.Unhindered → ∀ b, function.Reachable b → b ∈ handled

theorem traversed_of_ended (adds : FunctionCfg.Adds push)
    (ended : function.for_each_block push fuel = some (later, handled)) :
    function.Traversed later handled := by
  cases isEntry : function.entryBlock with
  | none =>
      unfold for_each_block at ended
      rw [isEntry] at ended
      cases ended
      have noEntry (entry : ι) : function.entryBlock ≠ some entry := by
        rw [isEntry]
        nofun
      exact ⟨rfl, rfl, List.nodup_nil, fun entry there => absurd there (noEntry entry),
        fun entry there => absurd there (noEntry entry), nofun, fun entry there => absurd there (noEntry entry),
        fun _ b reachable => reachable.elim (fun entry both => absurd both.1 (noEntry entry))⟩
  | some entry =>
      rw [for_each_block_eq isEntry] at ended
      obtain ⟨walk, finished, same⟩ := Option.map_eq_some_iff.mp ended
      cases same
      obtain ⟨searched, visitedEq, handledEq, explores⟩ := explores_of_finished adds finished
      have only {start : ι} (isStart : function.entryBlock = some start) : start = entry :=
        Option.some.inj (isStart.symm.trans isEntry)
      have entrySearched : entry ∈ searched := by
        rcases explores.start with stale | inHandled | impossible
        · exact absurd stale (function.entry_not_stale entry)
        · exact inHandled
        · cases impossible
      rw [handledEq]
      refine ⟨rfl, rfl, List.nodup_reverse.mpr explores.nodup, ?_, ?_, ?_, ?_, ?_⟩
      · intro start isStart
        dsimp only
        rw [only isStart, visitedEq]
        exact List.mem_append_left _ entrySearched
      · intro start isStart
        rw [only isStart]
        exact List.mem_reverse.mpr entrySearched
      · intro b member
        exact (reachable_iff isEntry b).mpr
          (explores.handledReached b (List.mem_reverse.mp member))
      · intro start isStart b member
        rw [only isStart]
        exact explores.unmarked b (List.mem_reverse.mp member)
      · intro unhindered b reachable
        have clear := (unhindered_iff isEntry).mp unhindered
        exact List.mem_reverse.mpr ((explores.exact_iff.mpr clear).2 b |>.mpr
          ((reachable_iff isEntry b).mp reachable))

theorem Traversed.unhindered_later (traversed : function.Traversed later handled) :
    later.Unhindered := by
  intro entry isEntry
  exact Or.inl (traversed.marked entry (traversed.entryBlock ▸ isEntry))

theorem Traversed.reachable_later (traversed : function.Traversed later handled) (b : ι) :
    later.Reachable b ↔ function.Reachable b := by
  unfold Reachable
  rw [traversed.block, traversed.entryBlock]

/-- A second traversal handles all blocks, so marks were in the way of the first one if it
handled fewer. -/
theorem unhindered_of_again (first : function.Traversed later handled)
    (second : later.Traversed last handled') (same : handled' ⊆ handled) :
    function.Unhindered := by
  intro entry isEntry
  refine (unhindered_iff isEntry).mpr ?_ entry isEntry
  intro b path
  have reachable := (first.reachable_later b).mpr ((reachable_iff isEntry b).mpr path)
  exact first.unmarked entry isEntry b (same (second.exact first.unhindered_later b reachable))

theorem for_each_block_again (adds : FunctionCfg.Adds push) (unhindered : function.Unhindered)
    (ended : function.for_each_block push fuel = some (later, handled)) :
    ∃ last, later.for_each_block push fuel = some (last, handled) := by
  have traversed := traversed_of_ended adds ended
  cases isEntry : function.entryBlock with
  | none =>
      unfold for_each_block at ended ⊢
      rw [isEntry] at ended
      cases ended
      rw [isEntry]
      exact ⟨function, rfl⟩
  | some entry =>
      have clear := (unhindered_iff isEntry).mp unhindered
      have laterEntry := traversed.entryBlock.trans isEntry
      have noMarks : later.staleMarks entry = [] := if_pos (traversed.marked entry isEntry)
      have sameGraph : later.cfg entry = function.cfg entry := by
        unfold cfg
        rw [traversed.block]
      rw [for_each_block_eq isEntry] at ended
      obtain ⟨walk, finished, same⟩ := Option.map_eq_some_iff.mp ended
      have closed (b n : ι) (path : Relation.ReflTransGen (Leads function.block) entry b)
          (successor : n ∈ (function.cfg entry).successors b) :
          Relation.ReflTransGen (Leads function.block) entry n := by
        refine path.tail ?_
        rcases List.mem_append.mp successor with next | edge
        · exact Or.inl (Option.mem_toList.mp next)
        · exact Or.inr edge
      have runs := run_map
        (motive := fun walk : FunctionCfg.Walk ι => ∀ b ∈ walk.current.toList ++ walk.blocks,
          Relation.ReflTransGen (Leads function.block) entry b)
        (FunctionCfg.Walk.addMarks (function.staleMarks entry))
        (fun _ _ waiting steps => FunctionCfg.Walk.waiting_step adds closed waiting steps)
        (fun _ waiting => FunctionCfg.Walk.step_addMarks clear closed waiting) fuel
        { current := none, blocks := [entry], visited := [] }
        (fun b member => List.mem_singleton.mp member ▸ .refl)
      rw [FunctionCfg.Walk.run_eq] at finished
      obtain ⟨clean, cleanRun, isWalk⟩ := Option.map_eq_some_iff.mp (runs.symm.trans finished)
      refine ⟨{ later with visited := clean.visited }, ?_⟩
      rw [for_each_block_eq laterEntry, noMarks, sameGraph, FunctionCfg.Walk.run_eq, cleanRun]
      obtain ⟨_, handledEq⟩ := Prod.mk.inj same
      rw [← handledEq, ← isWalk]
      unfold FunctionNode.handled FunctionCfg.Walk.addMarks
      rw [noMarks, List.reverse_append, List.drop_left' List.length_reverse]
      rfl

end FunctionNode

/-! ### Functions -/

namespace MarkedIcfg

variable {φ ι : Type} [DecidableEq φ] {icfg later last : MarkedIcfg φ ι} {entry : φ}
variable {fuel again : ℕ} {handled handled' : List φ}

omit [DecidableEq φ] in
structure SameCalls (icfg later : MarkedIcfg φ ι) : Prop where
  entryFunction : later.entryFunction = icfg.entryFunction
  outgoingEdges : later.outgoingEdges = icfg.outgoingEdges

omit [DecidableEq φ] in
theorem SameCalls.reachable (same : icfg.SameCalls later) (f : φ) :
    later.Reachable f ↔ icfg.Reachable f := by
  unfold Reachable
  rw [same.entryFunction, same.outgoingEdges]

theorem for_each_function_mono {more : ℕ} (le : fuel ≤ more)
    {result : MarkedIcfg φ ι × List φ} (ended : icfg.for_each_function_dfs fuel = some result) :
    icfg.for_each_function_dfs more = some result := by
  cases isEntry : icfg.entryFunction with
  | none =>
      unfold for_each_function_dfs for_each_function at ended ⊢
      rw [isEntry] at ended ⊢
      exact ended
  | some entry =>
      obtain ⟨walk, finished, same⟩ := Option.map_eq_some_iff.mp
        ((for_each_function_eq isEntry _ _ fuel).symm.trans ended)
      refine (for_each_function_eq isEntry _ _ more).trans ?_
      rw [run_mono le finished]
      exact congrArg some same

structure Traversed (icfg later : MarkedIcfg φ ι) (handled : List φ) : Prop
    extends SameCalls icfg later where
  nodup : handled.Nodup
  marked : ∀ entry, icfg.entryFunction = some entry → entry ∈ later.visited
  reachable : ∀ f ∈ handled, icfg.Reachable f
  unmarked : ∀ entry, icfg.entryFunction = some entry → ∀ f ∈ handled,
    f ∉ icfg.staleMarks entry
  exact : icfg.Unhindered → ∀ f, icfg.Reachable f → f ∈ handled

theorem traversed_of_ended (ended : icfg.for_each_function_dfs fuel = some (later, handled)) :
    icfg.Traversed later handled := by
  cases isEntry : icfg.entryFunction with
  | none =>
      unfold for_each_function_dfs for_each_function at ended
      rw [isEntry] at ended
      cases ended
      have noEntry (entry : φ) : icfg.entryFunction ≠ some entry := by
        rw [isEntry]
        nofun
      exact ⟨⟨rfl, rfl⟩, List.nodup_nil, fun entry there => absurd there (noEntry entry),
        nofun, fun entry there => absurd there (noEntry entry),
        fun _ f reachable => reachable.elim (fun entry both => absurd both.1 (noEntry entry))⟩
  | some entry =>
      obtain ⟨walk, finished, same⟩ := Option.map_eq_some_iff.mp
        ((for_each_function_eq isEntry _ _ fuel).symm.trans ended)
      cases same
      obtain ⟨searched, visitedEq, handledEq, explores⟩ := explores_of_finished finished
      have only {start : φ} (isStart : icfg.entryFunction = some start) : start = entry :=
        Option.some.inj (isStart.symm.trans isEntry)
      rw [handledEq]
      refine ⟨⟨rfl, rfl⟩, List.nodup_reverse.mpr explores.nodup, ?_, ?_, ?_, ?_⟩
      · intro start isStart
        dsimp only
        rw [only isStart, visitedEq]
        rcases explores.start with stale | inHandled | impossible
        · exact List.mem_append_right _ stale
        · exact List.mem_append_left _ inHandled
        · cases impossible
      · intro f member
        exact (reachable_iff isEntry f).mpr
          (explores.handledReached f (List.mem_reverse.mp member))
      · intro start isStart f member
        rw [only isStart]
        exact explores.unmarked f (List.mem_reverse.mp member)
      · intro unhindered f reachable
        have clear := (unhindered_iff isEntry).mp unhindered
        exact List.mem_reverse.mpr ((explores.exact_iff.mpr clear).2 f |>.mpr
          ((reachable_iff isEntry f).mp reachable))

def addMarks (marks : List φ) (walk : FunctionWalk φ) : FunctionWalk φ :=
  { walk with visited := walk.visited ++ marks }

theorem waiting_step {outgoingEdges : φ → List φ} {reached : φ → Prop} {walk next : FunctionWalk φ}
    (closed : ∀ f g, reached f → g ∈ outgoingEdges f → reached g)
    (waiting : ∀ f ∈ walk.functions, reached f)
    (steps : walk.step outgoingEdges followsUnvisited (fun edges stack => edges ++ stack) =
      some next) : ∀ f ∈ next.functions, reached f := by
  obtain ⟨functions, visited⟩ := walk
  unfold FunctionWalk.step at steps
  cases functions with
  | nil => cases steps
  | cons f rest =>
      dsimp only at steps
      split at steps
      · cases steps
        exact fun g member => waiting g (List.mem_cons_of_mem f member)
      · cases steps
        intro g member
        rcases List.mem_append.mp member with edge | later
        · exact closed f g (waiting f List.mem_cons_self) (List.mem_filter.mp edge).1
        · exact waiting g (List.mem_cons_of_mem f later)

theorem step_addMarks {outgoingEdges : φ → List φ} {reached : φ → Prop} {marks : List φ}
    {walk : FunctionWalk φ} (clear : ∀ f, reached f → f ∉ marks)
    (closed : ∀ f g, reached f → g ∈ outgoingEdges f → reached g)
    (waiting : ∀ f ∈ walk.functions, reached f) :
    (addMarks marks walk).step outgoingEdges followsUnvisited
        (fun edges stack => edges ++ stack) =
      (walk.step outgoingEdges followsUnvisited (fun edges stack => edges ++ stack)).map
        (addMarks marks) := by
  obtain ⟨functions, visited⟩ := walk
  have seen_iff {f : φ} (here : reached f) : f ∈ visited ++ marks ↔ f ∈ visited := by
    rw [List.mem_append]
    exact or_iff_left (clear f here)
  unfold FunctionWalk.step addMarks
  cases functions with
  | nil => rfl
  | cons f rest =>
      have here : reached f := waiting f List.mem_cons_self
      dsimp only
      by_cases seen : f ∈ visited
      · rw [if_pos ((seen_iff here).mpr seen), if_pos seen]
        rfl
      · rw [if_neg (fun still => seen ((seen_iff here).mp still)), if_neg seen]
        have edges : (outgoingEdges f).filter
              (fun dst => followsUnvisited f dst (f :: (visited ++ marks))) =
            (outgoingEdges f).filter (fun dst => followsUnvisited f dst (f :: visited)) := by
          apply List.filter_congr
          intro dst edge
          unfold followsUnvisited
          congr 1
          rw [decide_eq_decide, List.mem_cons, List.mem_cons, seen_iff (closed f dst here edge)]
        rw [edges]
        rfl

theorem for_each_function_again (unhindered : icfg.Unhindered)
    (ended : icfg.for_each_function_dfs fuel = some (later, handled)) (same : icfg.SameCalls last)
    (visited : last.visited = later.visited) :
    ∃ final, last.for_each_function_dfs fuel = some (final, handled) := by
  have traversed := traversed_of_ended ended
  cases isEntry : icfg.entryFunction with
  | none =>
      unfold for_each_function_dfs for_each_function at ended ⊢
      rw [isEntry] at ended
      cases ended
      rw [same.entryFunction, isEntry]
      exact ⟨last, rfl⟩
  | some entry =>
      have clear := (unhindered_iff isEntry).mp unhindered
      have lastEntry := same.entryFunction.trans isEntry
      have noMarks : last.staleMarks entry = [] :=
        if_pos (visited ▸ traversed.marked entry isEntry)
      obtain ⟨walk, finished, isResult⟩ := Option.map_eq_some_iff.mp
        ((for_each_function_eq isEntry _ _ fuel).symm.trans ended)
      have runs := run_map (motive := fun walk : FunctionWalk φ => ∀ f ∈ walk.functions,
          Relation.ReflTransGen (fun f g => g ∈ icfg.outgoingEdges f) entry f)
        (addMarks (icfg.staleMarks entry))
        (fun _ _ waiting steps => waiting_step (fun _ _ path edge => path.tail edge) waiting steps)
        (fun _ waiting => step_addMarks clear (fun _ _ path edge => path.tail edge) waiting) fuel
        { functions := [entry], visited := [] }
        (fun f member => List.mem_singleton.mp member ▸ .refl)
      obtain ⟨clean, cleanRun, isWalk⟩ := Option.map_eq_some_iff.mp (runs.symm.trans finished)
      obtain ⟨_, handledEq⟩ := Prod.mk.inj isResult
      have repeated := for_each_function_eq lastEntry followsUnvisited
        (fun edges stack => edges ++ stack) fuel
      rw [noMarks, same.outgoingEdges, cleanRun] at repeated
      have sameHandled : clean.visited.reverse = handled := by
        rw [← handledEq, ← isWalk]
        unfold addMarks
        rw [List.reverse_append, List.drop_left' List.length_reverse]
      rw [← sameHandled]
      exact ⟨_, repeated⟩

/-! ### The blocks of all functions -/

theorem withFunction_self (icfg : MarkedIcfg φ ι) (f : φ) (own : FunctionNode ι) :
    (icfg.withFunction f own).function f = own := by
  unfold withFunction
  exact Function.update_self f own icfg.function

theorem withFunction_of_ne {f g : φ} (other : g ≠ f) (icfg : MarkedIcfg φ ι)
    (own : FunctionNode ι) : (icfg.withFunction f own).function g = icfg.function g := by
  unfold withFunction
  exact Function.update_of_ne other own icfg.function

variable [DecidableEq ι] {functions : List φ} {walked walked' : List (φ × List ι)}

def walkFunctions (fuel : ℕ) :
    List φ → MarkedIcfg φ ι → Option (MarkedIcfg φ ι × List (φ × List ι))
  | [], icfg => some (icfg, [])
  | f :: rest, icfg => do
      let blocks ← (icfg.function f).for_each_block_dfs fuel
      let others ← walkFunctions fuel rest (icfg.withFunction f blocks.1)
      some (others.1, (f, blocks.2) :: others.2)

/-- `for_each_function_dfs` with a callback that goes over the blocks of each function: the
functions with the blocks that were handled. -/
def walk (icfg : MarkedIcfg φ ι) (fuel : ℕ) : Option (MarkedIcfg φ ι × List (φ × List ι)) := do
  let functions ← icfg.for_each_function_dfs fuel
  walkFunctions fuel functions.2 functions.1

omit [DecidableEq φ] [DecidableEq ι] in
def order (walked : List (φ × List ι)) : List (φ × ι) :=
  walked.flatMap (fun blocks => blocks.2.map (fun b => (blocks.1, b)))

theorem walkFunctions_spec (nodup : functions.Nodup)
    (ended : walkFunctions fuel functions icfg = some (later, walked)) :
    icfg.SameCalls later ∧ later.visited = icfg.visited ∧ walked.map Prod.fst = functions ∧
      (∀ f, f ∉ functions → later.function f = icfg.function f) ∧
      ∀ f blocks, (f, blocks) ∈ walked →
        (icfg.function f).for_each_block_dfs fuel = some (later.function f, blocks) := by
  induction functions generalizing icfg walked with
  | nil =>
      cases ended
      exact ⟨⟨rfl, rfl⟩, rfl, rfl, fun _ _ => rfl, nofun⟩
  | cons g rest ih =>
      unfold walkFunctions at ended
      obtain ⟨own, ownEnded, ended⟩ := Option.bind_eq_some_iff.mp ended
      obtain ⟨others, othersEnded, same⟩ := Option.bind_eq_some_iff.mp ended
      cases same
      obtain ⟨notIn, nodupRest⟩ := List.nodup_cons.mp nodup
      obtain ⟨calls, visited, names, apart, handled⟩ := ih nodupRest othersEnded
      have atFirst : others.1.function g = own.1 :=
        (apart g notIn).trans (withFunction_self icfg g own.1)
      have kept {f : φ} (other : f ≠ g) :
          (icfg.withFunction g own.1).function f = icfg.function f :=
        withFunction_of_ne other icfg own.1
      refine ⟨⟨calls.entryFunction, calls.outgoingEdges⟩, visited, congrArg (g :: ·) names,
        ?_, ?_⟩
      · intro f notMember
        obtain ⟨other, notRest⟩ := not_or.mp (fun either => notMember (List.mem_cons.mpr either))
        exact (apart f notRest).trans (kept other)
      · intro f blocks member
        rcases List.mem_cons.mp member with first | inRest
        · cases first
          rw [atFirst]
          exact ownEnded
        · have inNames : f ∈ rest := names ▸ List.mem_map_of_mem inRest
          have other : f ≠ g := fun equal => notIn (equal ▸ inNames)
          rw [← kept other]
          exact handled f blocks inRest

theorem walkFunctions_of_ended (icfg : MarkedIcfg φ ι) (fuel : ℕ) (walked : List (φ × List ι))
    (nodup : (walked.map Prod.fst).Nodup)
    (ends : ∀ f blocks, (f, blocks) ∈ walked →
      ∃ own, (icfg.function f).for_each_block_dfs fuel = some (own, blocks)) :
    ∃ later, walkFunctions fuel (walked.map Prod.fst) icfg = some (later, walked) := by
  induction walked generalizing icfg with
  | nil => exact ⟨icfg, rfl⟩
  | cons first rest ih =>
      obtain ⟨f, blocks⟩ := first
      obtain ⟨notIn, nodupRest⟩ := List.nodup_cons.mp nodup
      obtain ⟨own, ended⟩ := ends f blocks List.mem_cons_self
      obtain ⟨later, others⟩ := ih (icfg.withFunction f own) nodupRest (by
        intro g blocks' member
        have inNames : g ∈ rest.map Prod.fst := List.mem_map.mpr ⟨_, member, rfl⟩
        have other : g ≠ f := fun equal => notIn (equal ▸ inNames)
        rw [withFunction_of_ne other]
        exact ends g blocks' (List.mem_cons_of_mem _ member))
      refine ⟨later, ?_⟩
      rw [List.map_cons]
      unfold walkFunctions
      rw [ended]
      change (do
        let others ← walkFunctions fuel (rest.map Prod.fst) (icfg.withFunction f own)
        some (others.1, (f, blocks) :: others.2)) = _
      rw [others]
      rfl

omit [DecidableEq ι] in
theorem function_of_ended (ended : icfg.for_each_function_dfs fuel = some (later, handled)) :
    later.function = icfg.function := by
  unfold for_each_function_dfs for_each_function at ended
  split at ended
  · cases ended
    rfl
  · obtain ⟨_, _, same⟩ := Option.map_eq_some_iff.mp ended
    cases same
    rfl

structure Walked (icfg later : MarkedIcfg φ ι) (walked : List (φ × List ι)) : Prop
    extends Traversed icfg later (walked.map Prod.fst) where
  blocks : ∀ f handled, (f, handled) ∈ walked →
    (icfg.function f).Traversed (later.function f) handled
  others : ∀ f, f ∉ walked.map Prod.fst → later.function f = icfg.function f

theorem walk_cases (ended : icfg.walk fuel = some (later, walked)) :
    icfg.Walked later walked ∧
      (∃ middle, icfg.for_each_function_dfs fuel = some (middle, walked.map Prod.fst) ∧
        later.visited = middle.visited) ∧
      ∀ f blocks, (f, blocks) ∈ walked →
        (icfg.function f).for_each_block_dfs fuel = some (later.function f, blocks) := by
  obtain ⟨functions, ended, walks⟩ := Option.bind_eq_some_iff.mp ended
  have traversed : icfg.Traversed functions.1 functions.2 := traversed_of_ended ended
  obtain ⟨calls, visited, names, apart, handled⟩ := walkFunctions_spec traversed.nodup walks
  rw [function_of_ended ended] at handled apart
  rw [← names] at traversed apart
  refine ⟨⟨⟨⟨calls.entryFunction.trans traversed.entryFunction,
    calls.outgoingEdges.trans traversed.outgoingEdges⟩, traversed.nodup, ?_, traversed.reachable,
    traversed.unmarked, traversed.exact⟩, ?_, apart⟩, ⟨functions.1, ?_, visited⟩, handled⟩
  · intro entry isEntry
    rw [visited]
    exact traversed.marked entry isEntry
  · intro f blocks member
    exact FunctionNode.traversed_of_ended FunctionCfg.adds_pushEdges (handled f blocks member)
  · rw [names]
    exact ended

/-- No mark is in the way of a walk over all blocks. -/
structure WalksFreely (icfg : MarkedIcfg φ ι) : Prop where
  functions : icfg.Unhindered
  blocks : ∀ f, icfg.Reachable f → (icfg.function f).Unhindered

theorem walk_again (free : icfg.WalksFreely) (ended : icfg.walk fuel = some (later, walked)) :
    ∃ last, later.walk fuel = some (last, walked) := by
  obtain ⟨first, ⟨middle, functions, visited⟩, blocks⟩ := walk_cases ended
  obtain ⟨final, again⟩ := for_each_function_again free.functions functions first.toSameCalls
    visited
  obtain ⟨last, walks⟩ := walkFunctions_of_ended final fuel walked first.nodup (by
    intro f handled member
    rw [function_of_ended again]
    have inNames : f ∈ walked.map Prod.fst := List.mem_map.mpr ⟨_, member, rfl⟩
    exact FunctionNode.for_each_block_again FunctionCfg.adds_pushEdges
      (free.blocks f (first.reachable f inNames)) (blocks f handled member))
  refine ⟨last, ?_⟩
  unfold walk
  rw [again]
  exact walks

omit [DecidableEq φ] [DecidableEq ι] in
theorem mem_order (walked : List (φ × List ι)) (f : φ) (b : ι) :
    (f, b) ∈ order walked ↔ ∃ handled, (f, handled) ∈ walked ∧ b ∈ handled := by
  unfold order
  rw [List.mem_flatMap]
  constructor
  · rintro ⟨⟨g, handled⟩, member, inBlocks⟩
    obtain ⟨c, inHandled, same⟩ := List.mem_map.mp inBlocks
    cases same
    exact ⟨handled, member, inHandled⟩
  · rintro ⟨handled, member, inHandled⟩
    exact ⟨(f, handled), member, List.mem_map_of_mem inHandled⟩

theorem Walked.handled_unique (first : icfg.Walked later walked) {f : φ} {handled handled' : List ι}
    (one : (f, handled) ∈ walked) (other : (f, handled') ∈ walked) : handled = handled' :=
  congrArg Prod.snd (List.inj_on_of_nodup_map first.nodup one other rfl)

theorem Walked.nodup_order (first : icfg.Walked later walked) : (order walked).Nodup := by
  unfold order
  rw [List.nodup_flatMap]
  constructor
  · intro blocks member
    exact (first.blocks blocks.1 blocks.2 member).nodup.map (fun _ _ same => congrArg Prod.snd same)
  · have apart := List.pairwise_map.mp first.nodup
    refine apart.imp ?_
    intro blocks others other
    change List.Disjoint _ _
    intro place inBlocks inOthers
    obtain ⟨b, _, same⟩ := List.mem_map.mp inBlocks
    obtain ⟨c, _, same'⟩ := List.mem_map.mp inOthers
    have sameFunction : (blocks.1, b).1 = (others.1, c).1 :=
      congrArg Prod.fst (same.trans same'.symm)
    exact other sameFunction

theorem Walked.mem_order_iff (first : icfg.Walked later walked) (free : icfg.WalksFreely)
    (f : φ) (b : ι) :
    (f, b) ∈ order walked ↔ icfg.Reachable f ∧ (icfg.function f).Reachable b := by
  rw [mem_order]
  constructor
  · rintro ⟨handled, member, inHandled⟩
    exact ⟨first.reachable f (List.mem_map.mpr ⟨_, member, rfl⟩),
      (first.blocks f handled member).reachable b inHandled⟩
  · rintro ⟨reachable, inside⟩
    obtain ⟨⟨g, handled⟩, member, same⟩ := List.mem_map.mp
      (first.exact free.functions f reachable)
    cases same
    exact ⟨handled, member,
      (first.blocks g handled member).exact (free.blocks g reachable) b inside⟩

theorem walkFunctions_mono {more : ℕ} (le : fuel ≤ more)
    (ended : walkFunctions fuel functions icfg = some (later, walked)) :
    walkFunctions more functions icfg = some (later, walked) := by
  induction functions generalizing icfg walked with
  | nil => exact ended
  | cons f rest ih =>
      unfold walkFunctions at ended ⊢
      obtain ⟨own, ownEnded, ended⟩ := Option.bind_eq_some_iff.mp ended
      obtain ⟨⟨last, others⟩, othersEnded, same⟩ := Option.bind_eq_some_iff.mp ended
      cases same
      have ownMore : (icfg.function f).for_each_block_dfs more = some own :=
        FunctionNode.for_each_block_mono le ownEnded
      rw [ownMore]
      change (walkFunctions more rest (icfg.withFunction f own.1) >>= _) = _
      rw [ih othersEnded]
      rfl

theorem walk_mono {more : ℕ} (le : fuel ≤ more) (ended : icfg.walk fuel = some (later, walked)) :
    icfg.walk more = some (later, walked) := by
  unfold walk at ended ⊢
  obtain ⟨functions, functionsEnded, ended⟩ := Option.bind_eq_some_iff.mp ended
  rw [for_each_function_mono le functionsEnded]
  exact walkFunctions_mono le ended

theorem walk_unique (ended : icfg.walk fuel = some (later, walked))
    (other : icfg.walk again = some (last, walked')) : later = last ∧ walked = walked' := by
  have one := walk_mono (Nat.le_max_left fuel again) ended
  have two := walk_mono (Nat.le_max_right fuel again) other
  exact Prod.mk.inj (Option.some.inj (one.symm.trans two))

theorem exists_walkFunctions (icfg : MarkedIcfg φ ι) (nodup : functions.Nodup)
    (acyclic : ∀ f, FunctionNode.Acyclic (icfg.function f).block)
    (finite : ∀ f, (icfg.function f).FinitelyLinked) :
    ∃ fuel result, walkFunctions fuel functions icfg = some result := by
  have ends (f : φ) : ∃ fuel result, (icfg.function f).for_each_block_dfs fuel = some result :=
    (FunctionNode.traversesExactly_iff FunctionCfg.adds_pushEdges (acyclic f) (finite f)).1
  have enough : ∃ fuel, ∀ f ∈ functions, ∃ result,
      (icfg.function f).for_each_block_dfs fuel = some result := by
    clear nodup
    induction functions with
    | nil => exact ⟨0, nofun⟩
    | cons f rest ih =>
        obtain ⟨fuel, others⟩ := ih
        obtain ⟨own, result, ended⟩ := ends f
        refine ⟨max own fuel, ?_⟩
        intro g member
        rcases List.mem_cons.mp member with rfl | inRest
        · exact ⟨result, FunctionNode.for_each_block_mono (Nat.le_max_left own fuel) ended⟩
        · obtain ⟨found, endedG⟩ := others g inRest
          exact ⟨found, FunctionNode.for_each_block_mono (Nat.le_max_right own fuel) endedG⟩
  obtain ⟨fuel, all⟩ := enough
  let handled (f : φ) : List ι := (((icfg.function f).for_each_block_dfs fuel).map Prod.snd).getD []
  have names : (functions.map (fun f => (f, handled f))).map Prod.fst = functions := by
    rw [List.map_map]
    exact List.map_id functions
  obtain ⟨later, walks⟩ := walkFunctions_of_ended icfg fuel
    (functions.map (fun f => (f, handled f))) (names.symm ▸ nodup) (by
      intro f blocks member
      obtain ⟨g, inFunctions, same⟩ := List.mem_map.mp member
      cases same
      obtain ⟨result, ended⟩ := all f inFunctions
      refine ⟨result.1, ?_⟩
      dsimp only [handled]
      rw [ended]
      rfl)
  rw [names] at walks
  exact ⟨fuel, _, walks⟩

theorem exists_walk (graph : icfg.FiniteGraph) : ∃ fuel result, icfg.walk fuel = some result := by
  obtain ⟨first, functions, ended⟩ : ∃ fuel result, icfg.for_each_function_dfs fuel = some result := by
    cases isEntry : icfg.entryFunction with
    | none =>
        refine ⟨0, (icfg, []), ?_⟩
        unfold for_each_function_dfs for_each_function
        rw [isEntry]
    | some entry =>
        obtain ⟨fuel, walk, finished⟩ := exists_run_dfs graph.calls entry (icfg.staleMarks entry)
        have ended := for_each_function_eq isEntry followsUnvisited
          (fun edges stack => edges ++ stack) fuel
        rw [finished] at ended
        exact ⟨fuel, _, ended⟩
  have traversed : icfg.Traversed functions.1 functions.2 := traversed_of_ended ended
  have kept : functions.1.function = icfg.function := function_of_ended ended
  obtain ⟨second, result, walks⟩ := exists_walkFunctions functions.1 traversed.nodup
    (by rw [kept]; exact graph.acyclic) (by rw [kept]; exact graph.finite)
  refine ⟨max first second, result, ?_⟩
  unfold walk
  rw [for_each_function_mono (Nat.le_max_left first second) ended]
  exact walkFunctions_mono (Nat.le_max_right first second) walks

theorem Walked.walksFreely_of_again (first : icfg.Walked later walked)
    (second : later.Walked last walked')
    (entered : ∀ f ∈ walked'.map Prod.fst, (later.function f).entryBlock ≠ none)
    (same : order walked' ⊆ order walked) : icfg.WalksFreely := by
  have laterFree : later.Unhindered := fun entry isEntry =>
    Or.inl (first.marked entry (first.entryFunction ▸ isEntry))
  have handledAgain {f : φ} (reachable : icfg.Reachable f) :
      ∃ handled, (f, handled) ∈ walked' := by
    obtain ⟨⟨g, handled⟩, member, isName⟩ := List.mem_map.mp
      (second.exact laterFree f ((first.toSameCalls.reachable f).mpr reachable))
    cases isName
    exact ⟨handled, member⟩
  have handledFirst {f : φ} (reachable : icfg.Reachable f) :
      ∃ handled, (f, handled) ∈ walked := by
    obtain ⟨handled, member⟩ := handledAgain reachable
    obtain ⟨entry, isEntry⟩ := Option.ne_none_iff_exists'.mp
      (entered f (List.mem_map.mpr ⟨_, member, rfl⟩))
    have inOrder := same ((mem_order walked' f entry).mpr
      ⟨handled, member, (second.blocks f handled member).entry entry isEntry⟩)
    obtain ⟨handled', member', _⟩ := (mem_order walked f entry).mp inOrder
    exact ⟨handled', member'⟩
  constructor
  · intro entry isEntry
    refine (unhindered_iff isEntry).mpr ?_ entry isEntry
    intro f path
    obtain ⟨handled, member⟩ := handledFirst ((reachable_iff isEntry f).mpr path)
    exact first.unmarked entry isEntry f (List.mem_map.mpr ⟨_, member, rfl⟩)
  · intro f reachable
    obtain ⟨handled, member⟩ := handledFirst reachable
    obtain ⟨handled', member'⟩ := handledAgain reachable
    refine FunctionNode.unhindered_of_again (first.blocks f handled member)
      (second.blocks f handled' member') ?_
    intro b inAgain
    have inOrder := same ((mem_order walked' f b).mpr ⟨handled', member', inAgain⟩)
    obtain ⟨own, ownMember, inOwn⟩ := (mem_order walked f b).mp inOrder
    rw [first.handled_unique member ownMember]
    exact inOwn

end MarkedIcfg

end Drob
