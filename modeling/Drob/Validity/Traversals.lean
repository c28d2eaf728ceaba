import Drob.Validity.Runs

/-!
The traversals of the functions of an ICFG and of the blocks of a function. They mark what
they visit, and only a marked entry node makes them drop the marks of earlier traversals.
-/

namespace Drob

open Worklist

structure MarkedIcfg (φ ι : Type) extends Icfg φ ι where
  outgoingEdges : φ → List φ
  /-- The functions that are marked as visited, the last one first. -/
  visited : List φ

/-! ### Blocks -/

namespace FunctionNode

variable {ι : Type}

def FinitelyLinked (function : FunctionNode ι) : Prop :=
  {b | ∃ n, Leads function.block b n}.Finite

def Acyclic (block : ι → SuperBlock ι) : Prop :=
  ∀ b, ¬ Relation.TransGen (fun b n => (block b).next = some n) b b

variable [DecidableEq ι]

/-- The loop over the blocks with a callback that always returns 0: the function with its
marks, and the blocks that the callback got, in this order. -/
def for_each_block (push : List ι → List ι → List ι) (function : FunctionNode ι) (fuel : ℕ) :
    Option (FunctionNode ι × List ι) :=
  match function.entryBlock with
  | none => some (function, [])
  | some entry =>
      (FunctionCfg.Walk.run (function.cfg entry) push fuel
        { current := none, blocks := [entry], visited := function.staleMarks entry }).map
        (fun walk => ({ function with visited := walk.visited }, function.handled entry walk))

/-- The edges are pushed in reverse order, so the first one is on top of the stack. -/
def for_each_block_dfs (function : FunctionNode ι) (fuel : ℕ) :
    Option (FunctionNode ι × List ι) :=
  function.for_each_block FunctionCfg.pushEdges fuel

def for_each_block_bfs (function : FunctionNode ι) (fuel : ℕ) :
    Option (FunctionNode ι × List ι) :=
  function.for_each_block (fun edges queue => queue ++ edges) fuel

/-- A traversal ends, and it calls the callback once for each block that can be reached, and
for no other one. -/
def TraversesExactly (traverse : FunctionNode ι → ℕ → Option (FunctionNode ι × List ι))
    (function : FunctionNode ι) : Prop :=
  ∃ fuel later handled, traverse function fuel = some (later, handled) ∧
    handled.Nodup ∧ ∀ b, b ∈ handled ↔ function.Reachable b

omit [DecidableEq ι] in
/-- No mark is in the way: the entry block is marked as well, or no block that can be reached
is. -/
def Unhindered (function : FunctionNode ι) : Prop :=
  ∀ entry, function.entryBlock = some entry →
    entry ∈ function.visited ∨ ∀ b, function.Reachable b → b ∉ function.visited

def WalkExplores (function : FunctionNode ι) (entry : ι) (walk : FunctionCfg.Walk ι) : Prop :=
  ∃ handled, walk.visited = handled ++ function.staleMarks entry ∧
    Explores (Leads function.block) entry (· ∈ function.staleMarks entry) handled
      (walk.current.toList ++ walk.blocks)

variable {function : FunctionNode ι} {entry : ι} {push : List ι → List ι → List ι}

theorem WalkExplores.step (adds : FunctionCfg.Adds push) {walk later : FunctionCfg.Walk ι}
    (explores : function.WalkExplores entry walk)
    (steps : walk.step (function.cfg entry) push = some later) :
    function.WalkExplores entry later := by
  obtain ⟨handled, visitedEq, explores⟩ := explores
  obtain ⟨current, blocks, visited⟩ := walk
  dsimp only at visitedEq explores
  have known {b : ι} (seen : b ∈ visited) :
      b ∈ function.staleMarks entry ∨ b ∈ handled := by
    rw [visitedEq] at seen
    exact (List.mem_append.mp seen).symm
  unfold FunctionCfg.Walk.step at steps
  cases current with
  | some b =>
      have waits : b ∈ (some b).toList ++ blocks := List.mem_cons_self
      dsimp only at steps
      by_cases seen : b ∈ visited
      · rw [if_pos seen] at steps
        cases steps
        refine ⟨handled, visitedEq, explores.drop waits (known seen) ?_ ?_⟩
        · intro y member
          rcases List.mem_cons.mp member with same | waiting
          · exact Or.inl same
          · exact Or.inr (List.mem_append_right _ waiting)
        · intro y member
          rcases List.mem_append.mp member with next | waiting
          · exact Or.inr (Or.inl (Option.mem_toList.mp next))
          · exact Or.inl (List.mem_cons_of_mem b waiting)
      · rw [if_neg seen] at steps
        cases steps
        have unmarked : b ∉ function.staleMarks entry := by
          intro marked
          exact seen (visitedEq ▸ List.mem_append_right _ marked)
        have unhandled : b ∉ handled := by
          intro member
          exact seen (visitedEq ▸ List.mem_append_left _ member)
        refine ⟨b :: handled, congrArg (b :: ·) visitedEq,
          explores.visit waits unmarked unhandled ?_ ?_ ?_⟩
        · intro y member
          rcases List.mem_cons.mp member with same | waiting
          · exact Or.inl same
          · exact Or.inr (List.mem_append_right _ ((adds _ _ y).mpr (Or.inr waiting)))
        · intro y member
          rcases List.mem_append.mp member with next | added
          · exact Or.inr (Or.inl (Option.mem_toList.mp next))
          · rcases (adds _ _ y).mp added with edge | waiting
            · exact Or.inr (Or.inr (List.mem_filter.mp edge).1)
            · exact Or.inl (List.mem_cons_of_mem b waiting)
        · intro y leads
          rcases leads with next | edge
          · exact Or.inr (Or.inr (List.mem_append_left _ (Option.mem_toList.mpr next)))
          · by_cases seenY : y ∈ b :: visited
            · rcases List.mem_cons.mp seenY with rfl | before
              · exact Or.inr (Or.inl List.mem_cons_self)
              · exact (known before).imp_right
                  (fun member => Or.inl (List.mem_cons_of_mem b member))
            · refine Or.inr (Or.inr (List.mem_append_right _ ((adds _ _ y).mpr (Or.inl ?_))))
              exact List.mem_filter.mpr ⟨edge, decide_eq_true seenY⟩
  | none =>
      cases blocks with
      | nil => cases steps
      | cons b rest =>
          dsimp only at steps
          by_cases seen : b ∈ visited
          · rw [if_pos seen] at steps
            cases steps
            refine ⟨handled, visitedEq, explores.drop List.mem_cons_self (known seen) ?_ ?_⟩
            · exact fun y member => List.mem_cons.mp member
            · exact fun y member => Or.inl (List.mem_cons_of_mem b member)
          · rw [if_neg seen] at steps
            cases steps
            exact ⟨handled, visitedEq, explores⟩

omit [DecidableEq ι] in
theorem reachable_iff (isEntry : function.entryBlock = some entry) (b : ι) :
    function.Reachable b ↔ Relation.ReflTransGen (Leads function.block) entry b := by
  constructor
  · rintro ⟨start, isStart, path⟩
    cases isEntry.symm.trans isStart
    exact path
  · exact fun path => ⟨entry, isEntry, path⟩

/-- The marks at the start are in the way of the walk unless the entry block is one of them. -/
theorem unhindered_iff (isEntry : function.entryBlock = some entry) :
    function.Unhindered ↔
      ∀ b, Relation.ReflTransGen (Leads function.block) entry b →
        b ∉ function.staleMarks entry := by
  unfold staleMarks
  constructor
  · intro unhindered b path
    split
    · exact List.not_mem_nil
    · rename_i unmarked
      exact (unhindered entry isEntry).resolve_left unmarked b ((reachable_iff isEntry b).mpr path)
  · intro clear start isStart
    cases isEntry.symm.trans isStart
    by_cases marked : entry ∈ function.visited
    · exact Or.inl marked
    · rw [if_neg marked] at clear
      exact Or.inr (fun b path => clear b ((reachable_iff isEntry b).mp path))

theorem FinitelyLinked.closed (finite : function.FinitelyLinked) (entry : ι) :
    ∃ within : Finset ι, (function.cfg entry).Closed within ∧ entry ∈ within := by
  let sources := finite.toFinset
  refine ⟨insert entry (sources.biUnion
    (fun b => ((function.cfg entry).successors b).toFinset)), ?_, Finset.mem_insert_self _ _⟩
  intro b _ n successor
  apply Finset.mem_insert_of_mem
  refine Finset.mem_biUnion.mpr ⟨b, finite.mem_toFinset.mpr ⟨n, ?_⟩, List.mem_toFinset.mpr successor⟩
  rcases List.mem_append.mp successor with next | edge
  · exact Or.inl (Option.mem_toList.mp next)
  · exact Or.inr edge

theorem explores_of_finished (adds : FunctionCfg.Adds push) {fuel : ℕ}
    {walk : FunctionCfg.Walk ι}
    (finished : FunctionCfg.Walk.run (function.cfg entry) push fuel
      { current := none, blocks := [entry], visited := function.staleMarks entry } = some walk) :
    ∃ handled, walk.visited = handled ++ function.staleMarks entry ∧
      function.handled entry walk = handled.reverse ∧
        Explores (Leads function.block) entry (· ∈ function.staleMarks entry) handled [] := by
  obtain ⟨⟨handled, visitedEq, explores⟩, stopped⟩ := FunctionCfg.Walk.run_induct
    (fun _ _ explores steps => WalkExplores.step adds explores steps)
    (show function.WalkExplores entry _ from ⟨[], rfl, Explores.initial _ _ _⟩) finished
  obtain ⟨atNone, noneWait⟩ := FunctionCfg.Walk.waiting_of_finished stopped
  rw [atNone, noneWait] at explores
  refine ⟨handled, visitedEq, ?_, explores⟩
  unfold FunctionNode.handled
  rw [visitedEq, List.reverse_append]
  exact List.drop_left' (List.length_reverse)

theorem exact_of_finished (adds : FunctionCfg.Adds push) (isEntry : function.entryBlock = some entry)
    {fuel : ℕ} {walk : FunctionCfg.Walk ι}
    (finished : FunctionCfg.Walk.run (function.cfg entry) push fuel
      { current := none, blocks := [entry], visited := function.staleMarks entry } = some walk) :
    ((function.handled entry walk).Nodup ∧
      ∀ b, b ∈ function.handled entry walk ↔ function.Reachable b) ↔ function.Unhindered := by
  obtain ⟨handled, _, handledEq, explores⟩ := explores_of_finished adds finished
  rw [unhindered_iff isEntry, ← explores.exact_iff, handledEq, List.nodup_reverse]
  refine and_congr_right (fun _ => forall_congr' (fun b => ?_))
  rw [List.mem_reverse, reachable_iff isEntry]

theorem traversesExactly_iff (adds : FunctionCfg.Adds push) (acyclic : Acyclic function.block)
    (finite : function.FinitelyLinked) :
    (∃ fuel result, function.for_each_block push fuel = some result) ∧
      (TraversesExactly (for_each_block push) function ↔ function.Unhindered) := by
  cases isEntry : function.entryBlock with
  | none =>
      have ends (fuel : ℕ) : function.for_each_block push fuel = some (function, []) := by
        unfold for_each_block
        rw [isEntry]
      refine ⟨⟨0, _, ends 0⟩, iff_of_true ?_ ?_⟩
      · refine ⟨0, function, [], ends 0, List.nodup_nil, fun b => ?_⟩
        refine iff_of_false List.not_mem_nil ?_
        rintro ⟨entry, impossible, _⟩
        cases isEntry.symm.trans impossible
      · intro entry impossible
        cases isEntry.symm.trans impossible
  | some entry =>
      have unfolded (fuel : ℕ) : function.for_each_block push fuel =
          (FunctionCfg.Walk.run (function.cfg entry) push fuel
            { current := none, blocks := [entry],
              visited := function.staleMarks entry }).map
            (fun walk => ({ function with visited := walk.visited },
              function.handled entry walk)) := by
        unfold for_each_block
        rw [isEntry]
      obtain ⟨within, closed, inside⟩ := finite.closed entry
      obtain ⟨fuel, walk, finished⟩ := FunctionCfg.Walk.exists_run closed acyclic adds
        (show FunctionCfg.Walk.Inside within
            { current := none, blocks := [entry], visited := function.staleMarks entry } from
          ⟨nofun, fun b member => List.mem_singleton.mp member ▸ inside⟩)
      have ends : function.for_each_block push fuel =
          some ({ function with visited := walk.visited }, function.handled entry walk) := by
        rw [unfolded, finished]
        rfl
      refine ⟨⟨fuel, _, ends⟩, ?_, ?_⟩
      · rintro ⟨fuel, later, handled, ended, exact⟩
        rw [unfolded] at ended
        obtain ⟨walk, finished, same⟩ := Option.map_eq_some_iff.mp ended
        cases same
        exact (exact_of_finished adds isEntry finished).mp exact
      · intro unhindered
        exact ⟨fuel, _, _, ends, (exact_of_finished adds isEntry finished).mpr unhindered⟩

end FunctionNode

/-! ### Functions -/

/-- The state of `for_each_function_dfs` and `for_each_function_bfs`: the stack or queue, and
the visited functions, the last one first. -/
structure FunctionWalk (φ : Type) where
  functions : List φ
  visited : List φ

/-- One iteration; `follows` is the test on the destination of a call edge. -/
def FunctionWalk.step {φ : Type} [DecidableEq φ] (outgoingEdges : φ → List φ)
    (follows : φ → φ → List φ → Bool) (push : List φ → List φ → List φ) (walk : FunctionWalk φ) :
    Option (FunctionWalk φ) :=
  match walk.functions with
  | [] => none
  | f :: rest =>
      if f ∈ walk.visited then some { walk with functions := rest }
      else
        let visited := f :: walk.visited
        some
          { functions := push ((outgoingEdges f).filter (fun dst => follows f dst visited)) rest
            visited }

namespace MarkedIcfg

variable {φ ι : Type}

def Reachable (icfg : MarkedIcfg φ ι) (f : φ) : Prop :=
  ∃ entry, icfg.entryFunction = some entry ∧
    Relation.ReflTransGen (fun f g => g ∈ icfg.outgoingEdges f) entry f

variable [DecidableEq φ]

/-- The marks are dropped only if the entry function is marked. -/
def staleMarks (icfg : MarkedIcfg φ ι) (entry : φ) : List φ :=
  if entry ∈ icfg.visited then [] else icfg.visited

/-- As for blocks: the ICFG with its marks, and the functions that the callback got. -/
def for_each_function (follows : φ → φ → List φ → Bool) (push : List φ → List φ → List φ)
    (icfg : MarkedIcfg φ ι) (fuel : ℕ) : Option (MarkedIcfg φ ι × List φ) :=
  match icfg.entryFunction with
  | none => some (icfg, [])
  | some entry =>
      (run (FunctionWalk.step icfg.outgoingEdges follows push) fuel
        { functions := [entry], visited := icfg.staleMarks entry }).map
        (fun walk => ({ icfg with visited := walk.visited },
          walk.visited.reverse.drop (icfg.staleMarks entry).length))

/-- `edge->dst != f && !edge->dst->visited` -/
def for_each_function_dfs (icfg : MarkedIcfg φ ι) (fuel : ℕ) :
    Option (MarkedIcfg φ ι × List φ) :=
  icfg.for_each_function (fun f dst visited => decide (dst ≠ f) && decide (dst ∉ visited))
    (fun edges stack => edges ++ stack) fuel

/-- `edge->dst != f && !f->visited` -/
def for_each_function_bfs (icfg : MarkedIcfg φ ι) (fuel : ℕ) :
    Option (MarkedIcfg φ ι × List φ) :=
  icfg.for_each_function (fun f dst visited => decide (dst ≠ f) && decide (f ∉ visited))
    (fun edges queue => queue ++ edges) fuel

omit [DecidableEq φ] in
/-- A traversal ends, and it calls the callback once for each function that can be reached,
and for no other one. -/
def TraversesExactly (traverse : MarkedIcfg φ ι → ℕ → Option (MarkedIcfg φ ι × List φ))
    (icfg : MarkedIcfg φ ι) : Prop :=
  ∃ fuel later handled, traverse icfg fuel = some (later, handled) ∧
    handled.Nodup ∧ ∀ f, f ∈ handled ↔ icfg.Reachable f

omit [DecidableEq φ] in
def FinitelyCalls (icfg : MarkedIcfg φ ι) : Prop :=
  {f | icfg.outgoingEdges f ≠ []}.Finite

omit [DecidableEq φ] in
/-- No mark is in the way of a traversal that only looks at reachable functions. -/
def Unhindered (icfg : MarkedIcfg φ ι) : Prop :=
  ∀ entry, icfg.entryFunction = some entry →
    entry ∈ icfg.visited ∨ ∀ f, icfg.Reachable f → f ∉ icfg.visited

omit [DecidableEq φ] in
def CallsNothing (icfg : MarkedIcfg φ ι) : Prop :=
  ∀ f, icfg.Reachable f → icfg.entryFunction = some f

variable {icfg : MarkedIcfg φ ι} {entry : φ}

omit [DecidableEq φ] in
theorem reachable_iff (isEntry : icfg.entryFunction = some entry) (f : φ) :
    icfg.Reachable f ↔
      Relation.ReflTransGen (fun f g => g ∈ icfg.outgoingEdges f) entry f := by
  constructor
  · rintro ⟨start, isStart, path⟩
    cases isEntry.symm.trans isStart
    exact path
  · exact fun path => ⟨entry, isEntry, path⟩

theorem exact_of_no_entry (noEntry : icfg.entryFunction = none)
    (follows : φ → φ → List φ → Bool) (push : List φ → List φ → List φ) :
    TraversesExactly (for_each_function follows push) icfg := by
  refine ⟨0, icfg, [], ?_, List.nodup_nil, fun f => iff_of_false List.not_mem_nil ?_⟩
  · unfold for_each_function
    rw [noEntry]
  · rintro ⟨entry, impossible, _⟩
    cases noEntry.symm.trans impossible

theorem for_each_function_eq (isEntry : icfg.entryFunction = some entry)
    (follows : φ → φ → List φ → Bool) (push : List φ → List φ → List φ) (fuel : ℕ) :
    icfg.for_each_function follows push fuel =
      (run (FunctionWalk.step icfg.outgoingEdges follows push) fuel
        { functions := [entry], visited := icfg.staleMarks entry }).map
        (fun walk => ({ icfg with visited := walk.visited },
          walk.visited.reverse.drop (icfg.staleMarks entry).length)) := by
  unfold for_each_function
  rw [isEntry]

def followsUnvisited (f dst : φ) (visited : List φ) : Bool :=
  decide (dst ≠ f) && decide (dst ∉ visited)

def WalkExplores (icfg : MarkedIcfg φ ι) (entry : φ) (walk : FunctionWalk φ) : Prop :=
  ∃ handled, walk.visited = handled ++ icfg.staleMarks entry ∧
    Explores (fun f g => g ∈ icfg.outgoingEdges f) entry (· ∈ icfg.staleMarks entry) handled
      walk.functions

theorem WalkExplores.step {walk later : FunctionWalk φ} (explores : icfg.WalkExplores entry walk)
    (steps : walk.step icfg.outgoingEdges followsUnvisited (fun edges stack => edges ++ stack) =
      some later) : icfg.WalkExplores entry later := by
  obtain ⟨handled, visitedEq, explores⟩ := explores
  obtain ⟨functions, visited⟩ := walk
  dsimp only at visitedEq explores
  have known {f : φ} (seen : f ∈ visited) : f ∈ icfg.staleMarks entry ∨ f ∈ handled := by
    rw [visitedEq] at seen
    exact (List.mem_append.mp seen).symm
  unfold FunctionWalk.step at steps
  cases functions with
  | nil => cases steps
  | cons f rest =>
      dsimp only at steps
      by_cases seen : f ∈ visited
      · rw [if_pos seen] at steps
        cases steps
        refine ⟨handled, visitedEq, explores.drop List.mem_cons_self (known seen) ?_ ?_⟩
        · exact fun g member => List.mem_cons.mp member
        · exact fun g member => Or.inl (List.mem_cons_of_mem f member)
      · rw [if_neg seen] at steps
        cases steps
        have unmarked : f ∉ icfg.staleMarks entry := by
          intro marked
          exact seen (visitedEq ▸ List.mem_append_right _ marked)
        have unhandled : f ∉ handled := by
          intro member
          exact seen (visitedEq ▸ List.mem_append_left _ member)
        refine ⟨f :: handled, congrArg (f :: ·) visitedEq,
          explores.visit List.mem_cons_self unmarked unhandled ?_ ?_ ?_⟩
        · intro g member
          rcases List.mem_cons.mp member with same | waiting
          · exact Or.inl same
          · exact Or.inr (List.mem_append_right _ waiting)
        · intro g member
          rcases List.mem_append.mp member with edge | waiting
          · exact Or.inr (List.mem_filter.mp edge).1
          · exact Or.inl (List.mem_cons_of_mem f waiting)
        · intro g edge
          by_cases seenG : g ∈ f :: visited
          · rcases List.mem_cons.mp seenG with rfl | before
            · exact Or.inr (Or.inl List.mem_cons_self)
            · exact (known before).imp_right
                (fun member => Or.inl (List.mem_cons_of_mem f member))
          · refine Or.inr (Or.inr (List.mem_append_left _ (List.mem_filter.mpr ⟨edge, ?_⟩)))
            unfold followsUnvisited
            rw [decide_eq_true seenG, Bool.and_true, decide_eq_true_iff]
            rintro rfl
            exact seenG List.mem_cons_self

theorem explores_of_finished {fuel : ℕ} {walk : FunctionWalk φ}
    (finished : run (FunctionWalk.step icfg.outgoingEdges followsUnvisited
      (fun edges stack => edges ++ stack)) fuel
        { functions := [entry], visited := icfg.staleMarks entry } = some walk) :
    ∃ handled, walk.visited = handled ++ icfg.staleMarks entry ∧
      walk.visited.reverse.drop (icfg.staleMarks entry).length = handled.reverse ∧
        Explores (fun f g => g ∈ icfg.outgoingEdges f) entry (· ∈ icfg.staleMarks entry)
          handled [] := by
  obtain ⟨⟨handled, visitedEq, explores⟩, stopped⟩ := run_induct
    (fun _ _ explores steps => WalkExplores.step explores steps)
    (show icfg.WalkExplores entry _ from ⟨[], rfl, Explores.initial _ _ _⟩) finished
  have noneWait : walk.functions = [] := by
    unfold FunctionWalk.step at stopped
    split at stopped
    · assumption
    · split at stopped <;> cases stopped
  rw [noneWait] at explores
  refine ⟨handled, visitedEq, ?_, explores⟩
  rw [visitedEq, List.reverse_append]
  exact List.drop_left' List.length_reverse

theorem unhindered_iff (isEntry : icfg.entryFunction = some entry) :
    icfg.Unhindered ↔
      ∀ f, Relation.ReflTransGen (fun f g => g ∈ icfg.outgoingEdges f) entry f →
        f ∉ icfg.staleMarks entry := by
  unfold staleMarks
  constructor
  · intro unhindered f path
    split
    · exact List.not_mem_nil
    · rename_i unmarked
      exact (unhindered entry isEntry).resolve_left unmarked f
        ((reachable_iff isEntry f).mpr path)
  · intro clear start isStart
    cases isEntry.symm.trans isStart
    by_cases marked : entry ∈ icfg.visited
    · exact Or.inl marked
    · rw [if_neg marked] at clear
      exact Or.inr (fun f path => clear f ((reachable_iff isEntry f).mp path))

theorem exact_of_finished (isEntry : icfg.entryFunction = some entry) {fuel : ℕ}
    {walk : FunctionWalk φ}
    (finished : run (FunctionWalk.step icfg.outgoingEdges followsUnvisited
      (fun edges stack => edges ++ stack)) fuel
        { functions := [entry], visited := icfg.staleMarks entry } = some walk) :
    ((walk.visited.reverse.drop (icfg.staleMarks entry).length).Nodup ∧
      ∀ f, f ∈ walk.visited.reverse.drop (icfg.staleMarks entry).length ↔ icfg.Reachable f) ↔
        icfg.Unhindered := by
  obtain ⟨handled, _, handledEq, explores⟩ := explores_of_finished finished
  rw [unhindered_iff isEntry, ← explores.exact_iff, handledEq, List.nodup_reverse]
  refine and_congr_right (fun _ => forall_congr' (fun f => ?_))
  rw [List.mem_reverse, reachable_iff isEntry]

theorem exists_run_dfs (finite : icfg.FinitelyCalls) (entry : φ) (marks : List φ) :
    ∃ fuel walk, run (FunctionWalk.step icfg.outgoingEdges followsUnvisited
      (fun edges stack => edges ++ stack)) fuel { functions := [entry], visited := marks } =
        some walk := by
  let within : Finset φ :=
    insert entry (finite.toFinset.biUnion (fun f => (icfg.outgoingEdges f).toFinset))
  have closed {f g : φ} (edge : g ∈ icfg.outgoingEdges f) : g ∈ within := by
    apply Finset.mem_insert_of_mem
    refine Finset.mem_biUnion.mpr ⟨f, finite.mem_toFinset.mpr ?_, List.mem_toFinset.mpr edge⟩
    exact List.ne_nil_of_mem edge
  let potential (walk : FunctionWalk φ) : ℕ ×ₗ ℕ :=
    toLex ((within.filter (fun f => f ∉ walk.visited)).card, walk.functions.length)
  let motive (walk : FunctionWalk φ) : Prop := ∀ f ∈ walk.functions, f ∈ within
  have start : motive { functions := [entry], visited := marks } :=
    fun f member => List.mem_singleton.mp member ▸ Finset.mem_insert_self _ _
  refine exists_run potential ?_ _ start
  rintro ⟨functions, visited⟩ later inside steps
  unfold FunctionWalk.step at steps
  cases functions with
  | nil => cases steps
  | cons f rest =>
      dsimp only at steps
      by_cases seen : f ∈ visited
      · rw [if_pos seen] at steps
        cases steps
        refine ⟨fun g member => inside g (List.mem_cons_of_mem f member), ?_⟩
        exact Prod.Lex.toLex_lt_toLex.mpr (Or.inr ⟨rfl, Nat.lt_succ_self _⟩)
      · rw [if_neg seen] at steps
        cases steps
        refine ⟨?_, Prod.Lex.toLex_lt_toLex.mpr (Or.inl ?_)⟩
        · intro g member
          rcases List.mem_append.mp member with edge | waiting
          · exact closed (List.mem_filter.mp edge).1
          · exact inside g (List.mem_cons_of_mem f waiting)
        · apply Finset.card_lt_card
          rw [Finset.ssubset_iff_of_subset]
          · refine ⟨f, Finset.mem_filter.mpr ⟨inside f List.mem_cons_self, seen⟩, ?_⟩
            intro still
            exact (Finset.mem_filter.mp still).2 List.mem_cons_self
          · intro g member
            rw [Finset.mem_filter] at member ⊢
            exact ⟨member.1, fun before => member.2 (List.mem_cons_of_mem _ before)⟩

theorem traversesExactly_dfs_iff (finite : icfg.FinitelyCalls) :
    TraversesExactly for_each_function_dfs icfg ↔ icfg.Unhindered := by
  cases isEntry : icfg.entryFunction with
  | none =>
      refine iff_of_true (exact_of_no_entry isEntry _ _) ?_
      intro entry impossible
      cases isEntry.symm.trans impossible
  | some entry =>
      constructor
      · rintro ⟨fuel, later, handled, ended, exact⟩
        obtain ⟨walk, finished, same⟩ := Option.map_eq_some_iff.mp
          ((for_each_function_eq isEntry _ _ fuel).symm.trans ended)
        cases same
        exact (exact_of_finished isEntry finished).mp exact
      · intro unhindered
        obtain ⟨fuel, walk, finished⟩ := exists_run_dfs finite entry (icfg.staleMarks entry)
        have ended := for_each_function_eq isEntry followsUnvisited
          (fun edges stack => edges ++ stack) fuel
        rw [finished] at ended
        exact ⟨fuel, _, _, ended, (exact_of_finished isEntry finished).mpr unhindered⟩

theorem entry_not_stale (icfg : MarkedIcfg φ ι) (entry : φ) : entry ∉ icfg.staleMarks entry := by
  unfold staleMarks
  split
  · exact List.not_mem_nil
  · assumption

/-- The breadth-first traversal asks whether the function it is at is marked, which it is. -/
theorem step_bfs (outgoingEdges : φ → List φ) {marks : List φ} (unmarked : entry ∉ marks) :
    FunctionWalk.step outgoingEdges
      (fun f dst visited => decide (dst ≠ f) && decide (f ∉ visited))
      (fun edges queue => queue ++ edges) { functions := [entry], visited := marks } =
        some { functions := [], visited := entry :: marks } := by
  unfold FunctionWalk.step
  dsimp only
  rw [if_neg unmarked]
  congr 2
  apply List.filter_eq_nil_iff.mpr
  intro dst _ follows
  rw [Bool.and_eq_true, decide_eq_true_iff, decide_eq_true_iff] at follows
  exact follows.2 List.mem_cons_self

theorem for_each_function_bfs_eq (isEntry : icfg.entryFunction = some entry) (fuel : ℕ) :
    icfg.for_each_function_bfs (fuel + 2) =
      some ({ icfg with visited := entry :: icfg.staleMarks entry }, [entry]) := by
  refine (for_each_function_eq isEntry _ _ _).trans ?_
  unfold run
  rw [step_bfs icfg.outgoingEdges (icfg.entry_not_stale entry)]
  change some (({ icfg with visited := entry :: icfg.staleMarks entry } : MarkedIcfg φ ι),
    (entry :: icfg.staleMarks entry).reverse.drop (icfg.staleMarks entry).length) = _
  rw [List.reverse_cons, List.drop_left' List.length_reverse]

theorem handled_bfs (isEntry : icfg.entryFunction = some entry) {fuel : ℕ}
    {later : MarkedIcfg φ ι} {handled : List φ}
    (ended : icfg.for_each_function_bfs fuel = some (later, handled)) : handled = [entry] := by
  match fuel with
  | 0 => cases (for_each_function_eq isEntry _ _ 0).symm.trans ended
  | 1 =>
      have short := (for_each_function_eq isEntry _ _ 1).symm.trans ended
      unfold run at short
      rw [step_bfs icfg.outgoingEdges (icfg.entry_not_stale entry)] at short
      cases short
  | fuel + 2 =>
      cases (for_each_function_bfs_eq isEntry fuel).symm.trans ended
      rfl

theorem traversesExactly_bfs_iff :
    TraversesExactly for_each_function_bfs icfg ↔ icfg.CallsNothing := by
  cases isEntry : icfg.entryFunction with
  | none =>
      refine iff_of_true (exact_of_no_entry isEntry _ _) ?_
      rintro f ⟨entry, impossible, _⟩
      cases isEntry.symm.trans impossible
  | some entry =>
      constructor
      · rintro ⟨fuel, later, handled, ended, -, exact⟩ f reachable
        have member := (exact f).mpr reachable
        rw [handled_bfs isEntry ended, List.mem_singleton] at member
        rw [member, isEntry]
      · intro callsNothing
        refine ⟨2, _, _, for_each_function_bfs_eq isEntry 0, List.nodup_singleton entry, ?_⟩
        intro f
        rw [List.mem_singleton]
        constructor
        · rintro rfl
          exact ⟨f, isEntry, .refl⟩
        · intro reachable
          exact Option.some.inj ((callsNothing f reachable).symm.trans isEntry)

end MarkedIcfg

end Drob
