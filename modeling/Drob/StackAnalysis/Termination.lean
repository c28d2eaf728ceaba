import Drob.Instruction.AluTable
import Drob.State.Rank
import Drob.StackAnalysis.Steps

/-!
The stack analysis terminates when no merge meets a byte that the entry state does not
know and the forwarded state has dead: the ranks of the entry states decrease with
every difference a merge reports. A function whose analysis runs forever shows that
such merges have to be excluded.
-/

namespace Drob

namespace StackAnalysis

variable {ι : Type} [DecidableEq ι]

/-! ### The ranks of all entry states -/

noncomputable def entryRank (bound : Int) : Option ProgramState → Nat
  | none => ProgramState.maxRank bound + 1
  | some entryState => entryState.rank bound

noncomputable def entryRanks [Fintype ι] (bound : Int) (state : AnalysisState ι) : Nat :=
  ∑ b, entryRank bound (state.block b).entryState

def unprocessed [Fintype ι] (state : AnalysisState ι) : Finset ι :=
  Finset.univ.filter (fun b =>
    (state.block b).entryState.isNone = true ∧ (state.block b).stackAnalysisValid = false)

def remaining (position : Option (Position ι)) : Nat :=
  position.elim 0 (fun position => position.rest.length + 1)

/-- Each step decreases the first of these numbers that it changes. -/
noncomputable def weight [Fintype ι] (bound : Int) (state : AnalysisState ι) :
    ℕ ×ₗ ℕ ×ₗ ℕ ×ₗ ℕ :=
  toLex (entryRanks bound state, toLex ((unprocessed state).card,
    toLex (state.blocksToProcess.length, remaining state.position)))

variable {cfg : FunctionCfg ι} {context : Context} {host : Host}
  {state later : AnalysisState ι} {bound : Int}

section Weight

variable [Fintype ι]

omit [DecidableEq ι] in
theorem weight_lt_of_entryRanks (lower : entryRanks bound later < entryRanks bound state) :
    weight bound later < weight bound state :=
  Prod.Lex.toLex_lt_toLex.mpr (Or.inl lower)

omit [DecidableEq ι] in
theorem weight_lt_of_unprocessed (le : entryRanks bound later ≤ entryRanks bound state)
    (lower : (unprocessed later).card < (unprocessed state).card) :
    weight bound later < weight bound state := by
  rcases Nat.lt_or_eq_of_le le with less | same
  · exact weight_lt_of_entryRanks less
  · exact Prod.Lex.toLex_lt_toLex.mpr
      (Or.inr ⟨same, Prod.Lex.toLex_lt_toLex.mpr (Or.inl lower)⟩)

omit [DecidableEq ι] in
theorem weight_lt_of_rest (le : entryRanks bound later ≤ entryRanks bound state)
    (same : unprocessed later = unprocessed state)
    (lower : later.blocksToProcess.length < state.blocksToProcess.length ∨
      later.blocksToProcess = state.blocksToProcess ∧
        remaining later.position < remaining state.position) :
    weight bound later < weight bound state := by
  rcases Nat.lt_or_eq_of_le le with less | sameRanks
  · exact weight_lt_of_entryRanks less
  · refine Prod.Lex.toLex_lt_toLex.mpr (Or.inr ⟨sameRanks, Prod.Lex.toLex_lt_toLex.mpr
      (Or.inr ⟨congrArg Finset.card same, Prod.Lex.toLex_lt_toLex.mpr ?_⟩)⟩)
    rcases lower with less | ⟨sameQueue, less⟩
    · exact Or.inl less
    · exact Or.inr ⟨congrArg List.length sameQueue, less⟩

omit [DecidableEq ι] in
theorem entryRanks_congr
    (same : ∀ b, (later.block b).entryState = (state.block b).entryState) :
    entryRanks bound later = entryRanks bound state :=
  Finset.sum_congr rfl (fun b _ => congrArg (entryRank bound) (same b))

theorem entryRanks_requeue (state : AnalysisState ι) (b : ι) :
    entryRanks bound (state.requeue b) = entryRanks bound state :=
  entryRanks_congr (fun c => state.entryState_requeue b c)

theorem entryRanks_setEntryState_lt {b : ι} {entryState : ProgramState}
    (lower : entryState.rank bound < entryRank bound (state.block b).entryState) :
    entryRanks bound (state.setEntryState b entryState) < entryRanks bound state := by
  refine Finset.sum_lt_sum ?_ ⟨b, Finset.mem_univ b, ?_⟩
  · intro c _
    rw [AnalysisState.entryState_setEntryState]
    split
    · rename_i same
      rw [same]
      exact le_of_lt lower
    · exact le_refl _
  · rw [AnalysisState.entryState_setEntryState, if_pos rfl]
    exact lower

theorem entryRanks_setEntryState_le {b : ι} {entryState : ProgramState}
    (le : entryState.rank bound ≤ entryRank bound (state.block b).entryState) :
    entryRanks bound (state.setEntryState b entryState) ≤ entryRanks bound state := by
  refine Finset.sum_le_sum ?_
  intro c _
  rw [AnalysisState.entryState_setEntryState]
  split
  · rename_i same
    rw [same]
    exact le
  · exact le_refl _

theorem unprocessed_setEntryState {b : ι} {before entryState : ProgramState}
    (found : (state.block b).entryState = some before) :
    unprocessed (state.setEntryState b entryState) = unprocessed state := by
  refine Finset.filter_congr ?_
  intro c _
  unfold AnalysisState.setEntryState
  rw [AnalysisState.block_setBlock]
  split
  · rename_i same
    rw [same, found]
    rfl
  · rfl

theorem forwardStateToBlock_ranks {forwarded : AnalysisState ι} {b : ι}
    {curState grown : ProgramState} (all : AllWithin bound state)
    (within : curState.Within bound)
    (clean : ∀ entryState, (state.block b).entryState = some entryState →
      ¬ entryState.RegainsDead curState)
    (returned : state.forwardStateToBlock b curState = .ok (grown, forwarded)) :
    entryRanks bound forwarded < entryRanks bound state ∨
      entryRanks bound forwarded ≤ entryRanks bound state ∧
        unprocessed forwarded = unprocessed state ∧
        forwarded.blocksToProcess = state.blocksToProcess := by
  rcases AnalysisState.forwardStateToBlock_cases returned with
    ⟨missing, rfl, rfl⟩ | ⟨entryState, merged, diff, found, merges, rfl⟩
  · left
    rw [entryRanks_requeue]
    refine entryRanks_setEntryState_lt ?_
    rw [missing]
    exact Nat.lt_succ_of_le (ProgramState.rank_le_maxRank bound grown)
  · obtain ⟨rankLe, rankLt⟩ := ProgramState.merge_rank (all.entry b entryState found) within
      (clean entryState found) merges
    cases diff with
    | true =>
        left
        rw [if_pos rfl, entryRanks_requeue]
        refine entryRanks_setEntryState_lt ?_
        rw [found]
        exact rankLt rfl
    | false =>
        right
        rw [if_neg Bool.false_ne_true]
        refine ⟨entryRanks_setEntryState_le ?_, unprocessed_setEntryState found, rfl⟩
        rw [found]
        exact rankLe

theorem requeuePredecessors_ranks (predecessors : List ι) (state : AnalysisState ι) :
    entryRanks bound (predecessors.foldl AnalysisState.requeuePredecessor state) =
        entryRanks bound state ∧
      unprocessed (predecessors.foldl AnalysisState.requeuePredecessor state) ⊆
        unprocessed state := by
  induction predecessors generalizing state with
  | nil => exact ⟨rfl, Finset.Subset.refl _⟩
  | cons prev rest ih =>
      obtain ⟨ranks, subset⟩ := ih (state.requeuePredecessor prev)
      rcases state.requeuePredecessor_cases prev with same | ⟨hasEntry, same⟩
      · rw [same] at ranks subset
        rw [List.foldl_cons, same]
        exact ⟨ranks, subset⟩
      · rw [same] at ranks subset
        rw [List.foldl_cons, same]
        refine ⟨ranks.trans (entryRanks_requeue state prev), subset.trans ?_⟩
        intro c member
        obtain ⟨_, missing, invalid⟩ := Finset.mem_filter.mp member
        rw [AnalysisState.entryState_requeue] at missing
        have other : c ≠ prev := by
          rintro rfl
          rw [Option.isNone_iff_eq_none] at missing
          rw [missing] at hasEntry
          cases hasEntry
        rw [AnalysisState.block_requeue, if_neg other] at invalid
        exact Finset.mem_filter.mpr ⟨Finset.mem_univ c, missing, invalid⟩

theorem weight_dequeue {b : ι} {rest : List ι} (front : state.blocksToProcess = b :: rest) :
    weight bound ((state.dequeue b rest).processBlock cfg b) < weight bound state := by
  have shorter : rest.length < state.blocksToProcess.length := by
    rw [front]
    exact Nat.lt_succ_self _
  have block (c : ι) : ((state.dequeue b rest).block c).entryState = (state.block c).entryState ∧
      ((state.dequeue b rest).block c).stackAnalysisValid =
        (state.block c).stackAnalysisValid := by
    change ((state.setBlock b { state.block b with queued := false }).block c).entryState = _ ∧
      ((state.setBlock b { state.block b with queued := false }).block c).stackAnalysisValid = _
    rw [AnalysisState.block_setBlock]
    split
    · rename_i same
      rw [same]
      exact ⟨rfl, rfl⟩
    · exact ⟨rfl, rfl⟩
  have ranks : entryRanks bound (state.dequeue b rest) = entryRanks bound state :=
    entryRanks_congr (fun c => (block c).1)
  have sameUnprocessed : unprocessed (state.dequeue b rest) = unprocessed state := by
    refine Finset.filter_congr ?_
    intro c _
    rw [(block c).1, (block c).2]
  have queue : (state.dequeue b rest).blocksToProcess = rest := rfl
  generalize state.dequeue b rest = dequeued at block ranks sameUnprocessed queue
  rw [← queue] at shorter
  unfold AnalysisState.processBlock
  split
  · exact weight_lt_of_rest (le_of_eq ranks) sameUnprocessed (Or.inl shorter)
  · rename_i invalid
    rw [Bool.not_eq_true] at invalid
    have validBlock (c : ι) :
        (dequeued.setBlock b { dequeued.block b with stackAnalysisValid := true }).block c =
          if c = b then { dequeued.block b with stackAnalysisValid := true }
          else dequeued.block c := AnalysisState.block_setBlock _ _ _ _
    have validRanks : entryRanks bound
        (dequeued.setBlock b { dequeued.block b with stackAnalysisValid := true }) =
          entryRanks bound dequeued := by
      refine entryRanks_congr ?_
      intro c
      rw [validBlock]
      split
      · rename_i same
        rw [same]
      · rfl
    dsimp only
    split
    · rename_i missing
      obtain ⟨predRanks, subset⟩ := requeuePredecessors_ranks
        ((cfg.block b).prev.toList ++ (cfg.block b).incomingEdges)
        (dequeued.setBlock b { dequeued.block b with stackAnalysisValid := true })
      refine weight_lt_of_unprocessed
        (le_of_eq ((predRanks.trans validRanks).trans ranks)) ?_
      rw [← sameUnprocessed]
      refine Finset.card_lt_card (Finset.ssubset_iff_of_subset ?_ |>.mpr ⟨b, ?_, ?_⟩)
      · refine subset.trans ?_
        intro c member
        obtain ⟨_, none, notValid⟩ := Finset.mem_filter.mp member
        rw [validBlock] at none notValid
        split at notValid
        · cases notValid
        · rename_i other
          rw [if_neg other] at none
          exact Finset.mem_filter.mpr ⟨Finset.mem_univ c, none, notValid⟩
      · exact Finset.mem_filter.mpr
          ⟨Finset.mem_univ b, Option.isNone_iff_eq_none.mpr missing, invalid⟩
      · intro member
        obtain ⟨_, _, notValid⟩ := Finset.mem_filter.mp (subset member)
        rw [validBlock, if_pos rfl] at notValid
        cases notValid
    · rename_i curState found
      refine weight_lt_of_rest (le_of_eq (validRanks.trans ranks)) ?_ (Or.inl shorter)
      rw [← sameUnprocessed]
      refine Finset.filter_congr ?_
      intro c _
      dsimp only
      rw [validBlock]
      split
      · rename_i same
        rw [same, found]
        simp
      · rfl

end Weight

/-! ### Clean steps -/

/-- The entry state that the next step merges has no byte that it does not know and
the forwarded state has dead. -/
def CleanStep (cfg : FunctionCfg ι) (context : Context) (host : Host)
    (state : AnalysisState ι) : Prop :=
  ∀ target curState entryState,
    nextForward cfg context host state = some (target, curState) →
      (state.block target).entryState = some entryState → ¬ entryState.RegainsDead curState

theorem weight_step [Fintype ι] (large : stackBound ≤ bound) (all : AllWithin bound state)
    (clean : CleanStep cfg context host state)
    (steps : Steps cfg context host state later) : weight bound later < weight bound state := by
  cases steps.cases with
  | push b instr rest curState pushed here handled result =>
      subst result
      refine weight_lt_of_rest (le_refl _) rfl (Or.inr ⟨rfl, ?_⟩)
      rw [here]
      exact Nat.lt_succ_self _
  | branch b instr rest curState pushed grown forward forwarded here handled merged result =>
      subst result
      have within := pushInstruction_within large (all.current _ here) handled
      have next : nextForward cfg context host state = some (forward.target, pushed) := by
        unfold nextForward
        rw [here]
        dsimp only
        rw [handled]
      rcases forwardStateToBlock_ranks all within
        (fun entryState found => clean _ _ entryState next found) merged with
        lower | ⟨le, same, queue⟩
      · exact weight_lt_of_entryRanks lower
      · refine weight_lt_of_rest le same (Or.inr ⟨queue, ?_⟩)
        rw [here]
        dsimp only
        split
        · exact Nat.succ_pos _
        · exact Nat.lt_succ_self _
  | fallthrough b next curState grown forwarded here hasNext merged result =>
      subst result
      have forwards : nextForward cfg context host state = some (next, curState) := by
        unfold nextForward
        rw [here]
        dsimp only
        rw [hasNext]
        rfl
      rcases forwardStateToBlock_ranks all (all.current _ here)
        (fun entryState found => clean _ _ entryState forwards found) merged with
        lower | ⟨le, same, queue⟩
      · exact weight_lt_of_entryRanks lower
      · refine weight_lt_of_rest le same (Or.inr ⟨queue, ?_⟩)
        rw [here]
        exact Nat.succ_pos _
  | finish b curState here noNext result =>
      subst result
      refine weight_lt_of_rest (le_refl _) rfl (Or.inr ⟨rfl, ?_⟩)
      rw [here]
      exact Nat.succ_pos _
  | dequeue b rest idle front result =>
      subst result
      exact weight_dequeue front

/-- The loop runs forever from a state, by steps that all meet a condition. -/
def RunsForever (cfg : FunctionCfg ι) (context : Context) (host : Host)
    (condition : AnalysisState ι → Prop) (first : AnalysisState ι) : Prop :=
  ∃ run : Nat → AnalysisState ι, run 0 = first ∧
    ∀ n, condition (run n) ∧ Steps cfg context host (run n) (run (n + 1))

/-- The analysis of a finite function by clean steps terminates. -/
theorem not_runsForever_of_clean [Fintype ι] (cfg : FunctionCfg ι) (context : Context)
    (host : Host) (entryState : ProgramState) (order : List ι) (sized : entryState.Sized) :
    ¬ RunsForever cfg context host (CleanStep cfg context host) (start cfg entryState order) := by
  rintro ⟨run, first, steps⟩
  obtain ⟨bound, large, within⟩ := sized.within
  have all (n : Nat) : AllWithin bound (run n) := by
    induction n with
    | zero =>
        rw [first]
        exact allWithin_start within order
    | succ n ih => exact ih.step large (steps n).2
  obtain ⟨n, notLower⟩ := WellFounded.not_rel_apply_succ (r := (· < ·))
    (fun n => weight bound (run n))
  exact notLower (weight_step large (all n) (steps n).1 (steps n).2)

/-! ### An analysis that runs forever -/

def plainContext : Context :=
  { usrPtrCfg := []
    memProtCache := { memoryRanges := [], ranges := [] }
    host := fun _ => 0 }

/-- `mov rbx, 5` -/
def setRbx (live_out : SubRegisterMask) : BlockInstruction Unit :=
  { instruction := { opcode := .MOV64ri, rawOperands := [.reg (.gprs64 .B), .imm (.plain 5)] }
    livenessData := some { live_out, live_in := ∅ }
    branchEdge := none }

/-- `jz` back to the start of the block. -/
def jumpBack (live_out : SubRegisterMask) : BlockInstruction Unit :=
  { instruction := { opcode := .JZa, rawOperands := [.mem (.direct (.plain 0))] }
    livenessData := some { live_out, live_in := ∅ }
    branchEdge := some () }

def flickeringLoop : FunctionCfg Unit :=
  { block := fun _ =>
      { instrs :=
          [setRbx (fullSubRegisterMask (.gprs64 .B)), jumpBack (fullSubRegisterMask (.gprs64 .B)),
            setRbx ∅, jumpBack ∅]
        next := none
        prev := none
        incomingEdges := [(), ()]
        outgoingEdges := [(), ()] }
    entryBlock := () }

def advance (state : AnalysisState Unit) : AnalysisState Unit :=
  match step flickeringLoop plainContext AluEmulation.clearHost state with
  | .ok (some later) => later
  | _ => state

def advances (state : AnalysisState Unit) : Bool :=
  match step flickeringLoop plainContext AluEmulation.clearHost state with
  | .ok (some _) => true
  | _ => false

theorem steps_advance {state : AnalysisState Unit} (next : advances state = true) :
    Steps flickeringLoop plainContext AluEmulation.clearHost state (advance state) := by
  unfold Steps advance
  unfold advances at next
  split at next
  · rename_i later found
    rw [found]
  · cases next

def flickeringStart : AnalysisState Unit :=
  start flickeringLoop .initial [()]

def flickeringEnd : ProgramState :=
  (((advance^[6] flickeringStart).block ()).entryState).getD .initial

theorem flickeringEnd_rbx : flickeringEnd.reg (.gprs64 .B) = ProgramState.initial.reg (.gprs64 .B) := by
  have size : (flickeringEnd.reg (.gprs64 .B)).size = 8 := by decide +kernel
  have elem : (flickeringEnd.reg (.gprs64 .B)).elem = fun _ => Element.initial := by
    funext k
    match k with
    | 0 | 1 | 2 | 3 | 4 | 5 | 6 | 7 => decide +kernel
    | k + 8 => rfl
  generalize flickeringEnd.reg (.gprs64 .B) = estate at size elem
  cases estate
  cases size
  cases elem
  rfl

theorem flickeringEnd_eq : flickeringEnd = .initial := by
  have stack : flickeringEnd.stack = ProgramState.initial.stack := rfl
  have reg : flickeringEnd.reg = ProgramState.initial.reg := by
    funext container
    cases container with
    | flag1 flag => cases flag <;> rfl
    | gprs64 gpr =>
        cases gpr with
        | B => exact flickeringEnd_rbx
        | _ => rfl
    | sse128 nr => fin_cases nr <;> rfl
  generalize flickeringEnd = ps at stack reg
  cases ps
  cases stack
  cases reg
  rfl

theorem flickeringEnd_entryState :
    ((advance^[6] flickeringStart).block ()).entryState = some .initial := by
  have known : (((advance^[6] flickeringStart).block ()).entryState).isSome = true := by
    decide +kernel
  have same := flickeringEnd_eq
  unfold flickeringEnd at same
  generalize ((advance^[6] flickeringStart).block ()).entryState = entryState at known same
  cases entryState with
  | none => cases known
  | some entryState => exact congrArg some same

theorem block_flickeringStart :
    flickeringStart.block () =
      { entryState := some .initial, stackAnalysisValid := false, queued := true } :=
  rfl

theorem block_advance : (advance^[6] flickeringStart).block () = flickeringStart.block () := by
  have entry := flickeringEnd_entryState
  have invalid : ((advance^[6] flickeringStart).block ()).stackAnalysisValid = false := by
    decide +kernel
  have queued : ((advance^[6] flickeringStart).block ()).queued = true := by decide +kernel
  rw [block_flickeringStart]
  generalize (advance^[6] flickeringStart).block () = blockState at entry invalid queued
  cases blockState
  cases entry
  cases invalid
  cases queued
  rfl

theorem advance_flickeringStart : advance^[6] flickeringStart = flickeringStart := by
  have idle : ((advance^[6] flickeringStart).position).isNone = true := by decide +kernel
  have queue : (advance^[6] flickeringStart).blocksToProcess = [()] := by decide +kernel
  have block := block_advance
  have start : flickeringStart = ⟨flickeringStart.block, [()], none⟩ := rfl
  generalize advance^[6] flickeringStart = state at idle queue block
  rw [start]
  obtain ⟨blocks, blocksToProcess, position⟩ := state
  cases queue
  rw [Option.isNone_iff_eq_none] at idle
  cases idle
  have same : blocks = flickeringStart.block := funext (fun _ => block)
  rw [same]

theorem runsForever_flickeringLoop :
    RunsForever flickeringLoop plainContext AluEmulation.clearHost (fun _ => True)
      flickeringStart := by
  have next : ∀ i, i < 6 → advances (advance^[i] flickeringStart) = true := by decide +kernel
  have periodic (n : Nat) : advance^[n] flickeringStart = advance^[n % 6] flickeringStart := by
    induction n using Nat.strong_induction_on with
    | _ n ih =>
        by_cases small : n < 6
        · rw [Nat.mod_eq_of_lt small]
        · obtain ⟨m, rfl⟩ := Nat.exists_eq_add_of_le (Nat.le_of_not_lt small)
          rw [Nat.add_comm, Function.iterate_add_apply, advance_flickeringStart,
            ih m (by omega), Nat.add_mod_right]
  refine ⟨fun n => advance^[n] flickeringStart, rfl, ?_⟩
  intro n
  refine ⟨trivial, ?_⟩
  dsimp only
  rw [Function.iterate_succ_apply']
  apply steps_advance
  rw [periodic n]
  exact next (n % 6) (Nat.mod_lt n (by decide))

/-- By clean steps alone the same analysis terminates. -/
theorem not_runsForever_flickeringLoop :
    ¬ RunsForever flickeringLoop plainContext AluEmulation.clearHost
      (CleanStep flickeringLoop plainContext AluEmulation.clearHost)
      (start flickeringLoop .initial [()]) :=
  not_runsForever_of_clean _ _ _ _ _ ProgramState.sized_initial

/-- The analysis does not terminate for every function. -/
theorem runsForever_of_sized :
    ¬ ∀ (cfg : FunctionCfg Unit) (context : Context) (host : Host) (entryState : ProgramState)
      (order : List Unit), entryState.Sized →
        ¬ RunsForever cfg context host (fun _ => True) (start cfg entryState order) := by
  intro terminates
  exact terminates flickeringLoop plainContext AluEmulation.clearHost .initial [()]
    ProgramState.sized_initial runsForever_flickeringLoop

end StackAnalysis

end Drob
