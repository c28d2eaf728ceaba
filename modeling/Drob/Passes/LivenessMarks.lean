import Drob.Passes.LivenessSolution

/-!
What the liveness analysis leaves behind in any function: the blocks that it gets to from a
return solve their equations and mark their dead instructions, all other blocks have no data
and instructions that are as they were.
-/

namespace Drob

variable {ι : Type}

/-! ### The data of the instructions -/

/-- The data of the instructions of a block from some index on; a dead instruction has
none. -/
def marksThrough (live_ret : SubRegisterMask) (liveIn : ι → SubRegisterMask)
    (effects : ℕ → RegisterEffects) :
    ℕ → List (BlockInstruction ι) → SubRegisterMask → List (Option LivenessData)
  | _, [], _ => []
  | index, instr :: rest, live =>
      (if instructionDead (effects index) instr.instruction
          (liveThrough live_ret liveIn effects (index + 1) rest live) then none
        else some
          { live_out := liveThrough live_ret liveIn effects (index + 1) rest live
            live_in := liveThrough live_ret liveIn effects index (instr :: rest) live }) ::
        marksThrough live_ret liveIn effects (index + 1) rest live

theorem length_marksThrough (live_ret : SubRegisterMask) (liveIn : ι → SubRegisterMask)
    (effects : ℕ → RegisterEffects) (index : ℕ) (instrs : List (BlockInstruction ι))
    (live : SubRegisterMask) :
    (marksThrough live_ret liveIn effects index instrs live).length = instrs.length := by
  induction instrs generalizing index with
  | nil => rfl
  | cons instr rest ih => exact congrArg Nat.succ (ih (index + 1))

theorem getElem_marksThrough {live_ret : SubRegisterMask} {liveIn : ι → SubRegisterMask}
    {effects : ℕ → RegisterEffects} {instrs : List (BlockInstruction ι)}
    {live : SubRegisterMask} {offset i : ℕ} {instr : BlockInstruction ι}
    (found : instrs[i]? = some instr) :
    (marksThrough live_ret liveIn effects offset instrs live)[i]? =
      some (if instructionDead (effects (offset + i)) instr.instruction
          (liveThrough live_ret liveIn effects (offset + i + 1) (instrs.drop (i + 1)) live) then
          none
        else some
          { live_out :=
              liveThrough live_ret liveIn effects (offset + i + 1) (instrs.drop (i + 1)) live
            live_in :=
              liveThrough live_ret liveIn effects (offset + i) (instrs.drop i) live }) := by
  induction instrs generalizing offset i with
  | nil => cases found
  | cons first rest ih =>
      cases i with
      | zero =>
          cases found
          rfl
      | succ i =>
          change (marksThrough live_ret liveIn effects (offset + 1) rest live)[i]? = _
          rw [ih found, show offset + 1 + i = offset + (i + 1) by omega]
          rfl

theorem marksThrough_congr {live_ret live : SubRegisterMask} {liveIn liveIn' : ι → SubRegisterMask}
    {effects : ℕ → RegisterEffects} (index : ℕ) (instrs : List (BlockInstruction ι))
    (same : ∀ instr ∈ instrs, ∀ dst, instr.branchEdge = some dst → liveIn dst = liveIn' dst) :
    marksThrough live_ret liveIn effects index instrs live =
      marksThrough live_ret liveIn' effects index instrs live := by
  induction instrs generalizing index with
  | nil => rfl
  | cons instr rest ih =>
      have later : ∀ other ∈ rest, ∀ dst, other.branchEdge = some dst → liveIn dst = liveIn' dst :=
        fun other member => same other (List.mem_cons_of_mem instr member)
      unfold marksThrough
      rw [ih (index + 1) later, liveThrough_congr (index + 1) rest later,
        liveThrough_congr index (instr :: rest) same]

theorem processInstruction_mark (live_ret : SubRegisterMask)
    (getLivenessData : ι → Option LivenessData) (effects : RegisterEffects)
    (instr : BlockInstruction ι) (live : SubRegisterMask) :
    (processInstruction live_ret getLivenessData effects instr live).1 =
      if instructionDead effects instr.instruction live then none
      else some
        { live_out := live
          live_in := (processInstruction live_ret getLivenessData effects instr live).2 } := by
  unfold processInstruction
  split <;> rfl

theorem processInstructions_marks (live_ret : SubRegisterMask)
    (getLivenessData : ι → Option LivenessData) {dynInfo : ℕ → Option DynamicInstructionInfo}
    {effects : ℕ → RegisterEffects} (index : ℕ) (instrs : List (BlockInstruction ι))
    (known : ∀ i instr, instrs[i]? = some instr →
      registerEffects (dynInfo (index + i)) instr.instruction = .ok (effects (index + i)))
    (live : SubRegisterMask) :
    processInstructions live_ret getLivenessData dynInfo index instrs live =
      .ok (marksThrough live_ret (fun c => (getLivenessData c).elim ∅ LivenessData.live_in)
          effects index instrs live,
        liveThrough live_ret (fun c => (getLivenessData c).elim ∅ LivenessData.live_in)
          effects index instrs live) := by
  induction instrs generalizing index with
  | nil => rfl
  | cons instr rest ih =>
      have returned := ih (index + 1) (by
        intro i other found
        have later := known (i + 1) other found
        rwa [show index + (i + 1) = index + 1 + i by omega] at later)
      have own := known 0 instr rfl
      rw [Nat.add_zero] at own
      unfold processInstructions
      rw [returned]
      change (registerEffects (dynInfo index) instr.instruction).bind _ = _
      rw [own]
      change Except.ok ((processInstruction _ _ _ _ _).1 :: _, (processInstruction _ _ _ _ _).2) = _
      rw [processInstruction_mark, processInstruction_live]
      rfl

/-! ### The steps -/

namespace LivenessAnalysis

open LivenessState

variable [DecidableEq ι] {cfg : FunctionCfg ι} {dynInfo : ι → ℕ → Option DynamicInstructionInfo}
variable {effects : ι → ℕ → RegisterEffects} {live_ret : SubRegisterMask} {returning : List ι}
variable {analysis later : LivenessAnalysis ι}

def marks (cfg : FunctionCfg ι) (effects : ι → ℕ → RegisterEffects)
    (live_ret : SubRegisterMask) (liveIn : ι → SubRegisterMask) (b : ι) :
    List (Option LivenessData) :=
  marksThrough live_ret liveIn (effects b) 0 (cfg.block b).instrs
    ((cfg.block b).next.elim ∅ liveIn)

theorem marks_update (wellFormed : cfg.WellFormed) {liveIn : ι → SubRegisterMask} {b c : ι}
    (apart : c ∉ predecessors (cfg.block b)) (value : SubRegisterMask) :
    marks cfg effects live_ret (Function.update liveIn b value) c =
      marks cfg effects live_ret liveIn c := by
  have differs (n : ι) (depends : n = b → c ∈ predecessors (cfg.block b)) :
      Function.update liveIn b value n = liveIn n :=
    Function.update_of_ne (fun same => apart (depends same)) value liveIn
  have out : (cfg.block c).next.elim ∅ (Function.update liveIn b value) =
      (cfg.block c).next.elim ∅ liveIn := by
    cases next : (cfg.block c).next with
    | none => rfl
    | some n =>
        apply differs
        rintro rfl
        apply List.mem_append_right
        rw [(wellFormed.next_prev c n).mp next]
        exact List.mem_singleton.mpr rfl
  unfold marks
  rw [out]
  apply marksThrough_congr
  intro instr member dst edge
  apply differs
  rintro rfl
  apply List.mem_append_left
  rw [wellFormed.incoming, wellFormed.edges]
  exact ⟨instr, member, edge⟩

theorem Sound.step_cases (sound : Sound cfg effects live_ret returning analysis)
    (returnBlocks : ReturnBlocks cfg.block returning) (known : EffectsOf cfg dynInfo effects)
    (stepped : LivenessAnalysis.step cfg.block dynInfo live_ret analysis = .ok (some later)) :
    ∃ b rest, analysis.flags.blocksToProcess = b :: rest ∧
      ((∃ next, later =
          { analysis with flags := (dequeued analysis.flags b rest).enqueue next }) ∨
        ∃ changed, changed = decide
            (analysis.liveIn b ≠ blockLive cfg.block effects live_ret analysis.liveIn b) ∧
          later =
            { flags := (predecessors (cfg.block b)).foldl (tellPredecessor changed)
                (flagged (dequeued analysis.flags b rest) b)
              data := Function.update analysis.data b
                (solution cfg effects live_ret analysis.liveIn b)
              attached := Function.update analysis.attached b
                (marks cfg effects live_ret analysis.liveIn b) }) := by
  cases found : analysis.flags.blocksToProcess with
  | nil =>
      unfold LivenessAnalysis.step at stepped
      rw [found] at stepped
      cases stepped
  | cons b rest =>
      refine ⟨b, rest, rfl, ?_⟩
      have invalid : analysis.flags.livenessAnalysisValid b = false :=
        sound.queue.invalid b (found ▸ List.mem_cons_self)
      unfold LivenessAnalysis.step processBlock at stepped
      rw [found] at stepped
      dsimp only at stepped
      rw [invalid, if_neg Bool.false_ne_true] at stepped
      cases waits : (cfg.block b).next.filter (fun next => !analysis.flags.hasData next) with
      | some next =>
          rw [waits] at stepped
          dsimp only at stepped
          split at stepped
          · cases stepped
          · cases stepped
            exact Or.inl ⟨next, rfl⟩
      | none =>
          rw [waits] at stepped
          have read : (fun c => (getLivenessData
              { analysis with flags := dequeued analysis.flags b rest } c).elim ∅
                LivenessData.live_in) = analysis.liveIn := by
            funext c
            unfold getLivenessData
            change (if analysis.flags.hasData c = true then some (analysis.data c) else
              none).elim ∅ _ = _
            cases has : analysis.flags.hasData c with
            | true => rfl
            | false => exact (sound.empty c has).symm
          have isFound : FoundFromReturn cfg.block b :=
            (found_of_reached returnBlocks sound.reached).queued b (found ▸ List.mem_cons_self)
          have processed := processInstructions_marks live_ret (getLivenessData
              { analysis with flags := dequeued analysis.flags b rest }) 0 (cfg.block b).instrs
            (fun i instr member => by rw [Nat.zero_add]; exact known b isFound i instr member)
            ((cfg.block b).next.elim ∅ analysis.liveIn)
          rw [read] at processed
          unfold dequeued at processed
          change ((processInstructions live_ret _ (dynInfo b) 0 (cfg.block b).instrs
            ((cfg.block b).next.elim ∅ analysis.liveIn)).bind _).map some = _ at stepped
          rw [processed] at stepped
          cases stepped
          exact Or.inr ⟨_, rfl, rfl⟩

structure Marked (cfg : FunctionCfg ι) (effects : ι → ℕ → RegisterEffects)
    (live_ret : SubRegisterMask) (returning : List ι) (analysis : LivenessAnalysis ι) : Prop where
  sound : Sound cfg effects live_ret returning analysis
  marked : ∀ b, analysis.flags.livenessAnalysisValid b = true →
    analysis.attached b = marks cfg effects live_ret analysis.liveIn b
  untouched : ∀ b, analysis.flags.hasData b = false →
    analysis.attached b = (cfg.block b).instrs.map BlockInstruction.livenessData

theorem Marked.start (edges : ReturnEdges cfg.block returning) :
    Marked cfg effects live_ret returning (start cfg.block returning) where
  sound := Sound.start edges.nodup
  marked := fun _ valid => absurd valid Bool.false_ne_true
  untouched := fun _ _ => rfl

theorem Marked.analyses (kept : Marked cfg effects live_ret returning analysis)
    (wellFormed : cfg.WellFormed) {b : ι} {rest : List ι} {changed : Bool}
    (changedEq : changed = decide
      (analysis.liveIn b ≠ blockLive cfg.block effects live_ret analysis.liveIn b)) {c : ι}
    (valid : ((predecessors (cfg.block b)).foldl (tellPredecessor changed)
      (flagged (dequeued analysis.flags b rest) b)).livenessAnalysisValid c = true) :
    Function.update analysis.attached b (marks cfg effects live_ret analysis.liveIn b) c =
      marks cfg effects live_ret (Function.update analysis.liveIn b
        (blockLive cfg.block effects live_ret analysis.liveIn b)) c := by
  obtain ⟨here, told⟩ := (valid_told _ _ _ _ _).mp valid
  have own : Function.update analysis.attached b
      (marks cfg effects live_ret analysis.liveIn b) c =
        marks cfg effects live_ret analysis.liveIn c := by
    rw [Function.update_apply]
    split
    · rename_i same
      rw [same]
    · rename_i other
      exact kept.marked c (here.resolve_left other)
  rw [own]
  cases changed with
  | true => exact (marks_update wellFormed (told rfl) _).symm
  | false =>
      have same : analysis.liveIn b =
          blockLive cfg.block effects live_ret analysis.liveIn b :=
        not_not.mp (of_decide_eq_false changedEq.symm)
      rw [update_unchanged same]

variable [Fintype ι]

theorem Marked.step (kept : Marked cfg effects live_ret returning analysis)
    (wellFormed : cfg.WellFormed) (returnBlocks : ReturnBlocks cfg.block returning)
    (known : EffectsOf cfg dynInfo effects)
    (stepped : LivenessAnalysis.step cfg.block dynInfo live_ret analysis = .ok (some later)) :
    Marked cfg effects live_ret returning later := by
  have soundLater : Sound cfg effects live_ret returning later := by
    rcases kept.sound.step wellFormed returnBlocks known with ended | ⟨other, returned, sound, _less⟩
    · rw [ended] at stepped
      cases stepped
    · rw [returned] at stepped
      cases stepped
      exact sound
  obtain ⟨b, rest, head, ⟨next, rfl⟩ | ⟨changed, changedEq, rfl⟩⟩ :=
    kept.sound.step_cases returnBlocks known stepped
  · refine ⟨soundLater, ?_, ?_⟩
    · intro c valid
      rw [valid_enqueue] at valid
      exact kept.marked c valid
    · intro c missing
      rw [hasData_enqueue] at missing
      exact kept.untouched c missing
  · refine ⟨soundLater, ?_, ?_⟩
    · intro c valid
      have read := kept.analyses wellFormed changedEq valid
      have later : liveIn
          { flags := (predecessors (cfg.block b)).foldl (tellPredecessor changed)
              (flagged (dequeued analysis.flags b rest) b)
            data := Function.update analysis.data b
              (solution cfg effects live_ret analysis.liveIn b)
            attached := Function.update analysis.attached b
              (marks cfg effects live_ret analysis.liveIn b) } =
          Function.update analysis.liveIn b
            (blockLive cfg.block effects live_ret analysis.liveIn b) := by
        funext x
        unfold liveIn
        dsimp only
        rw [Function.update_apply, Function.update_apply]
        split <;> rfl
      rw [later]
      exact read
    · intro c missing
      dsimp only at missing ⊢
      rw [hasData_tellPredecessors] at missing
      change Function.update analysis.flags.hasData b true c = false at missing
      rw [Function.update_apply] at missing
      split at missing
      · cases missing
      · rename_i other
        rw [Function.update_of_ne other]
        exact kept.untouched c missing

/-- When the analysis has ended, exactly the blocks that it gets to from a return are valid.
They solve their equations, and an instruction is left without data if and only if it is
dead. -/
structure Exact (cfg : FunctionCfg ι) (effects : ι → ℕ → RegisterEffects)
    (live_ret : SubRegisterMask) (analysis : LivenessAnalysis ι) : Prop where
  valid : ∀ b, analysis.flags.livenessAnalysisValid b = true ↔ FoundFromReturn cfg.block b
  solved : ∀ b, FoundFromReturn cfg.block b →
    analysis.getLivenessData b = some (solution cfg effects live_ret analysis.liveIn b) ∧
      analysis.attached b = marks cfg effects live_ret analysis.liveIn b
  untouched : ∀ b, ¬ FoundFromReturn cfg.block b → analysis.getLivenessData b = none ∧
    analysis.attached b = (cfg.block b).instrs.map BlockInstruction.livenessData
  least : ∀ other, (∀ b, blockLive cfg.block effects live_ret other b ⊆ other b) →
    ∀ b, analysis.liveIn b ⊆ other b

def attachData (instr : BlockInstruction ι) (data : Option LivenessData) : BlockInstruction ι :=
  { instr with livenessData := data }

def labelled (analysis : LivenessAnalysis ι) (block : ι → SuperBlock ι) (b : ι) : SuperBlock ι :=
  { block b with instrs := (block b).instrs.zipWith attachData (analysis.attached b) }

theorem exact_of_handleFunction (wellFormed : cfg.WellFormed)
    (edges : ReturnEdges cfg.block returning) (nonempty : returning ≠ [])
    (known : EffectsOf cfg dynInfo effects) {spec : RegisterSpecification} {fuel : ℕ}
    (returned : handleFunction cfg.block dynInfo false (some spec) returning fuel =
      .ok (some (.analysed analysis))) :
    Exact cfg effects (spec.out ∪ spec.preserved) analysis := by
  have begins : Marked cfg effects (spec.out ∪ spec.preserved) returning
      (start cfg.block returning) := Marked.start edges
  have chains : WellFounded (fun n b => (cfg.block b).next = some n) :=
    Subrelation.wf (fun next => chainLength_lt wellFormed next) (measure cfg.chainLength).wf
  rw [handleFunction_eq nonempty] at returned
  obtain ⟨last, ran, analysed⟩ := bind_ok returned
  cases last with
  | none => cases analysed
  | some last =>
      cases analysed
      obtain ⟨kept, finished⟩ := FixedPoints.run_keeps
        (fun _ _ kept stepped => Marked.step kept wellFormed edges.returnBlocks known stepped) begins ran
      have found := found_of_reached edges.returnBlocks kept.sound.reached
      have valid (b : ι) (isFound : FoundFromReturn cfg.block b) :
          analysis.flags.livenessAnalysisValid b = true :=
        LivenessState.valid_of_foundFromReturn wellFormed.next_prev chains edges.returnBlocks
          kept.sound.reached (queue_empty finished) isFound
      refine ⟨?_, ?_, ?_, ?_⟩
      · intro b
        exact ⟨fun isValid => found.hasData b (kept.sound.hasData b isValid), valid b⟩
      · intro b isFound
        refine ⟨?_, kept.marked b (valid b isFound)⟩
        unfold getLivenessData
        rw [kept.sound.hasData b (valid b isFound), if_pos rfl, kept.sound.solved b
          (valid b isFound)]
      · intro b notFound
        have missing : analysis.flags.hasData b = false := by
          rw [← Bool.not_eq_true]
          exact fun has => notFound (found.hasData b has)
        refine ⟨?_, kept.untouched b missing⟩
        unfold getLivenessData
        rw [missing, if_neg Bool.false_ne_true]
      · intro other solution
        exact kept.sound.ascending.below other solution

theorem handleFunction_ends (wellFormed : cfg.WellFormed)
    (edges : ReturnEdges cfg.block returning) (nonempty : returning ≠ [])
    (known : EffectsOf cfg dynInfo effects) (spec : RegisterSpecification) :
    ∃ fuel analysis, handleFunction cfg.block dynInfo false (some spec) returning fuel =
      .ok (some (.analysed analysis)) := by
  have begins : Sound cfg effects (spec.out ∪ spec.preserved) returning
      (start cfg.block returning) := Sound.start edges.nodup
  obtain ⟨fuel, analysis, ran, _⟩ := FixedPoints.exists_run (potential cfg)
    (fun _ sound => Sound.step sound wellFormed edges.returnBlocks known) _ begins
  refine ⟨fuel, analysis, ?_⟩
  rw [handleFunction_eq nonempty, ran]
  rfl

/-- Whatever the graph, the analysis ends, and it leaves exact data behind. -/
theorem handleFunction_exact (wellFormed : cfg.WellFormed)
    (edges : ReturnEdges cfg.block returning) (nonempty : returning ≠ [])
    (known : EffectsOf cfg dynInfo effects) (spec : RegisterSpecification) :
    (∃ fuel analysis, handleFunction cfg.block dynInfo false (some spec) returning fuel =
        .ok (some (.analysed analysis))) ∧
      ∀ fuel analysis, handleFunction cfg.block dynInfo false (some spec) returning fuel =
          .ok (some (.analysed analysis)) →
        Exact cfg effects (spec.out ∪ spec.preserved) analysis := by
  constructor
  · exact handleFunction_ends wellFormed edges nonempty known spec
  · intro fuel analysis returned
    exact exact_of_handleFunction wellFormed edges nonempty known returned

/-! ### A loop that never ends -/

/-- `rax += rbx; do rcx += rbx while (true)`, and a return behind it that nothing leads to. -/
def endlessLoop : FunctionCfg (Fin 3) where
  entryBlock := 0
  block
    | 0 =>
        { instrs := [⟨⟨.ADD64rr, [.reg (.gprs64 .A), .reg (.gprs64 .B)]⟩, none, none⟩]
          next := some 1
          prev := none
          incomingEdges := []
          outgoingEdges := [] }
    | 1 =>
        { instrs :=
            [⟨⟨.ADD64rr, [.reg (.gprs64 .C), .reg (.gprs64 .B)]⟩, none, none⟩,
              ⟨⟨.JMPa, [.mem (.direct (.plain 0))]⟩, none, some 1⟩]
          next := none
          prev := some 0
          incomingEdges := [1]
          outgoingEdges := [1] }
    | 2 =>
        { instrs := [⟨⟨.RET, []⟩, none, none⟩]
          next := none
          prev := none
          incomingEdges := []
          outgoingEdges := [] }

theorem endlessLoop_wellFormed : endlessLoop.WellFormed where
  next_prev := by decide
  acyclic := FunctionCfg.acyclic_of_lt (by decide)
  edges := by decide
  incoming := by decide

theorem endlessLoop_readable : ∀ b, ∀ instr ∈ (endlessLoop.block b).instrs,
    ∃ effects, registerEffects none instr.instruction = .ok effects := by
  intro b instr member
  match b with
  | 0 | 2 =>
      rw [List.mem_singleton.mp member]
      exact ⟨_, rfl⟩
  | 1 =>
      rcases List.mem_cons.mp member with rfl | member
      · exact ⟨_, rfl⟩
      · rw [List.mem_singleton.mp member]
        exact ⟨_, rfl⟩

theorem handleFunction_exact_endlessLoop :
    (∃ fuel analysis, handleFunction endlessLoop.block (fun _ _ => none) false
        (some { out := fullSubRegisterMask (.gprs64 .A), preserved := ∅ }) [2] fuel =
          .ok (some (.analysed analysis))) ∧
      ∀ fuel analysis, handleFunction endlessLoop.block (fun _ _ => none) false
          (some { out := fullSubRegisterMask (.gprs64 .A), preserved := ∅ }) [2] fuel =
            .ok (some (.analysed analysis)) →
        Exact endlessLoop (staticEffects endlessLoop) (fullSubRegisterMask (.gprs64 .A) ∪ ∅)
          analysis :=
  handleFunction_exact endlessLoop_wellFormed ⟨by decide, by decide⟩ (by decide)
    (effectsOf_static endlessLoop_readable) _

end LivenessAnalysis

end Drob
