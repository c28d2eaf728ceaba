import Drob.Passes.LivenessQueue

/-!
The liveness analysis ends with the least solution of the backward equations. The equations
are monotone, each processed block solves its own one, and a block is analysed again when one
of the sets that its equation depends on has grown.
-/

namespace Drob

open FixedPoints

variable {ι : Type}

/-! ### The equations are monotone -/

theorem instructionDead_iff (effects : RegisterEffects) (instruction : Instruction)
    (live : SubRegisterMask) :
    instructionDead effects instruction live = true ↔
      (instruction.isBranch = false ∧ instruction.isCall = false ∧ instruction.isRet = false) ∧
        effects.mayWriteMem = false ∧
          Disjoint live (effects.writtenRegs ∪ effects.condWrittenRegs) := by
  unfold instructionDead
  rw [sdiff_sdiff_left, Finset.sup_eq_union]
  simp only [Bool.and_eq_true, Bool.not_eq_true', decide_eq_true_eq,
    Finset.sdiff_eq_self_iff_disjoint, and_assoc]

section Monotone

variable {live_ret live live' : SubRegisterMask} {liveIn liveIn' : ι → SubRegisterMask}
variable {effects : RegisterEffects} {instr : BlockInstruction ι}

theorem flow_mono (inSub : ∀ b, liveIn b ⊆ liveIn' b) (sub : live ⊆ live') :
    flow live_ret liveIn effects instr live ⊆ flow live_ret liveIn' effects instr live' := by
  have kept : (if effects.willExecute = .True then live \ effects.writtenRegs else live) ⊆
      (if effects.willExecute = .True then live' \ effects.writtenRegs else live') := by
    split
    · exact Finset.sdiff_subset_sdiff sub (Finset.Subset.refl _)
    · exact sub
  have goesTo : (if instr.instruction.isBranch then instr.branchEdge.elim ∅ liveIn else ∅) ⊆
      (if instr.instruction.isBranch then instr.branchEdge.elim ∅ liveIn' else ∅) := by
    split
    · cases instr.branchEdge with
      | none => exact Finset.Subset.refl _
      | some dst => exact inSub dst
    · exact Finset.Subset.refl _
  unfold flow
  split
  · exact Finset.union_subset_union_left sub
  · split
    · exact Finset.Subset.refl _
    · split
      · exact Finset.Subset.refl _
      · split
        · exact Finset.Subset.refl _
        · exact Finset.union_subset_union (Finset.union_subset_union_left
            (Finset.union_subset_union_left kept)) goesTo

theorem subset_flow_of_dead (dead : instructionDead effects instr.instruction live = true)
    (sub : live ⊆ live') : live ⊆ flow live_ret liveIn effects instr live' := by
  obtain ⟨⟨noBranch, noCall, noRet⟩, _noMem, disjoint⟩ := (instructionDead_iff _ _ _).mp dead
  intro reg member
  have unwritten : reg ∉ effects.writtenRegs := by
    intro written
    exact Finset.disjoint_left.mp disjoint member (Finset.mem_union_left _ written)
  unfold flow
  rw [noBranch, noCall, noRet]
  by_cases skipped : effects.willExecute = .False
  · rw [if_pos skipped]
    exact Finset.mem_union_left _ (sub member)
  · rw [if_neg skipped]
    have kept : reg ∈ (if effects.willExecute = .True then live' \ effects.writtenRegs
        else live') := by
      split
      · exact Finset.mem_sdiff.mpr ⟨sub member, unwritten⟩
      · exact sub member
    simp [kept]

theorem liveBefore_mono (inSub : ∀ b, liveIn b ⊆ liveIn' b) (sub : live ⊆ live') :
    liveBefore live_ret liveIn effects instr live ⊆
      liveBefore live_ret liveIn' effects instr live' := by
  unfold liveBefore
  cases dead' : instructionDead effects instr.instruction live' with
  | true =>
      have dead : instructionDead effects instr.instruction live = true := by
        rw [instructionDead_iff] at dead' ⊢
        exact ⟨dead'.1, dead'.2.1, Finset.disjoint_of_subset_left sub dead'.2.2⟩
      rw [dead, if_pos rfl, if_pos rfl]
      exact sub
  | false =>
      rw [if_neg Bool.false_ne_true]
      cases dead : instructionDead effects instr.instruction live with
      | true => exact subset_flow_of_dead dead sub
      | false => exact flow_mono inSub sub

theorem liveThrough_mono {effects : ℕ → RegisterEffects} (inSub : ∀ b, liveIn b ⊆ liveIn' b)
    (sub : live ⊆ live') (index : ℕ) (instrs : List (BlockInstruction ι)) :
    liveThrough live_ret liveIn effects index instrs live ⊆
      liveThrough live_ret liveIn' effects index instrs live' := by
  induction instrs generalizing index with
  | nil => exact sub
  | cons instr rest ih => exact liveBefore_mono inSub (ih (index + 1))

theorem liveThrough_congr {effects : ℕ → RegisterEffects} (index : ℕ)
    (instrs : List (BlockInstruction ι))
    (same : ∀ instr ∈ instrs, ∀ dst, instr.branchEdge = some dst → liveIn dst = liveIn' dst) :
    liveThrough live_ret liveIn effects index instrs live =
      liveThrough live_ret liveIn' effects index instrs live := by
  induction instrs generalizing index with
  | nil => rfl
  | cons instr rest ih =>
      unfold liveThrough
      rw [ih (index + 1) (fun other member => same other (List.mem_cons_of_mem instr member))]
      have edge : instr.branchEdge.elim ∅ liveIn = instr.branchEdge.elim ∅ liveIn' := by
        cases found : instr.branchEdge with
        | none => rfl
        | some dst => exact same instr List.mem_cons_self dst found
      unfold liveBefore flow
      rw [edge]

end Monotone

def blockLive (block : ι → SuperBlock ι) (effects : ι → ℕ → RegisterEffects)
    (live_ret : SubRegisterMask) (liveIn : ι → SubRegisterMask) (b : ι) : SubRegisterMask :=
  liveThrough live_ret liveIn (effects b) 0 (block b).instrs ((block b).next.elim ∅ liveIn)

theorem elim_next_mono {liveIn liveIn' : ι → SubRegisterMask} (sub : ∀ b, liveIn b ⊆ liveIn' b)
    (next : Option ι) : next.elim ∅ liveIn ⊆ next.elim ∅ liveIn' := by
  cases next with
  | none => exact Finset.Subset.refl _
  | some n => exact sub n

theorem blockLive_mono (block : ι → SuperBlock ι) (effects : ι → ℕ → RegisterEffects)
    (live_ret : SubRegisterMask) : Monotone (blockLive block effects live_ret) :=
  fun _ _ sub b => liveThrough_mono sub (elim_next_mono sub (block b).next) 0 (block b).instrs

/-! ### What the pass computes for a block -/

theorem controlFlow_cases (instruction : Instruction) :
    instruction.isBranch = true ∧ instruction.isCall = false ∧ instruction.isRet = false ∨
      instruction.isBranch = false ∧ instruction.isCall = true ∧ instruction.isRet = false ∨
      instruction.isBranch = false ∧ instruction.isCall = false := by
  unfold Instruction.isBranch Instruction.isCall Instruction.isRet
  cases instruction.opcodeInfo with
  | none => exact Or.inr (Or.inr ⟨rfl, rfl⟩)
  | some opcodeInfo =>
      dsimp only
      cases opcodeInfo.type <;> simp

theorem executed_eq (live_ret : SubRegisterMask) (getLivenessData : ι → Option LivenessData)
    (effects : RegisterEffects) (instr : BlockInstruction ι) (live live_in : SubRegisterMask)
    (executes : effects.willExecute ≠ .False)
    (kept : (if effects.willExecute = .True then live \ effects.writtenRegs else live) = live_in) :
    executed live_ret getLivenessData effects instr live_in ∪ effects.predicateRegs =
      flow live_ret (fun c => (getLivenessData c).elim ∅ LivenessData.live_in) effects instr
        live := by
  unfold executed flow
  rw [if_neg executes, kept]
  dsimp only
  rcases controlFlow_cases instr.instruction with ⟨branch, call, ret⟩ | ⟨branch, call, _ret⟩ |
    ⟨branch, call⟩
  · simp only [branch, call, ret, if_true, if_false, Bool.false_eq_true, true_and]
    cases edge : instr.branchEdge with
    | none => simp
    | some dst =>
        cases data : getLivenessData dst with
        | none => simp [data]
        | some found =>
            simp only [data, reduceCtorEq, if_false, Option.elim_some]
            exact Finset.union_right_comm _ _ _
  · simp [branch, call]
  · simp only [branch, call, Bool.false_eq_true, if_false, false_and]
    cases instr.instruction.isRet <;> simp

theorem processInstruction_live (live_ret : SubRegisterMask)
    (getLivenessData : ι → Option LivenessData) (effects : RegisterEffects)
    (instr : BlockInstruction ι) (live : SubRegisterMask) :
    (processInstruction live_ret getLivenessData effects instr live).2 =
      liveBefore live_ret (fun c => (getLivenessData c).elim ∅ LivenessData.live_in) effects instr
        live := by
  unfold processInstruction liveBefore
  cases instructionDead effects instr.instruction live with
  | true => rfl
  | false =>
      rw [if_neg Bool.false_ne_true, if_neg Bool.false_ne_true]
      cases willExecute : effects.willExecute with
      | True =>
          exact executed_eq _ _ _ _ _ _ (by rw [willExecute]; decide) (by rw [willExecute]; rfl)
      | Unknown =>
          exact executed_eq _ _ _ _ _ _ (by rw [willExecute]; decide) (by rw [willExecute]; rfl)
      | False =>
          unfold flow
          rw [if_pos willExecute]

theorem processInstructions_ok (live_ret : SubRegisterMask)
    (getLivenessData : ι → Option LivenessData) {dynInfo : ℕ → Option DynamicInstructionInfo}
    {effects : ℕ → RegisterEffects} (index : ℕ) (instrs : List (BlockInstruction ι))
    (known : ∀ i instr, instrs[i]? = some instr →
      registerEffects (dynInfo (index + i)) instr.instruction = .ok (effects (index + i)))
    (live : SubRegisterMask) :
    ∃ attached, processInstructions live_ret getLivenessData dynInfo index instrs live =
      .ok (attached, liveThrough live_ret
        (fun c => (getLivenessData c).elim ∅ LivenessData.live_in) effects index instrs live) := by
  induction instrs generalizing index with
  | nil => exact ⟨[], rfl⟩
  | cons instr rest ih =>
      obtain ⟨attached, returned⟩ := ih (index + 1) (by
        intro i other found
        have later := known (i + 1) other found
        rwa [show index + (i + 1) = index + 1 + i by omega] at later)
      have own := known 0 instr rfl
      rw [Nat.add_zero] at own
      have before := processInstruction_live live_ret getLivenessData (effects index) instr
        (liveThrough live_ret (fun c => (getLivenessData c).elim ∅ LivenessData.live_in) effects
          (index + 1) rest live)
      refine ⟨(processInstruction live_ret getLivenessData (effects index) instr
        (liveThrough live_ret (fun c => (getLivenessData c).elim ∅ LivenessData.live_in) effects
          (index + 1) rest live)).1 :: attached, ?_⟩
      change _ = Except.ok (_, liveBefore _ _ _ _ _)
      rw [← before]
      unfold processInstructions
      rw [returned]
      change (registerEffects (dynInfo index) instr.instruction).bind _ = _
      rw [own]
      rfl

/-! ### The steps -/

namespace LivenessAnalysis

open LivenessState

variable [DecidableEq ι] {cfg : FunctionCfg ι} {dynInfo : ι → ℕ → Option DynamicInstructionInfo}
variable {effects : ι → ℕ → RegisterEffects} {live_ret : SubRegisterMask} {returning : List ι}
variable {analysis : LivenessAnalysis ι}

def liveIn (analysis : LivenessAnalysis ι) (b : ι) : SubRegisterMask :=
  (analysis.data b).live_in

/-- The effects that the pass looks up for the instructions of the blocks that it gets to. -/
def EffectsOf (cfg : FunctionCfg ι) (dynInfo : ι → ℕ → Option DynamicInstructionInfo)
    (effects : ι → ℕ → RegisterEffects) : Prop :=
  ∀ b, FoundFromReturn cfg.block b → ∀ index instr, (cfg.block b).instrs[index]? = some instr →
    registerEffects (dynInfo b index) instr.instruction = .ok (effects b index)

def solution (cfg : FunctionCfg ι) (effects : ι → ℕ → RegisterEffects)
    (live_ret : SubRegisterMask) (liveIn : ι → SubRegisterMask) (b : ι) : LivenessData :=
  { live_out := (cfg.block b).next.elim ∅ liveIn
    live_in := blockLive cfg.block effects live_ret liveIn b }

/-- The invariant of the loop. A valid block solves its equation; a block without data has
empty sets. -/
structure Sound (cfg : FunctionCfg ι) (effects : ι → ℕ → RegisterEffects)
    (live_ret : SubRegisterMask) (returning : List ι) (analysis : LivenessAnalysis ι) : Prop where
  reached : Relation.ReflTransGen (Steps cfg.block) (LivenessState.start returning) analysis.flags
  queue : Queue analysis.flags
  hasData : ∀ b, analysis.flags.livenessAnalysisValid b = true → analysis.flags.hasData b = true
  empty : ∀ b, analysis.flags.hasData b = false → analysis.liveIn b = ∅
  ascending : Ascending (blockLive cfg.block effects live_ret) analysis.liveIn
  solved : ∀ b, analysis.flags.livenessAnalysisValid b = true →
    analysis.data b = solution cfg effects live_ret analysis.liveIn b

def dequeued (flags : LivenessState ι) (b : ι) (rest : List ι) : LivenessState ι :=
  { flags with
    queued := Function.update flags.queued b false
    blocksToProcess := rest }

def flagged (flags : LivenessState ι) (b : ι) : LivenessState ι :=
  { flags with
    livenessAnalysisValid := Function.update flags.livenessAnalysisValid b true
    hasData := Function.update flags.hasData b true }

theorem step_waits {b next : ι} {rest : List ι} (found : analysis.flags.blocksToProcess = b :: rest)
    (invalid : analysis.flags.livenessAnalysisValid b = false)
    (nextEq : (cfg.block b).next = some next) (missing : analysis.flags.hasData next = false)
    (nextInvalid : analysis.flags.livenessAnalysisValid next = false) :
    step cfg.block dynInfo live_ret analysis =
        .ok (some { analysis with flags := (dequeued analysis.flags b rest).enqueue next }) ∧
      Steps cfg.block analysis.flags ((dequeued analysis.flags b rest).enqueue next) := by
  have waitsFor : (cfg.block b).next.filter (fun next => !analysis.flags.hasData next) =
      some next := by
    rw [nextEq, Option.filter_some, missing]
    rfl
  constructor
  · unfold step processBlock
    rw [found]
    dsimp only
    rw [invalid, if_neg Bool.false_ne_true, waitsFor]
    dsimp only
    rw [nextInvalid, if_neg Bool.false_ne_true]
    rfl
  · refine ⟨false, ?_⟩
    unfold LivenessState.step
    rw [found]
    dsimp only
    rw [invalid, if_neg Bool.false_ne_true, waitsFor]
    dsimp only
    rw [nextInvalid, if_neg Bool.false_ne_true]
    rfl

theorem step_analyses {b : ι} {rest : List ι} (known : EffectsOf cfg dynInfo effects)
    (isFound : FoundFromReturn cfg.block b)
    (empty : ∀ c, analysis.flags.hasData c = false → analysis.liveIn c = ∅)
    (found : analysis.flags.blocksToProcess = b :: rest)
    (invalid : analysis.flags.livenessAnalysisValid b = false)
    (there : ∀ next, (cfg.block b).next = some next → analysis.flags.hasData next = true) :
    ∃ attached,
      let changed := decide
        (analysis.liveIn b ≠ blockLive cfg.block effects live_ret analysis.liveIn b)
      let flags := (predecessors (cfg.block b)).foldl (tellPredecessor changed)
        (flagged (dequeued analysis.flags b rest) b)
      step cfg.block dynInfo live_ret analysis =
        .ok (some
          { flags
            data := Function.update analysis.data b
              (solution cfg effects live_ret analysis.liveIn b)
            attached }) ∧
      Steps cfg.block analysis.flags flags := by
  have waitsNot : (cfg.block b).next.filter (fun next => !analysis.flags.hasData next) = none := by
    rw [Option.filter_eq_none_iff]
    intro next nextEq
    rw [there next nextEq]
    exact Bool.false_ne_true
  -- a block without data is as one with empty sets
  have read : (fun c => (getLivenessData
      { analysis with flags := dequeued analysis.flags b rest } c).elim ∅ LivenessData.live_in) =
        analysis.liveIn := by
    funext c
    unfold getLivenessData
    change (if analysis.flags.hasData c = true then some (analysis.data c) else none).elim ∅ _ = _
    cases has : analysis.flags.hasData c with
    | true => rfl
    | false => exact (empty c has).symm
  have nextOut : (cfg.block b).next.elim ∅ (fun next => (analysis.data next).live_in) =
      (cfg.block b).next.elim ∅ analysis.liveIn := rfl
  obtain ⟨attached, processed⟩ := processInstructions_ok live_ret (getLivenessData
    { analysis with flags := dequeued analysis.flags b rest }) 0 (cfg.block b).instrs
    (fun i instr member => by rw [Nat.zero_add]; exact known b isFound i instr member)
    ((cfg.block b).next.elim ∅ analysis.liveIn)
  rw [read] at processed
  refine ⟨Function.update analysis.attached b attached, ?_, ?_⟩
  · unfold step processBlock
    rw [found]
    dsimp only
    rw [invalid, if_neg Bool.false_ne_true, waitsNot]
    dsimp only
    rw [nextOut]
    unfold dequeued at processed
    rw [processed]
    rfl
  · refine ⟨decide (analysis.liveIn b ≠ blockLive cfg.block effects live_ret analysis.liveIn b), ?_⟩
    unfold LivenessState.step
    rw [found]
    dsimp only
    rw [invalid, if_neg Bool.false_ne_true, waitsNot]
    rfl

/-! ### The invariant -/

omit [DecidableEq ι] in
theorem solution_congr {liveIn liveIn' : ι → SubRegisterMask} {b : ι}
    (next : ∀ n, (cfg.block b).next = some n → liveIn n = liveIn' n)
    (edges : ∀ instr ∈ (cfg.block b).instrs, ∀ dst, instr.branchEdge = some dst →
      liveIn dst = liveIn' dst) :
    solution cfg effects live_ret liveIn b = solution cfg effects live_ret liveIn' b := by
  have out : (cfg.block b).next.elim ∅ liveIn = (cfg.block b).next.elim ∅ liveIn' := by
    cases found : (cfg.block b).next with
    | none => rfl
    | some n => exact next n found
  unfold solution blockLive
  rw [out, liveThrough_congr 0 (cfg.block b).instrs edges]

theorem solution_update (wellFormed : cfg.WellFormed) {liveIn : ι → SubRegisterMask} {b c : ι}
    (apart : c ∉ predecessors (cfg.block b)) (value : SubRegisterMask) :
    solution cfg effects live_ret (Function.update liveIn b value) c =
      solution cfg effects live_ret liveIn c := by
  have differs (n : ι) (depends : n = b → c ∈ predecessors (cfg.block b)) :
      Function.update liveIn b value n = liveIn n :=
    Function.update_of_ne (fun same => apart (depends same)) value liveIn
  apply solution_congr
  · intro n next
    apply differs
    rintro rfl
    apply List.mem_append_right
    rw [(wellFormed.next_prev c n).mp next]
    exact List.mem_singleton.mpr rfl
  · intro instr member dst edge
    apply differs
    rintro rfl
    apply List.mem_append_left
    rw [wellFormed.incoming, wellFormed.edges]
    exact ⟨instr, member, edge⟩

theorem update_unchanged {liveIn : ι → SubRegisterMask} {b : ι} {value : SubRegisterMask}
    (same : liveIn b = value) : Function.update liveIn b value = liveIn := by
  rw [← same, Function.update_eq_self]

theorem Sound.start (nodup : returning.Nodup) :
    Sound cfg effects live_ret returning (start cfg.block returning) where
  reached := .refl
  queue := queue_start nodup
  hasData := fun _ valid => absurd valid Bool.false_ne_true
  empty := fun _ _ => rfl
  ascending := Ascending.bot
  solved := fun _ valid => absurd valid Bool.false_ne_true

theorem Sound.waits (sound : Sound cfg effects live_ret returning analysis) {b next : ι}
    {rest : List ι} (found : analysis.flags.blocksToProcess = b :: rest)
    (nextInvalid : analysis.flags.livenessAnalysisValid next = false)
    (steps : Steps cfg.block analysis.flags ((dequeued analysis.flags b rest).enqueue next)) :
    Sound cfg effects live_ret returning
      { analysis with flags := (dequeued analysis.flags b rest).enqueue next } := by
  have valid : ((dequeued analysis.flags b rest).enqueue next).livenessAnalysisValid =
      analysis.flags.livenessAnalysisValid := valid_enqueue _ _
  have hasData : ((dequeued analysis.flags b rest).enqueue next).hasData =
      analysis.flags.hasData := hasData_enqueue _ _
  exact
    { reached := sound.reached.tail steps
      queue := (sound.queue.dequeue found).1.enqueue nextInvalid
      hasData := by
        intro c
        dsimp only
        rw [valid, hasData]
        exact sound.hasData c
      empty := by
        intro c
        dsimp only
        rw [hasData]
        exact sound.empty c
      ascending := sound.ascending
      solved := by
        intro c
        dsimp only
        rw [valid]
        exact sound.solved c }

theorem valid_told (changed : Bool) (flags : LivenessState ι) (b c : ι) (prevs : List ι) :
    (prevs.foldl (tellPredecessor changed) (flagged flags b)).livenessAnalysisValid c = true ↔
      (c = b ∨ flags.livenessAnalysisValid c = true) ∧ (changed = true → c ∉ prevs) := by
  have here : (flagged flags b).livenessAnalysisValid c = true ↔
      c = b ∨ flags.livenessAnalysisValid c = true := by
    unfold flagged
    dsimp only
    rw [Function.update_apply]
    by_cases same : c = b
    · simp [same]
    · simp [same]
  cases changed with
  | false => rw [valid_unchanged, here]; simp
  | true => rw [valid_changed, here]; simp

theorem Sound.analyses (sound : Sound cfg effects live_ret returning analysis)
    (wellFormed : cfg.WellFormed) {b : ι} {rest : List ι}
    (found : analysis.flags.blocksToProcess = b :: rest) {changed : Bool}
    (changedEq : changed = decide
      (analysis.liveIn b ≠ blockLive cfg.block effects live_ret analysis.liveIn b))
    (attached : ι → List (Option LivenessData))
    (steps : Steps cfg.block analysis.flags ((predecessors (cfg.block b)).foldl
      (tellPredecessor changed) (flagged (dequeued analysis.flags b rest) b))) :
    Sound cfg effects live_ret returning
      { flags := (predecessors (cfg.block b)).foldl (tellPredecessor changed)
          (flagged (dequeued analysis.flags b rest) b)
        data := Function.update analysis.data b
          (solution cfg effects live_ret analysis.liveIn b)
        attached } := by
  obtain ⟨queue, fresh⟩ := sound.queue.dequeue found
  have flaggedQueue : Queue (flagged (dequeued analysis.flags b rest) b) := by
    refine ⟨queue.nodup, queue.listed, ?_⟩
    intro c member
    have other : c ≠ b := fun same => fresh (same ▸ member)
    exact (Function.update_of_ne other _ _).trans (queue.invalid c member)
  have hasData (c : ι) : ((predecessors (cfg.block b)).foldl (tellPredecessor changed)
      (flagged (dequeued analysis.flags b rest) b)).hasData c =
        Function.update analysis.flags.hasData b true c :=
    congrFun (hasData_tellPredecessors _ _ _) c
  have later (c : ι) : (Function.update analysis.data b
      (solution cfg effects live_ret analysis.liveIn b) c).live_in =
        Function.update analysis.liveIn b
          (blockLive cfg.block effects live_ret analysis.liveIn b) c := by
    rw [Function.update_apply, Function.update_apply]
    split <;> rfl
  have laterEq : liveIn
      { flags := (predecessors (cfg.block b)).foldl (tellPredecessor changed)
          (flagged (dequeued analysis.flags b rest) b)
        data := Function.update analysis.data b
          (solution cfg effects live_ret analysis.liveIn b)
        attached } =
      Function.update analysis.liveIn b
        (blockLive cfg.block effects live_ret analysis.liveIn b) := funext later
  refine
    { reached := sound.reached.tail steps
      queue := flaggedQueue.tellPredecessors changed _
      hasData := ?_
      empty := ?_
      ascending := ?_
      solved := ?_ }
  · intro c valid
    rw [hasData, Function.update_apply]
    split
    · rfl
    · rename_i other
      exact sound.hasData c (((valid_told _ _ _ _ _).mp valid).1.resolve_left other)
  · intro c missing
    dsimp only at missing
    rw [hasData, Function.update_apply] at missing
    split at missing
    · cases missing
    · rename_i other
      rw [laterEq, Function.update_of_ne other]
      exact sound.empty c missing
  · rw [laterEq]
    exact sound.ascending.update (blockLive_mono cfg.block effects live_ret) b
  · intro c valid
    obtain ⟨here, told⟩ := (valid_told _ _ _ _ _).mp valid
    have own : Function.update analysis.data b
        (solution cfg effects live_ret analysis.liveIn b) c =
          solution cfg effects live_ret analysis.liveIn c := by
      rw [Function.update_apply]
      split
      · rename_i same
        rw [same]
      · rename_i other
        exact sound.solved c (here.resolve_left other)
    dsimp only
    rw [laterEq, own]
    -- either nothing changed, or the block does not depend on the one that did
    cases changed with
    | true => exact (solution_update wellFormed (told rfl) _).symm
    | false =>
        have same : analysis.liveIn b =
            blockLive cfg.block effects live_ret analysis.liveIn b :=
          not_not.mp (of_decide_eq_false changedEq.symm)
        rw [update_unchanged same]

/-! ### Termination -/

section Termination

variable [Fintype ι]

/-- What may still come to live, then the blocks that are not valid, then the queue with the
rest of the chain of each block. -/
noncomputable def potential (cfg : FunctionCfg ι) (analysis : LivenessAnalysis ι) :
    ℕ ×ₗ ℕ ×ₗ ℕ :=
  toLex (∑ b, (Finset.univ \ analysis.liveIn b).card,
    toLex ((Finset.univ.filter
        (fun b => analysis.flags.livenessAnalysisValid b = false)).card,
      (analysis.flags.blocksToProcess.map (fun b => cfg.chainLength b + 1)).sum))

omit [DecidableEq ι] in
theorem chainLength_lt (wellFormed : cfg.WellFormed) {b next : ι}
    (nextEq : (cfg.block b).next = some next) : cfg.chainLength next < cfg.chainLength b :=
  FunctionCfg.chainLength_next (fun _ _ n _ => Finset.mem_univ n) wellFormed.acyclic
    (Finset.mem_univ b) nextEq

omit [Fintype ι] in
theorem sum_enqueue (flags : LivenessState ι) (b : ι) (weight : ι → ℕ) :
    ((flags.enqueue b).blocksToProcess.map weight).sum ≤
      (flags.blocksToProcess.map weight).sum + weight b := by
  unfold LivenessState.enqueue
  split
  · exact Nat.le_add_right _ _
  · simp

theorem potential_waits (wellFormed : cfg.WellFormed) {b next : ι} {rest : List ι}
    (found : analysis.flags.blocksToProcess = b :: rest)
    (nextEq : (cfg.block b).next = some next) :
    potential cfg { analysis with flags := (dequeued analysis.flags b rest).enqueue next } <
      potential cfg analysis := by
  have shorter := chainLength_lt wellFormed nextEq
  have queue := sum_enqueue (dequeued analysis.flags b rest) next
    (fun c => cfg.chainLength c + 1)
  unfold potential
  rw [found, valid_enqueue]
  refine Prod.Lex.toLex_lt_toLex.mpr (Or.inr ⟨rfl, ?_⟩)
  refine Prod.Lex.toLex_lt_toLex.mpr (Or.inr ⟨rfl, ?_⟩)
  rw [List.map_cons, List.sum_cons]
  change _ ≤ (rest.map _).sum + _ at queue
  dsimp only at queue ⊢
  omega

theorem potential_analyses (ascending : Ascending (blockLive cfg.block effects live_ret)
      analysis.liveIn) {b : ι} {rest : List ι}
    (invalid : analysis.flags.livenessAnalysisValid b = false) {changed : Bool}
    (changedEq : changed = decide
      (analysis.liveIn b ≠ blockLive cfg.block effects live_ret analysis.liveIn b))
    {later : LivenessAnalysis ι}
    (flagsEq : later.flags = (predecessors (cfg.block b)).foldl (tellPredecessor changed)
      (flagged (dequeued analysis.flags b rest) b))
    (liveEq : later.liveIn = Function.update analysis.liveIn b
      (blockLive cfg.block effects live_ret analysis.liveIn b)) :
    potential cfg later < potential cfg analysis := by
  cases changed with
  | true =>
      have differs : analysis.liveIn b ≠
          blockLive cfg.block effects live_ret analysis.liveIn b := of_decide_eq_true changedEq.symm
      have grown : analysis.liveIn b ⊂ blockLive cfg.block effects live_ret analysis.liveIn b :=
        lt_of_le_of_ne (ascending.grows b) differs
      refine Prod.Lex.toLex_lt_toLex.mpr (Or.inl ?_)
      rw [liveEq]
      refine Finset.sum_lt_sum ?_ ⟨b, Finset.mem_univ b, ?_⟩
      · intro c _member
        exact Finset.card_le_card
          (Finset.sdiff_subset_sdiff (Finset.Subset.refl _) (le_update ascending b c))
      · rw [Function.update_self]
        rw [Finset.card_univ_sdiff, Finset.card_univ_sdiff]
        exact Nat.sub_lt_sub_left
          (Nat.lt_of_lt_of_le (Finset.card_lt_card grown) (Finset.card_le_univ _))
          (Finset.card_lt_card grown)
  | false =>
      have same : analysis.liveIn b = blockLive cfg.block effects live_ret analysis.liveIn b :=
        not_not.mp (of_decide_eq_false changedEq.symm)
      unfold potential
      rw [liveEq, update_unchanged same]
      refine Prod.Lex.toLex_lt_toLex.mpr (Or.inr ⟨rfl, ?_⟩)
      refine Prod.Lex.toLex_lt_toLex.mpr (Or.inl ?_)
      apply Finset.card_lt_card
      have valid (c : ι) : later.flags.livenessAnalysisValid c = false →
          c ≠ b ∧ analysis.flags.livenessAnalysisValid c = false := by
        intro still
        rw [flagsEq, valid_unchanged] at still
        unfold flagged dequeued at still
        dsimp only at still
        rw [Function.update_apply] at still
        split at still
        · cases still
        · exact ⟨‹_›, still⟩
      refine Finset.ssubset_iff_subset_ne.mpr ⟨?_, ?_⟩
      · intro c member
        exact Finset.mem_filter.mpr
          ⟨Finset.mem_univ c, (valid c (Finset.mem_filter.mp member).2).2⟩
      · intro equal
        have inside : b ∈ Finset.univ.filter
            (fun c => later.flags.livenessAnalysisValid c = false) := by
          rw [equal]
          exact Finset.mem_filter.mpr ⟨Finset.mem_univ b, invalid⟩
        exact (valid b (Finset.mem_filter.mp inside).2).1 rfl

theorem Sound.step (sound : Sound cfg effects live_ret returning analysis)
    (wellFormed : cfg.WellFormed) (returnBlocks : ReturnBlocks cfg.block returning)
    (known : EffectsOf cfg dynInfo effects) :
    step cfg.block dynInfo live_ret analysis = .ok none ∨
      ∃ later, step cfg.block dynInfo live_ret analysis = .ok (some later) ∧
        Sound cfg effects live_ret returning later ∧
          potential cfg later < potential cfg analysis := by
  cases found : analysis.flags.blocksToProcess with
  | nil =>
      left
      unfold LivenessAnalysis.step
      rw [found]
  | cons b rest =>
      right
      have invalid : analysis.flags.livenessAnalysisValid b = false :=
        sound.queue.invalid b (found ▸ List.mem_cons_self)
      by_cases there : ∀ next, (cfg.block b).next = some next → analysis.flags.hasData next = true
      · have isFound : FoundFromReturn cfg.block b :=
          (found_of_reached returnBlocks sound.reached).queued b (found ▸ List.mem_cons_self)
        obtain ⟨attached, returned, steps⟩ :=
          step_analyses known isFound sound.empty found invalid there
        refine ⟨_, returned, sound.analyses wellFormed found rfl attached steps, ?_⟩
        refine potential_analyses sound.ascending invalid rfl rfl ?_
        funext c
        unfold liveIn
        dsimp only
        rw [Function.update_apply, Function.update_apply]
        split <;> rfl
      · push Not at there
        obtain ⟨next, nextEq, missing⟩ := there
        rw [ne_eq, Bool.not_eq_true] at missing
        have nextInvalid : analysis.flags.livenessAnalysisValid next = false := by
          by_contra valid
          rw [Bool.not_eq_false] at valid
          rw [sound.hasData next valid] at missing
          cases missing
        obtain ⟨returned, steps⟩ : LivenessAnalysis.step cfg.block dynInfo live_ret analysis = _ ∧
            _ := step_waits found invalid nextEq missing nextInvalid
        exact ⟨_, returned, sound.waits found nextInvalid steps,
          potential_waits wellFormed found nextEq⟩

/-- Every block can get to a block that returns. -/
def Returns (cfg : FunctionCfg ι) : Prop :=
  ∀ b, ∃ last, (∃ instr ∈ (cfg.block last).instrs, instr.instruction.isRet = true) ∧
    Relation.ReflTransGen (fun c n => n ∈ cfg.successors c) b last

omit [Fintype ι] [DecidableEq ι] in
theorem Returns.found (returns : Returns cfg) (wellFormed : cfg.WellFormed) (b : ι) :
    FoundFromReturn cfg.block b := by
  obtain ⟨last, isReturn, path⟩ := returns b
  refine ⟨last, isReturn, ?_⟩
  clear isReturn
  induction path with
  | refl => exact .refl
  | tail _ step ih =>
      refine Relation.ReflTransGen.head ?_ ih
      left
      unfold predecessors
      rcases List.mem_append.mp step with next | edge
      · apply List.mem_append_right
        rw [(wellFormed.next_prev _ _).mp (Option.mem_toList.mp next)]
        exact List.mem_singleton.mpr rfl
      · apply List.mem_append_left
        exact (wellFormed.incoming _ _).mpr edge

omit [Fintype ι] in
theorem Sound.least (sound : Sound cfg effects live_ret returning analysis)
    (valid : ∀ b, analysis.flags.livenessAnalysisValid b = true) :
    LeastLiveness cfg.block effects live_ret analysis.data := by
  have solved (b : ι) := sound.solved b (valid b)
  constructor
  · constructor
    · intro b
      exact congrArg LivenessData.live_out (solved b)
    · intro b
      rw [show (analysis.data b).live_out = (cfg.block b).next.elim ∅ analysis.liveIn from
        congrArg LivenessData.live_out (solved b)]
      exact congrArg LivenessData.live_in (solved b)
  · intro other solution b
    have below : ∀ c, analysis.liveIn c ⊆ (other c).live_in := by
      apply sound.ascending.below (fun c => (other c).live_in)
      intro c
      have equation := solution.live_in c
      rw [solution.live_out c] at equation
      exact le_of_eq equation.symm
    refine ⟨below b, ?_⟩
    rw [solution.live_out b, congrArg LivenessData.live_out (solved b)]
    exact elim_next_mono below (cfg.block b).next

/-- There is one return edge for each return instruction, in any order; only the last
instruction of a block returns. -/
structure ReturnEdges (block : ι → SuperBlock ι) (returning : List ι) : Prop where
  count : ∀ b, returning.count b = (block b).instrs.countP (fun instr => instr.instruction.isRet)
  last : ∀ b, ∀ instr ∈ (block b).instrs.dropLast, instr.instruction.isRet = false

omit [Fintype ι] in
theorem ReturnEdges.nodup {block : ι → SuperBlock ι} (edges : ReturnEdges block returning) :
    returning.Nodup := by
  apply List.nodup_iff_count_le_one.mpr
  intro b
  rw [edges.count b]
  rcases List.eq_nil_or_concat (block b).instrs with none | ⟨before, instr, whole⟩
  · rw [none]
    exact Nat.zero_le _
  · have others := edges.last b
    rw [whole] at others ⊢
    rw [List.concat_eq_append, List.dropLast_concat] at others
    rw [List.concat_eq_append, List.countP_append, List.countP_eq_zero.mpr]
    · rw [Nat.zero_add]
      exact List.countP_le_length
    · intro other member
      rw [others other member]
      exact Bool.false_ne_true

omit [Fintype ι] in
theorem ReturnEdges.returnBlocks {block : ι → SuperBlock ι} (edges : ReturnEdges block returning) :
    ReturnBlocks block returning := by
  intro b
  rw [← List.count_pos_iff, edges.count b, List.countP_pos_iff]

omit [Fintype ι] in
theorem queue_empty {last : LivenessAnalysis ι}
    (finished : step cfg.block dynInfo live_ret last = .ok none) :
    last.flags.blocksToProcess = [] := by
  cases found : last.flags.blocksToProcess with
  | nil => rfl
  | cons b rest =>
      unfold step at finished
      rw [found] at finished
      dsimp only at finished
      revert finished
      cases processBlock cfg.block dynInfo live_ret b _ with
      | error failure => exact fun impossible => by cases impossible
      | ok later => exact fun impossible => by cases impossible

/-- The effects of every instruction can be looked up. -/
def Readable (cfg : FunctionCfg ι) (dynInfo : ι → ℕ → Option DynamicInstructionInfo) : Prop :=
  ∀ b index instr, (cfg.block b).instrs[index]? = some instr →
    ∃ effects, registerEffects (dynInfo b index) instr.instruction = .ok effects

def noEffects : RegisterEffects :=
  { readRegs := ∅
    writtenRegs := ∅
    condWrittenRegs := ∅
    predicateRegs := ∅
    willExecute := .False
    mayWriteMem := false }

def effectsOf (cfg : FunctionCfg ι) (dynInfo : ι → ℕ → Option DynamicInstructionInfo) (b : ι)
    (index : ℕ) : RegisterEffects :=
  match (cfg.block b).instrs[index]? with
  | some instr =>
      match registerEffects (dynInfo b index) instr.instruction with
      | .ok effects => effects
      | .error _ => noEffects
  | none => noEffects

omit [Fintype ι] [DecidableEq ι] in
theorem Readable.effectsOf (readable : Readable cfg dynInfo) :
    EffectsOf cfg dynInfo (effectsOf cfg dynInfo) := by
  intro b _ index instr found
  obtain ⟨effects, read⟩ := readable b index instr found
  unfold LivenessAnalysis.effectsOf
  rw [found]
  dsimp only
  rw [read]

/-- The analysis ends, all blocks are valid and have data, and the data is the least solution. -/
def EndsLeast (cfg : FunctionCfg ι) (dynInfo : ι → ℕ → Option DynamicInstructionInfo)
    (spec : RegisterSpecification) (returning : List ι) : Prop :=
  ∃ fuel analysis,
    handleFunction cfg.block dynInfo false (some spec) returning fuel =
        .ok (some (.analysed analysis)) ∧
      (∀ b, analysis.flags.livenessAnalysisValid b = true ∧
        analysis.getLivenessData b = some (analysis.data b)) ∧
      LeastLiveness cfg.block (effectsOf cfg dynInfo) (spec.out ∪ spec.preserved) analysis.data

omit [Fintype ι] in
theorem handleFunction_eq (nonempty : returning ≠ []) (spec : RegisterSpecification) (fuel : ℕ) :
    handleFunction cfg.block dynInfo false (some spec) returning fuel =
      (FixedPoints.run (LivenessAnalysis.step cfg.block dynInfo (spec.out ∪ spec.preserved)) fuel
        (start cfg.block returning)).bind (fun last => .ok (last.map .analysed)) := by
  have goesOn : returning.isEmpty = false := List.isEmpty_eq_false_iff.mpr nonempty
  unfold handleFunction
  rw [if_neg Bool.false_ne_true]
  dsimp only
  rw [goesOn, if_neg Bool.false_ne_true]
  rfl

theorem endsLeast_of_readable (wellFormed : cfg.WellFormed) (returns : Returns cfg)
    (edges : ReturnEdges cfg.block returning) (nonempty : returning ≠ [])
    (readable : Readable cfg dynInfo) (spec : RegisterSpecification) :
    EndsLeast cfg dynInfo spec returning := by
  have begins : Sound cfg (effectsOf cfg dynInfo) (spec.out ∪ spec.preserved) returning
      (start cfg.block returning) := Sound.start edges.nodup
  obtain ⟨fuel, analysis, ran, sound, finished⟩ := FixedPoints.exists_run (potential cfg)
    (fun _ sound => Sound.step sound wellFormed edges.returnBlocks readable.effectsOf) _ begins
  have chains : WellFounded (fun n b => (cfg.block b).next = some n) :=
    Subrelation.wf (fun next => chainLength_lt wellFormed next) (measure cfg.chainLength).wf
  have valid (b : ι) : analysis.flags.livenessAnalysisValid b = true :=
    LivenessState.valid_of_foundFromReturn wellFormed.next_prev chains edges.returnBlocks
      sound.reached (queue_empty finished) (returns.found wellFormed b)
  refine ⟨fuel, analysis, ?_, ?_, sound.least valid⟩
  · rw [handleFunction_eq nonempty, ran]
    rfl
  · intro b
    refine ⟨valid b, ?_⟩
    unfold getLivenessData
    rw [sound.hasData b (valid b), if_pos rfl]

/-! ### What cannot be read -/

omit [Fintype ι] [DecidableEq ι] in
theorem readable_of_processInstructions {getLivenessData : ι → Option LivenessData}
    {dynInfo : ℕ → Option DynamicInstructionInfo} {index : ℕ} {instrs : List (BlockInstruction ι)}
    {live : SubRegisterMask} {processed : List (Option LivenessData) × SubRegisterMask}
    (ran : processInstructions live_ret getLivenessData dynInfo index instrs live = .ok processed)
    (i : ℕ) (instr : BlockInstruction ι) (found : instrs[i]? = some instr) :
    ∃ effects, registerEffects (dynInfo (index + i)) instr.instruction = .ok effects := by
  induction instrs generalizing index i processed with
  | nil => cases found
  | cons first rest ih =>
      obtain ⟨later, ranLater, ran⟩ := bind_ok ran
      obtain ⟨own, looked, _⟩ := bind_ok ran
      cases i with
      | zero =>
          cases found
          exact ⟨own, looked⟩
      | succ i =>
          rw [show index + (i + 1) = index + 1 + i by omega]
          exact ih ranLater i found

def ValidReadable (cfg : FunctionCfg ι) (dynInfo : ι → ℕ → Option DynamicInstructionInfo)
    (analysis : LivenessAnalysis ι) : Prop :=
  ∀ b, analysis.flags.livenessAnalysisValid b = true → ∀ index instr,
    (cfg.block b).instrs[index]? = some instr →
      ∃ effects, registerEffects (dynInfo b index) instr.instruction = .ok effects

omit [Fintype ι] in
theorem ValidReadable.step {later : LivenessAnalysis ι}
    (readable : ValidReadable cfg dynInfo analysis)
    (stepped : step cfg.block dynInfo live_ret analysis = .ok (some later)) :
    ValidReadable cfg dynInfo later := by
  unfold LivenessAnalysis.step at stepped
  cases queue : analysis.flags.blocksToProcess with
  | nil =>
      rw [queue] at stepped
      cases stepped
  | cons b rest =>
      rw [queue] at stepped
      dsimp only at stepped
      unfold processBlock at stepped
      split at stepped
      · cases stepped
      · split at stepped
        · split at stepped
          · cases stepped
          · cases stepped
            intro c valid
            dsimp only at valid
            rw [valid_enqueue] at valid
            exact readable c valid
        · cases processed : processInstructions live_ret _ (dynInfo b) 0 (cfg.block b).instrs _ with
          | error failure =>
              dsimp only at stepped
              rw [processed] at stepped
              cases stepped
          | ok found =>
              dsimp only at stepped
              rw [processed] at stepped
              cases stepped
              intro c valid index instr there
              have told := (valid_told (decide ((analysis.data b).live_in ≠ found.2))
                (dequeued analysis.flags b rest) b c (predecessors (cfg.block b))).mp valid
              rcases told.1 with rfl | old
              · have looked := readable_of_processInstructions processed index instr there
                rw [Nat.zero_add] at looked
                exact looked
              · exact readable c old index instr there

omit [Fintype ι] in
theorem readable_of_endsLeast (nonempty : returning ≠ []) {spec : RegisterSpecification}
    (ends : EndsLeast cfg dynInfo spec returning) : Readable cfg dynInfo := by
  obtain ⟨fuel, analysis, returned, complete, _⟩ := ends
  rw [handleFunction_eq nonempty] at returned
  obtain ⟨last, ran, analysed⟩ := bind_ok returned
  cases last with
  | none => cases analysed
  | some last =>
      cases analysed
      have begins : ValidReadable cfg dynInfo (start cfg.block returning) :=
        fun _ valid => absurd valid Bool.false_ne_true
      obtain ⟨readable, _⟩ := FixedPoints.run_keeps
        (fun _ _ readable stepped => ValidReadable.step readable stepped) begins ran
      exact fun b => readable b (complete b).1

/-- The analysis of a function from whose blocks it can return ends with the least solution if
and only if the effects of all instructions can be looked up. -/
theorem handleFunction_least_iff (wellFormed : cfg.WellFormed) (returns : Returns cfg)
    (edges : ReturnEdges cfg.block returning) (nonempty : returning ≠ [])
    (spec : RegisterSpecification) :
    EndsLeast cfg dynInfo spec returning ↔ Readable cfg dynInfo := by
  constructor
  · intro ends
    exact readable_of_endsLeast nonempty ends
  · intro readable
    exact endsLeast_of_readable wellFormed returns edges nonempty readable spec

end Termination

/-! ### Without dynamic information -/

def staticEffects (cfg : FunctionCfg ι) : ι → ℕ → RegisterEffects :=
  effectsOf cfg (fun _ _ => none)

omit [DecidableEq ι] in
theorem readable_of_mem (readable : ∀ b, ∀ instr ∈ (cfg.block b).instrs,
      ∃ effects, registerEffects none instr.instruction = .ok effects) :
    Readable cfg (fun _ _ => none) :=
  fun b _ instr found => readable b instr (List.mem_of_getElem? found)

omit [DecidableEq ι] in
theorem effectsOf_static (readable : ∀ b, ∀ instr ∈ (cfg.block b).instrs,
      ∃ effects, registerEffects none instr.instruction = .ok effects) :
    EffectsOf cfg (fun _ _ => none) (staticEffects cfg) :=
  (readable_of_mem readable).effectsOf

/-! ### A loop -/

/-- `do rax += rbx while (condition)` -/
def doLoop : FunctionCfg (Fin 2) where
  entryBlock := 0
  block
    | 0 =>
        { instrs := [⟨⟨.ADD64rr, [.reg (.gprs64 .A), .reg (.gprs64 .B)]⟩, none, none⟩]
          next := some 1
          prev := none
          incomingEdges := [1]
          outgoingEdges := [] }
    | 1 =>
        { instrs := [⟨⟨.JNZa, [.mem (.direct (.plain 0))]⟩, none, some 0⟩, ⟨⟨.RET, []⟩, none, none⟩]
          next := none
          prev := some 0
          incomingEdges := []
          outgoingEdges := [0] }

theorem doLoop_wellFormed : doLoop.WellFormed where
  next_prev := by decide
  acyclic := FunctionCfg.acyclic_of_lt (by decide)
  edges := by decide
  incoming := by decide

theorem doLoop_returns : Returns doLoop := by
  intro b
  refine ⟨1, by decide, ?_⟩
  match b with
  | 0 => exact .single (by decide)
  | 1 => exact .refl

theorem doLoop_readable : ∀ b, ∀ instr ∈ (doLoop.block b).instrs,
    ∃ effects, registerEffects none instr.instruction = .ok effects := by
  intro b instr member
  match b with
  | 0 =>
      rw [List.mem_singleton.mp member]
      exact ⟨_, rfl⟩
  | 1 =>
      rcases List.mem_cons.mp member with rfl | member
      · exact ⟨_, rfl⟩
      · rw [List.mem_singleton.mp member]
        exact ⟨_, rfl⟩

theorem handleFunction_least_iff_doLoop :
    EndsLeast doLoop (fun _ _ => none)
      { out := fullSubRegisterMask (.gprs64 .A), preserved := ∅ } [1] :=
  (handleFunction_least_iff doLoop_wellFormed doLoop_returns ⟨by decide, by decide⟩ (by decide)
    _).mpr (readable_of_mem doLoop_readable)

/-! ### A shift by CL -/

/-- `shl rax, cl; ret` -/
def shiftByCl : FunctionCfg (Fin 1) where
  entryBlock := 0
  block := fun _ =>
    { instrs := [⟨⟨.SHL64r, [.reg (.gprs64 .A)]⟩, none, none⟩, ⟨⟨.RET, []⟩, none, none⟩]
      next := none
      prev := none
      incomingEdges := []
      outgoingEdges := [] }

/-- The information about a shift by CL fails, and with it the analysis. -/
theorem not_endsLeast_shiftByCl :
    shiftByCl.WellFormed ∧ Returns shiftByCl ∧ ReturnEdges shiftByCl.block [0] ∧
      ∀ spec, ¬ EndsLeast shiftByCl (fun _ _ => none) spec [0] := by
  refine ⟨⟨by decide, FunctionCfg.acyclic_of_lt (by decide), by decide, by decide⟩,
    fun b => ⟨b, ⟨⟨⟨.RET, []⟩, none, none⟩, ?_, rfl⟩, .refl⟩, ⟨by decide, by decide⟩, ?_⟩
  · exact List.mem_cons_of_mem _ List.mem_cons_self
  · intro spec ends
    obtain ⟨effects, looked⟩ := readable_of_endsLeast (by decide) ends 0 0 _ rfl
    cases looked

end LivenessAnalysis

end Drob
