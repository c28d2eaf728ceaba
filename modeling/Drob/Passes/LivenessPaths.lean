import Drob.Passes.LivenessMarks

/-!
The liveness analysis finds exactly the registers that some path needs. A register is needed
in front of an instruction that uses it, unless that instruction only writes registers that
are not needed after it, and in front of the instructions before that do not surely write it.
-/

namespace Drob

variable {ι : Type}

namespace LivenessAnalysis

def liveAt (cfg : FunctionCfg ι) (effects : ι → ℕ → RegisterEffects)
    (live_ret : SubRegisterMask) (liveIn : ι → SubRegisterMask) (b : ι) (index : ℕ) :
    SubRegisterMask :=
  liveThrough live_ret liveIn (effects b) index ((cfg.block b).instrs.drop index)
    ((cfg.block b).next.elim ∅ liveIn)

theorem drop_cons {instr : BlockInstruction ι} {instrs rest : List (BlockInstruction ι)}
    {index : ℕ} (here : instrs.drop index = instr :: rest) :
    instrs[index]? = some instr ∧ instrs.drop (index + 1) = rest := by
  constructor
  · rw [← List.head?_drop, here]
    rfl
  · rw [← List.tail_drop, here]
    rfl

/-! ### Paths -/

def Uses (live_ret : SubRegisterMask) (effects : RegisterEffects) (instr : BlockInstruction ι)
    (reg : SubRegister) : Prop :=
  reg ∈ effects.predicateRegs ∨
    effects.willExecute ≠ .False ∧
      (instr.instruction.isCall = true ∨
        (instr.instruction.isBranch = true ∧ instr.branchEdge = none) ∨
          (instr.instruction.isRet = true ∧ reg ∈ live_ret) ∨
            (instr.instruction.isRet = false ∧ reg ∈ effects.readRegs))

def Passes (effects : RegisterEffects) (instr : BlockInstruction ι) (reg : SubRegister) : Prop :=
  (effects.willExecute = .True → reg ∉ effects.writtenRegs) ∧
    (instr.instruction.isRet = true → effects.willExecute = .False)

def Silent (effects : RegisterEffects) (instr : BlockInstruction ι) : Prop :=
  (instr.instruction.isBranch = false ∧ instr.instruction.isCall = false ∧
    instr.instruction.isRet = false) ∧ effects.mayWriteMem = false

inductive Needed (cfg : FunctionCfg ι) (effects : ι → ℕ → RegisterEffects)
    (live_ret : SubRegisterMask) : ι → ℕ → SubRegister → Prop where
  | falls {b n : ι} {index : ℕ} {reg : SubRegister}
      (ends : (cfg.block b).instrs.drop index = []) (next : (cfg.block b).next = some n)
      (later : Needed cfg effects live_ret n 0 reg) : Needed cfg effects live_ret b index reg
  | passes {b : ι} {index : ℕ} {instr : BlockInstruction ι} {rest : List (BlockInstruction ι)}
      {reg : SubRegister} (here : (cfg.block b).instrs.drop index = instr :: rest)
      (passes : Passes (effects b index) instr reg)
      (later : Needed cfg effects live_ret b (index + 1) reg) :
      Needed cfg effects live_ret b index reg
  | goes {b dst : ι} {index : ℕ} {instr : BlockInstruction ι} {rest : List (BlockInstruction ι)}
      {reg : SubRegister} (here : (cfg.block b).instrs.drop index = instr :: rest)
      (branch : instr.instruction.isBranch = true) (edge : instr.branchEdge = some dst)
      (executes : (effects b index).willExecute ≠ .False)
      (later : Needed cfg effects live_ret dst 0 reg) : Needed cfg effects live_ret b index reg
  | acts {b : ι} {index : ℕ} {instr : BlockInstruction ι} {rest : List (BlockInstruction ι)}
      {reg : SubRegister} (here : (cfg.block b).instrs.drop index = instr :: rest)
      (acts : ¬ Silent (effects b index) instr)
      (uses : Uses live_ret (effects b index) instr reg) : Needed cfg effects live_ret b index reg
  | writes {b : ι} {index : ℕ} {instr : BlockInstruction ι} {rest : List (BlockInstruction ι)}
      {reg written : SubRegister} (here : (cfg.block b).instrs.drop index = instr :: rest)
      (writes : written ∈ (effects b index).writtenRegs ∪ (effects b index).condWrittenRegs)
      (later : Needed cfg effects live_ret b (index + 1) written)
      (uses : Uses live_ret (effects b index) instr reg) : Needed cfg effects live_ret b index reg

variable {cfg : FunctionCfg ι} {effects : ι → ℕ → RegisterEffects}
variable {live_ret : SubRegisterMask} {liveIn : ι → SubRegisterMask} {region : ι → Prop}
variable {b : ι} {index : ℕ} {instr : BlockInstruction ι} {rest : List (BlockInstruction ι)}

theorem liveAt_cons (here : (cfg.block b).instrs.drop index = instr :: rest) :
    liveAt cfg effects live_ret liveIn b index =
      liveBefore live_ret liveIn (effects b index) instr
        (liveAt cfg effects live_ret liveIn b (index + 1)) := by
  unfold liveAt
  rw [(drop_cons here).2, here]
  rfl

theorem liveAt_nil (here : (cfg.block b).instrs.drop index = []) :
    liveAt cfg effects live_ret liveIn b index = (cfg.block b).next.elim ∅ liveIn := by
  unfold liveAt
  rw [here]
  rfl

theorem mem_flow_iff {own : RegisterEffects} {live : SubRegisterMask} {reg : SubRegister} :
    reg ∈ flow live_ret liveIn own instr live ↔
      Uses live_ret own instr reg ∨ (Passes own instr reg ∧ reg ∈ live) ∨
        ∃ dst, instr.instruction.isBranch = true ∧ instr.branchEdge = some dst ∧
          own.willExecute ≠ .False ∧ reg ∈ liveIn dst := by
  unfold flow Uses Passes
  by_cases skipped : own.willExecute = .False
  · rw [if_pos skipped, Finset.mem_union]
    simp [skipped, or_comm]
  · rw [if_neg skipped]
    rcases controlFlow_cases instr.instruction with ⟨branch, call, ret⟩ | ⟨_, call, _⟩ |
      ⟨branch, call⟩
    · simp only [branch, call, ret, if_true, if_false, Bool.false_eq_true, true_and]
      cases edge : instr.branchEdge with
      | none => simp [skipped]
      | some dst =>
          simp only [reduceCtorEq, if_false, Finset.mem_union, Option.elim_some]
          by_cases always : own.willExecute = .True
          · simp [always]
            tauto
          · simp [always, skipped]
            tauto
    · simp [call, skipped]
    · simp only [branch, call, Bool.false_eq_true, if_false, false_and]
      cases instr.instruction.isRet with
      | true =>
          simp [skipped]
          tauto
      | false =>
          by_cases always : own.willExecute = .True
          · simp [always]
            tauto
          · simp [always, skipped]
            tauto

theorem instructionDead_eq_false {own : RegisterEffects} {live : SubRegisterMask}
    (kept : ¬ Silent own instr ∨ ∃ reg ∈ own.writtenRegs ∪ own.condWrittenRegs, reg ∈ live) :
    instructionDead own instr.instruction live = false := by
  rw [Bool.eq_false_iff]
  intro dead
  obtain ⟨noFlow, noMem, disjoint⟩ := (instructionDead_iff _ _ _).mp dead
  rcases kept with acts | ⟨reg, writes, isLive⟩
  · exact acts ⟨noFlow, noMem⟩
  · exact Finset.disjoint_left.mp disjoint isLive writes

theorem mem_liveAt_of_kept {reg : SubRegister}
    (here : (cfg.block b).instrs.drop index = instr :: rest)
    (kept : instructionDead (effects b index) instr.instruction
      (liveAt cfg effects live_ret liveIn b (index + 1)) = false)
    (flows : reg ∈ flow live_ret liveIn (effects b index) instr
      (liveAt cfg effects live_ret liveIn b (index + 1))) :
    reg ∈ liveAt cfg effects live_ret liveIn b index := by
  rw [liveAt_cons here]
  unfold liveBefore
  rw [kept, if_neg Bool.false_ne_true]
  exact flows

/-- What is needed is part of any sets that solve the equations, in a part of the function
that is not left but to the outside. -/
theorem Needed.live (solved : ∀ b, region b → liveAt cfg effects live_ret liveIn b 0 ⊆ liveIn b)
    (next : ∀ b n, region b → (cfg.block b).next = some n → region n)
    (edge : ∀ b, region b → ∀ instr ∈ (cfg.block b).instrs, ∀ dst, instr.branchEdge = some dst →
      region dst)
    {reg : SubRegister} (needed : Needed cfg effects live_ret b index reg) (inRegion : region b) :
    reg ∈ liveAt cfg effects live_ret liveIn b index := by
  induction needed with
  | falls ends isNext _ ih =>
      rw [liveAt_nil ends, isNext]
      have there := next _ _ inRegion isNext
      exact solved _ there (ih there)
  | @passes b index instr rest reg here passes _ ih =>
      have after := ih inRegion
      cases dead : instructionDead (effects b index) instr.instruction
          (liveAt cfg effects live_ret liveIn b (index + 1)) with
      | true =>
          rw [liveAt_cons here]
          unfold liveBefore
          rw [dead, if_pos rfl]
          exact after
      | false =>
          exact mem_liveAt_of_kept here dead
            (mem_flow_iff.mpr (Or.inr (Or.inl ⟨passes, after⟩)))
  | @goes b dst index instr rest reg here branch isEdge executes _ ih =>
      have there := edge b inRegion instr (List.mem_of_getElem? (drop_cons here).1) dst isEdge
      refine mem_liveAt_of_kept here (instructionDead_eq_false (Or.inl ?_)) (mem_flow_iff.mpr
        (Or.inr (Or.inr ⟨dst, branch, isEdge, executes, solved dst there (ih there)⟩)))
      intro silent
      rw [silent.1.1] at branch
      cases branch
  | acts here acts uses =>
      exact mem_liveAt_of_kept here (instructionDead_eq_false (Or.inl acts))
        (mem_flow_iff.mpr (Or.inl uses))
  | writes here writes _ uses ih =>
      exact mem_liveAt_of_kept here (instructionDead_eq_false (Or.inr ⟨_, writes, ih inRegion⟩))
        (mem_flow_iff.mpr (Or.inl uses))

theorem needed_of_live (sets : ∀ b, ∀ reg ∈ liveIn b, Needed cfg effects live_ret b 0 reg)
    {reg : SubRegister} (isLive : reg ∈ liveAt cfg effects live_ret liveIn b index) :
    Needed cfg effects live_ret b index reg := by
  generalize instrs : (cfg.block b).instrs.drop index = rest
  induction rest generalizing index reg with
  | nil =>
      rw [liveAt_nil instrs] at isLive
      cases next : (cfg.block b).next with
      | none =>
          rw [next] at isLive
          exact absurd isLive (Finset.notMem_empty reg)
      | some n =>
          rw [next] at isLive
          exact .falls instrs next (sets n reg isLive)
  | cons instr rest ih =>
      have after {other : SubRegister}
          (isAfter : other ∈ liveAt cfg effects live_ret liveIn b (index + 1)) :
          Needed cfg effects live_ret b (index + 1) other := ih isAfter (drop_cons instrs).2
      rw [liveAt_cons instrs] at isLive
      unfold liveBefore at isLive
      cases dead : instructionDead (effects b index) instr.instruction
          (liveAt cfg effects live_ret liveIn b (index + 1)) with
      | true =>
          rw [dead, if_pos rfl] at isLive
          obtain ⟨noFlow, _, disjoint⟩ := (instructionDead_iff _ _ _).mp dead
          refine .passes instrs ⟨fun _ written => ?_, fun ret => ?_⟩ (after isLive)
          · exact Finset.disjoint_left.mp disjoint isLive (Finset.mem_union_left _ written)
          · rw [noFlow.2.2] at ret
            cases ret
      | false =>
          rw [dead, if_neg Bool.false_ne_true] at isLive
          rcases mem_flow_iff.mp isLive with uses | ⟨passes, isAfter⟩ |
            ⟨dst, branch, edge, executes, isThere⟩
          · by_cases silent : Silent (effects b index) instr
            · have writes : ¬ Disjoint (liveAt cfg effects live_ret liveIn b (index + 1))
                  ((effects b index).writtenRegs ∪ (effects b index).condWrittenRegs) := by
                intro disjoint
                rw [(instructionDead_iff _ _ _).mpr ⟨silent.1, silent.2, disjoint⟩] at dead
                cases dead
              obtain ⟨written, isAfter, writes⟩ := Finset.not_disjoint_iff.mp writes
              exact .writes instrs writes (after isAfter) uses
            · exact .acts instrs silent uses
          · exact .passes instrs passes (after isAfter)
          · exact .goes instrs branch edge executes (sets dst reg isThere)

/-! ### The analysis -/

variable {analysis : LivenessAnalysis ι}

theorem Exact.liveIn_eq (exact_ : Exact cfg effects live_ret analysis)
    (found : FoundFromReturn cfg.block b) :
    liveAt cfg effects live_ret analysis.liveIn b 0 = analysis.liveIn b := by
  have data := (exact_.solved b found).1
  unfold getLivenessData at data
  split at data
  · exact (congrArg LivenessData.live_in (Option.some.inj data)).symm
  · cases data

/-- In a part of the function that is found from the returns and not left but to the outside,
the registers that live in front of an instruction are the ones that some path needs. -/
theorem Exact.live_iff_needed (exact_ : Exact cfg effects live_ret analysis)
    (found : ∀ b, region b → FoundFromReturn cfg.block b)
    (next : ∀ b n, region b → (cfg.block b).next = some n → region n)
    (edge : ∀ b, region b → ∀ instr ∈ (cfg.block b).instrs, ∀ dst, instr.branchEdge = some dst →
      region dst)
    (inRegion : region b) (index : ℕ) (reg : SubRegister) :
    reg ∈ liveAt cfg effects live_ret analysis.liveIn b index ↔
      Needed cfg effects live_ret b index reg := by
  classical
  have sets : ∀ c, ∀ other ∈ analysis.liveIn c, Needed cfg effects live_ret c 0 other := by
    intro c other isLive
    have below := exact_.least
      (fun c => Finset.univ.filter (fun x => Needed cfg effects live_ret c 0 x)) (by
      intro c x isLive
      rw [Finset.mem_filter_univ]
      exact needed_of_live (fun c x member => (Finset.mem_filter_univ x).mp member) isLive) c
    exact (Finset.mem_filter_univ other).mp (below isLive)
  constructor
  · exact needed_of_live sets
  · intro needed
    exact needed.live (fun c there => Finset.subset_of_eq (exact_.liveIn_eq (found c there))) next
      edge inRegion

/-- The analysis of a function whose blocks are all found from a return: exactly the registers
that some path needs live, and an instruction is left without data if and only if it is silent
and writes no register that is needed after it. -/
theorem handleFunction_paths [DecidableEq ι] [Fintype ι]
    {dynInfo : ι → ℕ → Option DynamicInstructionInfo} {spec : RegisterSpecification}
    {returning : List ι} {fuel : ℕ} (wellFormed : cfg.WellFormed)
    (edges : ReturnEdges cfg.block returning) (nonempty : returning ≠ [])
    (known : EffectsOf cfg dynInfo effects)
    (found : ∀ b, Relation.ReflTransGen (fun b n => n ∈ cfg.successors b) cfg.entryBlock b →
      FoundFromReturn cfg.block b)
    (ran : handleFunction cfg.block dynInfo false (some spec) returning fuel =
      .ok (some (.analysed analysis))) (b : ι)
    (reachable : Relation.ReflTransGen (fun b n => n ∈ cfg.successors b) cfg.entryBlock b)
    (index : ℕ) (instr : BlockInstruction ι) (there : (cfg.block b).instrs[index]? = some instr) :
    ((analysis.attached b)[index]? = some none ↔ Silent (effects b index) instr ∧
        ∀ reg ∈ (effects b index).writtenRegs ∪ (effects b index).condWrittenRegs,
          ¬ Needed cfg effects (spec.out ∪ spec.preserved) b (index + 1) reg) ∧
      ∀ data, (analysis.attached b)[index]? = some (some data) → ∀ reg,
        (reg ∈ data.live_out ↔
            Needed cfg effects (spec.out ∪ spec.preserved) b (index + 1) reg) ∧
          (reg ∈ data.live_in ↔
            Needed cfg effects (spec.out ∪ spec.preserved) b index reg) := by
  have exact_ := exact_of_handleFunction wellFormed edges nonempty known ran
  have live := exact_.live_iff_needed found
    (fun b n reachable next => reachable.tail (List.mem_append_left _ (Option.mem_toList.mpr next)))
    (fun b reachable instr member dst isEdge => reachable.tail (List.mem_append_right _
      ((wellFormed.edges b dst).mpr ⟨instr, member, isEdge⟩))) reachable
  have own : (analysis.attached b)[index]? = some
      (if instructionDead (effects b index) instr.instruction
          (liveAt cfg effects (spec.out ∪ spec.preserved) analysis.liveIn b (index + 1)) then none
        else some
          { live_out :=
              liveAt cfg effects (spec.out ∪ spec.preserved) analysis.liveIn b (index + 1)
            live_in := liveAt cfg effects (spec.out ∪ spec.preserved) analysis.liveIn b index }) := by
    rw [(exact_.solved b (found b reachable)).2]
    unfold marks
    rw [getElem_marksThrough there, Nat.zero_add]
    rfl
  rw [own]
  cases dead : instructionDead (effects b index) instr.instruction
      (liveAt cfg effects (spec.out ∪ spec.preserved) analysis.liveIn b (index + 1)) with
  | true =>
      obtain ⟨noFlow, noMem, disjoint⟩ := (instructionDead_iff _ _ _).mp dead
      constructor
      · refine iff_of_true rfl ⟨⟨noFlow, noMem⟩, ?_⟩
        intro reg writes needed
        exact Finset.disjoint_left.mp disjoint ((live (index + 1) reg).mpr needed) writes
      · intro data impossible
        cases impossible
  | false =>
      constructor
      · refine iff_of_false (fun impossible => by cases impossible) ?_
        rintro ⟨silent, unneeded⟩
        rw [(instructionDead_iff _ _ _).mpr ⟨silent.1, silent.2, ?_⟩] at dead
        · cases dead
        · exact Finset.disjoint_left.mpr
            (fun reg isLive writes => unneeded reg writes ((live (index + 1) reg).mp isLive))
      · rintro data same reg
        cases same
        exact ⟨live (index + 1) reg, live index reg⟩

theorem handleFunction_paths_doLoop :
    ∃ fuel analysis,
      handleFunction doLoop.block (fun _ _ => none) false
          (some { out := fullSubRegisterMask (.gprs64 .A), preserved := ∅ }) [1] fuel =
            .ok (some (.analysed analysis)) ∧
        ((analysis.attached 0)[0]? = some none ↔
          Silent (staticEffects doLoop 0 0)
              (⟨⟨.ADD64rr, [.reg (.gprs64 .A), .reg (.gprs64 .B)]⟩, none, none⟩ :
                BlockInstruction (Fin 2)) ∧
            ∀ reg ∈ (staticEffects doLoop 0 0).writtenRegs ∪
                (staticEffects doLoop 0 0).condWrittenRegs,
              ¬ Needed doLoop (staticEffects doLoop) (fullSubRegisterMask (.gprs64 .A) ∪ ∅) 0 1
                reg) ∧
          ∀ data, (analysis.attached 0)[0]? = some (some data) → ∀ reg,
            (reg ∈ data.live_out ↔ Needed doLoop (staticEffects doLoop)
                (fullSubRegisterMask (.gprs64 .A) ∪ ∅) 0 1 reg) ∧
              (reg ∈ data.live_in ↔ Needed doLoop (staticEffects doLoop)
                (fullSubRegisterMask (.gprs64 .A) ∪ ∅) 0 0 reg) := by
  have edges : ReturnEdges doLoop.block [1] := ⟨by decide, by decide⟩
  obtain ⟨fuel, analysis, ran⟩ := handleFunction_ends doLoop_wellFormed edges (by decide)
    (effectsOf_static doLoop_readable)
    { out := fullSubRegisterMask (.gprs64 .A), preserved := ∅ }
  exact ⟨fuel, analysis, ran, handleFunction_paths doLoop_wellFormed edges (by decide)
    (effectsOf_static doLoop_readable)
    (fun b _reachable => doLoop_returns.found doLoop_wellFormed b) ran 0 .refl 0 _ rfl⟩

end LivenessAnalysis

end Drob
