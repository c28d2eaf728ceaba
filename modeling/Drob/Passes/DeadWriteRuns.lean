import Drob.Cfg.Machine
import Drob.Passes.DeadWriteElimination
import Drob.Passes.LivenessPaths

/-!
Dead write elimination keeps what is seen of the runs of a function on any machine that the
register sets of the instructions are true of: the two runs agree on the registers that live.
-/

namespace Drob

open Footprints

variable {ι α μ ω : Type}

/-! ### Footprints of instructions -/

/-- A call, or a branch to unknown code, may read anything. -/
def footprint (effects : RegisterEffects) (instr : BlockInstruction ι) : Footprint SubRegister where
  reads :=
    { reg | instr.instruction.isCall = true ∨
      (instr.instruction.isBranch = true ∧ instr.branchEdge = none) ∨ reg ∈ effects.readRegs }
  decides := { reg | reg ∈ effects.predicateRegs }
  writes := { reg | reg ∈ effects.writtenRegs }
  mayWrite := { reg | reg ∈ effects.condWrittenRegs }
  silent := LivenessAnalysis.Silent effects instr
  always := effects.willExecute = .True
  never := effects.willExecute = .False

/-- A return executes, and any other instruction does what its footprint says. -/
structure EffectsTrue (machine : AbstractMachine α μ ω) (effects : RegisterEffects)
    (instr : BlockInstruction ι) (store : SubRegister → α) (memory : μ) : Prop where
  returns : instr.instruction.isRet = true → effects.willExecute ≠ .False
  truthful : instr.instruction.isRet = false →
    (footprint effects instr).Truthful (machine instr.instruction) store memory

section Flow

variable {live_ret live : SubRegisterMask} {liveIn : ι → SubRegisterMask}
variable {effects : RegisterEffects} {instr : BlockInstruction ι}

/-- The registers that live before an instruction are enough for the ones that live after it,
and for the ones that live where it goes. -/
theorem before_subset_flow (stays : instr.instruction.isRet = false) {after : Set SubRegister}
    (covered : ∀ reg ∈ after, reg ∈ live ∨ effects.willExecute ≠ .False ∧
      instr.instruction.isBranch = true ∧ ∃ dst, instr.branchEdge = some dst ∧ reg ∈ liveIn dst) :
    (footprint effects instr).before after ⊆
      { reg | reg ∈ flow live_ret liveIn effects instr live } := by
  intro reg member
  change reg ∈ flow live_ret liveIn effects instr live
  unfold flow
  by_cases skipped : effects.willExecute = .False
  · rw [if_pos skipped]
    rcases member with (decides | ⟨executes, _⟩) | ⟨isAfter, _⟩
    · exact Finset.mem_union_right _ decides
    · exact absurd skipped executes
    · rcases covered reg isAfter with isLive | ⟨executes, _⟩
      · exact Finset.mem_union_left _ isLive
      · exact absurd skipped executes
  · rw [if_neg skipped]
    split
    · exact Finset.mem_univ reg
    · rename_i noCall
      rw [if_neg (by rw [stays]; exact Bool.false_ne_true)]
      split
      · exact Finset.mem_univ reg
      · rename_i noUnknown
        simp only [Finset.mem_union]
        rcases member with (decides | ⟨_, call | unknown | reads⟩) | ⟨isAfter, notWritten⟩
        · exact Or.inl (Or.inr decides)
        · exact absurd call noCall
        · exact absurd unknown noUnknown
        · exact Or.inl (Or.inl (Or.inr reads))
        · rcases covered reg isAfter with isLive | ⟨_, branch, dst, edge, isLive⟩
          · refine Or.inl (Or.inl (Or.inl ?_))
            split
            · rename_i always
              exact Finset.mem_sdiff.mpr ⟨isLive, fun writes => notWritten ⟨always, writes⟩⟩
            · exact isLive
          · refine Or.inr ?_
            rw [if_pos branch, edge]
            exact isLive

theorem dead_silent (dead : instructionDead effects instr.instruction live = true) :
    (footprint effects instr).silent ∧
      Disjoint { reg | reg ∈ live } ((footprint effects instr).writes ∪
        (footprint effects instr).mayWrite) := by
  obtain ⟨noFlow, noMem, disjoint⟩ := (instructionDead_iff _ _ _).mp dead
  refine ⟨⟨noFlow, noMem⟩, ?_⟩
  rw [Set.disjoint_left]
  intro reg isLive writes
  apply Finset.disjoint_left.mp disjoint isLive
  rw [Finset.mem_union]
  exact writes

end Flow

/-! ### Functions whose dead instructions are marked -/

namespace DeadWrites

open Nodes LivenessAnalysis

/-- A part of the function that is not left but to the outside, with sets that solve the
equations and marks for its dead instructions. -/
structure DeadMarked (cfg : FunctionCfg ι) (effects : ι → ℕ → RegisterEffects)
    (live_ret : SubRegisterMask) (liveIn : ι → SubRegisterMask) (region : ι → Prop) : Prop where
  entry : region cfg.entryBlock
  next : ∀ b n, region b → (cfg.block b).next = some n → region n
  edge : ∀ b, region b → ∀ instr ∈ (cfg.block b).instrs, ∀ dst, instr.branchEdge = some dst →
    region dst
  solved : ∀ b, region b → liveAt cfg effects live_ret liveIn b 0 ⊆ liveIn b
  marked : ∀ b index instr, region b → (cfg.block b).instrs[index]? = some instr →
    isDeadWrite instr =
      instructionDead (effects b index) instr.instruction
        (liveAt cfg effects live_ret liveIn b (index + 1))

structure Removed (cfg later : FunctionCfg ι) (region : ι → Prop) : Prop where
  entry : later.entryBlock = cfg.entryBlock
  next : ∀ b, (later.block b).next = (cfg.block b).next
  instrs : ∀ b, region b → (later.block b).instrs = liveWrites (cfg.block b).instrs

/-- The register sets are true wherever a run gets to. -/
def TrueOnRuns (cfg : FunctionCfg ι) (effects : ι → ℕ → RegisterEffects)
    (machine : AbstractMachine α μ ω) (live_ret : SubRegisterMask) (store : SubRegister → α)
    (memory : μ) : Prop :=
  ∀ b index instr now nowMemory, (cfg.block b).instrs[index]? = some instr →
    cfg.MachineReaches machine live_ret store memory
      (some
        { block := b
          rest := (cfg.block b).instrs.drop index
          store := now
          memory := nowMemory }) →
      EffectsTrue machine (effects b index) instr now nowMemory

variable {cfg later : FunctionCfg ι} {effects : ι → ℕ → RegisterEffects}
variable {live_ret : SubRegisterMask} {liveIn : ι → SubRegisterMask} {region : ι → Prop}
variable {machine : AbstractMachine α μ ω} {store other : SubRegister → α} {memory : μ} {b : ι}
variable {index : ℕ} {instr : BlockInstruction ι} {rest : List (BlockInstruction ι)}

/-- A kept instruction does the same in two states that agree on what lives before it. -/
structure DoesAlike (live : SubRegisterMask) (liveIn : ι → SubRegisterMask)
    (instr : BlockInstruction ι) (one two : Result SubRegister α μ ω) : Prop where
  memory : two.memory = one.memory
  output : two.output = one.output
  taken : two.taken = one.taken
  live : Set.EqOn one.store two.store { reg | reg ∈ live }
  goes : instr.instruction.isBranch = true → one.taken = true → ∀ dst,
    instr.branchEdge = some dst → Set.EqOn one.store two.store { reg | reg ∈ liveIn dst }
  leaves : instr.instruction.isBranch = true → one.taken = true → instr.branchEdge = none →
    one.store = two.store

theorem doesAlike_of_flow {live : SubRegisterMask} {own : RegisterEffects}
    (stays : instr.instruction.isRet = false)
    (truthful : (footprint own instr).Truthful (machine instr.instruction) store memory)
    (agree : Set.EqOn store other { reg | reg ∈ flow live_ret liveIn own instr live }) :
    DoesAlike live liveIn instr (machine instr.instruction store memory)
      (machine instr.instruction other memory) := by
  have onLive : Set.EqOn store other ((footprint own instr).before { reg | reg ∈ live }) :=
    agree.mono (before_subset_flow stays (fun _ isLive => Or.inl isLive))
  have needed : Set.EqOn store other (footprint own instr).needs :=
    onLive.mono Footprint.needs_subset_before
  obtain ⟨sameMemory, sameOutput, sameTaken⟩ := truthful.same other needed
  have executes (takes : (machine instr.instruction store memory).taken = true) :
      own.willExecute ≠ .False := by
    intro skipped
    rw [truthful.idle skipped] at takes
    cases takes
  refine ⟨sameMemory, sameOutput, sameTaken, truthful.agree onLive, ?_, ?_⟩
  · intro branch takes dst edge
    apply truthful.agree
    apply agree.mono
    apply before_subset_flow stays
    intro reg isLive
    exact Or.inr ⟨executes takes, branch, dst, edge, isLive⟩
  · intro branch takes edge
    have everything : flow live_ret liveIn own instr live = Finset.univ := by
      unfold flow
      rw [if_neg (executes takes)]
      split
      · rfl
      · rw [if_neg (by rw [stays]; exact Bool.false_ne_true), if_pos ⟨branch, edge⟩]
    have equal : store = other := by
      funext reg
      apply agree
      rw [everything]
      exact Finset.mem_univ reg
    rw [equal]

/-! ### The runs -/

/-- Two places in front of the same instructions, less the marked ones, with registers that
agree where they live. -/
inductive Alike (cfg : FunctionCfg ι) (effects : ι → ℕ → RegisterEffects)
    (live_ret : SubRegisterMask) (liveIn : ι → SubRegisterMask) (region : ι → Prop) :
    Option (MachinePlace ι α μ) → Option (MachinePlace ι α μ) → Prop where
  | gone : Alike cfg effects live_ret liveIn region none none
  | inside {b : ι} {index : ℕ} {rest : List (BlockInstruction ι)} {store other : SubRegister → α}
      {memory : μ} (here : (cfg.block b).instrs.drop index = rest) (inRegion : region b)
      (agree : Set.EqOn store other
        { reg | reg ∈ liveAt cfg effects live_ret liveIn b index }) :
      Alike cfg effects live_ret liveIn region (some { block := b, rest, store, memory })
        (some { block := b, rest := liveWrites rest, store := other, memory })

def Ready (place : Option (MachinePlace ι α μ)) : Prop :=
  ∀ now, place = some now → ∀ instr rest, now.rest = instr :: rest → isDeadWrite instr = false

theorem Alike.enter (marked : DeadMarked cfg effects live_ret liveIn region)
    (removed : Removed cfg later region) (inRegion : region b)
    (agree : Set.EqOn store other { reg | reg ∈ liveIn b }) :
    Alike cfg effects live_ret liveIn region (some (cfg.enterWith b store memory))
      (some (later.enterWith b other memory)) := by
  unfold FunctionCfg.enterWith
  rw [removed.instrs b inRegion]
  have start : (cfg.block b).instrs.drop 0 = (cfg.block b).instrs := rfl
  exact .inside start inRegion (agree.mono (fun _ isLive => marked.solved b inRegion isLive))

theorem Alike.pass (marked : DeadMarked cfg effects live_ret liveIn region)
    {start : SubRegister → α} {startMemory : μ}
    (holds : TrueOnRuns cfg effects machine live_ret start startMemory) (inRegion : region b)
    (here : (cfg.block b).instrs.drop index = instr :: rest) (dead : isDeadWrite instr = true)
    (agree : Set.EqOn store other { reg | reg ∈ liveAt cfg effects live_ret liveIn b index })
    (reached : cfg.MachineReaches machine live_ret start startMemory
      (some { block := b, rest := instr :: rest, store, memory })) :
    (∀ label s', cfg.MachineStep machine live_ret
        (some { block := b, rest := instr :: rest, store, memory }) label s' ↔
      label = none ∧ s' = some
        { block := b, rest, store := (machine instr.instruction store memory).store, memory }) ∧
      Set.EqOn (machine instr.instruction store memory).store other
        { reg | reg ∈ liveAt cfg effects live_ret liveIn b (index + 1) } := by
  have found := (drop_cons here).1
  have isDead := marked.marked b index instr inRegion found
  rw [dead] at isDead
  obtain ⟨silent, apart⟩ := dead_silent isDead.symm
  have noBranch : instr.instruction.isBranch = false := silent.1.1
  have stays : instr.instruction.isRet = false := silent.1.2.2
  have truthful := (holds b index instr store memory found
    (by rw [here]; exact reached)).truthful stays
  obtain ⟨kept, sameMemory, noOutput, _⟩ := truthful.dead silent apart
  constructor
  · intro label s'
    constructor
    · intro step
      cases step with
      | ret returns =>
          rw [stays] at returns
          cases returns
      | taken _ branch _ _ | away _ branch _ _ =>
          rw [noBranch] at branch
          cases branch
      | on _ _ =>
          rw [noOutput, sameMemory]
          exact ⟨rfl, rfl⟩
    · rintro ⟨rfl, rfl⟩
      have step : cfg.MachineStep machine live_ret
          (some { block := b, rest := instr :: rest, store, memory })
          ((machine instr.instruction store memory).output.map .output)
          (some
            { block := b
              rest
              store := (machine instr.instruction store memory).store
              memory := (machine instr.instruction store memory).memory }) := by
        apply FunctionCfg.MachineStep.on stays
        rw [noBranch]
        exact fun impossible => absurd impossible Bool.false_ne_true
      rw [noOutput, sameMemory] at step
      exact step
  · intro reg isLive
    rw [kept isLive]
    apply agree
    rw [liveAt_cons here]
    unfold liveBefore
    rw [if_pos isDead.symm]
    exact isLive

theorem liveWrites_dead (dead : isDeadWrite instr = true) (rest : List (BlockInstruction ι)) :
    liveWrites (instr :: rest) = liveWrites rest :=
  List.filter_cons_of_neg (by rw [dead]; decide)

theorem Alike.advance (marked : DeadMarked cfg effects live_ret liveIn region)
    {start : SubRegister → α} {startMemory : μ}
    (holds : TrueOnRuns cfg effects machine live_ret start startMemory)
    {s t : Option (MachinePlace ι α μ)} (alike : Alike cfg effects live_ret liveIn region s t)
    (reached : cfg.MachineReaches machine live_ret start startMemory s) :
    ∃ s', Traces.Run (cfg.MachineStep machine live_ret) s [] s' ∧ Ready s' ∧
      Alike cfg effects live_ret liveIn region s' t ∧
        cfg.MachineReaches machine live_ret start startMemory s' := by
  cases alike with
  | gone => exact ⟨none, .nil none, nofun, .gone, reached⟩
  | @inside b index rest store other memory here inRegion agree =>
      induction rest generalizing index store with
      | nil =>
          refine ⟨_, .nil _, ?_, .inside here inRegion agree, reached⟩
          rintro now ⟨⟩ instr rest impossible
          cases impossible
      | cons instr rest ih =>
          cases dead : isDeadWrite instr with
          | false =>
              refine ⟨_, .nil _, ?_, .inside here inRegion agree, reached⟩
              rintro now ⟨⟩ first others same
              cases same
              exact dead
          | true =>
              obtain ⟨steps, agreeLater⟩ := pass marked holds inRegion here dead agree reached
              have step := (steps none _).mpr ⟨rfl, rfl⟩
              obtain ⟨s', run, ready, alike, reaches⟩ := ih (drop_cons here).2 agreeLater
                (reached.step step)
              rw [liveWrites_dead dead]
              exact ⟨s', .silent step run, ready, alike, reaches⟩

theorem agree_flow (marked : DeadMarked cfg effects live_ret liveIn region) (inRegion : region b)
    (here : (cfg.block b).instrs.drop index = instr :: rest) (kept : isDeadWrite instr = false)
    (agree : Set.EqOn store other { reg | reg ∈ liveAt cfg effects live_ret liveIn b index }) :
    Set.EqOn store other { reg | reg ∈ flow live_ret liveIn (effects b index) instr
      (liveAt cfg effects live_ret liveIn b (index + 1)) } := by
  have notDead := marked.marked b index instr inRegion (drop_cons here).1
  rw [kept] at notDead
  rw [liveAt_cons here] at agree
  unfold liveBefore at agree
  rw [← notDead, if_neg Bool.false_ne_true] at agree
  exact agree

theorem returnedValues_eq {own : RegisterEffects} {live : SubRegisterMask}
    (returns : instr.instruction.isRet = true) (executes : own.willExecute ≠ .False)
    (agree : Set.EqOn store other { reg | reg ∈ flow live_ret liveIn own instr live }) :
    returnedValues live_ret other = returnedValues live_ret store := by
  have noCall : instr.instruction.isCall = false := by
    rcases controlFlow_cases instr.instruction with ⟨_, _, ret⟩ | ⟨_, _, ret⟩ | ⟨_, call⟩
    · rw [ret] at returns
      cases returns
    · rw [ret] at returns
      cases returns
    · exact call
  funext reg
  unfold returnedValues
  split
  · rename_i isLive
    refine congrArg some (agree ?_).symm
    change reg ∈ flow live_ret liveIn own instr live
    unfold flow
    rw [if_neg executes, noCall, if_neg Bool.false_ne_true, if_pos returns]
    exact Finset.mem_union_left _ isLive
  · rfl

/-- At the end of a block both states go on to the next block. -/
theorem Alike.lockstep_end (marked : DeadMarked cfg effects live_ret liveIn region)
    (removed : Removed cfg later region) (here : (cfg.block b).instrs.drop index = [])
    (inRegion : region b)
    (agree : Set.EqOn store other { reg | reg ∈ liveAt cfg effects live_ret liveIn b index }) :
    Traces.Lockstep (cfg.MachineStep machine live_ret) (later.MachineStep machine live_ret)
      (Alike cfg effects live_ret liveIn region) (some { block := b, rest := [], store, memory })
      (some { block := b, rest := [], store := other, memory }) := by
  rw [liveAt_nil here] at agree
  have entered {n : ι} (falls : (cfg.block b).next = some n) :
      Alike cfg effects live_ret liveIn region (some (cfg.enterWith n store memory))
        (some (later.enterWith n other memory)) := by
    rw [falls] at agree
    exact .enter marked removed (marked.next b n inRegion falls) agree
  constructor
  · intro label s' step
    cases step with
    | fall falls => exact ⟨_, entered falls, .fall ((removed.next b).trans falls)⟩
  · intro label t' step
    cases step with
    | fall falls =>
        have origin := (removed.next b).symm.trans falls
        exact ⟨_, entered origin, .fall origin⟩

/-- A return shows the same in both states, as what is returned is live. -/
theorem Alike.lockstep_ret {left : List (BlockInstruction ι)}
    (returns : instr.instruction.isRet = true)
    (values : returnedValues live_ret other = returnedValues live_ret store) :
    Traces.Lockstep (cfg.MachineStep machine live_ret) (later.MachineStep machine live_ret)
      (Alike cfg effects live_ret liveIn region)
      (some { block := b, rest := instr :: rest, store, memory })
      (some { block := b, rest := instr :: left, store := other, memory }) := by
  constructor
  · intro label s' step
    cases step with
    | ret returns =>
        refine ⟨none, .gone, ?_⟩
        rw [← values]
        exact .ret returns
    | taken remains _ _ _ | away remains _ _ _ | on remains _ =>
        rw [returns] at remains
        cases remains
  · intro label t' step
    cases step with
    | ret returns =>
        refine ⟨none, .gone, ?_⟩
        rw [values]
        exact .ret returns
    | taken remains _ _ _ | away remains _ _ _ | on remains _ =>
        rw [returns] at remains
        cases remains

/-- Any other instruction that is kept does the same in both states. -/
theorem Alike.lockstep_stays (marked : DeadMarked cfg effects live_ret liveIn region)
    (removed : Removed cfg later region)
    (here : (cfg.block b).instrs.drop index = instr :: rest) (inRegion : region b)
    (stays : instr.instruction.isRet = false)
    (does : DoesAlike (liveAt cfg effects live_ret liveIn b (index + 1)) liveIn instr
      (machine instr.instruction store memory) (machine instr.instruction other memory)) :
    Traces.Lockstep (cfg.MachineStep machine live_ret) (later.MachineStep machine live_ret)
      (Alike cfg effects live_ret liveIn region)
      (some { block := b, rest := instr :: rest, store, memory })
      (some { block := b, rest := instr :: liveWrites rest, store := other, memory }) := by
  obtain ⟨found, hereRest⟩ := drop_cons here
  have goes {dst : ι} (branch : instr.instruction.isBranch = true)
      (edge : instr.branchEdge = some dst)
      (takes : (machine instr.instruction store memory).taken = true) :
      Alike cfg effects live_ret liveIn region
        (some (cfg.enterWith dst (machine instr.instruction store memory).store
          (machine instr.instruction store memory).memory))
        (some (later.enterWith dst (machine instr.instruction other memory).store
          (machine instr.instruction other memory).memory)) := by
    rw [does.memory]
    exact .enter marked removed (marked.edge b inRegion instr (List.mem_of_getElem? found) dst
      edge) (does.goes branch takes dst edge)
  have goesOn : Alike cfg effects live_ret liveIn region
      (some
        { block := b
          rest
          store := (machine instr.instruction store memory).store
          memory := (machine instr.instruction store memory).memory })
      (some
        { block := b
          rest := liveWrites rest
          store := (machine instr.instruction other memory).store
          memory := (machine instr.instruction other memory).memory }) := by
    rw [does.memory]
    exact .inside hereRest inRegion does.live
  constructor
  · intro label s' step
    cases step with
    | ret returns =>
        rw [stays] at returns
        cases returns
    | taken _ branch edge takes =>
        refine ⟨_, goes branch edge takes, ?_⟩
        rw [← does.output]
        exact .taken stays branch edge (does.taken.trans takes)
    | away _ branch edge takes =>
        refine ⟨none, .gone, ?_⟩
        rw [does.leaves branch takes edge, ← does.memory]
        exact .away stays branch edge (does.taken.trans takes)
    | on _ passes =>
        refine ⟨_, goesOn, ?_⟩
        rw [← does.output]
        exact .on stays (fun branch => does.taken.trans (passes branch))
  · intro label t' step
    cases step with
    | ret returns =>
        rw [stays] at returns
        cases returns
    | taken _ branch edge takes =>
        rw [does.taken] at takes
        refine ⟨_, goes branch edge takes, ?_⟩
        rw [does.output]
        exact .taken stays branch edge takes
    | away _ branch edge takes =>
        rw [does.taken] at takes
        refine ⟨none, .gone, ?_⟩
        rw [← does.leaves branch takes edge, does.memory]
        exact .away stays branch edge takes
    | on _ passes =>
        refine ⟨_, goesOn, ?_⟩
        rw [does.output]
        exact .on stays (fun branch => does.taken.symm.trans (passes branch))

theorem Alike.lockstep (marked : DeadMarked cfg effects live_ret liveIn region)
    (removed : Removed cfg later region) {start : SubRegister → α} {startMemory : μ}
    (holds : TrueOnRuns cfg effects machine live_ret start startMemory)
    {s t : Option (MachinePlace ι α μ)} (alike : Alike cfg effects live_ret liveIn region s t)
    (ready : Ready s) (reached : cfg.MachineReaches machine live_ret start startMemory s) :
    Traces.Lockstep (cfg.MachineStep machine live_ret) (later.MachineStep machine live_ret)
      (Alike cfg effects live_ret liveIn region) s t := by
  cases alike with
  | gone => exact ⟨fun _ _ step => (by cases step), fun _ _ step => (by cases step)⟩
  | @inside b index rest store other memory here inRegion agree =>
      cases rest with
      | nil => exact lockstep_end marked removed here inRegion agree
      | cons instr rest =>
          have kept : isDeadWrite instr = false := ready _ rfl instr rest rfl
          have stepped : liveWrites (instr :: rest) = instr :: liveWrites rest :=
            List.filter_cons_of_pos (by rw [kept]; rfl)
          have agreeFlow := agree_flow marked inRegion here kept agree
          have true_ := holds b index instr store memory (drop_cons here).1
            (by rw [here]; exact reached)
          rw [stepped]
          cases stays : instr.instruction.isRet with
          | true =>
              exact lockstep_ret stays
                (returnedValues_eq stays (true_.returns stays) agreeFlow)
          | false =>
              exact lockstep_stays marked removed here inRegion stays
                (doesAlike_of_flow stays (true_.truthful stays) agreeFlow)

theorem machineShows_iff (marked : DeadMarked cfg effects live_ret liveIn region)
    (removed : Removed cfg later region)
    (holds : TrueOnRuns cfg effects machine live_ret store memory) (seen : List (Seen α μ ω)) :
    later.MachineShows machine live_ret store memory seen ↔
      cfg.MachineShows machine live_ret store memory seen := by
  have start : Alike cfg effects live_ret liveIn region
      (some (cfg.enterWith cfg.entryBlock store memory))
      (some (later.enterWith later.entryBlock store memory)) := by
    rw [removed.entry]
    exact .enter marked removed marked.entry (fun _ _ => rfl)
  have forth : Traces.Simulates (cfg.MachineStep machine live_ret)
      (later.MachineStep machine live_ret) (fun s t =>
        Alike cfg effects live_ret liveIn region s t ∧
          cfg.MachineReaches machine live_ret store memory s) := by
    rintro s t s' label ⟨alike, reached⟩ step
    by_cases ready : Ready s
    · obtain ⟨t', alikeLater, matched⟩ :=
        (alike.lockstep marked removed holds ready reached).forth label s' step
      exact ⟨t', ⟨alikeLater, reached.step step⟩, .single matched⟩
    · cases alike with
      | gone => exact absurd nofun ready
      | @inside b index rest now other memoryNow here inRegion agree =>
          cases rest with
          | nil =>
              refine absurd ?_ ready
              rintro place ⟨⟩ instr rest impossible
              cases impossible
          | cons instr rest =>
              have dead : isDeadWrite instr = true := by
                by_contra kept
                apply ready
                rintro place ⟨⟩ first others same
                cases same
                exact Bool.eq_false_iff.mpr kept
              obtain ⟨steps, agreeLater⟩ :=
                Alike.pass marked holds inRegion here dead agree reached
              obtain ⟨rfl, rfl⟩ := (steps label s').mp step
              rw [liveWrites_dead dead]
              exact ⟨_, ⟨.inside (drop_cons here).2 inRegion agreeLater, reached.step step⟩,
                .stay _⟩
  have back : Traces.Simulates (later.MachineStep machine live_ret)
      (cfg.MachineStep machine live_ret) (fun t s =>
        Alike cfg effects live_ret liveIn region s t ∧
          cfg.MachineReaches machine live_ret store memory s) := by
    rintro t s t' label ⟨alike, reached⟩ step
    obtain ⟨middle, silent, ready, alikeMiddle, reachedMiddle⟩ :=
      alike.advance marked holds reached
    obtain ⟨s', alikeLater, matched⟩ :=
      (alikeMiddle.lockstep marked removed holds ready reachedMiddle).back label t' step
    exact ⟨s', ⟨alikeLater, reachedMiddle.step matched⟩, Traces.weak_of_run silent matched⟩
  exact Traces.trace_iff forth back ⟨start, [], .nil _⟩ seen

/-! ### The pass after the analysis -/

theorem liveThrough_attachData (effects : ℕ → RegisterEffects) (live : SubRegisterMask) {index : ℕ}
    {instrs : List (BlockInstruction ι)} {data : List (Option LivenessData)}
    (length : data.length = instrs.length) :
    liveThrough live_ret liveIn effects index (instrs.zipWith attachData data) live =
      liveThrough live_ret liveIn effects index instrs live := by
  induction instrs generalizing data index with
  | nil => rfl
  | cons instr rest ih =>
      cases data with
      | nil => cases length
      | cons own others =>
          rw [List.zipWith_cons_cons]
          unfold liveThrough
          rw [ih (Nat.succ.inj length)]
          rfl

theorem deadMarked_of_exact {entry : ι} {block : ι → SuperBlock ι}
    {analysis : LivenessAnalysis ι}
    (exact_ : LivenessAnalysis.Exact { block, entryBlock := entry } effects live_ret analysis)
    (atEntry : region entry)
    (found : ∀ b, region b → FoundFromReturn block b)
    (next : ∀ b n, region b → (block b).next = some n → region n)
    (edge : ∀ b, region b → ∀ instr ∈ (block b).instrs, ∀ dst, instr.branchEdge = some dst →
      region dst) :
    DeadMarked { block := labelled analysis block, entryBlock := entry } effects live_ret
      analysis.liveIn region := by
  have length (b : ι) (inRegion : region b) :
      (analysis.attached b).length = (block b).instrs.length := by
    rw [(exact_.solved b (found b inRegion)).2]
    exact length_marksThrough _ _ _ _ _ _
  have live (b : ι) (inRegion : region b) (index : ℕ) :
      liveAt { block := labelled analysis block, entryBlock := entry } effects live_ret
          analysis.liveIn b index =
        liveThrough live_ret analysis.liveIn (effects b) index ((block b).instrs.drop index)
          ((block b).next.elim ∅ analysis.liveIn) := by
    unfold liveAt
    change liveThrough _ _ _ _ (((block b).instrs.zipWith attachData
      (analysis.attached b)).drop index) _ = _
    rw [List.drop_zipWith, liveThrough_attachData]
    · rfl
    · rw [List.length_drop, List.length_drop, length b inRegion]
  have labelled_iff {b : ι} {index : ℕ} {instr : BlockInstruction ι}
      (there : (labelled analysis block b).instrs[index]? = some instr) :
      ∃ own data, (block b).instrs[index]? = some own ∧
        (analysis.attached b)[index]? = some data ∧ attachData own data = instr :=
    List.getElem?_zipWith_eq_some.mp there
  refine ⟨atEntry, next, ?_, ?_, ?_⟩
  · intro b inRegion instr member dst isEdge
    obtain ⟨index, there⟩ := List.mem_iff_getElem?.mp member
    obtain ⟨own, data, ownThere, _, rfl⟩ := labelled_iff there
    exact edge b inRegion own (List.mem_of_getElem? ownThere) dst isEdge
  · intro b inRegion
    have data := (exact_.solved b (found b inRegion)).1
    unfold LivenessAnalysis.getLivenessData at data
    split at data
    · rw [live b inRegion]
      have solved := congrArg LivenessData.live_in (Option.some.inj data)
      exact Finset.subset_of_eq solved.symm
    · cases data
  · intro b index instr inRegion there
    obtain ⟨own, data, ownThere, marked, rfl⟩ := labelled_iff there
    rw [(exact_.solved b (found b inRegion)).2] at marked
    unfold LivenessAnalysis.marks at marked
    rw [getElem_marksThrough ownThere, Nat.zero_add] at marked
    rw [live b inRegion]
    cases Option.some.inj marked
    unfold isDeadWrite attachData
    dsimp only
    cases dead : instructionDead (effects b index) own.instruction (liveThrough live_ret
      analysis.liveIn (effects b) (index + 1) ((block b).instrs.drop (index + 1))
        ((block b).next.elim ∅ analysis.liveIn)) with
    | true => rfl
    | false => rfl

variable [DecidableEq ι]

theorem countP_attachData (n : ι) {instrs : List (BlockInstruction ι)}
    {data : List (Option LivenessData)} (length : data.length = instrs.length) :
    (instrs.zipWith attachData data).countP (leadsTo n) = instrs.countP (leadsTo n) := by
  induction instrs generalizing data with
  | nil => rfl
  | cons instr rest ih =>
      cases data with
      | nil => cases length
      | cons own others =>
          rw [List.zipWith_cons_cons, List.countP_cons, List.countP_cons, ih (Nat.succ.inj length)]
          rfl

omit [DecidableEq ι] in
theorem length_attached {block : ι → SuperBlock ι} {entry : ι} {analysis : LivenessAnalysis ι}
    (exact_ : LivenessAnalysis.Exact { block, entryBlock := entry } effects live_ret analysis)
    (b : ι) : (analysis.attached b).length = (block b).instrs.length := by
  by_cases found : FoundFromReturn block b
  · rw [(exact_.solved b found).2]
    exact length_marksThrough _ _ _ _ _ _
  · rw [(exact_.untouched b found).2, List.length_map]

omit [DecidableEq ι] in
theorem labelled_sameCode {block : ι → SuperBlock ι} {entry : ι} {analysis : LivenessAnalysis ι}
    (exact_ : LivenessAnalysis.Exact { block, entryBlock := entry } effects live_ret analysis) :
    FunctionCfg.SameCode { block, entryBlock := entry }
      { block := labelled analysis block, entryBlock := entry } := by
  refine ⟨rfl, fun _ => rfl, fun b => ?_⟩
  have attached (instrs : List (BlockInstruction ι)) (data : List (Option LivenessData))
      (length : data.length = instrs.length) :
      List.Forall₂ FunctionCfg.SameInstruction instrs (instrs.zipWith attachData data) := by
    induction instrs generalizing data with
    | nil => exact .nil
    | cons instr rest ih =>
        cases data with
        | nil => cases length
        | cons own others => exact .cons ⟨rfl, rfl⟩ (ih others (Nat.succ.inj length))
  exact attached _ _ (length_attached exact_ b)

omit [DecidableEq ι] in
theorem TrueOnRuns.congr {other : FunctionCfg ι} (code : cfg.SameCode other)
    (holds : TrueOnRuns cfg effects machine live_ret store memory) :
    TrueOnRuns other effects machine live_ret store memory := by
  intro b index own now nowMemory there reached
  obtain ⟨place, same, reaches⟩ := reached.congr code.symm
  have sameLength : (cfg.block b).instrs.length = (other.block b).instrs.length :=
    (code.instrs b).length_eq
  obtain ⟨inside, rfl⟩ := List.getElem?_eq_some_iff.mp there
  have insideCfg : index < (cfg.block b).instrs.length := sameLength ▸ inside
  have known : FunctionCfg.SameInstruction (cfg.block b).instrs[index]
      (other.block b).instrs[index] := (code.instrs b).get insideCfg inside
  generalize here : (other.block b).instrs.drop index = left at same
  cases same with
  | inside _ i _ _ =>
      have atIndex : i = index := by
        have lengths := congrArg List.length here
        rw [List.length_drop, List.length_drop] at lengths
        omega
      rw [atIndex] at reaches
      have true_ := holds b index _ now nowMemory (List.getElem?_eq_getElem insideCfg) reaches
      have sameFootprint : footprint (effects b index) (other.block b).instrs[index] =
          footprint (effects b index) (cfg.block b).instrs[index] := by
        unfold footprint LivenessAnalysis.Silent
        rw [known.instruction, known.branchEdge]
      constructor
      · rw [known.instruction]
        exact true_.returns
      · rw [known.instruction, sameFootprint]
        exact true_.truthful

variable {nodes : Nodes ι} {entry : ι} {blocks : List ι}

theorem labelled_balanced {analysis : LivenessAnalysis ι} (balanced : nodes.Balanced)
    (exact_ : LivenessAnalysis.Exact (nodes.cfg entry) effects live_ret analysis) :
    ({ nodes with block := labelled analysis nodes.block } : Nodes ι).Balanced := by
  constructor
  · intro x n
    change (nodes.block x).outgoingEdges.count n = _
    rw [balanced.outgoing]
    exact (countP_attachData n (length_attached exact_ x)).symm
  · intro x n
    change (nodes.block n).incomingEdges.count x = _
    rw [balanced.incoming]
    exact (countP_attachData n (length_attached exact_ x)).symm

theorem eliminateDeadWrites_of_exact {analysis : LivenessAnalysis ι}
    (isEntry : nodes.entryBlock = some entry) (balanced : nodes.Balanced) (once : blocks.Nodup)
    (wellFormed : (nodes.cfg entry).WellFormed)
    (enters : ∀ b, Relation.ReflTransGen (fun b n => n ∈ (nodes.cfg entry).successors b) entry b →
      b ∈ blocks ∧ FoundFromReturn nodes.block b)
    (exact_ : LivenessAnalysis.Exact (nodes.cfg entry) effects live_ret analysis) :
    ∃ later, eliminateDeadWrites blocks
        { nodes with block := labelled analysis nodes.block } = .ok later ∧
      later.Balanced ∧ later.entryBlock = some entry ∧
        ∀ {α μ ω : Type} (machine : AbstractMachine α μ ω) (store : SubRegister → α) (memory : μ),
          TrueOnRuns (nodes.cfg entry) effects machine live_ret store memory →
            ∀ seen, (later.cfg entry).MachineShows machine live_ret store memory seen ↔
              (nodes.cfg entry).MachineShows machine live_ret store memory seen := by
  obtain ⟨later, removed, trimmed, instrs⟩ :=
    eliminateDeadWrites_spec (labelled_balanced balanced exact_) once
  refine ⟨later, removed, trimmed.balanced, trimmed.entry.trans isEntry, ?_⟩
  intro α μ ω machine store memory holds seen
  have code := labelled_sameCode exact_
  have marked := deadMarked_of_exact exact_ .refl (fun b reachable => (enters b reachable).2)
    (fun b n reachable next => reachable.tail (List.mem_append_left _ (Option.mem_toList.mpr next)))
    (fun b reachable instr member dst isEdge =>
      reachable.tail (List.mem_append_right _ ((wellFormed.edges b dst).mpr
        ⟨instr, member, isEdge⟩)))
  have left : Removed { block := labelled analysis nodes.block, entryBlock := entry }
      (later.cfg entry) (Relation.ReflTransGen
        (fun b n => n ∈ (nodes.cfg entry).successors b) entry) :=
    ⟨rfl, trimmed.next, fun b reachable => (instrs b).trans (if_pos (enters b reachable).1)⟩
  exact (machineShows_iff marked left (holds.congr code) seen).trans
    (FunctionCfg.machineShows_congr code store memory seen)

/-- Where every block that can be entered is found from a return, dead write elimination after
the analysis keeps what is seen of all runs. -/
theorem eliminateDeadWrites_runs [Fintype ι]
    {dynInfo : ι → ℕ → Option DynamicInstructionInfo} {spec : RegisterSpecification}
    {returning : List ι} {fuel : ℕ} {analysis : LivenessAnalysis ι}
    (isEntry : nodes.entryBlock = some entry) (balanced : nodes.Balanced) (once : blocks.Nodup)
    (wellFormed : (nodes.cfg entry).WellFormed)
    (enters : ∀ b, Relation.ReflTransGen (fun b n => n ∈ (nodes.cfg entry).successors b) entry b →
      b ∈ blocks ∧ FoundFromReturn nodes.block b)
    (edges : LivenessAnalysis.ReturnEdges nodes.block returning) (nonempty : returning ≠ [])
    (known : LivenessAnalysis.EffectsOf (nodes.cfg entry) dynInfo effects)
    (ran : LivenessAnalysis.handleFunction nodes.block dynInfo false (some spec) returning fuel =
      .ok (some (.analysed analysis))) :
    ∃ later, eliminateDeadWrites blocks
        { nodes with block := labelled analysis nodes.block } = .ok later ∧
      later.Balanced ∧ later.entryBlock = some entry ∧
        ∀ {α μ ω : Type} (machine : AbstractMachine α μ ω) (store : SubRegister → α) (memory : μ),
          TrueOnRuns (nodes.cfg entry) effects machine (spec.out ∪ spec.preserved) store memory →
            ∀ seen, (later.cfg entry).MachineShows machine (spec.out ∪ spec.preserved) store
                memory seen ↔
              (nodes.cfg entry).MachineShows machine (spec.out ∪ spec.preserved) store memory
                seen := by
  have exact_ : LivenessAnalysis.Exact (nodes.cfg entry) effects (spec.out ∪ spec.preserved)
      analysis :=
    LivenessAnalysis.exact_of_handleFunction wellFormed edges nonempty known ran
  exact eliminateDeadWrites_of_exact isEntry balanced once wellFormed enters exact_

/-! ### Blocks that are not found from a return -/

omit [DecidableEq ι] in
/-- The analysis goes from the returns against the edges, so no block that it has not found leads
to one that it has found. -/
theorem not_found_next (wellFormed : cfg.WellFormed) {b n : ι}
    (unfound : ¬ FoundFromReturn cfg.block b) (next : (cfg.block b).next = some n) :
    ¬ FoundFromReturn cfg.block n := by
  rintro ⟨last, returns, path⟩
  refine unfound ⟨last, returns, path.tail (Or.inl ?_)⟩
  have prev := (wellFormed.next_prev b n).mp next
  exact List.mem_append_right _ (Option.mem_toList.mpr prev)

omit [DecidableEq ι] in
theorem silent_of_emptied (emptied : ι → Prop) (empty : ∀ b, emptied b → (cfg.block b).instrs = [])
    (next : ∀ b n, emptied b → (cfg.block b).next = some n → emptied n) {b : ι}
    (start : emptied b) {seen : List (Seen α μ ω)}
    (trace : Traces.Trace (cfg.MachineStep machine live_ret)
      (some (cfg.enterWith b store memory)) seen) : seen = [] := by
  generalize atStart : some (cfg.enterWith b store memory) = place at trace
  induction trace generalizing b with
  | nil _ => rfl
  | silent first _ ih =>
      rw [← atStart] at first
      unfold FunctionCfg.enterWith at first
      rw [empty b start] at first
      cases first with
      | fall falls => exact ih (next b _ start falls) rfl
  | visible first _ _ =>
      rw [← atStart] at first
      unfold FunctionCfg.enterWith at first
      rw [empty b start] at first
      cases first

/-- In a function without data the pass empties every block that the analysis did not find, as the
target of a branch that ends in a jump to unknown code: a run that enters it shows nothing any
more. -/
theorem eliminateDeadWrites_unfound [Fintype ι]
    {dynInfo : ι → ℕ → Option DynamicInstructionInfo} {spec : RegisterSpecification}
    {returning : List ι} {fuel : ℕ} {analysis : LivenessAnalysis ι}
    (balanced : nodes.Balanced) (once : blocks.Nodup)
    (all : ∀ b, (nodes.block b).instrs ≠ [] → b ∈ blocks)
    (fresh : ∀ b, ∀ instr ∈ (nodes.block b).instrs, instr.livenessData = none)
    (wellFormed : (nodes.cfg entry).WellFormed)
    (edges : LivenessAnalysis.ReturnEdges nodes.block returning) (nonempty : returning ≠ [])
    (known : LivenessAnalysis.EffectsOf (nodes.cfg entry) dynInfo effects)
    (ran : LivenessAnalysis.handleFunction nodes.block dynInfo false (some spec) returning fuel =
      .ok (some (.analysed analysis))) :
    ∃ later, eliminateDeadWrites blocks
        { nodes with block := labelled analysis nodes.block } = .ok later ∧
      ∀ b, ¬ FoundFromReturn nodes.block b → (later.block b).instrs = [] ∧
        ∀ {α μ ω : Type} (machine : AbstractMachine α μ ω) (live_ret : SubRegisterMask)
          (store : SubRegister → α) (memory : μ) (seen : List (Seen α μ ω)),
          Traces.Trace ((later.cfg entry).MachineStep machine live_ret)
            (some ((later.cfg entry).enterWith b store memory)) seen → seen = [] := by
  have exact_ : LivenessAnalysis.Exact (nodes.cfg entry) effects (spec.out ∪ spec.preserved)
      analysis :=
    LivenessAnalysis.exact_of_handleFunction wellFormed edges nonempty known ran
  obtain ⟨later, removed, trimmed, instrs⟩ :=
    eliminateDeadWrites_spec (labelled_balanced balanced exact_) once
  have empty (b : ι) (unfound : ¬ FoundFromReturn nodes.block b) :
      (later.block b).instrs = [] := by
    have noData : analysis.attached b =
        (nodes.block b).instrs.map BlockInstruction.livenessData :=
      (exact_.untouched b unfound).2
    rw [instrs]
    change (if b ∈ blocks then liveWrites ((nodes.block b).instrs.zipWith attachData
      (analysis.attached b)) else (nodes.block b).instrs.zipWith attachData
        (analysis.attached b)) = []
    rw [noData]
    split
    · unfold liveWrites
      rw [List.filter_eq_nil_iff]
      intro instr member
      obtain ⟨index, found⟩ := List.mem_iff_getElem?.mp member
      obtain ⟨own, data, ownThere, isData, rfl⟩ := List.getElem?_zipWith_eq_some.mp found
      rw [List.getElem?_map, ownThere] at isData
      cases isData
      unfold isDeadWrite attachData
      rw [fresh b own (List.mem_of_getElem? ownThere)]
      decide
    · rename_i outside
      have none : (nodes.block b).instrs = [] := by
        by_contra nonempty
        exact outside (all b nonempty)
      rw [none]
      rfl
  refine ⟨later, removed, fun b unfound => ⟨empty b unfound, ?_⟩⟩
  intro α μ ω machine live_ret store memory seen trace
  refine silent_of_emptied (fun b => ¬ FoundFromReturn nodes.block b) empty ?_ unfound trace
  intro b n unfound next
  exact not_found_next wellFormed unfound ((trimmed.next b).symm.trans next)

/-! ### A loop with a dead write -/

/-- `do rcx += rbx, rax += rbx while (condition)`, where RCX is not looked at. -/
def unusedSum : Nodes (Fin 2) where
  valid := fun _ => false
  hasInfo := true
  entryBlock := some 0
  block
    | 0 =>
        { instrs :=
            [⟨⟨.ADD64rr, [.reg (.gprs64 .C), .reg (.gprs64 .B)]⟩, none, none⟩,
              ⟨⟨.ADD64rr, [.reg (.gprs64 .A), .reg (.gprs64 .B)]⟩, none, none⟩]
          next := some 1
          prev := none
          incomingEdges := [1]
          outgoingEdges := [] }
    | 1 =>
        { instrs :=
            [⟨⟨.JNZa, [.mem (.direct (.plain 0))]⟩, none, some 0⟩, ⟨⟨.RET, []⟩, none, none⟩]
          next := none
          prev := some 0
          incomingEdges := []
          outgoingEdges := [0] }
  blockValid := fun _ _ => false
  entryState := fun _ => none
  visited := []
  icfgValid := fun _ => false

/-- A machine that clears what an instruction writes, and branches where all registers of the
predicate are clear. -/
def clearing : AbstractMachine Bool Unit Unit := fun instruction store memory =>
  let effects := (registerEffects none instruction).toOption.getD noEffects
  { store := fun reg => if reg ∈ effects.writtenRegs then false else store reg
    memory
    output := none
    taken := instruction.isBranch && decide (∀ reg ∈ effects.predicateRegs, store reg = false) }

theorem willExecute_static {instruction : Instruction} {own : RegisterEffects}
    (read : registerEffects none instruction = .ok own) : own.willExecute ≠ .False := by
  unfold registerEffects at read
  obtain ⟨info, _, same⟩ := bind_ok read
  cases same
  dsimp only
  split <;> decide

omit [DecidableEq ι] in
theorem clearing_true {instr : BlockInstruction ι} {own : RegisterEffects}
    (read : registerEffects none instr.instruction = .ok own) (store : SubRegister → Bool)
    (memory : Unit) : EffectsTrue clearing own instr store memory := by
  have executes := willExecute_static read
  have does (now : SubRegister → Bool) : clearing instr.instruction now memory =
      { store := fun reg => if reg ∈ own.writtenRegs then false else now reg
        memory
        output := none
        taken := instr.instruction.isBranch &&
          decide (∀ reg ∈ own.predicateRegs, now reg = false) } := by
    unfold clearing
    rw [read]
    rfl
  refine ⟨fun _ => executes, fun _ => ?_⟩
  constructor
  · intro other agree
    rw [does, does]
    refine ⟨rfl, rfl, ?_⟩
    have decides : (∀ reg ∈ own.predicateRegs, other reg = false) ↔
        ∀ reg ∈ own.predicateRegs, store reg = false := by
      refine forall₂_congr (fun reg member => ?_)
      rw [agree (Or.inl member)]
    dsimp only
    rw [decide_eq_decide.mpr decides]
  · intro reg apart _
    rw [does]
    exact if_neg apart
  · intro _ other _ reg writes
    rw [does, does]
    exact (if_pos writes).trans (if_pos writes).symm
  · intro other _ reg same
    rw [does, does]
    dsimp only
    rw [same]
  · intro silent
    rw [does, silent.1.1]
    exact ⟨rfl, rfl, rfl⟩
  · intro skipped
    exact absurd skipped executes

theorem unusedSum_wellFormed : (unusedSum.cfg 0).WellFormed where
  next_prev := by decide
  acyclic := FunctionCfg.acyclic_of_lt (by decide)
  edges := by decide
  incoming := by decide

theorem unusedSum_readable : ∀ b, ∀ instr ∈ ((unusedSum.cfg 0).block b).instrs,
    ∃ effects, registerEffects none instr.instruction = .ok effects := by
  intro b instr member
  match b with
  | 0 | 1 =>
      rcases List.mem_cons.mp member with rfl | member
      · exact ⟨_, rfl⟩
      · rw [List.mem_singleton.mp member]
        exact ⟨_, rfl⟩

theorem unusedSum_returns (b : Fin 2) : FoundFromReturn unusedSum.block b := by
  refine ⟨1, by decide, ?_⟩
  match b with
  | 0 => exact .single (Or.inl (by decide))
  | 1 => exact .refl

theorem eliminateDeadWrites_runs_unusedSum :
    ∃ fuel analysis,
      LivenessAnalysis.handleFunction unusedSum.block (fun _ _ => none) false
          (some { out := fullSubRegisterMask (.gprs64 .A), preserved := ∅ }) [1] fuel =
            .ok (some (.analysed analysis)) ∧
        ∃ later, eliminateDeadWrites [0, 1]
            { unusedSum with block := labelled analysis unusedSum.block } = .ok later ∧
          ∀ store seen, (later.cfg 0).MachineShows clearing
              (fullSubRegisterMask (.gprs64 .A) ∪ ∅) store () seen ↔
            (unusedSum.cfg 0).MachineShows clearing
              (fullSubRegisterMask (.gprs64 .A) ∪ ∅) store () seen := by
  have edges : LivenessAnalysis.ReturnEdges unusedSum.block [1] := ⟨by decide, by decide⟩
  have known := effectsOf_static unusedSum_readable
  obtain ⟨fuel, analysis, ran⟩ := LivenessAnalysis.handleFunction_ends unusedSum_wellFormed edges
    (by decide) known { out := fullSubRegisterMask (.gprs64 .A), preserved := ∅ }
  have all (b : Fin 2) : b ∈ [(0 : Fin 2), 1] := by
    revert b
    decide
  obtain ⟨later, removed, _, _, shows⟩ := eliminateDeadWrites_runs rfl ⟨by decide, by decide⟩
    (show [(0 : Fin 2), 1].Nodup by decide) unusedSum_wellFormed
    (fun b _reachable => ⟨all b, unusedSum_returns b⟩) edges (by decide) known ran
  refine ⟨fuel, analysis, ran, later, removed, fun store => shows clearing store () ?_⟩
  intro b index instr now nowMemory there _
  have read : registerEffects none instr.instruction =
      .ok (staticEffects (unusedSum.cfg 0) b index) :=
    known b (unusedSum_returns b) index instr there
  exact clearing_true read now nowMemory

/-! ### A jump to unknown code -/

def tailJump : Nodes (Fin 3) where
  valid := fun _ => false
  hasInfo := true
  entryBlock := some 0
  block
    | 0 =>
        { instrs := [⟨⟨.JNZa, [.mem (.direct (.plain 0))]⟩, none, some 2⟩]
          next := some 1
          prev := none
          incomingEdges := []
          outgoingEdges := [2] }
    | 1 =>
        { instrs := [⟨⟨.RET, []⟩, none, none⟩]
          next := none
          prev := some 0
          incomingEdges := []
          outgoingEdges := [] }
    | 2 =>
        { instrs := [⟨⟨.JMPr, [.reg (.gprs64 .A)]⟩, none, none⟩]
          next := none
          prev := none
          incomingEdges := [0]
          outgoingEdges := [] }
  blockValid := fun _ _ => false
  entryState := fun _ => none
  visited := []
  icfgValid := fun _ => false

theorem tailJump_wellFormed : (tailJump.cfg 0).WellFormed where
  next_prev := by decide
  acyclic := FunctionCfg.acyclic_of_lt (by decide)
  edges := by decide
  incoming := by decide

theorem tailJump_readable : ∀ b, ∀ instr ∈ ((tailJump.cfg 0).block b).instrs,
    ∃ effects, registerEffects none instr.instruction = .ok effects := by
  intro b instr member
  match b with
  | 0 | 1 | 2 =>
      rw [List.mem_singleton.mp member]
      exact ⟨_, rfl⟩

theorem tailJump_unfound : ¬ FoundFromReturn tailJump.block 2 := by
  rintro ⟨last, ⟨instr, member, returns⟩, path⟩
  have only : last = 1 := by
    match last with
    | 0 | 2 =>
        rw [List.mem_singleton.mp member] at returns
        cases returns
    | 1 => rfl
  have stays : ∀ x y : Fin 3, x ≠ 2 → GoesOn tailJump.block x y → y ≠ 2 := by
    unfold GoesOn
    decide
  have inside (b : Fin 3) (path : Relation.ReflTransGen (GoesOn tailJump.block) 1 b) : b ≠ 2 := by
    induction path with
    | refl => decide
    | @tail x y _ step ih => exact stays x y ih step
  rw [only] at path
  exact inside 2 path rfl

def jumping : AbstractMachine Unit Unit Unit := fun instruction store memory =>
  { store, memory, output := none, taken := instruction.isBranch }

/-- The original function leaves to the unknown code, and what is left of it does nothing. -/
theorem eliminateDeadWrites_unfound_tailJump :
    Traces.Trace ((tailJump.cfg 0).MachineStep jumping ∅)
        (some ((tailJump.cfg 0).enterWith 2 (fun _ => ()) ())) [.left (fun _ => ()) ()] ∧
      ∃ fuel analysis,
        LivenessAnalysis.handleFunction tailJump.block (fun _ _ => none) false
            (some { out := fullSubRegisterMask (.gprs64 .A), preserved := ∅ }) [1] fuel =
              .ok (some (.analysed analysis)) ∧
          ∃ later, eliminateDeadWrites [0, 1, 2]
              { tailJump with block := labelled analysis tailJump.block } = .ok later ∧
            ∀ seen, Traces.Trace ((later.cfg 0).MachineStep jumping ∅)
              (some ((later.cfg 0).enterWith 2 (fun _ => ()) ())) seen → seen = [] := by
  constructor
  · exact .visible (.away rfl rfl rfl rfl) (.nil none)
  · have edges : LivenessAnalysis.ReturnEdges tailJump.block [1] := ⟨by decide, by decide⟩
    have known := effectsOf_static tailJump_readable
    obtain ⟨fuel, analysis, ran⟩ := LivenessAnalysis.handleFunction_ends tailJump_wellFormed edges
      (by decide) known { out := fullSubRegisterMask (.gprs64 .A), preserved := ∅ }
    obtain ⟨later, removed, emptied⟩ := eliminateDeadWrites_unfound ⟨by decide, by decide⟩
      (show [(0 : Fin 3), 1, 2].Nodup by decide) (by decide) (by decide) tailJump_wellFormed edges
      (by decide) known ran
    exact ⟨fuel, analysis, ran, later, removed,
      (emptied 2 tailJump_unfound).2 jumping ∅ (fun _ => ()) ()⟩

end DeadWrites

end Drob
