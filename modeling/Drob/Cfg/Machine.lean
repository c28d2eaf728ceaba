import Drob.StackAnalysis.Pass
import Drob.Library.Footprints
import Drob.Library.Traces

/-!
Runs of a function on a machine: what its instructions do to registers and memory is a
parameter, and what is seen of a run is what it puts out, and what it leaves behind when it
returns or branches to unknown code.
-/

namespace Drob

open Footprints

variable {ι α μ ω : Type}

abbrev AbstractMachine (α μ ω : Type) :=
  Instruction → (SubRegister → α) → μ → Result SubRegister α μ ω

inductive Seen (α μ ω : Type) where
  | output (value : ω)
  /-- Only the registers that the caller may look at. -/
  | returned (values : SubRegister → Option α) (memory : μ)
  | left (store : SubRegister → α) (memory : μ)

structure MachinePlace (ι α μ : Type) where
  block : ι
  rest : List (BlockInstruction ι)
  store : SubRegister → α
  memory : μ

def returnedValues (live_ret : SubRegisterMask) (store : SubRegister → α) :
    SubRegister → Option α :=
  fun reg => if reg ∈ live_ret then some (store reg) else none

namespace FunctionCfg

variable (cfg : FunctionCfg ι) (machine : AbstractMachine α μ ω) (live_ret : SubRegisterMask)

def enterWith (b : ι) (store : SubRegister → α) (memory : μ) : MachinePlace ι α μ :=
  { block := b, rest := (cfg.block b).instrs, store, memory }

/-- `none` is outside of the function. -/
inductive MachineStep : Option (MachinePlace ι α μ) → Option (Seen α μ ω) → Option (MachinePlace ι α μ) →
    Prop where
  | fall {b n : ι} {store : SubRegister → α} {memory : μ}
      (falls : (cfg.block b).next = some n) :
      MachineStep (some { block := b, rest := [], store, memory }) none
        (some (cfg.enterWith n store memory))
  | ret {b : ι} {instr : BlockInstruction ι} {rest : List (BlockInstruction ι)}
      {store : SubRegister → α} {memory : μ} (returns : instr.instruction.isRet = true) :
      MachineStep (some { block := b, rest := instr :: rest, store, memory })
        (some (.returned (returnedValues live_ret store) memory)) none
  | taken {b dst : ι} {instr : BlockInstruction ι} {rest : List (BlockInstruction ι)}
      {store : SubRegister → α} {memory : μ} (stays : instr.instruction.isRet = false)
      (branch : instr.instruction.isBranch = true) (edge : instr.branchEdge = some dst)
      (takes : (machine instr.instruction store memory).taken = true) :
      MachineStep (some { block := b, rest := instr :: rest, store, memory })
        ((machine instr.instruction store memory).output.map .output)
        (some (cfg.enterWith dst (machine instr.instruction store memory).store
          (machine instr.instruction store memory).memory))
  | away {b : ι} {instr : BlockInstruction ι} {rest : List (BlockInstruction ι)}
      {store : SubRegister → α} {memory : μ} (stays : instr.instruction.isRet = false)
      (branch : instr.instruction.isBranch = true) (edge : instr.branchEdge = none)
      (takes : (machine instr.instruction store memory).taken = true) :
      MachineStep (some { block := b, rest := instr :: rest, store, memory })
        (some (.left (machine instr.instruction store memory).store
          (machine instr.instruction store memory).memory)) none
  | on {b : ι} {instr : BlockInstruction ι} {rest : List (BlockInstruction ι)}
      {store : SubRegister → α} {memory : μ} (stays : instr.instruction.isRet = false)
      (passes : instr.instruction.isBranch = true →
        (machine instr.instruction store memory).taken = false) :
      MachineStep (some { block := b, rest := instr :: rest, store, memory })
        ((machine instr.instruction store memory).output.map .output)
        (some
          { block := b
            rest
            store := (machine instr.instruction store memory).store
            memory := (machine instr.instruction store memory).memory })

/-- What is seen of the runs that enter the function with some registers and memory. -/
def MachineShows (store : SubRegister → α) (memory : μ) (seen : List (Seen α μ ω)) : Prop :=
  Traces.Trace (cfg.MachineStep machine live_ret)
    (some (cfg.enterWith cfg.entryBlock store memory)) seen

def MachineReaches (store : SubRegister → α) (memory : μ) (place : Option (MachinePlace ι α μ)) : Prop :=
  ∃ seen, Traces.Run (cfg.MachineStep machine live_ret)
    (some (cfg.enterWith cfg.entryBlock store memory)) seen place

variable {cfg machine live_ret}

theorem MachineReaches.step {store : SubRegister → α} {memory : μ}
    {place later : Option (MachinePlace ι α μ)} {label : Option (Seen α μ ω)}
    (reaches : cfg.MachineReaches machine live_ret store memory place)
    (step : cfg.MachineStep machine live_ret place label later) :
    cfg.MachineReaches machine live_ret store memory later := by
  obtain ⟨seen, run⟩ := reaches
  cases label with
  | none => exact ⟨seen ++ [], run.append (.silent step (.nil _))⟩
  | some value => exact ⟨seen ++ [value], run.append (.visible step (.nil _))⟩

/-! ### Data of the analyses -/

/-- The same instruction with the same edge, whatever an analysis knows about it. -/
structure SameInstruction (instr other : BlockInstruction ι) : Prop where
  instruction : other.instruction = instr.instruction
  branchEdge : other.branchEdge = instr.branchEdge

structure SameCode (cfg other : FunctionCfg ι) : Prop where
  entry : other.entryBlock = cfg.entryBlock
  next : ∀ b, (other.block b).next = (cfg.block b).next
  instrs : ∀ b, List.Forall₂ SameInstruction (cfg.block b).instrs (other.block b).instrs

theorem SameCode.symm {other : FunctionCfg ι} (same : cfg.SameCode other) :
    other.SameCode cfg := by
  refine ⟨same.entry.symm, fun b => (same.next b).symm, fun b => ?_⟩
  refine (same.instrs b).flip.imp ?_
  intro instr own known
  exact ⟨known.instruction.symm, known.branchEdge.symm⟩

inductive SamePlace (cfg other : FunctionCfg ι) :
    Option (MachinePlace ι α μ) → Option (MachinePlace ι α μ) → Prop where
  | gone : SamePlace cfg other none none
  | inside (b : ι) (index : ℕ) (store : SubRegister → α) (memory : μ) :
      SamePlace cfg other
        (some { block := b, rest := (cfg.block b).instrs.drop index, store, memory })
        (some { block := b, rest := (other.block b).instrs.drop index, store, memory })

theorem SamePlace.symm {other : FunctionCfg ι} {s t : Option (MachinePlace ι α μ)}
    (same : SamePlace cfg other s t) : SamePlace other cfg t s := by
  cases same with
  | gone => exact .gone
  | inside b index store memory => exact .inside b index store memory

theorem SamePlace.enter (cfg other : FunctionCfg ι) (b : ι) (store : SubRegister → α)
    (memory : μ) : SamePlace cfg other (some (cfg.enterWith b store memory))
      (some (other.enterWith b store memory)) :=
  .inside b 0 store memory

theorem SamePlace.step {other : FunctionCfg ι} (code : cfg.SameCode other)
    {s s' t : Option (MachinePlace ι α μ)} {label : Option (Seen α μ ω)} (same : SamePlace cfg other s t)
    (step : cfg.MachineStep machine live_ret s label s') :
    ∃ t', SamePlace cfg other s' t' ∧ other.MachineStep machine live_ret t label t' := by
  cases same with
  | gone => cases step
  | inside b index store memory =>
      have instrs := List.forall₂_drop index (code.instrs b)
      generalize here : (cfg.block b).instrs.drop index = rest at step instrs
      generalize there : (other.block b).instrs.drop index = others at instrs
      have later {instr own : BlockInstruction ι} {front back : List (BlockInstruction ι)}
          (hereFirst : (cfg.block b).instrs.drop index = instr :: front)
          (thereFirst : (other.block b).instrs.drop index = own :: back)
          (now : SubRegister → α) (nowMemory : μ) :
          SamePlace cfg other
            (some { block := b, rest := front, store := now, memory := nowMemory })
            (some { block := b, rest := back, store := now, memory := nowMemory }) := by
        have next : SamePlace cfg other _ _ := .inside b (index + 1) now nowMemory
        rw [← List.tail_drop, ← List.tail_drop, hereFirst, thereFirst] at next
        exact next
      cases instrs with
      | nil =>
          cases step with
          | fall falls =>
              exact ⟨_, .enter cfg other _ store memory, .fall ((code.next b).trans falls)⟩
      | @cons instr own front back known _ =>
          have moves := later here there
          cases step with
          | ret returns =>
              refine ⟨none, .gone, .ret ?_⟩
              rw [known.instruction]
              exact returns
          | taken stays branch edge takes =>
              refine ⟨_, .enter cfg other _ _ _, ?_⟩
              rw [← known.instruction] at stays branch takes ⊢
              exact .taken stays branch (known.branchEdge.trans edge) takes
          | away stays branch edge takes =>
              refine ⟨none, .gone, ?_⟩
              rw [← known.instruction] at stays branch takes ⊢
              exact .away stays branch (known.branchEdge.trans edge) takes
          | on stays passes =>
              refine ⟨_, moves _ _, ?_⟩
              rw [← known.instruction] at stays passes ⊢
              exact .on stays passes

theorem simulates_sameCode {other : FunctionCfg ι} (code : cfg.SameCode other) :
    Traces.Simulates (cfg.MachineStep machine live_ret) (other.MachineStep machine live_ret)
      (SamePlace cfg other) := by
  intro s t s' label same step
  obtain ⟨t', later, matched⟩ := same.step code step
  exact ⟨t', later, .single matched⟩

theorem machineShows_congr {other : FunctionCfg ι} (code : cfg.SameCode other)
    (store : SubRegister → α) (memory : μ) (seen : List (Seen α μ ω)) :
    other.MachineShows machine live_ret store memory seen ↔
      cfg.MachineShows machine live_ret store memory seen := by
  unfold MachineShows
  rw [code.entry]
  have back : Traces.Simulates (other.MachineStep machine live_ret)
      (cfg.MachineStep machine live_ret) (fun t s => SamePlace cfg other s t) := by
    intro t s t' label same step
    obtain ⟨s', later, matched⟩ := same.symm.step code.symm step
    exact ⟨s', later.symm, .single matched⟩
  exact Traces.trace_iff (simulates_sameCode code) back (.enter cfg other _ store memory) seen

theorem MachineReaches.congr {other : FunctionCfg ι} (code : cfg.SameCode other)
    {store : SubRegister → α} {memory : μ} {place : Option (MachinePlace ι α μ)}
    (reaches : cfg.MachineReaches machine live_ret store memory place) :
    ∃ placeOther, SamePlace cfg other place placeOther ∧
      other.MachineReaches machine live_ret store memory placeOther := by
  obtain ⟨seen, run⟩ := reaches
  obtain ⟨placeOther, same, runOther⟩ := (simulates_sameCode code).run
    (.enter cfg other cfg.entryBlock store memory) run
  rw [← code.entry] at runOther
  exact ⟨placeOther, same, seen, runOther⟩

end FunctionCfg

end Drob
