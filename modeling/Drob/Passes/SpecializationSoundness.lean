import Drob.CodeGeneration.Allocation
import Drob.Execution.Effects
import Drob.Passes.MemoryOperandLocation
import Drob.Passes.Specialization

/-!
The specialization of an instruction does what the instruction does, as far as somebody reads
it later, except that a clear upper half of a register may be left as it was or the other way
round.
-/

namespace Drob

open LittleEndian DynamicValue

structure PoolMemory.Loaded (pool : PoolMemory) (memory : BitVec 64 → BitVec 8) : Prop where
  const64 : ∀ entry ∈ pool.map64,
    readMemory memory 128 (BitVec.ofNat 64 entry.2) 8 = entry.1.setWidth 128
  const128 : ∀ entry ∈ pool.map128,
    readMemory memory 128 (BitVec.ofNat 64 entry.2) 16 = entry.1

def Instruction.XorsItself (instruction : Instruction) : Prop :=
  (instruction.opcode = .XOR32rr ∨ instruction.opcode = .XOR64rr ∨
    instruction.opcode = .PXOR128rr) ∧ Specialize.sameRegister instruction.rawOperands = true

/-- What is known about the inputs and the result of an instruction is true. -/
structure DynamicInstructionInfo.Tells (dynInfo : DynamicInstructionInfo) (base : PtrBase)
    (host : Host) (instruction : Instruction) (p : Processor) : Prop where
  input0 : instruction.opcode.kind.readsDestination = true → ¬ instruction.XorsItself →
    ∀ value, Specialize.input dynInfo 0 = .ok value →
      value.Describes base ((p.read instruction.opcode.kind.bytes instruction.destination).setWidth
        (8 * instruction.opcode.kind.bytes))
  input1 : instruction.opcode.kind.readsSource = true → ¬ instruction.XorsItself →
    ∀ value, Specialize.input dynInfo 1 = .ok value →
      value.Describes base ((p.read instruction.opcode.kind.sourceBytes instruction.source).setWidth
        (8 * instruction.opcode.kind.sourceBytes))
  output0 : instruction.opcode.kind.writesDestination = true →
    ∀ value, Specialize.output dynInfo 0 = .ok value →
      value.Describes base ((p.result host instruction).setWidth
        (8 * instruction.opcode.kind.bytes))

namespace Specialized

def execute (host : Host) (instruction : Instruction) (p : Processor) : Specialized → Processor
  | .NoChange => p.execute host instruction
  | .Change opcode explOperands => p.execute host { opcode, rawOperands := explOperands }
  | .Delete => p

/-- The load of a scalar result clears the upper half of the register, which the original
instruction keeps. -/
def lostByLoad (instruction : Instruction) (opcode : Opcode) : SubRegisterMask :=
  match instruction.opcode.kind, instruction.destination with
  | .float _, .reg (.sse128 nr) =>
      if opcode = .MOVSDrm then
        (archGetRegisterInfo (.sse128 nr)).h.elim ∅ (fun halves => halves 1)
      else ∅
  | _, _ => ∅

/-- A write to a 32-bit register clears the upper half of its parent, a deleted one does not. -/
def lostByDeletion (instruction : Instruction) : SubRegisterMask :=
  match instruction.destination with
  | .reg (.gprs32 gpr) => {.gpr gpr .D1}
  | _ => ∅

/-- The sub-registers for which a replacement does something else than the original. -/
def lost (instruction : Instruction) : Specialized → SubRegisterMask
  | .NoChange => ∅
  | .Change opcode _ => lostByLoad instruction opcode
  | .Delete => lostByDeletion instruction

end Specialized

namespace Specialize

open Processor

variable {p : Processor} {host : Host} {base : PtrBase} {old : Instruction}
variable {context : Context} {pool later : PoolMemory} {dynInfo : DynamicInstructionInfo}
variable {livenessData : LivenessData} {live : SubRegisterMask} {specialized : Specialized}

/-! ### Known values -/

theorem getImm_describes (configured : context.Configured base) {data : DynamicValue}
    {imm : Immediate64} (known : getImm data context = .ok (some imm)) {w : Nat}
    {value : BitVec w} (described : data.Describes base value) : value = imm.val.setWidth w := by
  unfold getImm at known
  split at known
  · cases known
    exact described
  · cases known
  · obtain ⟨ptrCfg, found, known⟩ := bind_ok known
    split at known
    · rename_i isKnown
      cases known
      change value = BitVec.setWidth w _ at described
      rw [described, configured _ _ found isKnown]
    · cases known
  · cases known

theorem read_imm (configured : context.Configured base) {data : DynamicValue} {imm : Immediate64}
    (known : getImm data context = .ok (some imm)) {bytes : Nat} {value : BitVec 128}
    (short : HasBytes bytes value) (described : data.Describes base (value.setWidth (8 * bytes))) :
    p.read bytes (.imm imm) = value :=
  (short.eq_ofBytes (getImm_describes configured known described)).symm

theorem read_imm_eight (p : Processor) (imm : Immediate64) :
    p.read 8 (.imm imm) = imm.val.setWidth 128 := by
  change ofBytes 128 (byte imm.val) 8 = _
  rw [← setWidth_ofBytes (byte imm.val) (n := 8) (Nat.le_refl 64),
    ofBytes_byte imm.val (n := 8) (Nat.le_refl 64)]

theorem eq_zero (configured : context.Configured base) {data : DynamicValue} {imm : Immediate64}
    (known : getImm data context = .ok (some imm)) (zero : imm.val = 0) {bytes : Nat}
    {value : BitVec 128} (short : HasBytes bytes value)
    (described : data.Describes base (value.setWidth (8 * bytes))) : value = 0 := by
  rw [short.zero_iff]
  intro i below
  rw [short.eq_ofBytes (getImm_describes configured known described), zero]
  by_cases inside : 8 * bytes ≤ 128
  · rw [byte_ofBytes _ below inside, byte_zero]
  · apply BitVec.eq_of_getLsbD_eq
    intro k _
    rw [getLsbD_byte, getLsbD_ofBytes, byte_zero]
    simp

theorem mem_map64 {val : BitVec 64} {addr : Nat}
    (allocated : pool.allocConstant64 val = (.ok addr, later)) : (val, addr) ∈ later.map64 := by
  unfold PoolMemory.allocConstant64 at allocated
  split at allocated
  · rename_i found
    cases allocated
    exact PoolMemory.mem_of_lookup found
  · split at allocated
    · cases allocated
      exact List.mem_cons_self
    · rename_i failed
      exact absurd allocated (failed _ _)

theorem mem_map128 {val : BitVec 128} {addr : Nat}
    (allocated : pool.allocConstant128 val = (.ok addr, later)) : (val, addr) ∈ later.map128 := by
  unfold PoolMemory.allocConstant128 at allocated
  split at allocated
  · rename_i found
    cases allocated
    exact PoolMemory.mem_of_lookup found
  · split at allocated
    · cases allocated
      exact List.mem_cons_self
    · rename_i failed
      exact absurd allocated (failed _ _)

theorem load_ok {opcode : Opcode} {explOperands : ExplicitStaticOperands}
    {allocated : Except Failure Nat × PoolMemory}
    (ran : load opcode explOperands allocated = .ok (specialized, later)) :
    ∃ addr, allocated = (.ok addr, later) ∧ specialized =
      .Change opcode (setSource explOperands (.mem (.direct (.plain (BitVec.ofNat 64 addr))))) := by
  obtain ⟨answer, after⟩ := allocated
  cases answer with
  | error failure => cases ran
  | ok addr =>
      cases ran
      exact ⟨addr, rfl, rfl⟩

theorem read_direct (p : Processor) (bytes : Nat) (addr : BitVec 64) :
    p.read bytes (.mem (.direct (.plain addr))) = readMemory p.memory 128 addr bytes := by
  have atAddr : p.address (.direct (.plain addr)) = addr := by
    unfold address StaticMemPtr.effectiveAddress
    exact if_neg Bool.false_ne_true
  change readMemory p.memory 128 (p.address _) bytes = _
  rw [atAddr]

theorem read_const64 (loaded : later.Loaded p.memory) {val : BitVec 64} {addr : Nat}
    (allocated : pool.allocConstant64 val = (.ok addr, later)) :
    p.read 8 (.mem (.direct (.plain (BitVec.ofNat 64 addr)))) = val.setWidth 128 := by
  rw [read_direct]
  exact loaded.const64 (val, addr) (mem_map64 allocated)

theorem read_const128 (loaded : later.Loaded p.memory) {val : BitVec 128} {addr : Nat}
    (allocated : pool.allocConstant128 val = (.ok addr, later)) :
    p.read 16 (.mem (.direct (.plain (BitVec.ofNat 64 addr)))) = val := by
  rw [read_direct]
  exact loaded.const128 (val, addr) (mem_map128 allocated)

/-! ### The forms of a replacement -/

/-- How a specialized instruction stands for the original one. -/
inductive Stands (p : Processor) (host : Host) (live : SubRegisterMask) (old : Instruction) :
    Specialized → Prop where
  | unchanged : Stands p host live old .NoChange
  | changed {opcode : Opcode} {explOperands : ExplicitStaticOperands}
      (same : SameOn live (p.execute host old)
        (p.execute host { opcode, rawOperands := explOperands }))
      (kept : Specialized.lostByLoad old opcode = ∅) :
      Stands p host live old (.Change opcode explOperands)
  | loaded {nr : Fin 16} {op : FloatOp} {explOperands : ExplicitStaticOperands} {ptr : StaticMemPtr}
      (kind : old.opcode.kind = .float op) (scalar : old.opcode.kind.bytes = 8)
      (destination : old.destination = .reg (.sse128 nr))
      (first : explOperands.op 0 = some (.reg (.sse128 nr)))
      (second : explOperands.op 1 = some (.mem ptr))
      (value : p.read 8 (.mem ptr) = p.result host old) :
      Stands p host live old (.Change .MOVSDrm explOperands)
  | deleted (plain : old.opcode.kind.isPlain = true) (other : old.opcode.kind ≠ .movsd ∨
        ∃ reg, old.source = .reg reg)
      (value : p.result host old = p.read old.opcode.kind.bytes old.destination)
      (writes : old.opcode.kind.writesDestination = true)
      (unread : ∀ flag, .flag flag ∈ live → p.flagEffects old flag = .unchanged) :
      Stands p host live old .Delete

/-! ### What a load loses -/

section Loads

variable {opcode : Opcode} {explOperands : ExplicitStaticOperands} {nr : Fin 16}

theorem mem_lost_load {op : FloatOp} (kind : old.opcode.kind = .float op)
    (destination : old.destination = .reg (.sse128 nr)) (sub : SubRegister) :
    sub ∈ Specialized.lost old (.Change .MOVSDrm explOperands) ↔
      ∃ lane : Fin 4, 2 ≤ lane.val ∧ sub = .xmm nr lane := by
  change sub ∈ Specialized.lostByLoad old .MOVSDrm ↔ _
  unfold Specialized.lostByLoad
  rw [kind, destination]
  change sub ∈ ({.xmm nr 2, .xmm nr 3} : SubRegisterMask) ↔ _
  rw [Finset.mem_insert, Finset.mem_singleton]
  constructor
  · intro either
    rcases either with rfl | rfl
    · exact ⟨2, by decide, rfl⟩
    · exact ⟨3, by decide, rfl⟩
  · intro ⟨lane, high, isLane⟩
    rw [isLane]
    have bound := lane.isLt
    simp only [SubRegister.xmm.injEq, true_and]
    omega

theorem execute_float {op : FloatOp} (kind : old.opcode.kind = .float op) :
    p.execute host old = p.write old.opcode.kind.bytes (p.result host old) old.destination := by
  have plain : old.opcode.kind.isPlain = true := by rw [kind]; rfl
  have noFlags : p.flagEffects old = fun _ => .unchanged :=
    flagEffects_other (fun op v isAlu => absurd (kind.symm.trans isAlu) (by nofun))
  rw [execute_plain plain, noFlags, setFlags_unchanged]
  unfold written
  rw [writtenBytes_eq (by rw [kind]; nofun), if_pos (by rw [kind]; rfl)]

theorem execute_load {ptr : StaticMemPtr} (first : explOperands.op 0 = some (.reg (.sse128 nr)))
    (second : explOperands.op 1 = some (.mem ptr)) :
    p.execute host { opcode := .MOVSDrm, rawOperands := explOperands } =
      p.write 16 (p.read 8 (.mem ptr)) (.reg (.sse128 nr)) := by
  have isFirst : Instruction.destination { opcode := .MOVSDrm, rawOperands := explOperands } =
      .reg (.sse128 nr) := congrArg (fun found => found.getD (.imm (.plain 0))) first
  have isSecond : Instruction.source { opcode := .MOVSDrm, rawOperands := explOperands } =
      .mem ptr := congrArg (fun found => found.getD (.reg .CL)) second
  rw [execute_plain rfl]
  change (p.written host _).setFlags host (fun _ => .unchanged) = _
  rw [setFlags_unchanged]
  change p.write (writtenBytes _) (p.read 8 (Instruction.source _)) (Instruction.destination _) = _
  unfold writtenBytes
  rw [isFirst, isSecond]
  rfl

theorem container_of_covers_xmm {lane : Fin 4} {container : Container} {k : Nat}
    (covers : (SubRegister.xmm nr lane).covers container k) : container = .sse128 nr := by
  cases container with
  | sse128 other => exact congrArg Container.sse128 covers.1.symm
  | flag1 flag => exact absurd covers not_false
  | gprs64 gpr => exact absurd covers not_false

theorem loaded_sameOn_iff {op : FloatOp} {ptr : StaticMemPtr} (kind : old.opcode.kind = .float op)
    (scalar : old.opcode.kind.bytes = 8) (destination : old.destination = .reg (.sse128 nr))
    (first : explOperands.op 0 = some (.reg (.sse128 nr)))
    (second : explOperands.op 1 = some (.mem ptr))
    (value : p.read 8 (.mem ptr) = p.result host old) :
    SameOn live (p.execute host old)
        (p.execute host { opcode := .MOVSDrm, rawOperands := explOperands }) ↔
      ∀ sub ∈ Specialized.lost old (.Change .MOVSDrm explOperands), sub ∈ live →
        ∀ container k, sub.covers container k → p.reg container k = 0 := by
  have short : HasBytes 8 (p.result host old) := by
    rw [← value]
    exact hasBytes_read p (by decide) _
  rw [execute_float kind, execute_load first second, scalar, destination, value,
    sameOn_load_iff nr short]
  constructor
  · intro zero sub isLost isLive container k covers
    obtain ⟨lane, high, rfl⟩ := (mem_lost_load kind destination sub).mp isLost
    cases container_of_covers_xmm covers
    exact zero lane high isLive k covers
  · intro zero lane high isLive k covers
    have isLost : .xmm nr lane ∈ Specialized.lost old (.Change .MOVSDrm explOperands) :=
      (mem_lost_load kind destination _).mpr ⟨lane, high, rfl⟩
    exact zero _ isLost isLive _ k covers

end Loads

/-! ### What a deletion loses -/

section Deletions

variable (plain : old.opcode.kind.isPlain = true)
variable (other : old.opcode.kind ≠ .movsd ∨ ∃ reg, old.source = .reg reg)

include other in
theorem writtenBytes_of_register : writtenBytes old = old.opcode.kind.bytes := by
  rcases other with notMovsd | ⟨reg, source⟩
  · exact writtenBytes_eq notMovsd
  · unfold writtenBytes
    rw [source]
    split
    · rename_i impossible
      cases impossible
    · rfl

variable (value : p.result host old = p.read old.opcode.kind.bytes old.destination)
variable (writes : old.opcode.kind.writesDestination = true)
variable (unread : ∀ flag, .flag flag ∈ live → p.flagEffects old flag = .unchanged)
include plain other value writes unread

theorem sameOn_writeBack : SameOn live (p.execute host old)
    (p.write old.opcode.kind.bytes (p.read old.opcode.kind.bytes old.destination)
      old.destination) := by
  have isWritten : p.written host old =
      p.write old.opcode.kind.bytes (p.read old.opcode.kind.bytes old.destination)
        old.destination := by
    unfold written
    rw [if_pos writes, writtenBytes_of_register other, value]
  rw [execute_plain plain, ← isWritten]
  exact sameOn_unread unread

theorem deleted_half_sameOn_iff {gpr : Gpr} (destination : old.destination = .reg (.gprs32 gpr))
    (narrow : old.opcode.kind.bytes = 4) :
    SameOn live (p.execute host old) p ↔
      (.gpr gpr .D1 ∈ live → ∀ k, 4 ≤ k → k < 8 → p.reg (.gprs64 gpr) k = 0) := by
  have same := sameOn_writeBack plain other value writes unread
  rw [narrow, destination] at same
  rw [← sameOn_writeBack32_iff gpr]
  exact ⟨same.symm.trans, same.trans⟩

theorem deleted_whole_sameOn (whole : ∀ gpr, old.destination ≠ .reg (.gprs32 gpr)) :
    SameOn live (p.execute host old) p := by
  have same := sameOn_writeBack plain other value writes unread
  rw [write_read p (plain_width plain).1 whole] at same
  exact same

theorem deleted_sameOn_iff
    (narrow : ∀ gpr, old.destination = .reg (.gprs32 gpr) → old.opcode.kind.bytes = 4) :
    SameOn live (p.execute host old) p ↔
      ∀ sub ∈ Specialized.lost old .Delete, sub ∈ live → ∀ container k, sub.covers container k →
        p.reg container k = 0 := by
  change _ ↔ ∀ sub ∈ Specialized.lostByDeletion old, _
  unfold Specialized.lostByDeletion
  split
  · rename_i gpr destination
    rw [deleted_half_sameOn_iff plain other value writes unread destination
      (narrow gpr destination)]
    constructor
    · intro zero sub isLost isLive container k covers
      cases Finset.mem_singleton.mp isLost
      cases container with
      | gprs64 otherGpr =>
          obtain ⟨rfl, later, before⟩ := covers
          exact zero isLive k later before
      | flag1 flag => exact absurd covers not_false
      | sse128 nr => exact absurd covers not_false
    · intro zero isLive k later before
      exact zero _ (Finset.mem_singleton_self _) isLive _ k ⟨rfl, later, before⟩
  · rename_i whole
    have same := deleted_whole_sameOn plain other value writes unread whole
    exact iff_of_true same (fun sub isLost => absurd isLost (Finset.notMem_empty sub))

end Deletions

theorem Stands.sameOn_iff (stands : Stands p host live old specialized)
    (narrow : ∀ gpr, old.destination = .reg (.gprs32 gpr) → old.opcode.kind.bytes = 4) :
    SameOn live (p.execute host old) (specialized.execute host old p) ↔
      ∀ sub ∈ specialized.lost old, sub ∈ live → ∀ container k, sub.covers container k →
        p.reg container k = 0 := by
  cases stands with
  | unchanged =>
      exact iff_of_true (.refl live _) (fun sub isLost => absurd isLost (Finset.notMem_empty sub))
  | changed same kept =>
      change _ ↔ ∀ sub ∈ Specialized.lostByLoad old _, _
      rw [kept]
      exact iff_of_true same (fun sub isLost => absurd isLost (Finset.notMem_empty sub))
  | loaded kind scalar destination first second value =>
      exact loaded_sameOn_iff kind scalar destination first second value
  | deleted plain other value writes unread =>
      exact deleted_sameOn_iff plain other value writes unread narrow

end Specialize

end Drob
