import Drob.Instruction.AluTable
import Drob.Passes.SpecializationHandlers

/-!
What the pass makes of an instruction, from the rows of the opcode table: the handler fits the
kind of the instruction, and so the replacement stands for it.
-/

namespace Drob

open LittleEndian DynamicValue

/-! ### Handlers and opcodes -/

def SpecializeFn.kind : SpecializeFn → OpcodeKind
  | .nullptr => .unmodelled
  | .add64 => .alu .add 64
  | .addpd => .float .addpd
  | .addsd => .float .addsd
  | .cmp8 => .alu .cmp 8
  | .cmp16 => .alu .cmp 16
  | .cmp32 => .alu .cmp 32
  | .cmp64 => .alu .cmp 64
  | .lea64 => .lea 64
  | .lea32 => .lea 32
  | .lea16 => .lea 16
  | .mov64 => .mov 64
  | .mov32 => .mov 32
  | .movapd | .movupd | .movups => .mov 128
  | .movsd => .movsd
  | .mulpd => .float .mulpd
  | .mulsd => .float .mulsd
  | .pop => .unmodelled
  | .push16 => .push 16
  | .push64 => .push 64
  | .pxor => .alu .pxor 128
  | .shl64 => .alu .shl 64
  | .shr64 => .alu .shr 64
  | .test8 => .alu .test 8
  | .test16 => .alu .test 16
  | .test32 => .alu .test 32
  | .test64 => .alu .test 64
  | .xor64 => .alu .xor 64
  | .xor32 => .alu .xor 32

theorem SpecializeFn.eq_of_unmodelled {fn : SpecializeFn} (unmodelled : fn.kind = .unmodelled) :
    fn = .nullptr ∨ fn = .pop := by
  cases fn <;> first | exact Or.inl rfl | exact Or.inr rfl | cases unmodelled

theorem kind_of_specialize {opcode : Opcode} {row : OpcodeInfo}
    (found : archGetOpcodeInfo opcode = some row) (handled : row.specialize.kind ≠ .unmodelled) :
    opcode.kind = row.specialize.kind := by
  cases opcode <;> cases found <;> first | rfl | exact absurd rfl handled

theorem bytes_of_gprs32 {opcode : Opcode} {row : OpcodeInfo}
    (found : archGetOpcodeInfo opcode = some row) {mode : AccessMode}
    {r w : RegisterAccessType} {rest : List ExplicitStaticOperandInfo}
    (first : row.opInfo = .register .gprs32 mode r w :: rest) : opcode.kind.bytes = 4 := by
  cases opcode <;> cases found <;> cases first <;> rfl

theorem opInfo_ne_nil {opcode : Opcode} {row : OpcodeInfo}
    (found : archGetOpcodeInfo opcode = some row) (handled : row.specialize.kind ≠ .unmodelled) :
    row.opInfo ≠ [] := by
  cases opcode <;> cases found <;> first | exact List.cons_ne_nil _ _ | exact absurd rfl handled

theorem opInfo_scalar {opcode : Opcode} {row : OpcodeInfo}
    (found : archGetOpcodeInfo opcode = some row) {op : FloatOp}
    (isFloat : opcode.kind = .float op) :
    ∃ mode r w rest, row.opInfo = .register .sse128 mode r w :: rest := by
  cases opcode <;> cases isFloat <;> cases found <;> exact ⟨_, _, _, _, rfl⟩

namespace Instruction

variable {instruction : Instruction} {row : OpcodeInfo}

theorem WellTyped.operands (typed : instruction.WellTyped)
    (found : instruction.opcodeInfo = some row) :
    List.Forall₂ StaticOperand.HasType instruction.rawOperands row.opInfo := by
  obtain ⟨own, isOwn, operands⟩ := typed
  rw [found] at isOwn
  cases isOwn
  exact operands

theorem first_of_typed {operands : ExplicitStaticOperands} {infos : List ExplicitStaticOperandInfo}
    (typed : List.Forall₂ StaticOperand.HasType operands infos) {info : ExplicitStaticOperandInfo}
    {rest : List ExplicitStaticOperandInfo} (first : infos = info :: rest) :
    ∃ operand, operands.op 0 = some operand ∧ operand.HasType info := by
  cases typed with
  | nil => cases first
  | cons hasType _ =>
      cases first
      exact ⟨_, rfl, hasType⟩

theorem second_of_typed {operands : ExplicitStaticOperands}
    {infos : List ExplicitStaticOperandInfo}
    (typed : List.Forall₂ StaticOperand.HasType operands infos)
    {info other : ExplicitStaticOperandInfo} {rest : List ExplicitStaticOperandInfo}
    (first : infos = other :: info :: rest) :
    ∃ operand, operands.op 1 = some operand ∧ operand.HasType info := by
  cases typed with
  | nil => cases first
  | cons _ later =>
      cases first
      exact first_of_typed later rfl

theorem register_of_hasType {operand : StaticOperand} {type : RegisterType} {mode : AccessMode}
    {r w : RegisterAccessType} (hasType : operand.HasType (.register type mode r w)) :
    ∃ reg, operand = .reg reg ∧ reg.type = type := by
  cases operand with
  | reg reg => exact ⟨reg, rfl, hasType⟩
  | mem ptr => exact absurd hasType not_false
  | imm imm => exact absurd hasType not_false

theorem memory_of_hasType {operand : StaticOperand} {mode : AccessMode} {size : Nat}
    (hasType : operand.HasType (.memPtr mode size)) : ∃ ptr, operand = .mem ptr := by
  cases operand with
  | reg reg => exact absurd hasType not_false
  | mem ptr => exact ⟨ptr, rfl⟩
  | imm imm => exact absurd hasType not_false

theorem sse128_of_type {reg : Register} (isType : reg.type = .sse128) : ∃ nr, reg = .sse128 nr := by
  cases reg with
  | sse128 nr => exact ⟨nr, rfl⟩
  | flag1 flag => cases isType
  | gprs8 gpr => cases isType
  | gprs8High high => cases isType
  | gprs16 gpr => cases isType
  | gprs32 gpr => cases isType
  | gprs64 gpr => cases isType

variable (typed : instruction.WellTyped) (found : instruction.opcodeInfo = some row)
include typed found

theorem WellTyped.narrow (gpr : Gpr) (destination : instruction.destination = .reg (.gprs32 gpr)) :
    instruction.opcode.kind.bytes = 4 := by
  have operands := typed.operands found
  cases infos : row.opInfo with
  | nil =>
      rw [infos] at operands
      unfold Instruction.destination at destination
      rw [List.forall₂_nil_right_iff.mp operands] at destination
      cases destination
  | cons info rest =>
      obtain ⟨operand, isFirst, hasType⟩ := first_of_typed operands infos
      have isOperand : instruction.destination = operand :=
        congrArg (fun first => first.getD (.imm (.plain 0))) isFirst
      rw [destination] at isOperand
      subst isOperand
      cases info with
      | register type mode r w =>
          change Register.type _ = type at hasType
          subst hasType
          exact bytes_of_gprs32 found infos
      | memPtr mode size => exact absurd hasType not_false
      | immediate type => exact absurd hasType not_false

theorem WellTyped.scalar {op : FloatOp} (isFloat : instruction.opcode.kind = .float op) :
    ∃ nr, instruction.rawOperands.op 0 = some (.reg (.sse128 nr)) := by
  obtain ⟨mode, r, w, rest, infos⟩ := opInfo_scalar found isFloat
  obtain ⟨operand, isFirst, hasType⟩ := first_of_typed (typed.operands found) infos
  obtain ⟨reg, rfl, isType⟩ := register_of_hasType hasType
  obtain ⟨nr, rfl⟩ := sse128_of_type isType
  exact ⟨nr, isFirst⟩

theorem WellTyped.moveOperands : Specialize.MoveOperands instruction where
  load := by
    intro isLoad
    unfold opcodeInfo at found
    have operands := typed.operands found
    rw [isLoad] at found
    cases found
    obtain ⟨dst, isFirst, isRegister⟩ := first_of_typed operands rfl
    obtain ⟨src, isSecond, isMemory⟩ := second_of_typed operands rfl
    obtain ⟨reg, rfl, _⟩ := register_of_hasType isRegister
    obtain ⟨ptr, rfl⟩ := memory_of_hasType isMemory
    exact ⟨reg, ptr, isFirst, isSecond⟩
  store := by
    intro isStore
    unfold opcodeInfo at found
    have operands := typed.operands found
    rw [isStore] at found
    cases found
    obtain ⟨dst, isFirst, isMemory⟩ := first_of_typed operands rfl
    obtain ⟨ptr, rfl⟩ := memory_of_hasType isMemory
    exact ⟨ptr, isFirst⟩

end Instruction

namespace Specialize

open Processor

variable {p : Processor} {host : Host} {base : PtrBase} {instruction : Instruction}
variable {context : Context} {pool later : PoolMemory} {dynInfo : DynamicInstructionInfo}
variable {livenessData : LivenessData} {specialized : Specialized}

theorem handler_stands (typed : instruction.WellTyped) {row : OpcodeInfo}
    (found : instruction.opcodeInfo = some row) (configured : context.Configured base)
    (tells : dynInfo.Tells base host instruction p) (loaded : later.Loaded p.memory)
    (handled : row.specialize.kind ≠ .unmodelled)
    (ran : handler instruction.opcode instruction.rawOperands dynInfo livenessData context pool
      row.specialize = some (.ok (specialized, later))) :
    Stands p host livenessData.live_out instruction specialized := by
  have isKind : instruction.opcode.kind = row.specialize.kind := kind_of_specialize found handled
  have first : ∃ dst, instruction.rawOperands.op 0 = some dst := by
    cases infos : row.opInfo with
    | nil => exact absurd infos (opInfo_ne_nil found handled)
    | cons info rest =>
        obtain ⟨operand, isFirst, _⟩ := Instruction.first_of_typed (typed.operands found) infos
        exact ⟨operand, isFirst⟩
  cases fn : row.specialize with
  | nullptr =>
      rw [fn] at handled
      exact absurd rfl handled
  | pop =>
      rw [fn] at handled
      exact absurd rfl handled
  | add64 =>
      rw [fn] at isKind ran
      exact add64_stands first configured tells loaded isKind (Option.some.inj ran)
  | addpd =>
      rw [fn] at isKind ran
      exact packed_stands first tells loaded isKind (Or.inl rfl) rfl (Option.some.inj ran)
  | mulpd =>
      rw [fn] at isKind ran
      exact packed_stands first tells loaded isKind (Or.inr rfl) rfl (Option.some.inj ran)
  | addsd =>
      rw [fn] at isKind ran
      obtain ⟨nr, destination⟩ := typed.scalar found isKind
      exact scalar_stands first tells loaded isKind (Or.inl rfl) destination rfl
        (Option.some.inj ran)
  | mulsd =>
      rw [fn] at isKind ran
      obtain ⟨nr, destination⟩ := typed.scalar found isKind
      exact scalar_stands first tells loaded isKind (Or.inr rfl) destination rfl
        (Option.some.inj ran)
  | cmp8 | cmp16 | cmp32 =>
      rw [fn] at isKind ran
      exact cmp_stands first configured tells isKind rfl rfl (Option.some.inj ran)
  | cmp64 =>
      rw [fn] at isKind ran
      exact cmp64_stands first configured tells loaded isKind (Option.some.inj ran)
  | lea64 =>
      rw [fn] at isKind ran
      exact lea64_stands first configured tells isKind (Option.some.inj ran)
  | lea32 =>
      rw [fn] at isKind ran
      exact lea32_stands first configured tells isKind (Option.some.inj ran)
  | lea16 =>
      rw [fn] at ran
      cases ran
      exact .unchanged
  | mov64 =>
      rw [fn] at isKind ran
      exact mov64_stands first configured tells isKind (Option.some.inj ran)
  | mov32 =>
      rw [fn] at isKind ran
      exact mov32_stands first configured tells isKind (Option.some.inj ran)
  | movapd | movupd =>
      rw [fn] at isKind ran
      exact movPacked_stands first tells loaded isKind (Option.some.inj ran)
  | movups =>
      rw [fn] at isKind ran
      exact movups_stands first tells loaded isKind (Option.some.inj ran)
  | movsd =>
      rw [fn] at isKind ran
      exact movsd_stands tells loaded isKind (typed.moveOperands found) (Option.some.inj ran)
  | push16 =>
      rw [fn] at isKind ran
      exact push16_stands configured tells isKind (Option.some.inj ran)
  | push64 =>
      rw [fn] at isKind ran
      exact push64_stands configured tells isKind (Option.some.inj ran)
  | pxor =>
      rw [fn] at isKind ran
      exact pxor_stands first tells loaded isKind (Option.some.inj ran)
  | shl64 =>
      rw [fn] at isKind ran
      exact shift_stands first configured tells isKind (Or.inl rfl) rfl rfl (Option.some.inj ran)
  | shr64 =>
      rw [fn] at isKind ran
      exact shift_stands first configured tells isKind (Or.inr rfl) rfl rfl (Option.some.inj ran)
  | test8 | test16 | test32 | test64 =>
      rw [fn] at isKind ran
      exact test_stands first configured tells isKind rfl rfl (Option.some.inj ran)
  | xor64 =>
      rw [fn] at isKind ran
      exact xor64_stands first configured tells loaded isKind (Option.some.inj ran)
  | xor32 =>
      rw [fn] at isKind ran
      exact xor32_stands first configured tells isKind (Option.some.inj ran)

theorem handleInstruction_stands (typed : instruction.WellTyped)
    (configured : context.Configured base) (tells : dynInfo.Tells base host instruction p)
    (loaded : later.Loaded p.memory)
    (ran : handleInstruction instruction (some dynInfo) (some livenessData) context pool =
      .ok (specialized, later)) :
    Stands p host livenessData.live_out instruction specialized := by
  obtain ⟨row, found, _⟩ := id typed
  have handles : (handler instruction.opcode instruction.rawOperands dynInfo livenessData context
      pool row.specialize).getD (.ok (.NoChange, pool)) = .ok (specialized, later) := by
    unfold handleInstruction at ran
    rw [found] at ran
    exact ran
  by_cases handled : row.specialize.kind = .unmodelled
  · rcases SpecializeFn.eq_of_unmodelled handled with fn | fn
    · rw [fn] at handles
      cases handles
      exact .unchanged
    · rw [fn] at handles
      cases handles
      exact .unchanged
  · cases answer : handler instruction.opcode instruction.rawOperands dynInfo livenessData context
        pool row.specialize with
    | none =>
        rw [answer] at handles
        cases handles
        exact .unchanged
    | some result =>
        rw [answer] at handles
        change result = _ at handles
        rw [handles] at answer
        exact handler_stands typed found configured tells loaded handled answer

/-- The memory and what lives are as after the original instruction exactly if what the
replacement loses is zero or does not live. -/
theorem handleInstruction_preserves_iff (typed : instruction.WellTyped)
    (configured : context.Configured base) (tells : dynInfo.Tells base host instruction p)
    (loaded : later.Loaded p.memory)
    (ran : handleInstruction instruction (some dynInfo) (some livenessData) context pool =
      .ok (specialized, later)) :
    SameOn livenessData.live_out (p.execute host instruction)
        (specialized.execute host instruction p) ↔
      ∀ sub ∈ specialized.lost instruction, sub ∈ livenessData.live_out →
        ∀ container k, sub.covers container k → p.reg container k = 0 := by
  obtain ⟨row, found, _⟩ := id typed
  exact (handleInstruction_stands typed configured tells loaded ran).sameOn_iff (typed.narrow found)

/-! ### A known addend and a half that is not cleared -/

def knownCount : ProgramState :=
  (ProgramState.initial.setRegister (.gprs64 .C) .full (.imm64 5) false).toOption.getD .initial

/-- RCX is five, and only the upper half of RAX is not zero. -/
def countingProcessor : Processor :=
  { reg := fun container k =>
      if container = .gprs64 .C ∧ k = 0 then 5
      else if container = .gprs64 .A ∧ k = 4 then 1
      else 0
    memory := fun _ => 0 }

/-- `add rax, rcx` -/
def addCount : Instruction :=
  { opcode := .ADD64rr, rawOperands := [.reg (.gprs64 .A), .reg (.gprs64 .C)] }

/-- `mov eax, eax` -/
def clearHalf : Instruction :=
  { opcode := .MOV32rr, rawOperands := [.reg (.gprs32 .A), .reg (.gprs32 .A)] }

def halfLives : LivenessData :=
  { live_out := {.gpr .A .D1, .flag .CF}, live_in := ∅ }

theorem pointerContext_configured (base : PtrBase) (isBase : base .usr 0 = 0x1000) :
    MemoryOperand.pointerContext.Configured base := by
  intro nr ptrCfg found isKnown
  unfold MemoryOperand.pointerContext Context.getUsrPtrCfg at found
  cases nr with
  | zero =>
      cases found
      exact isBase
  | succ nr => cases found

theorem unusedPool_loaded (memory : BitVec 64 → BitVec 8) :
    MemoryOperand.unusedPool.Loaded memory :=
  ⟨nofun, nofun⟩

theorem handleInstruction_preserves_iff_countingProcessor :
    let context := MemoryOperand.pointerContext
    let pool := MemoryOperand.unusedPool
    let host := AluEmulation.clearHost
    (∃ dynInfo grown specialized,
      addCount.genDynInfo knownCount context = .ok (dynInfo, grown) ∧
      handleInstruction addCount (some dynInfo) (some halfLives) context pool =
        .ok (specialized, pool) ∧
      specialized = .Change .ADD64ri [.reg (.gprs64 .A), .imm (.plain 5)] ∧
      SameOn halfLives.live_out (countingProcessor.execute host addCount)
        (specialized.execute host addCount countingProcessor)) ∧
      ∃ dynInfo grown,
        clearHalf.genDynInfo knownCount context = .ok (dynInfo, grown) ∧
        handleInstruction clearHalf (some dynInfo) (some halfLives) context pool =
          .ok (.Delete, pool) ∧
        ¬ SameOn halfLives.live_out (countingProcessor.execute host clearHalf)
          (Specialized.execute host clearHalf countingProcessor .Delete) := by
  intro context pool host
  have configured : context.Configured (fun _ _ => 0x1000) := pointerContext_configured _ rfl
  have loaded : pool.Loaded countingProcessor.memory := unusedPool_loaded _
  constructor
  · have evaluated : ∃ dynInfo grown,
        addCount.genDynInfo knownCount context = .ok (dynInfo, grown) ∧
          input dynInfo 0 = .ok .dead ∧ input dynInfo 1 = .ok (.imm64 5) ∧
            output dynInfo 0 = .ok .unknown ∧
              handleInstruction addCount (some dynInfo) (some halfLives) context pool =
                .ok (.Change .ADD64ri [.reg (.gprs64 .A), .imm (.plain 5)], pool) :=
      ⟨_, _, rfl, rfl, rfl, rfl, rfl⟩
    obtain ⟨dynInfo, grown, generated, isInput0, isInput1, isOutput, ran⟩ := evaluated
    have typed : addCount.WellTyped := ⟨_, rfl, .cons rfl (.cons rfl .nil)⟩
    have tells : dynInfo.Tells (fun _ _ => 0x1000) host addCount countingProcessor := by
      refine ⟨fun _ _ value isValue => ?_, fun _ _ value isValue => ?_, fun _ value isValue => ?_⟩
      · cases isInput0.symm.trans isValue
        trivial
      · cases isInput1.symm.trans isValue
        rfl
      · cases isOutput.symm.trans isValue
        trivial
    exact ⟨dynInfo, grown, _, generated, ran, rfl,
      (handleInstruction_preserves_iff typed configured tells loaded ran).mpr nofun⟩
  · have evaluated : ∃ dynInfo grown,
        clearHalf.genDynInfo knownCount context = .ok (dynInfo, grown) ∧
          input dynInfo 1 = .ok .dead ∧ output dynInfo 0 = .ok .unknown ∧
            handleInstruction clearHalf (some dynInfo) (some halfLives) context pool =
              .ok (.Delete, pool) := ⟨_, _, rfl, rfl, rfl, rfl⟩
    obtain ⟨dynInfo, grown, generated, isInput, isOutput, ran⟩ := evaluated
    have typed : clearHalf.WellTyped := ⟨_, rfl, .cons rfl (.cons rfl .nil)⟩
    have tells : dynInfo.Tells (fun _ _ => 0x1000) host clearHalf countingProcessor := by
      refine ⟨nofun, fun _ _ value isValue => ?_, fun _ value isValue => ?_⟩
      · cases isInput.symm.trans isValue
        trivial
      · cases isOutput.symm.trans isValue
        trivial
    refine ⟨dynInfo, grown, generated, ran, ?_⟩
    rw [handleInstruction_preserves_iff typed configured tells loaded ran]
    intro zero
    have upper := zero (.gpr .A .D1) (by decide) (by decide) (.gprs64 .A) 4
      ⟨rfl, by decide⟩
    exact absurd upper (by decide)

end Specialize

end Drob
