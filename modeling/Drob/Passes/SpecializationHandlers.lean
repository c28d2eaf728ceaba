import Drob.Passes.SpecializationSoundness

/-!
Each specialization handler gives an instruction that stands for the original one.
-/

namespace Drob

open LittleEndian DynamicValue

namespace Specialize

open Processor

variable {p : Processor} {host : Host} {base : PtrBase} {old : Instruction}
variable {context : Context} {pool later : PoolMemory} {dynInfo : DynamicInstructionInfo}
variable {livenessData : LivenessData} {live : SubRegisterMask} {specialized : Specialized}

/-! ### Replacements -/

section Replacements

variable {opcode : Opcode} {operand : StaticOperand}

theorem op_setSource {dst : StaticOperand} (first : old.rawOperands.op 0 = some dst) :
    (setSource old.rawOperands operand).op 0 = some dst ∧
      (setSource old.rawOperands operand).op 1 = some operand := by
  unfold setSource ExplicitStaticOperands.op at *
  cases operands : old.rawOperands with
  | nil =>
      rw [operands] at first
      cases first
  | cons head rest =>
      rw [operands] at first
      exact ⟨first, rfl⟩

variable (first : ∃ dst, old.rawOperands.op 0 = some dst)
include first

theorem destination_setSource :
    Instruction.destination { opcode, rawOperands := setSource old.rawOperands operand } =
      old.destination := by
  obtain ⟨dst, isFirst⟩ := first
  unfold Instruction.destination
  rw [(op_setSource isFirst).1, isFirst]

theorem source_setSource :
    Instruction.source { opcode, rawOperands := setSource old.rawOperands operand } = operand := by
  obtain ⟨dst, isFirst⟩ := first
  unfold Instruction.source
  rw [(op_setSource isFirst).2]
  rfl

omit first in
theorem lostByLoad_eq (other : opcode ≠ .MOVSDrm) : Specialized.lostByLoad old opcode = ∅ := by
  unfold Specialized.lostByLoad
  split
  · exact if_neg other
  · rfl

omit first in
theorem ne_MOVSDrm {kind : OpcodeKind} (isKind : opcode.kind = kind) (other : kind ≠ .movsd) :
    opcode ≠ .MOVSDrm := by
  rintro rfl
  exact other isKind.symm

theorem stands_source {kind : OpcodeKind} (isKind : old.opcode.kind = kind)
    (newKind : opcode.kind = kind) (plain : kind.isPlain = true) (reads : kind.readsSource = true)
    (other : kind ≠ .movsd)
    (value : p.read kind.sourceBytes operand = p.read kind.sourceBytes old.source) :
    Stands p host live old (.Change opcode (setSource old.rawOperands operand)) := by
  subst isKind
  have destination : Instruction.destination
      { opcode, rawOperands := setSource old.rawOperands operand } = old.destination :=
    destination_setSource first
  have source : Instruction.source { opcode, rawOperands := setSource old.rawOperands operand } =
      operand := source_setSource first
  obtain ⟨result, flags⟩ :
      p.result host { opcode, rawOperands := setSource old.rawOperands operand } =
          p.result host old ∧
        p.flagEffects { opcode, rawOperands := setSource old.rawOperands operand } =
          p.flagEffects old :=
    result_congr newKind reads destination (by rw [source]; exact value)
  refine .changed (sameOn_execute plain (newKind ▸ plain) ?_ (fun flag _ => congrFun flags flag))
    (lostByLoad_eq (ne_MOVSDrm newKind other))
  refine written_congr (congrArg OpcodeKind.writesDestination newKind) (fun _ => ?_)
  refine ⟨destination, ?_, result⟩
  rw [writtenBytes_eq (fun isMovsd => other (newKind.symm.trans isMovsd)), writtenBytes_eq other]
  exact congrArg OpcodeKind.bytes newKind

omit first in
theorem stands_move {explOperands : ExplicitStaticOperands} {kind : OpcodeKind} {w : Nat}
    (isKind : old.opcode.kind = kind) (newKind : opcode.kind = .mov w)
    (plain : kind.isPlain = true) (writes : kind.writesDestination = true)
    (bytes : writtenBytes old = w / 8)
    (destination : Instruction.destination { opcode, rawOperands := explOperands } =
      old.destination)
    (value : p.read (w / 8) (Instruction.source { opcode, rawOperands := explOperands }) =
      p.result host old)
    (unread : ∀ flag, .flag flag ∈ live → p.flagEffects old flag = .unchanged) :
    Stands p host live old (.Change opcode explOperands) := by
  subst isKind
  have newPlain : opcode.kind.isPlain = true := by rw [newKind]; rfl
  refine .changed (sameOn_execute plain newPlain ?_ ?_)
    (lostByLoad_eq (ne_MOVSDrm newKind (by nofun)))
  · refine written_congr ?_ (fun _ => ⟨destination, ?_, ?_⟩)
    · rw [writes]
      exact congrArg OpcodeKind.writesDestination newKind
    · rw [bytes, writtenBytes_eq (fun isMovsd => absurd (newKind.symm.trans isMovsd) (by nofun))]
      exact congrArg OpcodeKind.bytes newKind
    · rw [← value]
      exact result_mov newKind
  · intro flag isLive
    have noFlags : p.flagEffects { opcode, rawOperands := explOperands } = fun _ => .unchanged :=
      flagEffects_other (fun op v isAlu => absurd (newKind.symm.trans isAlu) (by nofun))
    rw [unread flag isLive, noFlags]

theorem stands_clear {kind : OpcodeKind} {op : AluOp} {w : Nat} {reg : Register}
    (isKind : old.opcode.kind = kind) (isRegister : old.rawOperands.op 0 = some (.reg reg))
    (newKind : opcode.kind = .alu op w)
    (isXor : op = .xor ∧ (∀ flag, .flag flag ∉ live) ∨ op = .pxor)
    (plain : kind.isPlain = true) (writes : kind.writesDestination = true)
    (bytes : writtenBytes old = w / 8) (zero : p.result host old = 0)
    (unread : ∀ flag, .flag flag ∈ live → p.flagEffects old flag = .unchanged) :
    Stands p host live old (.Change opcode (setSource old.rawOperands (.reg reg))) := by
  subst isKind
  have destination : Instruction.destination
      { opcode, rawOperands := setSource old.rawOperands (.reg reg) } = .reg reg := by
    rw [destination_setSource first]
    exact congrArg (fun found => found.getD (.imm (.plain 0))) isRegister
  have source : Instruction.source
      { opcode, rawOperands := setSource old.rawOperands (.reg reg) } = .reg reg :=
    source_setSource first
  have newPlain : opcode.kind.isPlain = true := by rw [newKind]; rfl
  have sourceWidth : op.sourceWidth w = w := by
    rcases isXor with ⟨rfl, _⟩ | rfl <;> rfl
  refine .changed (sameOn_execute plain newPlain ?_ ?_)
    (lostByLoad_eq (ne_MOVSDrm newKind (by nofun)))
  · refine written_congr ?_ (fun _ => ⟨destination_setSource first, ?_, ?_⟩)
    · rw [writes]
      change opcode.kind.writesDestination = true
      rw [newKind]
      rcases isXor with ⟨rfl, _⟩ | rfl <;> rfl
    · rw [bytes, writtenBytes_eq (fun isMovsd => absurd (newKind.symm.trans isMovsd) (by nofun))]
      exact congrArg OpcodeKind.bytes newKind
    · rw [zero, result_alu newKind]
      unfold alu
      rw [destination, source, sourceWidth]
      rcases isXor with ⟨rfl, _⟩ | rfl
      · change BitVec.setWidth 128 (_ ^^^ _) = _
        rw [BitVec.xor_self, BitVec.setWidth_zero]
        rfl
      · change BitVec.setWidth 128 (_ ^^^ _) = _
        rw [BitVec.xor_self, BitVec.setWidth_zero]
        rfl
  · intro flag isLive
    rw [unread flag isLive]
    rcases isXor with ⟨_, dead⟩ | rfl
    · exact absurd isLive (dead flag)
    · rw [flagEffects_alu newKind]
      rfl

end Replacements

/-! ### Pieces of handlers -/

theorem flags_dead (unread : registersWillBeRead livenessData eflags = false) (flag : Flag) :
    .flag flag ∉ livenessData.live_out := by
  intro isLive
  unfold registersWillBeRead at unread
  have noFlag := of_decide_eq_false unread
  rw [not_not] at noFlag
  have member : SubRegister.flag flag ∈ livenessData.live_out ∩ eflags := by
    refine Finset.mem_inter.mpr ⟨isLive, ?_⟩
    cases flag <;> decide
  rw [noFlag] at member
  exact Finset.notMem_empty _ member

theorem kind_of_xorsItself (xors : old.XorsItself) :
    (∃ w, old.opcode.kind = .alu .xor w) ∨ old.opcode.kind = .alu .pxor 128 := by
  rcases xors.1 with opcode | opcode | opcode
  · rw [opcode]
    exact Or.inl ⟨32, rfl⟩
  · rw [opcode]
    exact Or.inl ⟨64, rfl⟩
  · rw [opcode]
    exact Or.inr rfl

theorem not_xorsItself {op : AluOp} {w : Nat} (kind : old.opcode.kind = .alu op w)
    (noXor : op ≠ .xor ∧ op ≠ .pxor) : ¬ old.XorsItself := by
  intro xors
  rcases kind_of_xorsItself xors with ⟨v, isXor⟩ | isPxor
  · rw [kind] at isXor
    cases isXor
    exact noXor.1 rfl
  · rw [kind] at isPxor
    cases isPxor
    exact noXor.2 rfl

theorem not_xorsItself_of_kind (noAlu : ∀ op w, old.opcode.kind ≠ .alu op w) :
    ¬ old.XorsItself := by
  intro xors
  rcases kind_of_xorsItself xors with ⟨v, isXor⟩ | isPxor
  · exact noAlu _ _ isXor
  · exact noAlu _ _ isPxor

theorem clear_ok {opcode : Opcode} (ran : clear opcode old.rawOperands = .ok specialized) :
    ∃ reg, old.rawOperands.op 0 = some (.reg reg) ∧
      specialized = .Change opcode (setSource old.rawOperands (.reg reg)) := by
  unfold clear at ran
  split at ran
  · rename_i reg isRegister
    cases ran
    exact ⟨reg, isRegister, rfl⟩
  · cases ran

theorem orElse_ok {first : Except Failure (Option Specialized)}
    {second : Except Failure (Specialized × PoolMemory)}
    (ran : orElse first second pool = .ok (specialized, later)) :
    (first = .ok (some specialized) ∧ later = pool) ∨
      (first = .ok none ∧ second = .ok (specialized, later)) := by
  obtain ⟨found, isFound, ran⟩ := bind_ok ran
  cases found with
  | none => exact Or.inr ⟨isFound, ran⟩
  | some other =>
      cases ran
      exact Or.inl ⟨isFound, rfl⟩

section Handlers

variable (first : ∃ dst, old.rawOperands.op 0 = some dst) (configured : context.Configured base)
variable (tells : dynInfo.Tells base host old p) (loaded : later.Loaded p.memory)
variable {kind : OpcodeKind} (isKind : old.opcode.kind = kind)

section

include configured tells isKind

theorem read_source (plain : kind.isPlain = true) (reads : kind.readsSource = true)
    (differ : ¬ old.XorsItself) {in1 : DynamicValue} (isInput : input dynInfo 1 = .ok in1)
    {imm : Immediate64} (known : getImm in1 context = .ok (some imm)) :
    p.read kind.sourceBytes (.imm imm) = p.read kind.sourceBytes old.source := by
  subst isKind
  exact read_imm configured known (hasBytes_read p (plain_width plain).2.1 _)
    (tells.input1 reads differ in1 isInput)

theorem read_result (plain : kind.isPlain = true) (writes : kind.writesDestination = true)
    {out : DynamicValue} (isOutput : output dynInfo 0 = .ok out) {imm : Immediate64}
    (known : getImm out context = .ok (some imm)) :
    p.read kind.bytes (.imm imm) = p.result host old := by
  subst isKind
  exact read_imm configured known (hasBytes_result p host plain)
    (tells.output0 writes out isOutput)

include first

theorem withImm_stands {opcode : Opcode} (newKind : opcode.kind = kind)
    (plain : kind.isPlain = true) (reads : kind.readsSource = true) (other : kind ≠ .movsd)
    (differ : ¬ old.XorsItself) {in1 : DynamicValue} (isInput : input dynInfo 1 = .ok in1)
    {imm : Immediate64} (known : getImm in1 context = .ok (some imm)) :
    Stands p host live old (withImm opcode old.rawOperands imm) :=
  stands_source first isKind newKind plain reads other
    (read_source configured tells isKind plain reads differ isInput known)

/-- What `add64` and the shifts do with a known result. -/
theorem moveOutput_stands (plain : kind.isPlain = true) (writes : kind.writesDestination = true)
    (bytes : kind.bytes = 8) (other : kind ≠ .movsd) (dead : ∀ flag, .flag flag ∉ live)
    {memory : Bool}
    (ran : moveOutput old.rawOperands dynInfo context memory = .ok (some specialized)) :
    Stands p host live old specialized := by
  have eight : writtenBytes old = 64 / 8 := by
    rw [writtenBytes_eq (isKind ▸ other), isKind]
    exact bytes
  have unread : ∀ flag, .flag flag ∈ live → p.flagEffects old flag = .unchanged :=
    fun flag isLive => absurd isLive (dead flag)
  obtain ⟨out, isOutput, ran⟩ := bind_ok ran
  obtain ⟨known, isKnown, ran⟩ := bind_ok ran
  cases known with
  | none => cases ran
  | some imm =>
      have value := read_result configured tells isKind plain writes isOutput isKnown
      have move {opcode : Opcode} (newKind : opcode.kind = .mov 64) :
          Stands p host live old (withImm opcode old.rawOperands imm) := by
        refine stands_move isKind newKind plain writes eight (destination_setSource first) ?_ unread
        rw [bytes] at value
        rw [source_setSource first]
        exact value
      dsimp only at ran
      split at ran
      · split at ran
        · cases ran
          exact move rfl
        · cases ran
      · split at ran
        · rename_i zero
          obtain ⟨cleared, isCleared, ran⟩ := bind_ok ran
          cases ran
          obtain ⟨reg, isRegister, rfl⟩ := clear_ok isCleared
          subst isKind
          have isZero := eq_zero configured isKnown zero (hasBytes_result p host plain)
            (tells.output0 writes out isOutput)
          exact stands_clear first rfl isRegister (w := 64) rfl (Or.inl ⟨rfl, dead⟩) plain writes
            eight isZero unread
        · cases ran
          exact move rfl

include loaded

theorem load64_stands {opcode : Opcode} (newKind : opcode.kind = kind)
    (plain : kind.isPlain = true) (reads : kind.readsSource = true) (bytes : kind.sourceBytes = 8)
    (other : kind ≠ .movsd) (differ : ¬ old.XorsItself) {in1 : DynamicValue}
    (isInput : input dynInfo 1 = .ok in1) {imm : Immediate64}
    (known : getImm in1 context = .ok (some imm))
    (ran : load opcode old.rawOperands (pool.allocConstant64 imm.val) = .ok (specialized, later)) :
    Stands p host live old specialized := by
  obtain ⟨addr, allocated, rfl⟩ := load_ok ran
  refine stands_source first isKind newKind plain reads other ?_
  have encoded := read_source configured tells isKind plain reads differ isInput known
  rw [bytes] at encoded ⊢
  rw [read_const64 loaded allocated, ← encoded, read_imm_eight]

end

/-! ### Addition -/

theorem stands_delete (isKind : old.opcode.kind = kind) (plain : kind.isPlain = true)
    (writes : kind.writesDestination = true) (other : kind ≠ .movsd ∨ ∃ reg, old.source = .reg reg)
    (value : p.result host old = p.read kind.bytes old.destination)
    (unread : ∀ flag, .flag flag ∈ live → p.flagEffects old flag = .unchanged) :
    Stands p host live old .Delete := by
  subst isKind
  exact .deleted plain other value writes unread

include configured tells in
theorem source_eq_zero (isKind : old.opcode.kind = kind) (plain : kind.isPlain = true)
    (reads : kind.readsSource = true) (differ : ¬ old.XorsItself) {in1 : DynamicValue}
    (isInput : input dynInfo 1 = .ok in1) {imm : Immediate64}
    (known : getImm in1 context = .ok (some imm)) (zero : imm.val = 0) :
    p.read kind.sourceBytes old.source = 0 := by
  subst isKind
  exact eq_zero configured known zero (hasBytes_read p (plain_width plain).2.1 _)
    (tells.input1 reads differ in1 isInput)

theorem alu_add (isKind : old.opcode.kind = .alu .add 64) :
    p.result host old = BitVec.setWidth 128
      ((p.read 8 old.destination).setWidth 64 + (p.read 8 old.source).setWidth 64) :=
  result_alu isKind

include configured tells in
theorem addToZero_stands (isKind : old.opcode.kind = .alu .add 64)
    (dead : ∀ flag, .flag flag ∉ live)
    (ran : addToZero old.opcode old.rawOperands dynInfo context = .ok (some specialized)) :
    Stands p host live old specialized := by
  obtain ⟨in0, isInput, ran⟩ := bind_ok ran
  obtain ⟨known, isKnown, ran⟩ := bind_ok ran
  cases known with
  | none => cases ran
  | some imm =>
      dsimp only at ran
      split at ran
      · rename_i zero
        have isZero : p.read 8 old.destination = 0 := by
          have described := tells.input0 (by rw [isKind]; rfl)
            (not_xorsItself isKind (by decide)) in0 isInput
          rw [isKind] at described
          exact eq_zero configured isKnown zero (hasBytes_read p (by decide) _) described
        have value : p.result host old = p.read 8 old.source := by
          rw [alu_add isKind, isZero, zero_setWidth, zero_add]
          have short : HasBytes 8 (p.read 8 old.source) := hasBytes_read p (by decide) _
          exact short.setWidth_setWidth
        have move {opcode : Opcode} (newKind : opcode.kind = .mov 64) :
            Stands p host live old (.Change opcode old.rawOperands) :=
          stands_move isKind newKind rfl rfl
            ((writtenBytes_eq (by rw [isKind]; nofun)).trans (by rw [isKind]; rfl)) rfl value.symm
            (fun flag isLive => absurd isLive (dead flag))
        split at ran
        · cases ran
          exact move rfl
        · cases ran
          exact move rfl
        · cases ran
          exact move rfl
        · cases ran
      · cases ran

include first configured tells in
theorem add64Unread_stands (isKind : old.opcode.kind = .alu .add 64)
    (dead : ∀ flag, .flag flag ∉ live)
    (ran : add64Unread old.opcode old.rawOperands dynInfo context = .ok (some specialized)) :
    Stands p host live old specialized := by
  obtain ⟨in1, isInput, ran⟩ := bind_ok ran
  obtain ⟨known, isKnown, ran⟩ := bind_ok ran
  split at ran
  · rename_i found
    cases ran
    obtain ⟨imm, rfl, isZero⟩ := (Option.any_eq_true _ _).mp found
    have zero : p.read 8 old.source = 0 :=
      source_eq_zero configured tells isKind rfl rfl (not_xorsItself isKind (by decide)) isInput
        isKnown (eq_of_beq isZero)
    refine stands_delete isKind rfl rfl (Or.inl (by nofun)) ?_
      (fun flag isLive => absurd isLive (dead flag))
    rw [alu_add isKind, zero, zero_setWidth, add_zero]
    have short : HasBytes 8 (p.read 8 old.destination) := hasBytes_read p (by decide) _
    exact short.setWidth_setWidth
  · obtain ⟨moved, isMoved, ran⟩ := bind_ok ran
    cases moved with
    | some found =>
        cases ran
        exact moveOutput_stands first configured tells isKind rfl rfl rfl (by nofun) dead isMoved
    | none => exact addToZero_stands configured tells isKind dead ran

include first configured tells loaded in
theorem add64Source_stands (isKind : old.opcode.kind = .alu .add 64)
    (ran : add64Source old.opcode old.rawOperands dynInfo context pool =
      .ok (specialized, later)) : Stands p host live old specialized := by
  have differ : ¬ old.XorsItself := not_xorsItself isKind (by decide)
  unfold add64Source at ran
  split at ran
  · cases ran
    exact .unchanged
  · obtain ⟨in1, isInput, ran⟩ := bind_ok ran
    obtain ⟨known, isKnown, ran⟩ := bind_ok ran
    cases known with
    | none =>
        cases ran
        exact .unchanged
    | some imm =>
        have encode {opcode : Opcode} (newKind : opcode.kind = .alu .add 64) :
            Stands p host live old (withImm opcode old.rawOperands imm) :=
          withImm_stands first configured tells isKind newKind rfl rfl (by nofun) differ isInput
            isKnown
        dsimp only at ran
        split at ran
        · split at ran
          · cases ran
            exact encode rfl
          · cases ran
            exact .unchanged
        · split at ran
          · cases ran
            exact encode rfl
          · split at ran
            · exact load64_stands first configured tells loaded isKind rfl rfl rfl rfl (by nofun)
                differ isInput isKnown ran
            · cases ran
              exact .unchanged

include first configured tells loaded in
theorem add64_stands (isKind : old.opcode.kind = .alu .add 64)
    (ran : add64 old.opcode old.rawOperands dynInfo livenessData context pool =
      .ok (specialized, later)) : Stands p host livenessData.live_out old specialized := by
  rcases orElse_ok ran with ⟨unread, rfl⟩ | ⟨_, sourceRan⟩
  · split at unread
    · cases unread
    · rename_i noFlags
      exact add64Unread_stands first configured tells isKind
        (flags_dead (Bool.eq_false_iff.mpr noFlags)) unread
  · exact add64Source_stands first configured tells loaded isKind sourceRan

/-! ### Vectors -/

theorem imm128_eq {data : DynamicValue} (isImm : data.isImm = true) {imm : BitVec 128}
    (known : data.getImm128 = .ok imm) {value : BitVec 128}
    (described : data.Describes base value) : value = imm := by
  cases data with
  | imm64 val =>
      cases known
      exact described
  | imm128 val =>
      cases known
      exact described.trans (BitVec.setWidth_eq _)
  | dead => cases isImm
  | unknown => cases isImm
  | tainted => cases isImm
  | ptr type nr ptrOffset => cases isImm

theorem imm64_eq {data : DynamicValue} (isImm : data.isImm = true) {imm : BitVec 64}
    (known : data.getImm64 = .ok imm) {value : BitVec 128} (short : HasBytes 8 value)
    (described : data.Describes base (value.setWidth 64)) : value = imm.setWidth 128 := by
  have low : value.setWidth 64 = imm := by
    cases data with
    | imm64 val =>
        cases known
        exact described.trans (BitVec.setWidth_eq _)
    | imm128 val =>
        cases known
        exact described
    | dead => cases isImm
    | unknown => cases isImm
    | tainted => cases isImm
    | ptr type nr ptrOffset => cases isImm
  rw [← low]
  exact short.setWidth_setWidth.symm

theorem no_alu {kind : OpcodeKind} (isKind : old.opcode.kind = kind)
    (noAlu : ∀ op w, kind ≠ .alu op w) (flag : Flag) : p.flagEffects old flag = .unchanged :=
  congrFun (flagEffects_other (fun op w isAlu => noAlu op w (isKind.symm.trans isAlu))) flag

include tells in
theorem result_eq_imm128 (isKind : old.opcode.kind = kind)
    (writes : kind.writesDestination = true) (bytes : kind.bytes = 16)
    {out : DynamicValue} (isOutput : output dynInfo 0 = .ok out) (isImm : out.isImm = true)
    {imm : BitVec 128} (known : out.getImm128 = .ok imm) : p.result host old = imm := by
  subst isKind
  have described := tells.output0 writes out isOutput
  rw [bytes] at described
  exact (BitVec.setWidth_eq _).symm.trans (imm128_eq isImm known described)

include tells in
theorem result_eq_imm64 (isKind : old.opcode.kind = kind) (plain : kind.isPlain = true)
    (writes : kind.writesDestination = true) (bytes : kind.bytes = 8)
    {out : DynamicValue} (isOutput : output dynInfo 0 = .ok out) (isImm : out.isImm = true)
    {imm : BitVec 64} (known : out.getImm64 = .ok imm) :
    p.result host old = imm.setWidth 128 := by
  subst isKind
  have described := tells.output0 writes out isOutput
  have short := hasBytes_result p host plain
  rw [bytes] at described short
  exact imm64_eq isImm known short described

include first in
theorem clear128_stands (isKind : old.opcode.kind = kind) (plain : kind.isPlain = true)
    (writes : kind.writesDestination = true) (bytes : kind.bytes = 16) (other : kind ≠ .movsd)
    (unread : ∀ flag, .flag flag ∈ live → p.flagEffects old flag = .unchanged)
    (zero : p.result host old = 0) (ran : clear .PXOR128rr old.rawOperands = .ok specialized) :
    Stands p host live old specialized := by
  obtain ⟨reg, isRegister, rfl⟩ := clear_ok ran
  refine stands_clear first isKind isRegister (w := 128) rfl (Or.inr rfl) plain writes ?_ zero
    unread
  rw [writtenBytes_eq (isKind ▸ other), isKind]
  exact bytes

include first loaded in
theorem load128_stands (isKind : old.opcode.kind = kind) (plain : kind.isPlain = true)
    (writes : kind.writesDestination = true) (bytes : kind.bytes = 16) (other : kind ≠ .movsd)
    (unread : ∀ flag, .flag flag ∈ live → p.flagEffects old flag = .unchanged)
    {opcode : Opcode} (newKind : opcode.kind = .mov 128) {imm : BitVec 128}
    (value : p.result host old = imm)
    (ran : load opcode old.rawOperands (pool.allocConstant128 imm) = .ok (specialized, later)) :
    Stands p host live old specialized := by
  obtain ⟨addr, allocated, rfl⟩ := load_ok ran
  refine stands_move isKind newKind plain writes ?_ (destination_setSource first) ?_ unread
  · rw [writtenBytes_eq (isKind ▸ other), isKind]
    exact bytes
  · rw [source_setSource first, value]
    exact read_const128 loaded allocated

include first tells loaded in
theorem loadSource128_stands (isKind : old.opcode.kind = kind) (plain : kind.isPlain = true)
    (reads : kind.readsSource = true) (bytes : kind.sourceBytes = 16) (other : kind ≠ .movsd)
    (differ : ¬ old.XorsItself) {opcode : Opcode} (newKind : opcode.kind = kind)
    {in1 : DynamicValue} (isInput : input dynInfo 1 = .ok in1) (isImm : in1.isImm = true)
    {imm : BitVec 128} (known : in1.getImm128 = .ok imm)
    (ran : load opcode old.rawOperands (pool.allocConstant128 imm) = .ok (specialized, later)) :
    Stands p host live old specialized := by
  obtain ⟨addr, allocated, rfl⟩ := load_ok ran
  refine stands_source first isKind newKind plain reads other ?_
  subst isKind
  have described := tells.input1 reads differ in1 isInput
  rw [bytes] at described ⊢
  rw [read_const128 loaded allocated]
  exact ((BitVec.setWidth_eq _).symm.trans (imm128_eq isImm known described)).symm

include first tells loaded in
theorem loadSource64_stands (isKind : old.opcode.kind = kind) (plain : kind.isPlain = true)
    (reads : kind.readsSource = true) (bytes : kind.sourceBytes = 8) (other : kind ≠ .movsd)
    (differ : ¬ old.XorsItself) {opcode : Opcode} (newKind : opcode.kind = kind)
    {in1 : DynamicValue} (isInput : input dynInfo 1 = .ok in1) (isImm : in1.isImm = true)
    {imm : BitVec 64} (known : in1.getImm64 = .ok imm)
    (ran : load opcode old.rawOperands (pool.allocConstant64 imm) = .ok (specialized, later)) :
    Stands p host live old specialized := by
  obtain ⟨addr, allocated, rfl⟩ := load_ok ran
  refine stands_source first isKind newKind plain reads other ?_
  subst isKind
  have described := tells.input1 reads differ in1 isInput
  have short := hasBytes_read p (plain_width plain).2.1 old.source
  rw [bytes] at described short ⊢
  rw [read_const64 loaded allocated]
  exact (imm64_eq isImm known short described).symm

include first tells loaded in
theorem packed_stands {op : FloatOp} (isKind : old.opcode.kind = .float op)
    (wide : op = .addpd ∨ op = .mulpd) {rm : Opcode} (newKind : rm.kind = .float op)
    (ran : packed old.rawOperands dynInfo pool rm = .ok (specialized, later)) :
    Stands p host live old specialized := by
  have bytes : OpcodeKind.bytes (.float op) = 16 := by rcases wide with rfl | rfl <;> rfl
  have unread (flag : Flag) (_ : .flag flag ∈ live) := no_alu (p := p) isKind (by nofun) flag
  obtain ⟨out, isOutput, ran⟩ := bind_ok ran
  split at ran
  · rename_i isImm
    obtain ⟨imm, known, ran⟩ := bind_ok ran
    have value := result_eq_imm128 tells isKind rfl bytes isOutput isImm known
    split at ran
    · rename_i zero
      obtain ⟨cleared, isCleared, ran⟩ := bind_ok ran
      cases ran
      exact clear128_stands first isKind rfl rfl bytes (by nofun) unread (value.trans zero)
        isCleared
    · exact load128_stands first loaded isKind rfl rfl bytes (by nofun) unread rfl value ran
  · obtain ⟨in1, isInput, ran⟩ := bind_ok ran
    split at ran
    · rename_i isImm
      obtain ⟨imm, known, ran⟩ := bind_ok ran
      exact loadSource128_stands first tells loaded isKind rfl rfl bytes (by nofun)
        (not_xorsItself_of_kind (by rw [isKind]; nofun)) newKind isInput isImm known ran
    · cases ran
      exact .unchanged

include first tells loaded in
theorem scalar_stands {op : FloatOp} (isKind : old.opcode.kind = .float op)
    (narrow : op = .addsd ∨ op = .mulsd) {nr : Fin 16}
    (destination : old.rawOperands.op 0 = some (.reg (.sse128 nr))) {rm : Opcode}
    (newKind : rm.kind = .float op)
    (ran : scalar old.rawOperands dynInfo pool rm = .ok (specialized, later)) :
    Stands p host live old specialized := by
  have bytes : OpcodeKind.bytes (.float op) = 8 := by rcases narrow with rfl | rfl <;> rfl
  obtain ⟨out, isOutput, ran⟩ := bind_ok ran
  split at ran
  · rename_i isImm
    obtain ⟨imm, known, ran⟩ := bind_ok ran
    obtain ⟨addr, allocated, rfl⟩ := load_ok ran
    refine .loaded isKind (isKind ▸ bytes)
      (congrArg (fun found => found.getD (.imm (.plain 0))) destination)
      (op_setSource destination).1 (op_setSource destination).2 ?_
    rw [read_const64 loaded allocated]
    exact (result_eq_imm64 tells isKind rfl rfl bytes isOutput isImm known).symm
  · obtain ⟨in1, isInput, ran⟩ := bind_ok ran
    split at ran
    · rename_i isImm
      obtain ⟨imm, known, ran⟩ := bind_ok ran
      exact loadSource64_stands first tells loaded isKind rfl rfl bytes (by nofun)
        (not_xorsItself_of_kind (by rw [isKind]; nofun)) newKind isInput isImm known ran
    · cases ran
      exact .unchanged

/-! ### Comparisons -/

include first configured tells in
theorem encode_stands (isKind : old.opcode.kind = kind) (plain : kind.isPlain = true)
    (reads : kind.readsSource = true) (other : kind ≠ .movsd) (differ : ¬ old.XorsItself)
    {mi ri : Opcode} (isMi : mi.kind = kind) (isRi : ri.kind = kind) {memory : Prop}
    [Decidable memory] {in1 : DynamicValue} (isInput : input dynInfo 1 = .ok in1)
    {imm : Immediate64} (known : getImm in1 context = .ok (some imm)) :
    Stands p host live old (withImm (if memory then mi else ri) old.rawOperands imm) := by
  refine withImm_stands first configured tells isKind ?_ plain reads other differ isInput known
  split
  · exact isMi
  · exact isRi

include first configured tells in
theorem cmp_stands {w : Nat} (isKind : old.opcode.kind = .alu .cmp w) {mr mi ri : Opcode}
    (isMi : mi.kind = .alu .cmp w) (isRi : ri.kind = .alu .cmp w)
    (ran : cmp old.opcode old.rawOperands dynInfo context pool mr mi ri =
      .ok (specialized, later)) : Stands p host live old specialized := by
  obtain ⟨in1, isInput, ran⟩ := bind_ok ran
  obtain ⟨known, isKnown, ran⟩ := bind_ok ran
  cases known with
  | none =>
      cases ran
      exact .unchanged
  | some imm =>
      cases ran
      exact encode_stands first configured tells isKind rfl rfl (by nofun)
        (not_xorsItself isKind (by decide)) isMi isRi isInput isKnown

include first configured tells loaded in
theorem cmp64_stands (isKind : old.opcode.kind = .alu .cmp 64)
    (ran : cmp64 old.opcode old.rawOperands dynInfo context pool = .ok (specialized, later)) :
    Stands p host live old specialized := by
  have differ : ¬ old.XorsItself := not_xorsItself isKind (by decide)
  obtain ⟨in1, isInput, ran⟩ := bind_ok ran
  obtain ⟨known, isKnown, ran⟩ := bind_ok ran
  cases known with
  | none =>
      cases ran
      exact .unchanged
  | some imm =>
      dsimp only at ran
      split at ran
      · cases ran
        exact encode_stands first configured tells isKind rfl rfl (by nofun) differ rfl rfl
          isInput isKnown
      · split at ran
        · exact load64_stands first configured tells loaded isKind rfl rfl rfl rfl (by nofun)
            differ isInput isKnown ran
        · cases ran
          exact .unchanged

theorem and_comm_test {w : Nat} (a b : BitVec 128) :
    AluOp.test.exec w a b = AluOp.test.exec w b a := by
  change Alu.test _ _ = Alu.test _ _
  unfold Alu.test
  rw [BitVec.and_comm]

include configured tells in
theorem switch_stands {w : Nat} (isKind : old.opcode.kind = .alu .test w) {ri : Opcode}
    (newKind : ri.kind = .alu .test w) {in0 : DynamicValue}
    (isInput : input dynInfo 0 = .ok in0) {imm : Immediate64}
    (known : getImm in0 context = .ok (some imm))
    (ran : switch old.rawOperands ri imm = .ok specialized) :
    Stands p host live old specialized := by
  have plain : old.opcode.kind.isPlain = true := by rw [isKind]; rfl
  have newPlain : ri.kind.isPlain = true := by rw [newKind]; rfl
  unfold switch at ran
  split at ran
  · rename_i reg isRegister
    cases ran
    have source : old.source = .reg reg :=
      congrArg (fun found => found.getD (.reg .CL)) isRegister
    have described := tells.input0 (by rw [isKind]; rfl) (not_xorsItself isKind (by decide)) in0
      isInput
    have encoded := read_imm (p := p) configured known
      (hasBytes_read p (plain_width plain).1 old.destination) described
    rw [isKind] at encoded
    have flags : p.flagEffects { opcode := ri, rawOperands := [.reg reg, .imm imm] } =
        p.flagEffects old := by
      rw [flagEffects_alu newKind, flagEffects_alu isKind]
      unfold alu
      rw [source]
      change (AluOp.test.exec w (p.read (w / 8) (.reg reg)) (p.read (w / 8) (.imm imm))).flags =
        (AluOp.test.exec w (p.read (w / 8) old.destination) (p.read (w / 8) (.reg reg))).flags
      rw [and_comm_test]
      change p.read (w / 8) _ = p.read (w / 8) _ at encoded
      rw [encoded]
    refine .changed (sameOn_execute plain newPlain ?_ (fun flag _ => congrFun flags flag))
      (lostByLoad_eq (ne_MOVSDrm newKind (by nofun)))
    refine written_congr ?_ (fun writes => ?_)
    · rw [isKind]
      exact congrArg OpcodeKind.writesDestination newKind
    · rw [isKind] at writes
      cases writes
  · cases ran

include first configured tells in
theorem test_stands {w : Nat} (isKind : old.opcode.kind = .alu .test w) {rr mr mi ri : Opcode}
    (isMi : mi.kind = .alu .test w) (isRi : ri.kind = .alu .test w) {encodable : BitVec 64 → Bool}
    (ran : test old.opcode old.rawOperands dynInfo context pool rr mr mi ri encodable =
      .ok (specialized, later)) : Stands p host live old specialized := by
  unfold test at ran
  split at ran
  · cases ran
    exact .unchanged
  · obtain ⟨in1, isInput1, ran⟩ := bind_ok ran
    obtain ⟨known1, isKnown1, ran⟩ := bind_ok ran
    split at ran
    · rename_i imm found
      cases ran
      rw [(Option.filter_eq_some_iff.mp found).1] at isKnown1
      exact encode_stands first configured tells isKind rfl rfl (by nofun)
        (not_xorsItself isKind (by decide)) isMi isRi isInput1 isKnown1
    · obtain ⟨in0, isInput0, ran⟩ := bind_ok ran
      obtain ⟨known0, isKnown0, ran⟩ := bind_ok ran
      split at ran
      · rename_i imm found
        obtain ⟨switched, isSwitched, ran⟩ := bind_ok ran
        cases ran
        rw [(Option.filter_eq_some_iff.mp found).1] at isKnown0
        exact switch_stands configured tells isKind isRi isInput0 isKnown0 isSwitched
      · cases ran
        exact .unchanged

/-! ### Moves and addresses -/

include first configured tells in
theorem lea64_stands (isKind : old.opcode.kind = .lea 64)
    (ran : lea64 old.rawOperands dynInfo livenessData context pool = .ok (specialized, later)) :
    Stands p host livenessData.live_out old specialized := by
  have unread (flag : Flag) (_ : .flag flag ∈ livenessData.live_out) :=
    no_alu (p := p) isKind (by nofun) flag
  have eight : writtenBytes old = 64 / 8 := by
    rw [writtenBytes_eq (by rw [isKind]; nofun), isKind]
    rfl
  obtain ⟨out, isOutput, ran⟩ := bind_ok ran
  obtain ⟨known, isKnown, ran⟩ := bind_ok ran
  cases known with
  | none =>
      cases ran
      exact .unchanged
  | some imm =>
      dsimp only at ran
      split at ran
      · rename_i isZero
        obtain ⟨_, zero, noFlags⟩ := isZero
        obtain ⟨cleared, isCleared, ran⟩ := bind_ok ran
        cases ran
        obtain ⟨reg, isRegister, rfl⟩ := clear_ok isCleared
        have plain : old.opcode.kind.isPlain = true := by rw [isKind]; rfl
        have result := eq_zero configured isKnown zero (hasBytes_result p host plain)
          (tells.output0 (by rw [isKind]; rfl) out isOutput)
        exact stands_clear first isKind isRegister (w := 64) rfl
          (Or.inl ⟨rfl, flags_dead noFlags⟩) rfl rfl eight result unread
      · cases ran
        refine stands_move isKind rfl rfl rfl eight (destination_setSource first) ?_ unread
        rw [source_setSource first]
        exact read_result configured tells isKind rfl rfl isOutput isKnown

include first configured tells in
theorem lea32_stands (isKind : old.opcode.kind = .lea 32)
    (ran : lea32 old.rawOperands dynInfo context pool = .ok (specialized, later)) :
    Stands p host live old specialized := by
  obtain ⟨out, isOutput, ran⟩ := bind_ok ran
  obtain ⟨known, isKnown, ran⟩ := bind_ok ran
  cases known with
  | none =>
      cases ran
      exact .unchanged
  | some imm =>
      cases ran
      refine stands_move isKind (w := 32) rfl rfl rfl ?_ (destination_setSource first) ?_
        (fun flag _ => no_alu isKind (by nofun) flag)
      · rw [writtenBytes_eq (by rw [isKind]; nofun), isKind]
        rfl
      · rw [source_setSource first]
        exact read_result configured tells isKind rfl rfl isOutput isKnown

theorem sameRegister_ok (same : sameRegister old.rawOperands = true) :
    ∃ reg, old.destination = .reg reg ∧ old.source = .reg reg := by
  unfold sameRegister at same
  split at same
  · rename_i reg0 reg1 first second
    cases eq_of_beq same
    exact ⟨reg0, congrArg (fun found => found.getD (.imm (.plain 0))) first,
      congrArg (fun found => found.getD (.reg .CL)) second⟩
  · cases same

theorem deleteMove_stands {w : Nat} (isKind : old.opcode.kind = .mov w)
    (same : sameRegister old.rawOperands = true) : Stands p host live old .Delete := by
  obtain ⟨reg, destination, source⟩ := sameRegister_ok same
  refine stands_delete isKind rfl rfl (Or.inl (by nofun)) ?_
    (fun flag _ => no_alu isKind (by nofun) flag)
  rw [result_mov isKind, destination, source]
  rfl

include first configured tells in
theorem mov32_stands (isKind : old.opcode.kind = .mov 32)
    (ran : mov32 old.opcode old.rawOperands dynInfo context pool = .ok (specialized, later)) :
    Stands p host live old specialized := by
  unfold mov32 at ran
  split at ran
  · rename_i same
    cases ran
    exact deleteMove_stands isKind same.2
  · obtain ⟨in1, isInput, ran⟩ := bind_ok ran
    obtain ⟨known, isKnown, ran⟩ := bind_ok ran
    cases known with
    | none =>
        cases ran
        exact .unchanged
    | some imm =>
        cases ran
        exact encode_stands first configured tells isKind rfl rfl (by nofun)
          (not_xorsItself_of_kind (by rw [isKind]; nofun)) rfl rfl isInput isKnown

include first configured tells in
theorem mov64_stands (isKind : old.opcode.kind = .mov 64)
    (ran : mov64 old.opcode old.rawOperands dynInfo context pool = .ok (specialized, later)) :
    Stands p host live old specialized := by
  unfold mov64 at ran
  split at ran
  · rename_i same
    cases ran
    exact deleteMove_stands isKind same.2
  · obtain ⟨in1, isInput, ran⟩ := bind_ok ran
    obtain ⟨known, isKnown, ran⟩ := bind_ok ran
    cases known with
    | none =>
        cases ran
        exact .unchanged
    | some imm =>
        have encode {opcode : Opcode} (newKind : opcode.kind = .mov 64) :
            Stands p host live old (withImm opcode old.rawOperands imm) :=
          withImm_stands first configured tells isKind newKind rfl rfl (by nofun)
            (not_xorsItself_of_kind (by rw [isKind]; nofun)) isInput isKnown
        dsimp only at ran
        split at ran
        · split at ran
          · cases ran
            exact encode rfl
          · cases ran
            exact .unchanged
        · cases ran
          exact encode rfl

include first tells loaded in
theorem movPacked_stands (isKind : old.opcode.kind = .mov 128) {rr rm : Opcode}
    (ran : movPacked old.opcode old.rawOperands dynInfo pool rr rm = .ok (specialized, later)) :
    Stands p host live old specialized := by
  have unread (flag : Flag) (_ : .flag flag ∈ live) := no_alu (p := p) isKind (by nofun) flag
  unfold movPacked at ran
  split at ran
  · rename_i same
    cases ran
    exact deleteMove_stands isKind same.2
  · obtain ⟨out, isOutput, ran⟩ := bind_ok ran
    split at ran
    · rename_i isImm
      obtain ⟨imm, known, ran⟩ := bind_ok ran
      have value := result_eq_imm128 tells isKind rfl rfl isOutput isImm known
      split at ran
      · rename_i zero
        obtain ⟨cleared, isCleared, ran⟩ := bind_ok ran
        cases ran
        exact clear128_stands first isKind rfl rfl rfl (by nofun) unread (value.trans zero)
          isCleared
      · split at ran
        · exact load128_stands first loaded isKind rfl rfl rfl (by nofun) unread rfl value ran
        · cases ran
          exact .unchanged
    · cases ran
      exact .unchanged

include first tells loaded in
theorem movups_stands (isKind : old.opcode.kind = .mov 128)
    (ran : movups old.opcode old.rawOperands dynInfo pool = .ok (specialized, later)) :
    Stands p host live old specialized := by
  unfold movups at ran
  split at ran
  · rename_i same
    cases ran
    exact deleteMove_stands isKind same.2
  · obtain ⟨out, isOutput, ran⟩ := bind_ok ran
    split at ran
    · rename_i isImm
      obtain ⟨imm, known, ran⟩ := bind_ok ran
      exact load128_stands first loaded isKind rfl rfl rfl (by nofun)
        (fun flag _ => no_alu isKind (by nofun) flag) rfl
        (result_eq_imm128 tells isKind rfl rfl isOutput isImm.1 known) ran
    · cases ran
      exact .unchanged

structure MoveOperands (instruction : Instruction) : Prop where
  load : instruction.opcode = .MOVSDrm → ∃ reg ptr,
    instruction.rawOperands.op 0 = some (.reg reg) ∧ instruction.rawOperands.op 1 = some (.mem ptr)
  store : instruction.opcode = .MOVSDmr → ∃ ptr, instruction.rawOperands.op 0 = some (.mem ptr)

include tells loaded in
theorem loadScalar_stands (isLoad : old.opcode = .MOVSDrm) (operands : MoveOperands old)
    {out : DynamicValue} (isOutput : output dynInfo 0 = .ok out) (isImm : out.isImm = true)
    {imm : BitVec 64} (known : out.getImm64 = .ok imm)
    (ran : load .MOVSDrm old.rawOperands (pool.allocConstant64 imm) = .ok (specialized, later)) :
    Stands p host live old specialized := by
  obtain ⟨reg, ptr, isRegister, isMemory⟩ := operands.load isLoad
  have isKind : old.opcode.kind = .movsd := by rw [isLoad]; rfl
  have value := result_eq_imm64 tells isKind rfl rfl rfl isOutput isImm known
  obtain ⟨addr, allocated, rfl⟩ := load_ok ran
  have first : ∃ dst, old.rawOperands.op 0 = some dst := ⟨_, isRegister⟩
  have destination : old.destination = .reg reg :=
    congrArg (fun found => found.getD (.imm (.plain 0))) isRegister
  have source : old.source = .mem ptr := congrArg (fun found => found.getD (.reg .CL)) isMemory
  refine .changed (sameOn_execute (isKind ▸ rfl) rfl ?_ (fun flag _ => ?_)) ?_
  · refine written_congr (by rw [isKind]; rfl) (fun _ => ⟨destination_setSource first, ?_, ?_⟩)
    · unfold writtenBytes
      rw [destination_setSource first, source_setSource first, destination, source, isKind]
      rfl
    · rw [value, ← read_const64 loaded allocated]
      exact congrArg (p.read 8) (source_setSource first)
  · rw [no_alu isKind (by nofun) flag]
    rfl
  · unfold Specialized.lostByLoad
    rw [isKind]

include tells loaded in
theorem movsd_stands (isKind : old.opcode.kind = .movsd) (operands : MoveOperands old)
    (ran : movsd old.opcode old.rawOperands dynInfo pool = .ok (specialized, later)) :
    Stands p host live old specialized := by
  have unread (flag : Flag) (_ : .flag flag ∈ live) := no_alu (p := p) isKind (by nofun) flag
  unfold movsd at ran
  split at ran
  · rename_i same
    cases ran
    obtain ⟨reg, destination, source⟩ := sameRegister_ok same.2
    refine stands_delete isKind rfl rfl (Or.inr ⟨reg, source⟩) ?_ unread
    unfold result
    rw [isKind, destination, source]
    rfl
  · obtain ⟨out, isOutput, ran⟩ := bind_ok ran
    split at ran
    · rename_i isImm
      obtain ⟨imm, known, ran⟩ := bind_ok ran
      split at ran
      · rename_i isLoad
        exact loadScalar_stands tells loaded isLoad operands isOutput isImm known ran
      · split at ran
        · rename_i isStore
          cases ran
          obtain ⟨ptr, isMemory⟩ := operands.store isStore.1
          have first : ∃ dst, old.rawOperands.op 0 = some dst := ⟨_, isMemory⟩
          refine stands_move isKind (w := 64) rfl rfl rfl ?_ (destination_setSource first) ?_ unread
          · have destination : old.destination = .mem ptr :=
              congrArg (fun found => found.getD (.imm (.plain 0))) isMemory
            unfold writtenBytes
            rw [destination, isKind]
            rfl
          · rw [source_setSource first,
              result_eq_imm64 tells isKind rfl rfl rfl isOutput isImm known]
            exact read_imm_eight p _
        · cases ran
          exact .unchanged
    · cases ran
      exact .unchanged

/-! ### Stack, vectors and shifts -/

include configured tells in
theorem push_stands {w : Nat} (isKind : old.opcode.kind = .push w) (short : w / 8 ≤ 16)
    {opcode : Opcode} (newKind : opcode.kind = .push w) {in0 : DynamicValue}
    (isInput : input dynInfo 0 = .ok in0) {imm : Immediate64}
    (known : getImm in0 context = .ok (some imm)) :
    Stands p host live old (.Change opcode [.imm imm]) := by
  have described := tells.input0 (by rw [isKind]; rfl)
    (not_xorsItself_of_kind (by rw [isKind]; nofun)) in0 isInput
  rw [isKind] at described
  have encoded : p.read (w / 8) (.imm imm) = p.read (w / 8) old.destination :=
    read_imm configured known (hasBytes_read p short old.destination) described
  have result : p.result host { opcode, rawOperands := [.imm imm] } = p.result host old := by
    unfold Processor.result
    rw [isKind, newKind]
    exact encoded
  refine .changed (.of_eq ?_) (lostByLoad_eq (ne_MOVSDrm newKind (by nofun)))
  unfold execute
  rw [isKind, newKind, result]

include configured tells in
theorem push16_stands (isKind : old.opcode.kind = .push 16)
    (ran : push16 dynInfo context pool = .ok (specialized, later)) :
    Stands p host live old specialized := by
  obtain ⟨in0, isInput, ran⟩ := bind_ok ran
  obtain ⟨known, isKnown, ran⟩ := bind_ok ran
  cases known with
  | none =>
      cases ran
      exact .unchanged
  | some imm =>
      cases ran
      exact push_stands configured tells isKind (by decide) rfl isInput isKnown

include configured tells in
theorem push64_stands (isKind : old.opcode.kind = .push 64)
    (ran : push64 dynInfo context pool = .ok (specialized, later)) :
    Stands p host live old specialized := by
  obtain ⟨in0, isInput, ran⟩ := bind_ok ran
  obtain ⟨known, isKnown, ran⟩ := bind_ok ran
  cases encodable : known.filter (fun imm => is_simm32 imm.val) with
  | none =>
      rw [encodable] at ran
      cases ran
      exact .unchanged
  | some imm =>
      rw [encodable] at ran
      cases ran
      rw [(Option.filter_eq_some_iff.mp encodable).1] at isKnown
      exact push_stands configured tells isKind (by decide) rfl isInput isKnown

theorem differ_of_guard (isXor : old.opcode.kind = kind) {rr : Opcode}
    (only : ∀ opcode : Opcode, opcode.kind = kind →
      (opcode = .XOR32rr ∨ opcode = .XOR64rr ∨ opcode = .PXOR128rr) → opcode = rr)
    (guard : ¬ (old.opcode = rr ∧ sameRegister old.rawOperands = true)) : ¬ old.XorsItself :=
  fun xors => guard ⟨only _ isXor xors.1, xors.2⟩

include first tells loaded in
theorem pxor_stands (isKind : old.opcode.kind = .alu .pxor 128)
    (ran : pxor old.opcode old.rawOperands dynInfo pool = .ok (specialized, later)) :
    Stands p host live old specialized := by
  have unread (flag : Flag) (_ : .flag flag ∈ live) : p.flagEffects old flag = .unchanged := by
    rw [flagEffects_alu isKind]
    rfl
  unfold pxor at ran
  split at ran
  · cases ran
    exact .unchanged
  · rename_i guard
    have differ : ¬ old.XorsItself := by
      refine differ_of_guard isKind ?_ guard
      rintro opcode opcodeKind (rfl | rfl | rfl)
      · cases opcodeKind
      · cases opcodeKind
      · rfl
    obtain ⟨out, isOutput, ran⟩ := bind_ok ran
    split at ran
    · rename_i isImm
      obtain ⟨imm, known, ran⟩ := bind_ok ran
      exact load128_stands first loaded isKind rfl rfl rfl (by nofun) unread rfl
        (result_eq_imm128 tells isKind rfl rfl isOutput isImm known) ran
    · obtain ⟨in1, isInput, ran⟩ := bind_ok ran
      split at ran
      · rename_i isImm
        obtain ⟨imm, known, ran⟩ := bind_ok ran
        exact loadSource128_stands first tells loaded isKind rfl rfl rfl (by nofun) differ rfl
          isInput isImm known ran
      · cases ran
        exact .unchanged

theorem shiftCount_eq_zero {count : BitVec 8} {val : BitVec 64} (same : count = val.setWidth 8)
    (zero : val &&& 0x3f = 0) : Alu.shiftCount count = 0 := by
  have low : val.toNat % 64 = 0 := by
    rw [← Nat.and_two_pow_sub_one_eq_mod val.toNat 6]
    exact congrArg BitVec.toNat zero
  unfold Alu.shiftCount
  rw [same, BitVec.toNat_setWidth]
  omega

theorem exec_shift_zero {op : AluOp} (isShift : op = .shl ∨ op = .shr) {a b : BitVec 128}
    (zero : Alu.shiftCount (b.setWidth 8) = 0) :
    op.exec 64 a b = { value := a.setWidth 64, flags := fun _ => .unchanged } := by
  rcases isShift with rfl | rfl
  · change AluResult.mk ((Alu.shl64 _ _).value.setWidth 64) (Alu.shl64 _ _).flags = _
    unfold Alu.shl64
    rw [if_pos zero, BitVec.setWidth_eq]
  · change AluResult.mk ((Alu.shr64 _ _).value.setWidth 64) (Alu.shr64 _ _).flags = _
    unfold Alu.shr64
    rw [if_pos zero, BitVec.setWidth_eq]

include configured tells in
theorem deleteShift_stands {op : AluOp} (isKind : old.opcode.kind = .alu op 64)
    (isShift : op = .shl ∨ op = .shr) {in1 : DynamicValue} (isInput : input dynInfo 1 = .ok in1)
    {imm : Immediate64} (known : getImm in1 context = .ok (some imm))
    (zero : imm.val &&& 0x3f = 0) : Stands p host live old .Delete := by
  have reads : old.opcode.kind.readsSource = true := by rw [isKind]; rfl
  have plain : old.opcode.kind.isPlain = true := by rw [isKind]; rfl
  have narrow : op.sourceWidth 64 = 8 := by rcases isShift with rfl | rfl <;> rfl
  have differ : ¬ old.XorsItself :=
    not_xorsItself isKind (by rcases isShift with rfl | rfl <;> decide)
  have described := getImm_describes configured known (tells.input1 reads differ in1 isInput)
  rw [isKind] at described
  change BitVec.setWidth (8 * (op.sourceWidth 64 / 8)) (p.read (op.sourceWidth 64 / 8) _) =
    BitVec.setWidth (8 * (op.sourceWidth 64 / 8)) _ at described
  rw [narrow] at described
  have ran : p.alu old op 64 =
      { value := (p.read 8 old.destination).setWidth 64, flags := fun _ => .unchanged } := by
    unfold alu
    rw [narrow]
    exact exec_shift_zero isShift (shiftCount_eq_zero described zero)
  refine stands_delete isKind rfl ?_ (Or.inl (by nofun)) ?_ (fun flag _ => ?_)
  · rcases isShift with rfl | rfl <;> rfl
  · rw [result_alu isKind, ran]
    have short : HasBytes 8 (p.read 8 old.destination) := hasBytes_read p (by decide) _
    exact short.setWidth_setWidth
  · rw [flagEffects_alu isKind, ran]

include first configured tells in
theorem shift_stands {op : AluOp} (isKind : old.opcode.kind = .alu op 64)
    (isShift : op = .shl ∨ op = .shr) {m mi r ri : Opcode} (isMi : mi.kind = .alu op 64)
    (isRi : ri.kind = .alu op 64)
    (ran : shift old.opcode old.rawOperands dynInfo livenessData context pool m mi r ri =
      .ok (specialized, later)) : Stands p host livenessData.live_out old specialized := by
  have reads : OpcodeKind.readsSource (.alu op 64) = true := rfl
  have writes : OpcodeKind.writesDestination (.alu op 64) = true := by
    rcases isShift with rfl | rfl <;> rfl
  have differ : ¬ old.XorsItself :=
    not_xorsItself isKind (by rcases isShift with rfl | rfl <;> decide)
  obtain ⟨in1, isInput, ran⟩ := bind_ok ran
  obtain ⟨known, isKnown, ran⟩ := bind_ok ran
  split at ran
  · rename_i found
    cases ran
    obtain ⟨imm, rfl, isZero⟩ := (Option.any_eq_true _ _).mp found
    exact deleteShift_stands configured tells isKind isShift isInput isKnown (eq_of_beq isZero)
  · rcases orElse_ok ran with ⟨moved, rfl⟩ | ⟨_, counted⟩
    · obtain ⟨out, _, moved⟩ := bind_ok moved
      obtain ⟨_, _, moved⟩ := bind_ok moved
      split at moved
      · cases moved
      · rename_i noFlags
        exact moveOutput_stands first configured tells isKind rfl writes rfl (by nofun)
          (flags_dead (Bool.eq_false_iff.mpr noFlags)) moved
    · unfold shiftCount at counted
      split at counted
      · obtain ⟨count, isCount, counted⟩ := bind_ok counted
        obtain ⟨found, isFound, counted⟩ := bind_ok counted
        cases found with
        | none =>
            cases counted
            exact .unchanged
        | some imm =>
            cases counted
            exact encode_stands first configured tells isKind rfl reads (by nofun) differ isMi isRi
              isCount isFound
      · cases counted
        exact .unchanged

/-! ### Exclusive or -/

include configured tells in
theorem deleteXor_stands {w : Nat} (isKind : old.opcode.kind = .alu .xor w)
    (differ : ¬ old.XorsItself) {in1 : DynamicValue} (isInput : input dynInfo 1 = .ok in1)
    {imm : Immediate64} (known : getImm in1 context = .ok (some imm)) (zero : imm.val = 0)
    (dead : ∀ flag, .flag flag ∉ live) : Stands p host live old .Delete := by
  have plain : old.opcode.kind.isPlain = true := by rw [isKind]; rfl
  have whole : w = 8 * (w / 8) := (plain_width plain).2.2 w (Or.inl ⟨.xor, isKind⟩)
  have short : w / 8 ≤ 16 := by
    have bound := (plain_width plain).1
    rw [isKind] at bound
    exact bound
  have isZero : p.read (w / 8) old.source = 0 :=
    source_eq_zero configured tells isKind rfl rfl differ isInput known zero
  refine stands_delete isKind rfl rfl (Or.inl (by nofun)) ?_
    (fun flag isLive => absurd isLive (dead flag))
  rw [result_alu isKind]
  change BitVec.setWidth 128 (BitVec.setWidth w (p.read (w / 8) old.destination) ^^^
    BitVec.setWidth w (p.read (w / 8) old.source)) = p.read (w / 8) old.destination
  rw [isZero, zero_setWidth]
  have same := (hasBytes_read p short old.destination).setWidth_setWidth
  rw [← whole] at same
  exact (congrArg (BitVec.setWidth 128) BitVec.xor_zero).trans same

include first configured tells in
theorem xor32_stands (isKind : old.opcode.kind = .alu .xor 32)
    (ran : xor32 old.opcode old.rawOperands dynInfo livenessData context pool =
      .ok (specialized, later)) : Stands p host livenessData.live_out old specialized := by
  unfold xor32 at ran
  split at ran
  · cases ran
    exact .unchanged
  · rename_i guard
    have differ : ¬ old.XorsItself := by
      refine differ_of_guard isKind ?_ guard
      rintro opcode opcodeKind (rfl | rfl | rfl)
      · rfl
      · cases opcodeKind
      · cases opcodeKind
    obtain ⟨in1, isInput, ran⟩ := bind_ok ran
    obtain ⟨known, isKnown, ran⟩ := bind_ok ran
    cases known with
    | none =>
        cases ran
        exact .unchanged
    | some imm =>
        have encode {opcode : Opcode} (newKind : opcode.kind = .alu .xor 32) :
            Stands p host livenessData.live_out old (withImm opcode old.rawOperands imm) :=
          withImm_stands first configured tells isKind newKind rfl rfl (by nofun) differ isInput
            isKnown
        dsimp only at ran
        split at ran
        · rename_i dropped
          cases ran
          exact deleteXor_stands configured tells isKind differ isInput isKnown dropped.1
            (flags_dead dropped.2)
        · split at ran
          · cases ran
            exact encode rfl
          · split at ran
            · cases ran
              exact encode rfl
            · cases ran
              exact .unchanged

include first configured tells loaded in
theorem xor64_stands (isKind : old.opcode.kind = .alu .xor 64)
    (ran : xor64 old.opcode old.rawOperands dynInfo livenessData context pool =
      .ok (specialized, later)) : Stands p host livenessData.live_out old specialized := by
  unfold xor64 at ran
  split at ran
  · cases ran
    exact .unchanged
  · rename_i guard
    have differ : ¬ old.XorsItself := by
      refine differ_of_guard isKind ?_ guard
      rintro opcode opcodeKind (rfl | rfl | rfl)
      · cases opcodeKind
      · rfl
      · cases opcodeKind
    obtain ⟨in1, isInput, ran⟩ := bind_ok ran
    obtain ⟨known, isKnown, ran⟩ := bind_ok ran
    cases known with
    | none =>
        cases ran
        exact .unchanged
    | some imm =>
        have encode {opcode : Opcode} (newKind : opcode.kind = .alu .xor 64) :
            Stands p host livenessData.live_out old (withImm opcode old.rawOperands imm) :=
          withImm_stands first configured tells isKind newKind rfl rfl (by nofun) differ isInput
            isKnown
        dsimp only at ran
        split at ran
        · rename_i dropped
          cases ran
          exact deleteXor_stands configured tells isKind differ isInput isKnown dropped.1
            (flags_dead dropped.2)
        · split at ran
          · split at ran
            · cases ran
              exact encode rfl
            · split at ran
              · cases ran
                exact encode rfl
              · cases ran
                exact .unchanged
          · split at ran
            · exact load64_stands first configured tells loaded isKind rfl rfl rfl rfl (by nofun)
                differ isInput isKnown ran
            · cases ran
              exact .unchanged

end Handlers

end Specialize

end Drob
