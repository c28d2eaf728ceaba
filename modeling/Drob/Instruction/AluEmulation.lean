import Drob.Arch.Kind
import Drob.Instruction.Emulate

/-!
The abstract emulation of arithmetic instructions. For any values assigned to the
inputs, the outputs that the dispatch computes describe the result and the flags of
the instruction, except for the inputs that a condition names exactly.
-/

namespace Drob

namespace AluEmulation

/-! ### Operands with assigned values -/

/-- An instruction with values for the inputs of its two operands and the computed
address of its memory operand. -/
structure Assignment where
  instruction : Instruction
  ptrVal : DynamicValue
  ptr : MemPtr
  in0 : DynamicValue
  in1 : DynamicValue

/-- An operand after refining its mode, with the value assigned to it if it is read. -/
def operand (access : OperandAccess) (mode : AccessMode) (nr : Nat) (isImpl : Bool)
    (value output : DynamicValue) : DynamicOperandInfo :=
  { access
    nr
    isImpl
    isInput := mode.isRead
    isCondInput := mode.isRead && mode.isConditional
    isOutput := mode.isWrite
    isCondOutput := mode.isWrite && mode.isConditional
    input := if mode.isRead then value else .imm64 0
    output }

namespace Assignment

def opcode (assignment : Assignment) : Opcode :=
  assignment.instruction.opcode

def value (assignment : Assignment) (nr : Nat) : DynamicValue :=
  if nr = 0 then assignment.in0 else assignment.in1

/-- `Instruction::createDynOpInfo` with the assigned values in place of the ones that a
program state holds. An encoded immediate is its own value. -/
def createDynOpInfo (assignment : Assignment) (fn : RefineFn) (info : OperandInfo) :
    Except Failure DynamicOperandInfo :=
  let access (kind : OperandAccess) (mode : AccessMode) : DynamicOperandInfo :=
    operand kind mode info.nr info.isImpl (assignment.value info.nr) .unknown
  match info.info with
  | .immediate type imm =>
      .ok (operand (.immediate type) .Read info.nr info.isImpl (immediateValue imm) .unknown)
  | _ => do
      let refined ← refine fn info assignment.opcode assignment.instruction.rawOperands none
      match refined.info with
      | .register regAcc => .ok (access (.register regAcc) regAcc.mode)
      | .memPtr m =>
          .ok (access
            (.memPtr
              { ptrVal := assignment.ptrVal
                ptr := assignment.ptr
                mode := m.mode
                size := m.size })
            m.mode)
      | .immediate _ _ => .error .undefined

def createDynOpInfos (assignment : Assignment) (fn : RefineFn) :
    List OperandInfo → Except Failure (List DynamicOperandInfo)
  | [] => .ok []
  | info :: rest => do
      let first ← assignment.createDynOpInfo fn info
      let others ← assignment.createDynOpInfos fn rest
      .ok (first :: others)

/-- `Instruction::genDynInfo` for an instruction that executes. -/
def genDynInfo (assignment : Assignment) : Except Failure DynamicInstructionInfo := do
  let info ← assignment.instruction.getInfo
  let fn := assignment.instruction.opcodeInfo.elim .nullptr OpcodeInfo.refine
  let operands ← assignment.createDynOpInfos fn info.operands
  .ok (Instruction.countOperands assignment.opcode .True info operands (.start info.nasty))

def same (assignment : Assignment) : Bool :=
  assignment.instruction.opcodeInfo.elim false (fun row =>
    decide (row.refine = .xor_rr) &&
      decide (assignment.instruction.rawOperands.op 0 = assignment.instruction.rawOperands.op 1))

end Assignment

/-! ### What is claimed of the outputs -/

def flagByte (flag : Bool) : BitVec 8 :=
  if flag then 1 else 0

structure DescribesOutputs (base : DynamicValue.PtrBase) (operands : List DynamicOperandInfo)
    {w : Nat} (result : AluResult w) (old undef : Eflags) : Prop where
  destination : ∀ op, operands[0]? = some op → op.isOutput = true →
    op.output.Describes base result.value
  flag : ∀ op flag, op ∈ operands → op.isImpl = true → op.isOutput = true →
    (∃ regAcc, op.access = .register regAcc ∧ regAcc.reg = .flag1 flag) →
    op.output.Describes base (flagByte ((result.flags flag).resolve (old flag) (undef flag)))

/-- The operand is of the kind, and a register of the type, that an opcode declares. -/
def Declares : ExplicitStaticOperandInfo → StaticOperand → Prop
  | .register type _ _ _, .reg reg => reg.type = type
  | .memPtr _ _, .mem _ => True
  | .immediate _, .imm _ => True
  | _, _ => False

/-- The instruction encodes what its opcode declares; an immediate is assigned its own
value, and a register that is named twice one value. -/
structure Assignment.Valid (assignment : Assignment) (row : OpcodeInfo) (op : AluOp)
    (w : Nat) : Prop where
  row_eq : archGetOpcodeInfo assignment.opcode = some row
  kind_eq : assignment.opcode.kind = .alu op w
  declared : List.Forall₂ Declares row.opInfo assignment.instruction.rawOperands
  encoded : ∀ imm, assignment.instruction.rawOperands.op 1 = some (.imm imm) →
    assignment.in1 = immediateValue imm
  sameInput : assignment.same = true → assignment.in0 = assignment.in1

/-- The dispatch gives outputs that describe the result for all inputs that the
assigned values describe, whatever the flags were and the processor chooses for
undefined ones. -/
def Sound (assignment : Assignment) (row : OpcodeInfo) (op : AluOp) (w : Nat) (host : Host) :
    Prop :=
  ∃ dynInfo operands ret, assignment.genDynInfo = .ok dynInfo ∧
    dispatch row host dynInfo = .ok (operands, ret) ∧
    ∀ (base : DynamicValue.PtrBase) (a b : BitVec 128) (old undef : Eflags),
      assignment.in0.Describes base (a.setWidth w) →
      assignment.in1.Describes base (b.setWidth (op.sourceWidth w)) →
      (assignment.same = true → a = b) →
      DescribesOutputs base operands (op.exec w a b) old undef

def shiftsByCl : Opcode → Bool
  | .SHL64r | .SHL64m | .SHR64r | .SHR64m => true
  | _ => false

/-- The low 16 bits of two numbers are ordered as their low 8 bits are, and the
difference has the same sign. -/
structure OrderedAlike (a b : BitVec 64) : Prop where
  equal : a.setWidth 8 = b.setWidth 8 ↔ a.setWidth 16 = b.setWidth 16
  below : (a.setWidth 8).ult (b.setWidth 8) = (a.setWidth 16).ult (b.setWidth 16)
  less : (a.setWidth 8).slt (b.setWidth 8) = (a.setWidth 16).slt (b.setWidth 16)
  sign : (a - b).getLsbD 7 = (a - b).getLsbD 15

def EqualButTop (ptrOffset0 ptrOffset1 : BitVec 64) : Prop :=
  ptrOffset0 + ptrOffset0 = ptrOffset1 + ptrOffset1

/-- The exact condition for sound outputs. -/
def Emulated (assignment : Assignment) : Prop :=
  match assignment.opcode.kind with
  | .alu .sub 64 => ¬ (assignment.in0.isImm = true ∧ assignment.in1.isPtr = true)
  | .alu .cmp 8 => assignment.opcode = .CMP8ri → ∀ a b, assignment.in0.imm64? = some a →
      assignment.in1.imm64? = some b → OrderedAlike a b
  | .alu .cmp 64 =>
      ∀ type nr ptrOffset0 ptrOffset1, assignment.in0 = .ptr type nr ptrOffset0 →
        assignment.in1 = .ptr type nr ptrOffset1 → ptrOffset0 = ptrOffset1
  | .alu .xor _ =>
      assignment.same = false ∧
        ¬ (assignment.in0.isImm = true ∧ assignment.in1.isImm = true)
  | .alu .pxor _ =>
      assignment.same = true ∨ (assignment.in0.isImm = true ∧ assignment.in1.isImm = true) ∨
        ∃ type ptrOffset0 ptrOffset1, assignment.in0 = .ptr type 0 ptrOffset0 ∧
          assignment.in1 = .ptr type 0 ptrOffset1 ∧ EqualButTop ptrOffset0 ptrOffset1
  | .alu .shl _ | .alu .shr _ =>
      shiftsByCl assignment.opcode = false ∧
        (∀ a, assignment.in0.imm64? = some a → assignment.in1.isImm = false → a = 0) ∧
        ∀ a count, assignment.in0.imm64? = some a → assignment.in1.imm64? = some count →
          count.toNat % 64 = 0 → count = 0
  | _ => True

/-! ### The operands after refining -/

def operandMode : ExplicitStaticOperandInfo → AccessMode
  | .register _ mode _ _ => mode
  | .memPtr mode _ => mode
  | .immediate _ => .Read

def flagOperand (mode : AccessMode) (nr : Nat) (flag : Flag) (output : DynamicValue) :
    DynamicOperandInfo :=
  operand (.register { reg := .flag1 flag, mode, r := .none, w := .full }) mode nr true
    .unknown output

def flagOperands (mode : AccessMode) (outs : Flag → DynamicValue) : List DynamicOperandInfo :=
  [flagOperand mode 2 .CF (outs .CF), flagOperand mode 3 .PF (outs .PF),
   flagOperand mode 4 .AF (outs .AF), flagOperand mode 5 .ZF (outs .ZF),
   flagOperand mode 6 .SF (outs .SF), flagOperand mode 7 .OF (outs .OF)]

namespace Assignment

def mode0 (assignment : Assignment) (row : OpcodeInfo) : AccessMode :=
  if row.refine = .xor_rr then if assignment.same then .Write else .ReadWrite
  else (row.opInfo[0]?).elim .None operandMode

def mode1 (assignment : Assignment) (row : OpcodeInfo) : AccessMode :=
  if row.refine = .xor_rr then if assignment.same then .None else .Read
  else (row.opInfo[1]?).elim .Read operandMode

def noCount (assignment : Assignment) : Bool :=
  match assignment.instruction.rawOperands.op 1 with
  | some (.imm imm) => decide (imm.val = 0)
  | _ => false

def flagMode (assignment : Assignment) (row : OpcodeInfo) : AccessMode :=
  if row.refine = .sh then if assignment.noCount then .None else .Write else .Write

def access (assignment : Assignment) (mode : AccessMode) :
    Option ExplicitStaticOperandInfo → Option StaticOperand → OperandAccess
  | some (.register _ _ r w), some (.reg reg) => .register { reg, mode, r, w }
  | some (.immediate type), _ => .immediate type
  | explInfo, _ =>
      .memPtr
        { ptrVal := assignment.ptrVal
          ptr := assignment.ptr
          mode
          size := match explInfo with
            | some (.memPtr _ size) => size
            | _ => 0 }

def operand0 (assignment : Assignment) (row : OpcodeInfo) (output : DynamicValue) :
    DynamicOperandInfo :=
  let mode := assignment.mode0 row
  operand (assignment.access mode row.opInfo[0]? (assignment.instruction.rawOperands.op 0)) mode
    0 false assignment.in0 output

def operand1 (assignment : Assignment) (row : OpcodeInfo) : DynamicOperandInfo :=
  let mode := assignment.mode1 row
  operand (assignment.access mode row.opInfo[1]? (assignment.instruction.rawOperands.op 1)) mode
    1 false assignment.in1 .unknown

def flags (assignment : Assignment) (row : OpcodeInfo) (outs : Flag → DynamicValue) :
    List DynamicOperandInfo :=
  if row.iOpInfo = [] then [] else flagOperands (assignment.flagMode row) outs

def operands (assignment : Assignment) (row : OpcodeInfo) (output : DynamicValue)
    (outs : Flag → DynamicValue) : List DynamicOperandInfo :=
  assignment.operand0 row output :: assignment.operand1 row :: assignment.flags row outs

def dynInfo (assignment : Assignment) (row : OpcodeInfo) : DynamicInstructionInfo :=
  Instruction.countOperands assignment.opcode .True .empty
    (assignment.operands row .unknown (fun _ => .unknown)) (.start false)

end Assignment

/-! ### Rows of the table -/

def handlerOf (op : AluOp) (w : Nat) : EmulateFn × OpcodeFlag :=
  match op, w with
  | .add, 8 => (.add8, .OfEmuImm)
  | .add, 16 => (.add16, .OfEmuImm)
  | .add, 32 => (.add32, .OfEmuImm)
  | .add, _ => (.add64, .OfEmuPtr)
  | .sub, 8 => (.sub8, .OfEmuImm)
  | .sub, 16 => (.sub16, .OfEmuImm)
  | .sub, 32 => (.sub32, .OfEmuImm)
  | .sub, _ => (.sub64, .OfEmuPtr)
  | .cmp, 8 => (.cmp8, .OfEmuImm)
  | .cmp, 16 => (.cmp16, .OfEmuImm)
  | .cmp, 32 => (.cmp32, .OfEmuImm)
  | .cmp, _ => (.cmp64, .OfEmuPtr)
  | .test, 8 => (.test8, .OfEmuFull)
  | .test, 16 => (.test16, .OfEmuFull)
  | .test, 32 => (.test32, .OfEmuFull)
  | .test, _ => (.test64, .OfEmuFull)
  | .xor, 32 => (.xor32, .OfEmuImm)
  | .xor, _ => (.xor64, .OfEmuImm)
  | .pxor, _ => (.pxor, .OfEmuFull)
  | .shl, _ => (.shl64, .OfEmuFull)
  | .shr, _ => (.shr64, .OfEmuFull)

/-- Every row has the handler of its operation, except the one of `CMP8ri`. -/
theorem row_handler {opcode : Opcode} {row : OpcodeInfo} {op : AluOp} {w : Nat}
    (found : archGetOpcodeInfo opcode = some row) (kind : opcode.kind = .alu op w) :
    row.emulate = (if opcode = .CMP8ri then .cmp16 else (handlerOf op w).1) ∧
      row.flags = (handlerOf op w).2 := by
  cases opcode <;> cases found <;> cases kind <;> exact ⟨rfl, rfl⟩

def widths : AluOp → List Nat
  | .xor => [32, 64]
  | .pxor => [128]
  | .shl | .shr => [64]
  | _ => [8, 16, 32, 64]

theorem width_mem {opcode : Opcode} {op : AluOp} {w : Nat} (kind : opcode.kind = .alu op w) :
    w ∈ widths op := by
  cases opcode <;> cases kind <;> decide

/-- The first operand is read, and written if the operation has a destination; the
second one is read. -/
structure RowShape (row : OpcodeInfo) (op : AluOp) : Prop where
  mode0 : row.refine ≠ .xor_rr →
    (row.opInfo[0]?).elim .None operandMode =
      if op.writesDestination then .ReadWrite else .Read
  mode1 : row.refine ≠ .xor_rr → (row.opInfo[1]?).elim .Read operandMode = .Read
  xor : row.refine = .xor_rr → op = .xor ∨ op = .pxor
  shift : row.refine = .sh ↔ op = .shl ∨ op = .shr
  flagged : row.iOpInfo = [] ↔ op = .pxor

theorem row_shape {opcode : Opcode} {row : OpcodeInfo} {op : AluOp} {w : Nat}
    (found : archGetOpcodeInfo opcode = some row) (kind : opcode.kind = .alu op w) :
    RowShape row op := by
  cases opcode <;> cases found <;> cases kind <;>
    exact
      { mode0 := by decide
        mode1 := by decide
        xor := by decide
        shift := by decide
        flagged := by decide }

namespace Assignment

variable {assignment : Assignment} {row : OpcodeInfo} {op : AluOp} {w : Nat}

theorem Valid.shape (valid : assignment.Valid row op w) : RowShape row op :=
  row_shape valid.row_eq valid.kind_eq

theorem Valid.same_refine (valid : assignment.Valid row op w) (same : assignment.same = true) :
    row.refine = .xor_rr := by
  have found : assignment.instruction.opcodeInfo = some row := valid.row_eq
  unfold Assignment.same at same
  rw [found, Option.elim_some, Bool.and_eq_true] at same
  exact of_decide_eq_true same.1

theorem Valid.same_op (valid : assignment.Valid row op w) (same : assignment.same = true) :
    op = .xor ∨ op = .pxor :=
  valid.shape.xor (valid.same_refine same)

theorem Valid.mode0_eq (valid : assignment.Valid row op w) :
    assignment.mode0 row =
      if assignment.same then .Write
      else if op.writesDestination then .ReadWrite else .Read := by
  unfold mode0
  by_cases refined : row.refine = .xor_rr
  · have writes : op.writesDestination = true := by
      rcases valid.shape.xor refined with rfl | rfl <;> rfl
    rw [if_pos refined, writes]
    rfl
  · have differ : assignment.same = false := by
      by_contra same
      exact refined (valid.same_refine (Bool.not_eq_false _ ▸ same))
    rw [if_neg refined, valid.shape.mode0 refined, differ]
    rfl

theorem Valid.mode1_eq (valid : assignment.Valid row op w) :
    assignment.mode1 row = if assignment.same then .None else .Read := by
  unfold mode1
  by_cases refined : row.refine = .xor_rr
  · rw [if_pos refined]
  · have differ : assignment.same = false := by
      by_contra same
      exact refined (valid.same_refine (Bool.not_eq_false _ ▸ same))
    rw [if_neg refined, valid.shape.mode1 refined, differ]
    rfl

theorem flagMode_isRead (assignment : Assignment) (row : OpcodeInfo) :
    (assignment.flagMode row).isRead = false := by
  unfold flagMode
  split
  · cases assignment.noCount <;> rfl
  · rfl

/-- What a handler reads: zero for an operand that is not read. -/
def input0 (assignment : Assignment) : DynamicValue :=
  if assignment.same then .imm64 0 else assignment.in0

def input1 (assignment : Assignment) : DynamicValue :=
  if assignment.same then .imm64 0 else assignment.in1

theorem Valid.input_operand0 (valid : assignment.Valid row op w) (output : DynamicValue) :
    (assignment.operand0 row output).input = assignment.input0 := by
  unfold operand0 AluEmulation.operand input0
  dsimp only
  rw [valid.mode0_eq]
  cases assignment.same <;> cases op <;> rfl

theorem Valid.input_operand1 (valid : assignment.Valid row op w) :
    (assignment.operand1 row).input = assignment.input1 := by
  unfold operand1 AluEmulation.operand input1
  dsimp only
  rw [valid.mode1_eq]
  cases assignment.same <;> rfl

theorem Valid.isOutput_operand1 (valid : assignment.Valid row op w) :
    (assignment.operand1 row).isOutput = false := by
  unfold operand1 AluEmulation.operand
  dsimp only
  rw [valid.mode1_eq]
  cases assignment.same <;> rfl

theorem Valid.flags_eq (valid : assignment.Valid row op w) (flagged : op ≠ .pxor)
    (outs : Flag → DynamicValue) :
    assignment.flags row outs = flagOperands (assignment.flagMode row) outs :=
  if_neg (fun none => flagged (valid.shape.flagged.mp none))

end Assignment

/-! ### Outputs -/

theorem mem_flagOperands {mode : AccessMode} {outs : Flag → DynamicValue}
    {op : DynamicOperandInfo} (member : op ∈ flagOperands mode outs) :
    ∃ flag nr, op = flagOperand mode nr flag (outs flag) := by
  unfold flagOperands at member
  simp only [List.mem_cons, List.not_mem_nil, or_false] at member
  rcases member with rfl | rfl | rfl | rfl | rfl | rfl <;> exact ⟨_, _, rfl⟩

def flagNr : Flag → Nat
  | .CF => 2
  | .PF => 3
  | .AF => 4
  | .ZF => 5
  | .SF => 6
  | .OF => 7

theorem flagOperand_mem (mode : AccessMode) (outs : Flag → DynamicValue) (flag : Flag) :
    flagOperand mode (flagNr flag) flag (outs flag) ∈ flagOperands mode outs := by
  cases flag <;> simp [flagOperands, flagNr]

/-- Outputs of a handler describe a result if the destination and each flag that is
written do, and only then. -/
theorem describesOutputs_iff {assignment : Assignment} {row : OpcodeInfo} {op : AluOp} {w : Nat}
    (valid : assignment.Valid row op w) (base : DynamicValue.PtrBase) (output : DynamicValue)
    (outs : Flag → DynamicValue) (result : AluResult w) (old undef : Eflags) :
    DescribesOutputs base (assignment.operands row output outs) result old undef ↔
      (op.writesDestination = true → output.Describes base result.value) ∧
        (op ≠ .pxor → (assignment.flagMode row).isWrite = true → ∀ flag,
          (outs flag).Describes base
            (flagByte ((result.flags flag).resolve (old flag) (undef flag)))) := by
  have writes : (assignment.operand0 row output).isOutput = op.writesDestination := by
    change (assignment.mode0 row).isWrite = _
    rw [valid.mode0_eq]
    cases same : assignment.same with
    | true =>
        rcases valid.same_op same with rfl | rfl <;> rfl
    | false => cases op <;> rfl
  constructor
  · intro described
    refine ⟨?_, ?_⟩
    · intro destination
      exact described.destination (assignment.operand0 row output) rfl
        (writes.trans destination)
    · intro flagged write flag
      refine described.flag (flagOperand (assignment.flagMode row) (flagNr flag) flag (outs flag))
        flag ?_ rfl write ⟨_, rfl, rfl⟩
      unfold Assignment.operands
      rw [valid.flags_eq flagged]
      exact List.mem_cons_of_mem _ (List.mem_cons_of_mem _ (flagOperand_mem _ outs flag))
  · rintro ⟨destination, flags⟩
    refine
      { destination := ?_
        flag := ?_ }
    · intro other first write
      cases first
      exact destination (writes.symm.trans write)
    · intro other flag member implicit write isFlag
      rcases List.mem_cons.mp member with rfl | member
      · cases implicit
      · rcases List.mem_cons.mp member with rfl | member
        · rw [valid.isOutput_operand1] at write
          cases write
        · have flagged : op ≠ .pxor := by
            intro isPxor
            have noFlags : assignment.flags row outs = [] :=
              if_pos (valid.shape.flagged.mpr isPxor)
            rw [noFlags] at member
            cases member
          rw [valid.flags_eq flagged] at member
          obtain ⟨name, nr, rfl⟩ := mem_flagOperands member
          obtain ⟨regAcc, access, reg⟩ := isFlag
          cases access
          cases reg
          exact flags flagged write flag

theorem describes_ofBool (base : DynamicValue.PtrBase) (known actual : Bool) :
    (Emulator.ofBool known).Describes base (flagByte actual) ↔ known = actual := by
  cases known <;> cases actual <;> simp [Emulator.ofBool, flagByte, DynamicValue.Describes]

theorem describes_imm64 {base : DynamicValue.PtrBase} {value : DynamicValue} {imm : BitVec 64}
    {w : Nat} (narrow : w ≤ 64) (known : value.imm64? = some imm) {concrete : BitVec w}
    (described : value.Describes base concrete) : concrete = imm.setWidth w := by
  cases value with
  | imm64 val =>
      cases known
      exact described
  | imm128 val =>
      cases known
      rw [BitVec.setWidth_setWidth_of_le val narrow]
      exact described
  | dead => cases known
  | unknown => cases known
  | tainted => cases known
  | ptr type nr ptrOffset => cases known

theorem describes_of_not_isImm {value : DynamicValue} (notImm : value.isImm = false)
    {w : Nat} (narrow : w ≤ 64) (concrete : BitVec w) :
    ∃ base, value.Describes base concrete := by
  cases value with
  | ptr type nr ptrOffset =>
      refine ⟨fun _ _ => concrete.setWidth 64 - ptrOffset, ?_⟩
      change concrete = (concrete.setWidth 64 - ptrOffset + ptrOffset).setWidth w
      rw [BitVec.sub_add_cancel, BitVec.setWidth_setWidth_of_le _ narrow, BitVec.setWidth_eq]
  | imm64 val => cases notImm
  | imm128 val => cases notImm
  | dead => exact ⟨fun _ _ => 0, trivial⟩
  | unknown => exact ⟨fun _ _ => 0, trivial⟩
  | tainted => exact ⟨fun _ _ => 0, trivial⟩

/-! ### The dispatch -/

theorem describesOutputs_generic (dynInfo : DynamicInstructionInfo)
    (base : DynamicValue.PtrBase) {w : Nat} (result : AluResult w) (old undef : Eflags) :
    DescribesOutputs base (emulateGeneric dynInfo) result old undef := by
  have vague (op : DynamicOperandInfo) (member : op ∈ emulateGeneric dynInfo)
      (output : op.isOutput = true) {v : Nat} (concrete : BitVec v) :
      op.output.Describes base concrete := by
    unfold emulateGeneric at member
    obtain ⟨original, _member, rfl⟩ := List.mem_map.mp member
    cases isOutput : original.isOutput with
    | true =>
        rw [if_pos rfl]
        dsimp only
        split <;> trivial
    | false =>
        rw [isOutput, if_neg Bool.false_ne_true, isOutput] at output
        cases output
  refine
    { destination := ?_
      flag := ?_ }
  · intro op first output
    exact vague op (List.mem_of_getElem? first) output _
  · intro op flag member _implicit output _isFlag
    exact vague op member output _

/-- `Sound` for the operands after refining. -/
def SoundOutputs (assignment : Assignment) (row : OpcodeInfo) (op : AluOp) (w : Nat)
    (host : Host) : Prop :=
  ∃ operands ret, dispatch row host (assignment.dynInfo row) = .ok (operands, ret) ∧
    ∀ (base : DynamicValue.PtrBase) (a b : BitVec 128) (old undef : Eflags),
      assignment.in0.Describes base (a.setWidth w) →
      assignment.in1.Describes base (b.setWidth (op.sourceWidth w)) →
      (assignment.same = true → a = b) →
      DescribesOutputs base operands (op.exec w a b) old undef

theorem sound_generic {assignment : Assignment} {row : OpcodeInfo} {op : AluOp} {w : Nat}
    {host : Host} {operands : List DynamicOperandInfo}
    (generic : dispatch row host (assignment.dynInfo row) = .ok (operands, .Ok))
    (fallback : operands = emulateGeneric (assignment.dynInfo row)) :
    SoundOutputs assignment row op w host := by
  refine ⟨operands, .Ok, generic, ?_⟩
  intro base a b old undef _described0 _described1 _same
  rw [fallback]
  exact describesOutputs_generic _ base _ old undef

theorem countInputs_operands {assignment : Assignment} {row : OpcodeInfo} {op : AluOp} {w : Nat}
    (valid : assignment.Valid row op w) (output : DynamicValue) (outs : Flag → DynamicValue)
    (property : DynamicOperandInfo → Bool) :
    Instruction.countInputs (assignment.operands row output outs) property =
      if assignment.same then 0
      else (property (assignment.operand0 row output)).toNat +
        (property (assignment.operand1 row)).toNat := by
  have noFlags : (assignment.flags row outs).filter
      (fun operand => operand.isInput && property operand) = [] := by
    rw [List.filter_eq_nil_iff]
    intro flag member
    unfold Assignment.flags at member
    split at member
    · cases member
    · obtain ⟨name, nr, rfl⟩ := mem_flagOperands member
      have notRead : (flagOperand (assignment.flagMode row) nr name (outs name)).isInput =
          false := assignment.flagMode_isRead row
      rw [notRead]
      exact Bool.false_ne_true
  have read0 : (assignment.operand0 row output).isInput = !assignment.same := by
    change (assignment.mode0 row).isRead = _
    rw [valid.mode0_eq]
    cases assignment.same <;> cases op <;> rfl
  have read1 : (assignment.operand1 row).isInput = !assignment.same := by
    change (assignment.mode1 row).isRead = _
    rw [valid.mode1_eq]
    cases assignment.same <;> rfl
  unfold Instruction.countInputs Assignment.operands
  rw [List.filter_cons, List.filter_cons, noFlags, read0, read1]
  cases assignment.same with
  | true => rfl
  | false =>
      cases property (assignment.operand0 row output) <;>
        cases property (assignment.operand1 row) <;> rfl

theorem handlerApplies_imm {assignment : Assignment} {row : OpcodeInfo} {op : AluOp} {w : Nat}
    (valid : assignment.Valid row op w) :
    handlerApplies .OfEmuImm (assignment.dynInfo row) =
      (assignment.same || assignment.in0.isImm && assignment.in1.isImm) := by
  unfold handlerApplies Assignment.dynInfo Instruction.countOperands
  dsimp only
  rw [countInputs_operands valid, countInputs_operands valid, valid.input_operand0,
    valid.input_operand1]
  unfold Assignment.input0 Assignment.input1
  cases assignment.same with
  | true => rfl
  | false =>
      cases assignment.in0 <;> cases assignment.in1 <;> rfl

theorem handlerApplies_ptr {assignment : Assignment} {row : OpcodeInfo} {op : AluOp} {w : Nat}
    (valid : assignment.Valid row op w) (differ : assignment.same = false) :
    handlerApplies .OfEmuPtr (assignment.dynInfo row) =
      ((assignment.in0.isImm || assignment.in0.isPtr) &&
        (assignment.in1.isImm || assignment.in1.isPtr)) := by
  unfold handlerApplies Assignment.dynInfo Instruction.countOperands
  dsimp only
  rw [countInputs_operands valid, countInputs_operands valid, countInputs_operands valid,
    valid.input_operand0, valid.input_operand1]
  unfold Assignment.input0 Assignment.input1
  rw [differ]
  cases assignment.in0 <;> cases assignment.in1 <;> rfl

end AluEmulation

end Drob
