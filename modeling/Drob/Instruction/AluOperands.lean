import Drob.Instruction.AluEmulation
import Drob.Library.Result

/-!
The operands that an arithmetic instruction is emulated with. Getting the static
information fails for a shift by CL, whose read access does not exist, and for no other
arithmetic instruction.
-/

namespace Drob

/-! ### Static information -/

def StaticOperandInfo.HasMasks : StaticOperandInfo → Prop
  | .register r =>
      (∃ mask, accessMask r.mode.isRead r.reg r.r = .ok mask) ∧
        ∃ mask, accessMask r.mode.isWrite r.reg r.w = .ok mask
  | _ => True

theorem addOperandToRegisterMasks_hasMasks (info : InstructionInfo) {opInfo : OperandInfo}
    (masks : opInfo.info.HasMasks) :
    ∃ added, addOperandToRegisterMasks info opInfo = .ok added ∧
      added.operands = info.operands := by
  unfold addOperandToRegisterMasks
  cases kind : opInfo.info with
  | memPtr m => exact ⟨_, rfl, rfl⟩
  | immediate type imm => exact ⟨_, rfl, rfl⟩
  | register r =>
      rw [kind] at masks
      obtain ⟨⟨read, readEq⟩, write, writeEq⟩ := masks
      dsimp only
      rw [readEq, writeEq]
      exact ⟨_, rfl, rfl⟩

namespace Instruction

/-- The operands that `addOperands` appends. -/
def refinedOperands (instruction : Instruction) (fn : RefineFn) (numOperands : Nat) :
    List StaticOperandInfo → Nat → Except Failure (List OperandInfo)
  | [], _ => .ok []
  | rawInfo :: rest, nr => do
      let opInfo ← instruction.createOperandInfo fn rawInfo nr (decide (numOperands ≤ nr))
      let others ← instruction.refinedOperands fn numOperands rest (nr + 1)
      .ok (opInfo :: others)

theorem addOperands_refined {instruction : Instruction} {fn : RefineFn} {numOperands : Nat}
    {raws : List StaticOperandInfo} {nr : Nat} {refined : List OperandInfo}
    (info : InstructionInfo)
    (returned : instruction.refinedOperands fn numOperands raws nr = .ok refined)
    (masks : ∀ opInfo ∈ refined, opInfo.info.HasMasks) :
    ∃ added, instruction.addOperands fn numOperands raws nr info = .ok added ∧
      added.operands = info.operands ++ refined := by
  induction raws generalizing nr refined info with
  | nil =>
      cases returned
      exact ⟨info, rfl, (List.append_nil _).symm⟩
  | cons raw raws ih =>
      obtain ⟨opInfo, created, returned⟩ := bind_ok returned
      obtain ⟨others, rest, same⟩ := bind_ok returned
      cases same
      obtain ⟨added, kept, before⟩ :=
        addOperandToRegisterMasks_hasMasks info (masks opInfo List.mem_cons_self)
      obtain ⟨last, done, operands⟩ :=
        ih { added with operands := added.operands ++ [opInfo] } rest
          (fun other member => masks other (List.mem_cons_of_mem _ member))
      refine ⟨last, ?_, ?_⟩
      · change (instruction.createOperandInfo fn raw nr (decide (numOperands ≤ nr)) >>= _) = _
        rw [created]
        change (addOperandToRegisterMasks info opInfo >>= _) = _
        rw [kept]
        exact done
      · rw [operands, before, List.append_assoc]
        rfl

theorem getInfo_refined {instruction : Instruction} {row : OpcodeInfo}
    {explicit : List StaticOperandInfo} {refined : List OperandInfo}
    (found : instruction.opcodeInfo = some row)
    (encoded : rawInfos row.opInfo instruction.rawOperands = .ok explicit)
    (returned : instruction.refinedOperands row.refine row.opInfo.length
      (explicit ++ row.iOpInfo) 0 = .ok refined)
    (masks : ∀ opInfo ∈ refined, opInfo.info.HasMasks) :
    ∃ info, instruction.getInfo = .ok info ∧ info.operands = refined := by
  obtain ⟨added, done, operands⟩ := addOperands_refined .empty returned masks
  unfold getInfo
  rw [found]
  dsimp only [bind, Except.bind]
  rw [encoded]
  dsimp only
  rw [done]
  exact ⟨_, rfl, operands⟩

end Instruction

namespace AluEmulation

/-! ### Rows with two operands -/

def Accessible : ExplicitStaticOperandInfo → Prop
  | .register type mode r w =>
      (mode.isRead = true → r = .full) ∧
        (mode.isWrite = true → w = .full ∨ w = .fullZeroParent ∧ type = .gprs32)
  | _ => True

instance (explInfo : ExplicitStaticOperandInfo) : Decidable (Accessible explInfo) := by
  cases explInfo <;> unfold Accessible <;> infer_instance

def isRegister : ExplicitStaticOperandInfo → Bool
  | .register _ mode _ _ => mode.isRead
  | _ => false

def isImmediate : ExplicitStaticOperandInfo → Bool
  | .immediate _ => true
  | _ => false

structure RowOperands (opcode : Opcode) (row : OpcodeInfo) : Prop where
  pair : row.opInfo.length = 2
  accessible : ∀ explInfo ∈ row.opInfo, Accessible explInfo
  first : (row.opInfo[0]?).elim false isImmediate = false
  implicit : row.iOpInfo = [] ∨
    row.iOpInfo = OpcodeTable.eflags (if row.refine = .sh then .MayWrite else .Write)
  xor : row.refine = .xor_rr →
    (opcode = .PXOR128rr ∨ opcode = .XOR64rr ∨ opcode = .XOR32rr) ∧
      (∀ explInfo ∈ row.opInfo, isRegister explInfo = true) ∧
        (row.opInfo[0]?).elim .None operandMode = .MayReadWrite
  sh : row.refine = .sh →
    (opcode = .SHL64mi ∨ opcode = .SHL64ri ∨ opcode = .SHR64mi ∨ opcode = .SHR64ri) ∧
      (row.opInfo[1]?).elim false isImmediate = true

theorem row_operands {opcode : Opcode} {row : OpcodeInfo} {op : AluOp} {w : Nat}
    (found : archGetOpcodeInfo opcode = some row) (kind : opcode.kind = .alu op w)
    (counted : shiftsByCl opcode = false) : RowOperands opcode row := by
  cases opcode <;> cases found <;> cases kind <;> cases counted <;>
    exact
      { pair := by decide
        accessible := by decide
        first := by decide
        implicit := by decide
        xor := by decide
        sh := by decide }

/-! ### Encoded operands -/

/-- The static information about an encoded operand that is accessed with a mode. -/
inductive Encoded : AccessMode → ExplicitStaticOperandInfo → StaticOperand →
    StaticOperandInfo → Prop
  | register (mode declared : AccessMode) (reg : Register) (r w : RegisterAccessType) :
      Encoded mode (.register reg.type declared r w) (.reg reg)
        (.register { reg, mode, r, w })
  | memPtr (mode : AccessMode) (ptr : StaticMemPtr) (size : Nat) :
      Encoded mode (.memPtr mode size) (.mem ptr) (.memPtr { ptr, mode, size })
  | immediate (type : ImmediateType) (imm : Immediate64) :
      Encoded .Read (.immediate type) (.imm imm) (.immediate type imm)

theorem isImm_of_declares {explInfo : ExplicitStaticOperandInfo} {encoded : StaticOperand}
    (immediate : isImmediate explInfo = true) (declares : Declares explInfo encoded) :
    ∃ imm, encoded = .imm imm := by
  cases explInfo with
  | immediate type =>
      cases encoded with
      | imm imm => exact ⟨imm, rfl⟩
      | reg reg => cases declares
      | mem ptr => cases declares
  | register type mode r w => cases immediate
  | memPtr mode size => cases immediate

theorem encoded_of_declares {explInfo : ExplicitStaticOperandInfo} {encoded : StaticOperand}
    (declares : Declares explInfo encoded) :
    ∃ raw, createRawOperandInfo explInfo encoded = .ok raw ∧
      Encoded (operandMode explInfo) explInfo encoded raw := by
  cases explInfo with
  | register type mode r w =>
      cases encoded with
      | reg reg =>
          cases declares
          exact ⟨_, rfl, .register mode mode reg r w⟩
      | imm imm => cases declares
      | mem ptr => cases declares
  | memPtr mode size =>
      cases encoded with
      | reg reg => cases declares
      | imm imm => cases declares
      | mem ptr => exact ⟨_, rfl, .memPtr mode ptr size⟩
  | immediate type =>
      cases encoded with
      | reg reg => cases declares
      | imm imm => exact ⟨_, rfl, .immediate type imm⟩
      | mem ptr => cases declares

theorem Encoded.isImmediate {mode : AccessMode} {explInfo : ExplicitStaticOperandInfo}
    {imm : Immediate64} {raw : StaticOperandInfo}
    (isEncoded : Encoded mode explInfo (.imm imm) raw) :
    AluEmulation.isImmediate explInfo = true := by
  cases isEncoded
  rfl

theorem Encoded.hasMasks {mode : AccessMode} {explInfo : ExplicitStaticOperandInfo}
    {encoded : StaticOperand} {raw : StaticOperandInfo}
    (isEncoded : Encoded mode explInfo encoded raw) (accessible : Accessible explInfo)
    (reads : mode.isRead = true → (operandMode explInfo).isRead = true)
    (writes : mode.isWrite = true → (operandMode explInfo).isWrite = true) : raw.HasMasks := by
  cases isEncoded with
  | register mode declared reg r w =>
      refine ⟨?_, ?_⟩
      · unfold accessMask
        dsimp only
        split
        · rename_i isRead
          rw [accessible.1 (reads isRead)]
          exact ⟨_, rfl⟩
        · exact ⟨_, rfl⟩
      · unfold accessMask
        dsimp only
        split
        · rename_i isWrite
          rcases accessible.2 (writes isWrite) with whole | ⟨withParent, isHalf⟩
          · rw [whole]
            exact ⟨_, rfl⟩
          · rw [withParent]
            cases reg with
            | gprs32 gpr => exact ⟨_, rfl⟩
            | flag1 flag => cases isHalf
            | gprs8 gpr => cases isHalf
            | gprs8High gpr => cases isHalf
            | gprs16 gpr => cases isHalf
            | gprs64 gpr => cases isHalf
            | sse128 nr => cases isHalf
        · exact ⟨_, rfl⟩
  | memPtr mode ptr size => trivial
  | immediate type imm => trivial

theorem operand_unread (access : OperandAccess) {mode : AccessMode} (nr : Nat) (isImpl : Bool)
    (value other output : DynamicValue) (unread : mode.isRead = false) :
    operand access mode nr isImpl value output = operand access mode nr isImpl other output := by
  unfold operand
  rw [unread]
  rfl

variable {assignment : Assignment} {row : OpcodeInfo} {op : AluOp} {w : Nat}

theorem createDynOpInfo_encoded {fn : RefineFn} {mode : AccessMode}
    {explInfo : ExplicitStaticOperandInfo} {encoded : StaticOperand} (info : OperandInfo)
    (isEncoded : Encoded mode explInfo encoded info.info)
    (stable : refine fn info assignment.opcode assignment.instruction.rawOperands none = .ok info)
    (own : ∀ imm, encoded = .imm imm → assignment.value info.nr = immediateValue imm) :
    assignment.createDynOpInfo fn info =
      .ok (operand (assignment.access mode (some explInfo) (some encoded)) mode info.nr
        info.isImpl (assignment.value info.nr) .unknown) := by
  obtain ⟨raw, nr, isImpl⟩ := info
  cases isEncoded with
  | register mode declared reg r w =>
      unfold Assignment.createDynOpInfo
      dsimp only
      rw [stable]
      rfl
  | memPtr mode ptr size =>
      unfold Assignment.createDynOpInfo
      dsimp only
      rw [stable]
      rfl
  | immediate type imm =>
      rw [own imm rfl]
      rfl

def flagInfo (mode : AccessMode) (nr : Nat) (flag : Flag) : OperandInfo :=
  { info := .register { reg := .flag1 flag, mode, r := .none, w := .full }
    nr
    isImpl := true }

def flagInfos (mode : AccessMode) : List OperandInfo :=
  [flagInfo mode 2 .CF, flagInfo mode 3 .PF, flagInfo mode 4 .AF, flagInfo mode 5 .ZF,
   flagInfo mode 6 .SF, flagInfo mode 7 .OF]

theorem createDynOpInfo_flag {fn : RefineFn} {mode : AccessMode} {nr : Nat} {flag : Flag}
    (stable : refine fn (flagInfo mode nr flag) assignment.opcode
      assignment.instruction.rawOperands none = .ok (flagInfo mode nr flag))
    (unread : mode.isRead = false) :
    assignment.createDynOpInfo fn (flagInfo mode nr flag) =
      .ok (flagOperand mode nr flag .unknown) := by
  have created : assignment.createDynOpInfo fn (flagInfo mode nr flag) =
      .ok (operand (.register { reg := .flag1 flag, mode, r := .none, w := .full }) mode nr true
        (assignment.value nr) .unknown) := by
    unfold Assignment.createDynOpInfo
    change (refine fn (flagInfo mode nr flag) _ _ none >>= _) = _
    rw [stable]
    rfl
  rw [created]
  exact congrArg _ (operand_unread _ _ _ _ _ _ unread)

theorem createDynOpInfos_flags {fn : RefineFn} {mode : AccessMode}
    (stable : ∀ nr flag, 1 < nr → refine fn (flagInfo mode nr flag) assignment.opcode
      assignment.instruction.rawOperands none = .ok (flagInfo mode nr flag))
    (unread : mode.isRead = false) :
    assignment.createDynOpInfos fn (flagInfos mode) =
      .ok (flagOperands mode (fun _ => .unknown)) := by
  have each (nr : Nat) (flag : Flag) (implicit : 1 < nr) :=
    createDynOpInfo_flag (stable nr flag implicit) unread
  unfold flagInfos
  simp only [Assignment.createDynOpInfos, each 2 .CF (by decide), each 3 .PF (by decide),
    each 4 .AF (by decide), each 5 .ZF (by decide), each 6 .SF (by decide),
    each 7 .OF (by decide)]
  rfl

theorem flagInfos_hasMasks {mode : AccessMode} (unread : mode.isRead = false) :
    ∀ info ∈ flagInfos mode, info.info.HasMasks := by
  have each (nr : Nat) (flag : Flag) : (flagInfo mode nr flag).info.HasMasks := by
    unfold flagInfo StaticOperandInfo.HasMasks accessMask
    dsimp only
    rw [unread]
    refine ⟨⟨_, rfl⟩, ?_⟩
    cases mode.isWrite <;> exact ⟨_, rfl⟩
  intro info member
  unfold flagInfos at member
  simp only [List.mem_cons, List.not_mem_nil, or_false] at member
  rcases member with rfl | rfl | rfl | rfl | rfl | rfl <;> exact each _ _

/-! ### Refined operands -/

def Assignment.flagInfos (assignment : Assignment) (row : OpcodeInfo) : List OperandInfo :=
  if row.iOpInfo = [] then [] else AluEmulation.flagInfos (assignment.flagMode row)

/-- Refining gives the two operands and the flags, and refining them again changes
nothing. -/
structure Refines (assignment : Assignment) (row : OpcodeInfo)
    (explInfo0 explInfo1 : ExplicitStaticOperandInfo) (encoded0 encoded1 : StaticOperand)
    (info0 info1 : StaticOperandInfo) : Prop where
  first : Encoded (assignment.mode0 row) explInfo0 encoded0 info0
  second : Encoded (assignment.mode1 row) explInfo1 encoded1 info1
  refined : ∃ explicit,
    Instruction.rawInfos row.opInfo assignment.instruction.rawOperands = .ok explicit ∧
      assignment.instruction.refinedOperands row.refine row.opInfo.length
        (explicit ++ row.iOpInfo) 0 =
          .ok ({ info := info0, nr := 0, isImpl := false } ::
            { info := info1, nr := 1, isImpl := false } :: assignment.flagInfos row)
  stable0 : refine row.refine { info := info0, nr := 0, isImpl := false } assignment.opcode
    assignment.instruction.rawOperands none = .ok { info := info0, nr := 0, isImpl := false }
  stable1 : refine row.refine { info := info1, nr := 1, isImpl := false } assignment.opcode
    assignment.instruction.rawOperands none = .ok { info := info1, nr := 1, isImpl := false }
  stableFlag : ∀ nr flag, 1 < nr →
    refine row.refine (flagInfo (assignment.flagMode row) nr flag) assignment.opcode
      assignment.instruction.rawOperands none =
        .ok (flagInfo (assignment.flagMode row) nr flag)

section Dispatch

variable {explInfo0 explInfo1 : ExplicitStaticOperandInfo} {encoded0 encoded1 : StaticOperand}
  {info0 info1 : StaticOperandInfo}

theorem RowOperands.modes0 (shape : RowOperands assignment.opcode row)
    (opInfo : row.opInfo = [explInfo0, explInfo1]) :
    ((assignment.mode0 row).isRead = true → (operandMode explInfo0).isRead = true) ∧
      ((assignment.mode0 row).isWrite = true → (operandMode explInfo0).isWrite = true) := by
  unfold Assignment.mode0
  rw [opInfo]
  split
  · rename_i isXor
    have both := (shape.xor isXor).2.2
    rw [opInfo] at both
    exact ⟨fun _ => congrArg AccessMode.isRead both, fun _ => congrArg AccessMode.isWrite both⟩
  · exact ⟨id, id⟩

theorem RowOperands.modes1 (shape : RowOperands assignment.opcode row)
    (opInfo : row.opInfo = [explInfo0, explInfo1]) :
    ((assignment.mode1 row).isRead = true → (operandMode explInfo1).isRead = true) ∧
      ((assignment.mode1 row).isWrite = true → (operandMode explInfo1).isWrite = true) := by
  unfold Assignment.mode1
  rw [opInfo]
  split
  · rename_i isXor
    have register := (shape.xor isXor).2.1 explInfo1 (by rw [opInfo]; simp)
    refine ⟨fun _ => ?_, fun write => ?_⟩
    · cases explInfo1 with
      | register type mode r w => exact register
      | memPtr mode size => cases register
      | immediate type => cases register
    · have noWrite : (if assignment.same then AccessMode.None else .Read).isWrite = false := by
        split <;> rfl
      exact absurd (noWrite.symm.trans write) Bool.false_ne_true
  · exact ⟨id, id⟩

theorem Refines.hasMasks
    (refines : Refines assignment row explInfo0 explInfo1 encoded0 encoded1 info0 info1)
    (shape : RowOperands assignment.opcode row) (opInfo : row.opInfo = [explInfo0, explInfo1]) :
    ∀ info ∈ ({ info := info0, nr := 0, isImpl := false } : OperandInfo) ::
      { info := info1, nr := 1, isImpl := false } :: assignment.flagInfos row,
        info.info.HasMasks := by
  intro info member
  rcases List.mem_cons.mp member with rfl | member
  · obtain ⟨reads, writes⟩ := shape.modes0 opInfo
    exact refines.first.hasMasks (shape.accessible explInfo0 (by rw [opInfo]; simp)) reads writes
  · rcases List.mem_cons.mp member with rfl | member
    · obtain ⟨reads, writes⟩ := shape.modes1 opInfo
      exact refines.second.hasMasks (shape.accessible explInfo1 (by rw [opInfo]; simp)) reads
        writes
    · unfold Assignment.flagInfos at member
      split at member
      · cases member
      · exact flagInfos_hasMasks (assignment.flagMode_isRead row) info member

theorem Refines.createDynOpInfos
    (refines : Refines assignment row explInfo0 explInfo1 encoded0 encoded1 info0 info1)
    (valid : assignment.Valid row op w) (shape : RowOperands assignment.opcode row)
    (opInfo : row.opInfo = [explInfo0, explInfo1])
    (rawOperands : assignment.instruction.rawOperands = [encoded0, encoded1]) :
    assignment.createDynOpInfos row.refine
      ({ info := info0, nr := 0, isImpl := false } ::
        { info := info1, nr := 1, isImpl := false } :: assignment.flagInfos row) =
          .ok (assignment.operands row .unknown (fun _ => .unknown)) := by
  have noImmediate : ∀ imm, encoded0 = .imm imm →
      assignment.value 0 = immediateValue imm := by
    rintro imm rfl
    have notFirst := shape.first
    rw [opInfo] at notFirst
    exact absurd (notFirst.symm.trans refines.first.isImmediate) Bool.false_ne_true
  have own : ∀ imm, encoded1 = .imm imm → assignment.value 1 = immediateValue imm := by
    rintro imm rfl
    exact valid.encoded imm (by rw [rawOperands]; rfl)
  have created0 := createDynOpInfo_encoded { info := info0, nr := 0, isImpl := false }
    refines.first refines.stable0 noImmediate
  have created1 := createDynOpInfo_encoded { info := info1, nr := 1, isImpl := false }
    refines.second refines.stable1 own
  have flags : assignment.createDynOpInfos row.refine (assignment.flagInfos row) =
      .ok (assignment.flags row (fun _ => .unknown)) := by
    unfold Assignment.flagInfos Assignment.flags
    split
    · rfl
    · exact createDynOpInfos_flags refines.stableFlag (assignment.flagMode_isRead row)
  unfold Assignment.operands Assignment.operand0 Assignment.operand1
  rw [opInfo, rawOperands]
  change (assignment.createDynOpInfo row.refine _ >>= _) = _
  rw [created0]
  change (assignment.createDynOpInfo row.refine _ >>= _) >>= _ = _
  rw [created1]
  change ((assignment.createDynOpInfos row.refine (assignment.flagInfos row) >>= _) >>= _) = _
  rw [flags]
  rfl

theorem Refines.genDynInfo
    (refines : Refines assignment row explInfo0 explInfo1 encoded0 encoded1 info0 info1)
    (valid : assignment.Valid row op w) (shape : RowOperands assignment.opcode row)
    (opInfo : row.opInfo = [explInfo0, explInfo1])
    (rawOperands : assignment.instruction.rawOperands = [encoded0, encoded1]) :
    ∃ dynInfo, assignment.genDynInfo = .ok dynInfo ∧
      ∀ host, dispatch row host dynInfo = dispatch row host (assignment.dynInfo row) := by
  have found : assignment.instruction.opcodeInfo = some row := valid.row_eq
  obtain ⟨explicit, encoded, refined⟩ := refines.refined
  obtain ⟨info, returned, operands⟩ :=
    Instruction.getInfo_refined found encoded refined (refines.hasMasks shape opInfo)
  have created := refines.createDynOpInfos valid shape opInfo rawOperands
  refine ⟨Instruction.countOperands assignment.opcode .True info
    (assignment.operands row .unknown (fun _ => .unknown)) (.start info.nasty), ?_, fun _ => rfl⟩
  unfold Assignment.genDynInfo
  rw [returned]
  dsimp only [bind, Except.bind]
  rw [found, operands]
  dsimp only [Option.elim_some]
  rw [created]

/-! ### Refining each operand -/

theorem refinedOperands_flags {instruction : Instruction} {fn : RefineFn} {mode later : AccessMode}
    (each : ∀ nr flag, 1 < nr → refine fn (flagInfo mode nr flag) instruction.opcode
      instruction.rawOperands none = .ok (flagInfo later nr flag)) :
    instruction.refinedOperands fn 2 (OpcodeTable.eflags mode) 2 = .ok (flagInfos later) := by
  have created (nr : Nat) (flag : Flag) (implicit : 1 < nr) :
      instruction.createOperandInfo fn
        (.register { reg := .flag1 flag, mode, r := .none, w := .full }) nr (decide (2 ≤ nr)) =
          .ok (flagInfo later nr flag) := by
    rw [decide_eq_true (by omega : 2 ≤ nr)]
    exact each nr flag implicit
  unfold OpcodeTable.eflags
  simp only [Instruction.refinedOperands, created 2 .CF (by decide), created 3 .PF (by decide),
    created 4 .AF (by decide), created 5 .ZF (by decide), created 6 .SF (by decide),
    created 7 .OF (by decide)]
  rfl

theorem refinedOperands_pair {raw0 raw1 : StaticOperandInfo}
    (shape : RowOperands assignment.opcode row)
    (first : refine row.refine { info := raw0, nr := 0, isImpl := false } assignment.opcode
      assignment.instruction.rawOperands none = .ok { info := info0, nr := 0, isImpl := false })
    (second : refine row.refine { info := raw1, nr := 1, isImpl := false } assignment.opcode
      assignment.instruction.rawOperands none = .ok { info := info1, nr := 1, isImpl := false })
    (flags : ∀ nr flag, 1 < nr →
      refine row.refine (flagInfo (if row.refine = .sh then .MayWrite else .Write) nr flag)
        assignment.opcode assignment.instruction.rawOperands none =
          .ok (flagInfo (assignment.flagMode row) nr flag)) :
    assignment.instruction.refinedOperands row.refine row.opInfo.length
      ([raw0, raw1] ++ row.iOpInfo) 0 =
        .ok ({ info := info0, nr := 0, isImpl := false } ::
          { info := info1, nr := 1, isImpl := false } :: assignment.flagInfos row) := by
  have rest : assignment.instruction.refinedOperands row.refine 2 row.iOpInfo 2 =
      .ok (assignment.flagInfos row) := by
    unfold Assignment.flagInfos
    rcases shape.implicit with none | implicit
    · rw [none]
      rfl
    · rw [if_neg (by rw [implicit]; exact List.cons_ne_nil _ _), implicit]
      exact refinedOperands_flags flags
  rw [shape.pair]
  change (refine row.refine { info := raw0, nr := 0, isImpl := false } assignment.opcode
    assignment.instruction.rawOperands none >>= _) = _
  rw [first]
  change ((refine row.refine { info := raw1, nr := 1, isImpl := false } assignment.opcode
    assignment.instruction.rawOperands none >>= _) >>= _) = _
  rw [second]
  change ((assignment.instruction.refinedOperands row.refine 2 row.iOpInfo 2 >>= _) >>= _) = _
  rw [rest]
  rfl

theorem rawInfos_pair {raw0 raw1 : StaticOperandInfo}
    (opInfo : row.opInfo = [explInfo0, explInfo1])
    (rawOperands : assignment.instruction.rawOperands = [encoded0, encoded1])
    (made0 : createRawOperandInfo explInfo0 encoded0 = .ok raw0)
    (made1 : createRawOperandInfo explInfo1 encoded1 = .ok raw1) :
    Instruction.rawInfos row.opInfo assignment.instruction.rawOperands = .ok [raw0, raw1] := by
  rw [opInfo, rawOperands]
  unfold Instruction.rawInfos
  rw [made0]
  dsimp only [bind, Except.bind]
  unfold Instruction.rawInfos
  rw [made1]
  rfl

theorem refines_plain (plain : row.refine = .nullptr) (shape : RowOperands assignment.opcode row)
    (opInfo : row.opInfo = [explInfo0, explInfo1])
    (rawOperands : assignment.instruction.rawOperands = [encoded0, encoded1])
    (declares0 : Declares explInfo0 encoded0) (declares1 : Declares explInfo1 encoded1) :
    ∃ info0 info1, Refines assignment row explInfo0 explInfo1 encoded0 encoded1 info0 info1 := by
  obtain ⟨raw0, made0, first⟩ := encoded_of_declares declares0
  obtain ⟨raw1, made1, second⟩ := encoded_of_declares declares1
  have same (info : OperandInfo) : refine row.refine info assignment.opcode
      assignment.instruction.rawOperands none = .ok info := by
    rw [plain]
    rfl
  have write : assignment.flagMode row = .Write := by
    unfold Assignment.flagMode
    rw [plain]
    rfl
  refine ⟨raw0, raw1, ?_⟩
  exact
    { first := by
        unfold Assignment.mode0
        rw [plain, opInfo]
        exact first
      second := by
        unfold Assignment.mode1
        rw [plain, opInfo]
        exact second
      refined := by
        refine ⟨_, rawInfos_pair opInfo rawOperands made0 made1, ?_⟩
        refine refinedOperands_pair shape (same _) (same _) (fun nr flag _ => ?_)
        rw [same, write, plain]
        rfl
      stable0 := same _
      stable1 := same _
      stableFlag := fun _ _ _ => same _ }

theorem refine_encoded (info : OperandInfo) {opcode : Opcode} {raws : ExplicitStaticOperands}
    (encoded : opcode = .SHL64mi ∨ opcode = .SHL64ri ∨ opcode = .SHR64mi ∨ opcode = .SHR64ri) :
    refine .sh info opcode raws none = refineShEncoded info raws := by
  rcases encoded with rfl | rfl | rfl | rfl <;> rfl

theorem refines_sh (isShift : row.refine = .sh) (shape : RowOperands assignment.opcode row)
    (opInfo : row.opInfo = [explInfo0, explInfo1])
    (rawOperands : assignment.instruction.rawOperands = [encoded0, encoded1])
    (declares0 : Declares explInfo0 encoded0) (declares1 : Declares explInfo1 encoded1) :
    ∃ info0 info1, Refines assignment row explInfo0 explInfo1 encoded0 encoded1 info0 info1 := by
  obtain ⟨raw0, made0, first⟩ := encoded_of_declares declares0
  obtain ⟨raw1, made1, second⟩ := encoded_of_declares declares1
  obtain ⟨opcodes, immediate⟩ := shape.sh isShift
  have explicit (raw : StaticOperandInfo) (nr : Nat) :
      refine row.refine { info := raw, nr, isImpl := false } assignment.opcode
        assignment.instruction.rawOperands none = .ok { info := raw, nr, isImpl := false } := by
    rw [isShift, refine_encoded _ opcodes]
    rfl
  have flags (mode : AccessMode) (nr : Nat) (flag : Flag) :
      refine row.refine (flagInfo mode nr flag) assignment.opcode
        assignment.instruction.rawOperands none =
          .ok (flagInfo (assignment.flagMode row) nr flag) := by
    rw [opInfo] at immediate
    obtain ⟨imm, rfl⟩ := isImm_of_declares immediate declares1
    unfold Assignment.flagMode Assignment.noCount
    rw [if_pos isShift, isShift, refine_encoded _ opcodes, rawOperands]
    change Except.ok ((flagInfo mode nr flag).setMode (if imm.val = 0 then .None else .Write)) =
      .ok (flagInfo (if decide (imm.val = 0) = true then .None else .Write) nr flag)
    by_cases none : imm.val = 0
    · rw [if_pos none, if_pos (decide_eq_true none)]
      rfl
    · rw [if_neg none, if_neg (by rwa [decide_eq_true_eq])]
      rfl
  refine ⟨raw0, raw1, ?_⟩
  exact
    { first := by
        unfold Assignment.mode0
        rw [isShift, opInfo]
        exact first
      second := by
        unfold Assignment.mode1
        rw [isShift, opInfo]
        exact second
      refined := ⟨_, rawInfos_pair opInfo rawOperands made0 made1,
        refinedOperands_pair shape (explicit _ _) (explicit _ _) (fun _ _ _ => flags _ _ _)⟩
      stable0 := explicit _ _
      stable1 := explicit _ _
      stableFlag := fun _ _ _ => flags _ _ _ }

theorem refine_registers {opcode : Opcode} {raws : ExplicitStaticOperands} {reg0 reg1 : Register}
    (registers : opcode = .PXOR128rr ∨ opcode = .XOR64rr ∨ opcode = .XOR32rr)
    (first : raws.op 0 = some (.reg reg0)) (second : raws.op 1 = some (.reg reg1))
    (info : OperandInfo) :
    refine .xor_rr info opcode raws none =
      if info.nr = 0 then .ok (info.setMode (if reg0 = reg1 then .Write else .ReadWrite))
      else if info.nr = 1 then .ok (info.setMode (if reg0 = reg1 then .None else .Read))
      else .ok info := by
  unfold refine refineXorRr
  dsimp only
  rw [if_pos registers, first, second]

theorem refines_xor (isXor : row.refine = .xor_rr) (valid : assignment.Valid row op w)
    (shape : RowOperands assignment.opcode row)
    (opInfo : row.opInfo = [explInfo0, explInfo1])
    (rawOperands : assignment.instruction.rawOperands = [encoded0, encoded1])
    (declares0 : Declares explInfo0 encoded0) (declares1 : Declares explInfo1 encoded1) :
    ∃ info0 info1, Refines assignment row explInfo0 explInfo1 encoded0 encoded1 info0 info1 := by
  obtain ⟨opcodes, registers, _both⟩ := shape.xor isXor
  have declared (explInfo : ExplicitStaticOperandInfo) (encoded : StaticOperand)
      (member : explInfo ∈ row.opInfo) (declares : Declares explInfo encoded) :
      ∃ mode reg r w, explInfo = .register reg.type mode r w ∧ encoded = .reg reg := by
    have register := registers explInfo member
    cases explInfo with
    | register type mode r w =>
        cases encoded with
        | reg reg =>
            cases declares
            exact ⟨mode, reg, r, w, rfl, rfl⟩
        | imm imm => cases declares
        | mem ptr => cases declares
    | memPtr mode size => cases register
    | immediate type => cases register
  obtain ⟨declared0, reg0, r0, w0, rfl, rfl⟩ :=
    declared explInfo0 encoded0 (by rw [opInfo]; simp) declares0
  obtain ⟨declared1, reg1, r1, w1, rfl, rfl⟩ :=
    declared explInfo1 encoded1 (by rw [opInfo]; simp) declares1
  have named0 : assignment.instruction.rawOperands.op 0 = some (.reg reg0) := by
    rw [rawOperands]
    rfl
  have named1 : assignment.instruction.rawOperands.op 1 = some (.reg reg1) := by
    rw [rawOperands]
    rfl
  have refined := refine_registers opcodes named0 named1
  have same : assignment.same = decide (reg0 = reg1) := by
    have found : assignment.instruction.opcodeInfo = some row := valid.row_eq
    unfold Assignment.same
    rw [found, Option.elim_some, decide_eq_true isXor, rawOperands, Bool.true_and]
    exact decide_eq_decide.mpr
      ⟨fun equal => StaticOperand.reg.inj (Option.some.inj equal), fun equal => by rw [equal]; rfl⟩
  have mode0 : assignment.mode0 row = if reg0 = reg1 then .Write else .ReadWrite := by
    unfold Assignment.mode0
    rw [if_pos isXor, same]
    simp only [decide_eq_true_eq]
  have mode1 : assignment.mode1 row = if reg0 = reg1 then .None else .Read := by
    unfold Assignment.mode1
    rw [if_pos isXor, same]
    simp only [decide_eq_true_eq]
  have write : assignment.flagMode row = .Write := by
    unfold Assignment.flagMode
    rw [isXor]
    rfl
  have first (mode : AccessMode) : refine row.refine
      { info := .register { reg := reg0, mode, r := r0, w := w0 }, nr := 0, isImpl := false }
      assignment.opcode assignment.instruction.rawOperands none =
        .ok
          { info := .register { reg := reg0, mode := assignment.mode0 row, r := r0, w := w0 }
            nr := 0
            isImpl := false } := by
    rw [isXor, refined, mode0]
    rfl
  have second (mode : AccessMode) : refine row.refine
      { info := .register { reg := reg1, mode, r := r1, w := w1 }, nr := 1, isImpl := false }
      assignment.opcode assignment.instruction.rawOperands none =
        .ok
          { info := .register { reg := reg1, mode := assignment.mode1 row, r := r1, w := w1 }
            nr := 1
            isImpl := false } := by
    rw [isXor, refined, mode1]
    rfl
  have flags (nr : Nat) (flag : Flag) (implicit : 1 < nr) :
      refine row.refine (flagInfo .Write nr flag) assignment.opcode
        assignment.instruction.rawOperands none = .ok (flagInfo .Write nr flag) := by
    rw [isXor, refined]
    change (if nr = 0 then _ else if nr = 1 then _ else _) = _
    rw [if_neg (by omega), if_neg (by omega)]
  refine ⟨_, _,
    { first := .register _ declared0 reg0 r0 w0
      second := .register _ declared1 reg1 r1 w1
      refined := ⟨_, rawInfos_pair opInfo rawOperands rfl rfl,
        refinedOperands_pair shape (first _) (second _) (fun nr flag implicit => ?_)⟩
      stable0 := first _
      stable1 := second _
      stableFlag := fun nr flag implicit => ?_ }⟩
  · rw [write]
    rw [if_neg (by rw [isXor]; decide)]
    exact flags nr flag implicit
  · rw [write]
    exact flags nr flag implicit

end Dispatch

theorem Assignment.Valid.count (valid : assignment.Valid row op w)
    (isShift : row.refine = .sh) (counted : shiftsByCl assignment.opcode = false) :
    ∃ imm, assignment.instruction.rawOperands.op 1 = some (.imm imm) ∧
      assignment.in1 = immediateValue imm := by
  have shape := row_operands valid.row_eq valid.kind_eq counted
  have immediate := (shape.sh isShift).2
  obtain ⟨explInfo0, explInfo1, opInfo⟩ := List.length_eq_two.mp shape.pair
  have declared := valid.declared
  rw [opInfo, List.forall₂_cons_left_iff] at declared
  obtain ⟨encoded0, rest, _first, declared, rawOperands⟩ := declared
  obtain ⟨encoded1, last, second, _none, rfl⟩ := List.forall₂_cons_left_iff.mp declared
  rw [opInfo] at immediate
  obtain ⟨imm, rfl⟩ := isImm_of_declares immediate second
  have named : assignment.instruction.rawOperands.op 1 = some (.imm imm) := by
    rw [rawOperands]
    rfl
  exact ⟨imm, named, valid.encoded imm named⟩

/-- Every arithmetic instruction but a shift by CL is dispatched on its operands after
refining. -/
theorem Assignment.Valid.genDynInfo (valid : assignment.Valid row op w)
    (counted : shiftsByCl assignment.opcode = false) :
    ∃ dynInfo, assignment.genDynInfo = .ok dynInfo ∧
      ∀ host, dispatch row host dynInfo = dispatch row host (assignment.dynInfo row) := by
  have shape := row_operands valid.row_eq valid.kind_eq counted
  obtain ⟨explInfo0, explInfo1, opInfo⟩ := List.length_eq_two.mp shape.pair
  have declared := valid.declared
  rw [opInfo, List.forall₂_cons_left_iff] at declared
  obtain ⟨encoded0, rest, declares0, declared, rawOperands⟩ := declared
  obtain ⟨encoded1, rest, declares1, none, rfl⟩ := List.forall₂_cons_left_iff.mp declared
  cases none
  obtain ⟨info0, info1, refines⟩ :
      ∃ info0 info1, Refines assignment row explInfo0 explInfo1 encoded0 encoded1 info0 info1 := by
    cases refined : row.refine with
    | nullptr => exact refines_plain refined shape opInfo rawOperands declares0 declares1
    | sh => exact refines_sh refined shape opInfo rawOperands declares0 declares1
    | xor_rr => exact refines_xor refined valid shape opInfo rawOperands declares0 declares1
  exact refines.genDynInfo valid shape opInfo rawOperands

/-- The read access of the count in CL is `None`, for which there is no mask. -/
theorem Assignment.Valid.genDynInfo_shiftsByCl (valid : assignment.Valid row op w)
    (byCl : shiftsByCl assignment.opcode = true) (dynInfo : DynamicInstructionInfo) :
    assignment.genDynInfo ≠ .ok dynInfo := by
  obtain ⟨⟨opcode, rawOperands⟩, ptrVal, ptr, in0, in1⟩ := assignment
  intro returned
  obtain ⟨info, getInfo, _operands⟩ := bind_ok returned
  have found : archGetOpcodeInfo opcode = some row := valid.row_eq
  have declared : List.Forall₂ Declares row.opInfo rawOperands := valid.declared
  change shiftsByCl opcode = true at byCl
  cases opcode <;> cases byCl <;> cases found <;>
    obtain ⟨encoded, rest, _declares, none, rfl⟩ := List.forall₂_cons_left_iff.mp declared <;>
    cases none <;> cases encoded <;> cases getInfo

end AluEmulation

end Drob
