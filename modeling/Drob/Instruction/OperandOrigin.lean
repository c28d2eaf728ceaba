import Drob.Instruction.Bounds

/-!
Where the memory operands of the dynamic information come from: every explicit one is
an encoded operand with the access that the opcode table declares, and its address is
computed from the registers of the program state.
-/

namespace Drob

variable {ps later : ProgramState} {context : Context}

/-! ### Encoded operands -/

namespace Instruction

variable {instruction : Instruction} {fn : RefineFn}

theorem rawInfos_get {opInfo : List ExplicitStaticOperandInfo}
    {rawOperands : ExplicitStaticOperands} {raws : List StaticOperandInfo}
    (returned : rawInfos opInfo rawOperands = .ok raws) :
    raws.length = opInfo.length ∧ ∀ i raw, raws[i]? = some raw → ∃ explInfo operand,
      opInfo[i]? = some explInfo ∧ rawOperands.op i = some operand ∧
        createRawOperandInfo explInfo operand = .ok raw := by
  induction opInfo generalizing rawOperands raws with
  | nil =>
      cases returned
      refine ⟨rfl, ?_⟩
      intro i raw found
      cases found
  | cons explInfo opInfo ih =>
      cases rawOperands with
      | nil => cases returned
      | cons operand rawOperands =>
          obtain ⟨first, made, returned⟩ := bind_ok returned
          obtain ⟨rest, others, same⟩ := bind_ok returned
          cases same
          obtain ⟨length, inRest⟩ := ih others
          refine ⟨congrArg (· + 1) length, ?_⟩
          intro i raw found
          cases i with
          | zero =>
              cases found
              exact ⟨explInfo, operand, rfl, rfl, made⟩
          | succ i => exact inRest i raw found

theorem createRawOperandInfo_memPtr {explInfo : ExplicitStaticOperandInfo}
    {operand : StaticOperand} {m : StaticMemAccess}
    (returned : createRawOperandInfo explInfo operand = .ok (.memPtr m)) :
    explInfo = .memPtr m.mode m.size ∧ operand = .mem m.ptr := by
  unfold createRawOperandInfo at returned
  split at returned
  · cases returned
  · cases returned
    exact ⟨rfl, rfl⟩
  · cases returned
  · cases returned

theorem getInfo_explicit {info : InstructionInfo} (returned : instruction.getInfo = .ok info)
    {operand : OperandInfo} (member : operand ∈ info.operands)
    (explicit : operand.isImpl = false) {m : StaticMemAccess} (isMem : operand.info = .memPtr m) :
    ∃ row, instruction.opcodeInfo = some row ∧
      row.opInfo[operand.nr]? = some (.memPtr m.mode m.size) ∧
        instruction.rawOperands.op operand.nr = some (.mem m.ptr) := by
  unfold getInfo at returned
  split at returned
  · cases returned
    cases member
  · rename_i row found
    obtain ⟨raws, encoded, returned⟩ := bind_ok returned
    obtain ⟨added, operands, same⟩ := bind_ok returned
    cases same
    change operand ∈ added.operands at member
    obtain ⟨length, encodedAt⟩ := rawInfos_get encoded
    rcases addOperands_mem operands operand member with old | ⟨i, raw, rawAt, created⟩
    · cases old
    · rw [Nat.zero_add] at created
      obtain ⟨sameNr, sameImpl⟩ := refine_same created
      change operand.nr = i at sameNr
      subst sameNr
      have inside : operand.nr < raws.length := by
        rw [explicit] at sameImpl
        rw [length]
        exact Nat.lt_of_not_le (of_decide_eq_false sameImpl.symm)
      rw [List.getElem?_append_left inside] at rawAt
      obtain ⟨explInfo, encodedOperand, declared, encodedEq, made⟩ := encodedAt _ raw rawAt
      have rawMem : raw = .memPtr m := refine_memPtr created isMem
      subst rawMem
      obtain ⟨rfl, rfl⟩ := createRawOperandInfo_memPtr made
      exact ⟨row, found, declared, encodedEq⟩

end Instruction

/-! ### Evaluated operands -/

theorem ProgramState.getStack_reg {baseOffset : Int} {size : Nat} {data : DynamicValue}
    (returned : ps.getStack baseOffset size = .ok (data, later)) : later.reg = ps.reg := by
  unfold ProgramState.getStack at returned
  split at returned
  · cases returned
  · split at returned
    · cases returned
      rfl
    · obtain ⟨read, _, same⟩ := bind_ok returned
      cases same
      rfl

theorem emulateReadAccess_reg {memAcc : MemAccess} {data : DynamicValue}
    (returned : emulateReadAccess memAcc ps context = .ok (data, later)) : later.reg = ps.reg := by
  unfold emulateReadAccess at returned
  split at returned
  · cases returned
    rfl
  · cases returned
    rfl
  · cases returned
    rfl
  · cases returned
  · exact ProgramState.getStack_reg returned
  · obtain ⟨ptrCfg, _, returned⟩ := bind_ok returned
    split at returned
    · obtain ⟨read, _, same⟩ := bind_ok returned
      cases same
      rfl
    · cases returned
      rfl
  · obtain ⟨read, _, same⟩ := bind_ok returned
    cases same
    rfl
  · obtain ⟨read, _, same⟩ := bind_ok returned
    cases same
    rfl

theorem createMemAccess_congr {other : ProgramState} (same : other.reg = ps.reg)
    (rawMemAccess : StaticMemAccess) :
    createMemAccess rawMemAccess other = createMemAccess rawMemAccess ps := by
  have registers : addressRegister other = addressRegister ps := by
    funext reg
    cases reg with
    | none => rfl
    | some reg =>
        unfold addressRegister ProgramState.getRegister
        rw [same]
  unfold createMemAccess
  rw [registers]

theorem createMemAccess_mode {rawMemAccess : StaticMemAccess} {memAcc : MemAccess}
    (returned : createMemAccess rawMemAccess ps = .ok memAcc) :
    memAcc.mode = rawMemAccess.mode := by
  unfold createMemAccess at returned
  split at returned
  · cases returned
    rfl
  · obtain ⟨_, _, returned⟩ := bind_ok returned
    obtain ⟨_, _, returned⟩ := bind_ok returned
    obtain ⟨_, _, same⟩ := bind_ok returned
    cases same
    rfl

theorem setOutput_nr (dynOperand : DynamicOperandInfo) (mode : AccessMode) :
    (dynOperand.setOutput mode).nr = dynOperand.nr := by
  unfold DynamicOperandInfo.setOutput
  split <;> rfl

theorem setOutput_isImpl (dynOperand : DynamicOperandInfo) (mode : AccessMode) :
    (dynOperand.setOutput mode).isImpl = dynOperand.isImpl := by
  unfold DynamicOperandInfo.setOutput
  split <;> rfl

theorem setOutput_isInput (dynOperand : DynamicOperandInfo) (mode : AccessMode) :
    (dynOperand.setOutput mode).isInput = dynOperand.isInput := by
  unfold DynamicOperandInfo.setOutput
  split <;> rfl

theorem setOutput_isOutput (dynOperand : DynamicOperandInfo) (mode : AccessMode)
    (fresh : dynOperand.isOutput = false) :
    (dynOperand.setOutput mode).isOutput = mode.isWrite := by
  unfold DynamicOperandInfo.setOutput
  split
  · rename_i writes
    exact writes.symm
  · rename_i keeps
    exact fresh.trans (Bool.eq_false_of_not_eq_true keeps).symm

theorem AccessMode.isWrite_of_isSpecial {mode : AccessMode} (special : mode.isSpecial = true) :
    mode.isWrite = false := by
  cases mode <;> first | rfl | cases special

/-- An evaluated operand is the memory operand with its address in the program state. -/
structure DynamicOperandInfo.Evaluates (dynOperand : DynamicOperandInfo) (memAcc : MemAccess)
    (m : StaticMemAccess) (ps : ProgramState) : Prop where
  created : createMemAccess m ps = .ok memAcc
  isInput : dynOperand.isInput = (m.mode.isRead || m.mode.isSpecial)
  isOutput : dynOperand.isOutput = m.mode.isWrite

namespace Instruction

variable {instruction : Instruction} {fn : RefineFn}

theorem createDynOpInfo_memPtr {operand : OperandInfo} {dynOperand : DynamicOperandInfo}
    (returned : instruction.createDynOpInfo fn operand ps context = .ok (dynOperand, later)) :
    later.reg = ps.reg ∧ dynOperand.nr = operand.nr ∧ dynOperand.isImpl = operand.isImpl ∧
      ∀ memAcc, dynOperand.access = .memPtr memAcc →
        ∃ m, operand.info = .memPtr m ∧ dynOperand.Evaluates memAcc m ps := by
  unfold createDynOpInfo at returned
  split at returned
  · obtain ⟨refined, _, returned⟩ := bind_ok returned
    split at returned
    · rename_i regAcc isReg
      split at returned
      · obtain ⟨data, _, same⟩ := bind_ok returned
        cases same
        refine ⟨rfl, setOutput_nr _ _, setOutput_isImpl _ _, ?_⟩
        intro memAcc isMem
        rw [setOutput_access] at isMem
        cases isMem
      · cases returned
        refine ⟨rfl, setOutput_nr _ _, setOutput_isImpl _ _, ?_⟩
        intro memAcc isMem
        rw [setOutput_access] at isMem
        cases isMem
    · cases returned
  · obtain ⟨refined, refinement, returned⟩ := bind_ok returned
    split at returned
    · rename_i m isMem
      obtain ⟨memAcc, created, returned⟩ := bind_ok returned
      have declared := refine_memPtr refinement isMem
      have mode := createMemAccess_mode created
      split at returned
      · rename_i read
        obtain ⟨⟨data, grown⟩, accessed, same⟩ := bind_ok returned
        cases same
        refine ⟨emulateReadAccess_reg accessed, setOutput_nr _ _, setOutput_isImpl _ _, ?_⟩
        intro other access
        rw [setOutput_access] at access
        cases access
        refine ⟨m, declared, created, ?_, ?_⟩
        · rw [setOutput_isInput, ← mode, read]
          rfl
        · rw [setOutput_isOutput _ _ rfl, mode]
      · rename_i notRead
        split at returned
        · rename_i special
          cases returned
          refine ⟨rfl, rfl, rfl, ?_⟩
          intro other access
          cases access
          refine ⟨m, declared, created, ?_, ?_⟩
          · rw [← mode, special, Bool.or_true]
            rfl
          · rw [← mode, AccessMode.isWrite_of_isSpecial special]
            rfl
        · rename_i notSpecial
          cases returned
          refine ⟨rfl, setOutput_nr _ _, setOutput_isImpl _ _, ?_⟩
          intro other access
          rw [setOutput_access] at access
          cases access
          refine ⟨m, declared, created, ?_, ?_⟩
          · rw [setOutput_isInput, ← mode, Bool.eq_false_of_not_eq_true notRead,
              Bool.eq_false_of_not_eq_true notSpecial]
            rfl
          · rw [setOutput_isOutput _ _ rfl, mode]
    · cases returned
  · cases returned
    refine ⟨rfl, rfl, rfl, ?_⟩
    intro memAcc isMem
    cases isMem

theorem createDynOpInfos_mem {operands : List OperandInfo}
    {paired : List (OperandInfo × DynamicOperandInfo)}
    (returned : instruction.createDynOpInfos fn context operands ps = .ok (paired, later)) :
    ∀ pair ∈ paired, pair.1 ∈ operands ∧ ∃ current grown, current.reg = ps.reg ∧
      instruction.createDynOpInfo fn pair.1 current context = .ok (pair.2, grown) := by
  induction operands generalizing ps paired with
  | nil =>
      cases returned
      intro pair member
      cases member
  | cons operand rest ih =>
      obtain ⟨⟨dynOperand, grown⟩, first, returned⟩ := bind_ok returned
      obtain ⟨⟨dynRest, last⟩, others, same⟩ := bind_ok returned
      cases same
      intro pair member
      rcases List.mem_cons.mp member with rfl | inside
      · exact ⟨List.mem_cons_self, ps, grown, rfl, first⟩
      · obtain ⟨memberRest, current, grown', sameReg, created⟩ := ih others pair inside
        exact ⟨List.mem_cons_of_mem _ memberRest, current, grown',
          sameReg.trans (createDynOpInfo_memPtr first).1, created⟩

structure Explicit (instruction : Instruction) (dynOperand : DynamicOperandInfo)
    (memAcc : MemAccess) (m : StaticMemAccess) (ps : ProgramState) : Prop where
  encoded : instruction.rawOperands.op dynOperand.nr = some (.mem m.ptr)
  declared : ∃ row, instruction.opcodeInfo = some row ∧
    row.opInfo[dynOperand.nr]? = some (.memPtr m.mode m.size)
  evaluates : dynOperand.Evaluates memAcc m ps

theorem genDynInfo_explicit {dynInfo : DynamicInstructionInfo}
    (returned : instruction.genDynInfo ps context = .ok (dynInfo, later))
    {dynOperand : DynamicOperandInfo} (member : dynOperand ∈ dynInfo.operands)
    (explicit : dynOperand.isImpl = false) {memAcc : MemAccess}
    (isMem : dynOperand.access = .memPtr memAcc) :
    ∃ m, instruction.Explicit dynOperand memAcc m ps := by
  obtain ⟨info, static, returned⟩ := bind_ok returned
  obtain ⟨willExecute, _, returned⟩ := bind_ok returned
  obtain ⟨⟨paired, grown⟩, created, returned⟩ := bind_ok returned
  obtain ⟨masks, _, same⟩ := bind_ok returned
  cases same
  obtain ⟨pair, inside, rfl⟩ := List.mem_map.mp member
  obtain ⟨listed, current, grown', sameReg, made⟩ := createDynOpInfos_mem created pair inside
  obtain ⟨_, sameNr, sameImpl, access⟩ := createDynOpInfo_memPtr made
  obtain ⟨m, isStatic, evaluates⟩ := access memAcc isMem
  obtain ⟨row, found, declared, encoded⟩ :=
    getInfo_explicit static listed (sameImpl.symm.trans explicit) isStatic
  rw [← sameNr] at declared encoded
  refine ⟨m, encoded, ⟨row, found, declared⟩, ?_, evaluates.isInput, evaluates.isOutput⟩
  rw [← createMemAccess_congr sameReg]
  exact evaluates.created

end Instruction

end Drob
