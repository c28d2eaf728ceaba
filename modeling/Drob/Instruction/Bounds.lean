import Drob.Instruction.Emulate
import Drob.State.Bounds

/-!
Emulating an instruction keeps the tracked stack within a distance of its base: the
offset of a stack pointer has 64 bits and no operand is larger than a vector.
-/

namespace Drob

/-! ### Handlers only set outputs -/

def DynamicOperandInfo.eraseOutput (operand : DynamicOperandInfo) : DynamicOperandInfo :=
  { operand with output := .unknown }

def SameInputs (before after : List DynamicOperandInfo) : Prop :=
  after.map DynamicOperandInfo.eraseOutput = before.map DynamicOperandInfo.eraseOutput

namespace Emulator

theorem setOutput_same {operands changed : Operands} {idx : Nat} {output : DynamicValue}
    (returned : setOutput operands idx output = .ok changed) : SameInputs operands changed := by
  unfold setOutput at returned
  split at returned
  · rename_i operand found
    cases returned
    unfold SameInputs
    rw [List.map_set]
    apply List.ext_getElem?
    intro i
    rw [List.getElem?_set]
    split
    · rename_i same
      subst same
      split
      · rw [List.getElem?_map, found]
        rfl
      · rename_i outside
        rw [List.length_map] at outside
        have inside := (List.getElem?_eq_some_iff.mp found).1
        exact absurd inside outside
    · rfl
  · cases returned

theorem setFlag_same {operands changed : Operands} {idx : Nat} {flag : Flag}
    {output : DynamicValue} (returned : setFlag operands idx flag output = .ok changed) :
    SameInputs operands changed := by
  obtain ⟨_, _, written⟩ := bind_ok returned
  exact setOutput_same written

theorem setFlagIf_same {condition : Bool} {operands changed : Operands} {idx : Nat} {flag : Flag}
    (returned : setFlagIf condition operands idx flag = .ok changed) :
    SameInputs operands changed := by
  unfold setFlagIf at returned
  split at returned
  · exact setFlag_same returned
  · cases returned
    rfl

theorem setEflags_same {operands changed : Operands} {startIdx : Nat} {eflags : Eflags}
    (returned : setEflags operands startIdx eflags = .ok changed) :
    SameInputs operands changed := by
  obtain ⟨_, _, returned⟩ := bind_ok returned
  obtain ⟨_, cf, returned⟩ := bind_ok returned
  obtain ⟨_, pf, returned⟩ := bind_ok returned
  obtain ⟨_, af, returned⟩ := bind_ok returned
  obtain ⟨_, zf, returned⟩ := bind_ok returned
  obtain ⟨_, sf, returned⟩ := bind_ok returned
  exact (setOutput_same returned).trans ((setOutput_same sf).trans ((setOutput_same zf).trans
    ((setOutput_same af).trans ((setOutput_same pf).trans (setOutput_same cf)))))

def OnlyOutputs (handler : Operands → Except Failure (Operands × EmuRet)) : Prop :=
  ∀ operands changed ret, handler operands = .ok (changed, ret) → SameInputs operands changed

theorem binary_onlyOutputs {w : Nat} (op : BitVec w → BitVec w → AluResult w) (host : Host) :
    OnlyOutputs (binary op host) := by
  intro operands changed ret returned
  obtain ⟨_, _, returned⟩ := bind_ok returned
  obtain ⟨_, _, returned⟩ := bind_ok returned
  obtain ⟨_, _, returned⟩ := bind_ok returned
  obtain ⟨_, _, returned⟩ := bind_ok returned
  obtain ⟨_, destination, returned⟩ := bind_ok returned
  obtain ⟨_, flags, same⟩ := bind_ok returned
  cases same
  exact (setEflags_same flags).trans (setOutput_same destination)

theorem compare_onlyOutputs {w : Nat} (op : BitVec w → BitVec w → AluResult w) (host : Host) :
    OnlyOutputs (compare op host) := by
  intro operands changed ret returned
  obtain ⟨_, _, returned⟩ := bind_ok returned
  obtain ⟨_, _, returned⟩ := bind_ok returned
  obtain ⟨_, _, returned⟩ := bind_ok returned
  obtain ⟨_, _, returned⟩ := bind_ok returned
  obtain ⟨_, flags, same⟩ := bind_ok returned
  cases same
  exact setEflags_same flags

theorem pointerArith_onlyOutputs (op : BitVec 64 → BitVec 64 → AluResult 64) (host : Host) :
    OnlyOutputs (pointerArith op host) := by
  intro operands changed ret returned
  obtain ⟨_, _, returned⟩ := bind_ok returned
  obtain ⟨_, _, returned⟩ := bind_ok returned
  split at returned
  · obtain ⟨_, destination, returned⟩ := bind_ok returned
    obtain ⟨_, flags, same⟩ := bind_ok returned
    cases same
    exact (setEflags_same flags).trans (setOutput_same destination)
  all_goals
    obtain ⟨_, destination, same⟩ := bind_ok returned
    cases same
    exact setOutput_same destination

theorem cmp64_onlyOutputs (host : Host) : OnlyOutputs (cmp64 host) := by
  intro operands changed ret returned
  obtain ⟨_, _, returned⟩ := bind_ok returned
  obtain ⟨_, _, returned⟩ := bind_ok returned
  split at returned
  · obtain ⟨_, flags, same⟩ := bind_ok returned
    cases same
    exact setEflags_same flags
  · split at returned
    · obtain ⟨_, flags, same⟩ := bind_ok returned
      cases same
      exact setEflags_same flags
    · cases returned
      rfl
  · cases returned
    rfl

theorem test_onlyOutputs {w : Nat} (op : BitVec w → BitVec w → AluResult w) (host : Host) :
    OnlyOutputs (test op host) := by
  intro operands changed ret returned
  obtain ⟨_, _, returned⟩ := bind_ok returned
  obtain ⟨_, _, returned⟩ := bind_ok returned
  obtain ⟨computed, flags, returned⟩ := bind_ok returned
  obtain ⟨_, cf, returned⟩ := bind_ok returned
  obtain ⟨_, af, returned⟩ := bind_ok returned
  obtain ⟨_, of, same⟩ := bind_ok returned
  cases same
  have start : SameInputs operands computed := by
    unfold testResult at flags
    split at flags
    · exact setEflags_same flags
    · cases flags
      rfl
  exact (setFlag_same of).trans ((setFlag_same af).trans ((setFlag_same cf).trans start))

theorem shift_onlyOutputs (op : BitVec 64 → BitVec 8 → AluResult 64) (host : Host) :
    OnlyOutputs (shift op host) := by
  intro operands changed ret returned
  obtain ⟨_, _, returned⟩ := bind_ok returned
  obtain ⟨_, _, returned⟩ := bind_ok returned
  obtain ⟨computed, result, returned⟩ := bind_ok returned
  obtain ⟨_, of, returned⟩ := bind_ok returned
  obtain ⟨_, cf, returned⟩ := bind_ok returned
  obtain ⟨_, af, same⟩ := bind_ok returned
  cases same
  have start : SameInputs operands computed := by
    unfold shiftResult at result
    split at result
    · obtain ⟨_, destination, flags⟩ := bind_ok result
      exact (setEflags_same flags).trans (setOutput_same destination)
    all_goals exact setOutput_same result
  exact (setFlag_same af).trans ((setFlagIf_same cf).trans ((setFlagIf_same of).trans start))

theorem packed_onlyOutputs (op : BitVec 128 → BitVec 128 → BitVec 128) :
    OnlyOutputs (packed op) := by
  intro operands changed ret returned
  obtain ⟨_, _, returned⟩ := bind_ok returned
  obtain ⟨_, _, returned⟩ := bind_ok returned
  obtain ⟨_, _, returned⟩ := bind_ok returned
  obtain ⟨_, _, returned⟩ := bind_ok returned
  obtain ⟨_, destination, same⟩ := bind_ok returned
  cases same
  exact setOutput_same destination

theorem scalar_onlyOutputs (op : BitVec 64 → BitVec 64 → BitVec 64) :
    OnlyOutputs (scalar op) := by
  intro operands changed ret returned
  obtain ⟨_, _, returned⟩ := bind_ok returned
  obtain ⟨_, _, returned⟩ := bind_ok returned
  obtain ⟨_, _, returned⟩ := bind_ok returned
  obtain ⟨_, _, returned⟩ := bind_ok returned
  obtain ⟨_, destination, same⟩ := bind_ok returned
  cases same
  exact setOutput_same destination

theorem call_onlyOutputs (host : Host) : OnlyOutputs (call host) := by
  intro operands changed ret returned
  obtain ⟨_, _, returned⟩ := bind_ok returned
  obtain ⟨_, rsp, returned⟩ := bind_ok returned
  obtain ⟨_, address, same⟩ := bind_ok returned
  cases same
  exact (setOutput_same address).trans (setOutput_same rsp)

theorem single_onlyOutputs {source target : Nat} {result : DynamicValue → DynamicValue}
    {emuRet : EmuRet} : OnlyOutputs (fun operands => do
      let value ← input operands source
      let operands ← setOutput operands target (result value)
      .ok (operands, emuRet)) := by
  intro operands changed ret returned
  obtain ⟨_, _, returned⟩ := bind_ok returned
  obtain ⟨_, written, same⟩ := bind_ok returned
  cases same
  exact setOutput_same written

theorem pop_onlyOutputs (host : Host) : OnlyOutputs (pop host) := by
  intro operands changed ret returned
  obtain ⟨_, _, returned⟩ := bind_ok returned
  obtain ⟨_, _, returned⟩ := bind_ok returned
  obtain ⟨_, rsp, returned⟩ := bind_ok returned
  obtain ⟨_, _, returned⟩ := bind_ok returned
  obtain ⟨_, value, same⟩ := bind_ok returned
  cases same
  exact (setOutput_same value).trans (setOutput_same rsp)

theorem push_onlyOutputs (host : Host) : OnlyOutputs (push host) := by
  intro operands changed ret returned
  obtain ⟨_, _, returned⟩ := bind_ok returned
  obtain ⟨_, _, returned⟩ := bind_ok returned
  obtain ⟨_, rsp, returned⟩ := bind_ok returned
  obtain ⟨_, _, returned⟩ := bind_ok returned
  obtain ⟨_, value, same⟩ := bind_ok returned
  cases same
  exact (setOutput_same value).trans (setOutput_same rsp)

theorem handler_onlyOutputs {fn : EmulateFn}
    {run : Host → Operands → Except Failure (Operands × EmuRet)}
    (found : handler fn = some run) (host : Host) : OnlyOutputs (run host) := by
  cases fn <;> cases found
  case add8 | add16 | add32 | sub8 | sub16 | sub32 | xor32 | xor64 =>
    exact binary_onlyOutputs _ host
  case cmp8 | cmp16 | cmp32 => exact compare_onlyOutputs _ host
  case add64 | sub64 => exact pointerArith_onlyOutputs _ host
  case cmp64 => exact cmp64_onlyOutputs host
  case test8 | test16 | test32 | test64 => exact test_onlyOutputs _ host
  case shl64 | shr64 => exact shift_onlyOutputs _ host
  case addpd | mulpd | pxor => exact packed_onlyOutputs _
  case addsd | mulsd => exact scalar_onlyOutputs _
  case call => exact call_onlyOutputs host
  case ret | lea | mov => exact single_onlyOutputs
  case pop => exact pop_onlyOutputs host
  case push => exact push_onlyOutputs host

end Emulator

theorem emulateGeneric_same (dynInfo : DynamicInstructionInfo) :
    SameInputs dynInfo.operands (emulateGeneric dynInfo) := by
  unfold SameInputs emulateGeneric
  rw [List.map_map]
  apply List.map_congr_left
  intro operand _
  dsimp only [Function.comp]
  split <;> rfl

theorem dispatch_same {opcodeInfo : OpcodeInfo} {host : Host} {dynInfo : DynamicInstructionInfo}
    {operands : List DynamicOperandInfo} {ret : EmuRet}
    (returned : dispatch opcodeInfo host dynInfo = .ok (operands, ret)) :
    SameInputs dynInfo.operands operands := by
  unfold dispatch at returned
  split at returned
  · cases returned
    exact emulateGeneric_same dynInfo
  · rename_i run found
    split at returned
    · exact Emulator.handler_onlyOutputs found host _ _ _ returned
    · cases returned
      exact emulateGeneric_same dynInfo

/-! ### Operand sizes -/

def StaticOperandInfo.Small (info : StaticOperandInfo) : Prop :=
  ∀ m, info = .memPtr m → m.size ≤ 16

def OperandAccess.Small (access : OperandAccess) : Prop :=
  ∀ memAcc, access = .memPtr memAcc → memAcc.size ≤ 16

def DynamicOperandInfo.Small (operand : DynamicOperandInfo) : Prop :=
  operand.access.Small

theorem small_of_same {before after : List DynamicOperandInfo} (same : SameInputs before after)
    (small : ∀ operand ∈ before, operand.Small) : ∀ operand ∈ after, operand.Small := by
  intro operand member
  have erased : operand.eraseOutput ∈ after.map DynamicOperandInfo.eraseOutput :=
    List.mem_map_of_mem member
  rw [same] at erased
  obtain ⟨original, originalMember, equal⟩ := List.mem_map.mp erased
  have access : original.eraseOutput.access = operand.eraseOutput.access :=
    congrArg DynamicOperandInfo.access equal
  change original.access = operand.access at access
  unfold DynamicOperandInfo.Small
  rw [← access]
  exact small original originalMember

def smallExplicit : ExplicitStaticOperandInfo → Bool
  | .memPtr _ size => decide (size ≤ 16)
  | _ => true

def smallImplicit : StaticOperandInfo → Bool
  | .memPtr m => decide (m.size ≤ 16)
  | _ => true

theorem table_small {opcode : Opcode} {row : OpcodeInfo}
    (found : archGetOpcodeInfo opcode = some row) :
    (∀ mode size, ExplicitStaticOperandInfo.memPtr mode size ∈ row.opInfo → size ≤ 16) ∧
      ∀ m, StaticOperandInfo.memPtr m ∈ row.iOpInfo → m.size ≤ 16 := by
  have explicit : row.opInfo.all smallExplicit = true := by
    cases opcode <;> cases found <;> rfl
  have implicit : row.iOpInfo.all smallImplicit = true := by
    cases opcode <;> cases found <;> rfl
  refine ⟨?_, ?_⟩
  · intro mode size member
    exact of_decide_eq_true (List.all_eq_true.mp explicit _ member)
  · intro m member
    exact of_decide_eq_true (List.all_eq_true.mp implicit _ member)

theorem setMode_memPtr {operandInfo : OperandInfo} {mode : AccessMode} {m : StaticMemAccess}
    (isMem : (operandInfo.setMode mode).info = .memPtr m) : operandInfo.info = .memPtr m := by
  obtain ⟨info, nr, isImpl⟩ := operandInfo
  cases info with
  | register r => cases isMem
  | memPtr other => exact isMem
  | immediate type imm => cases isMem

theorem setMode_same (operandInfo : OperandInfo) (mode : AccessMode) :
    (operandInfo.setMode mode).nr = operandInfo.nr ∧
      (operandInfo.setMode mode).isImpl = operandInfo.isImpl := by
  obtain ⟨info, nr, isImpl⟩ := operandInfo
  cases info <;> exact ⟨rfl, rfl⟩

theorem refineShEncoded_cases {operandInfo refined : OperandInfo}
    {explOperands : ExplicitStaticOperands}
    (returned : refineShEncoded operandInfo explOperands = .ok refined) :
    refined = operandInfo ∨ ∃ mode, refined = operandInfo.setMode mode := by
  unfold refineShEncoded at returned
  split at returned
  · obtain ⟨_, returned⟩ := ite_ok returned
    split at returned
    · cases returned
      exact Or.inr ⟨_, rfl⟩
    · cases returned
  · cases returned
    exact Or.inl rfl

theorem refineShCL_cases {operandInfo refined : OperandInfo} {ps : Option ProgramState}
    (returned : refineShCL operandInfo ps = .ok refined) :
    refined = operandInfo ∨ ∃ mode, refined = operandInfo.setMode mode := by
  unfold refineShCL at returned
  split at returned
  · cases returned
    exact Or.inl rfl
  · split at returned
    · obtain ⟨data, _, decided⟩ := bind_ok (ite_ok returned).2
      split at decided
      · cases decided
        exact Or.inr ⟨_, rfl⟩
      · cases decided
        exact Or.inl rfl
    · cases returned
      exact Or.inl rfl

theorem refine_cases {fn : RefineFn} {operandInfo refined : OperandInfo} {opcode : Opcode}
    {rawOperands : ExplicitStaticOperands} {ps : Option ProgramState}
    (returned : refine fn operandInfo opcode rawOperands ps = .ok refined) :
    refined = operandInfo ∨ ∃ mode, refined = operandInfo.setMode mode := by
  unfold refine at returned
  cases fn with
  | nullptr =>
      cases returned
      exact Or.inl rfl
  | sh =>
      dsimp only at returned
      unfold refineSh at returned
      split at returned
      iterate 4 exact refineShEncoded_cases returned
      iterate 4 exact refineShCL_cases returned
      cases returned
  | xor_rr =>
      dsimp only at returned
      unfold refineXorRr at returned
      split at returned
      · split at returned
        · split at returned
          · cases returned
            exact Or.inr ⟨_, rfl⟩
          · split at returned
            · cases returned
              exact Or.inr ⟨_, rfl⟩
            · cases returned
              exact Or.inl rfl
        · cases returned
      · cases returned

theorem refine_memPtr {fn : RefineFn} {operandInfo refined : OperandInfo} {opcode : Opcode}
    {rawOperands : ExplicitStaticOperands} {ps : Option ProgramState} {m : StaticMemAccess}
    (returned : refine fn operandInfo opcode rawOperands ps = .ok refined)
    (isMem : refined.info = .memPtr m) : operandInfo.info = .memPtr m := by
  rcases refine_cases returned with rfl | ⟨mode, rfl⟩
  · exact isMem
  · exact setMode_memPtr isMem

theorem refine_same {fn : RefineFn} {operandInfo refined : OperandInfo} {opcode : Opcode}
    {rawOperands : ExplicitStaticOperands} {ps : Option ProgramState}
    (returned : refine fn operandInfo opcode rawOperands ps = .ok refined) :
    refined.nr = operandInfo.nr ∧ refined.isImpl = operandInfo.isImpl := by
  rcases refine_cases returned with rfl | ⟨mode, rfl⟩
  · exact ⟨rfl, rfl⟩
  · exact setMode_same operandInfo mode

theorem createRawOperandInfo_small {explInfo : ExplicitStaticOperandInfo}
    {operand : StaticOperand} {raw : StaticOperandInfo}
    (returned : createRawOperandInfo explInfo operand = .ok raw)
    (small : ∀ mode size, explInfo = .memPtr mode size → size ≤ 16) : raw.Small := by
  unfold createRawOperandInfo at returned
  split at returned
  · cases returned
    intro m isMem
    cases isMem
  · cases returned
    intro m isMem
    cases isMem
    exact small _ _ rfl
  · cases returned
    intro m isMem
    cases isMem
  · cases returned

theorem addOperandToRegisterMasks_operands {info added : InstructionInfo} {opInfo : OperandInfo}
    (returned : addOperandToRegisterMasks info opInfo = .ok added) :
    added.operands = info.operands := by
  unfold addOperandToRegisterMasks at returned
  split at returned
  · cases returned
    rfl
  · obtain ⟨_, _, returned⟩ := bind_ok returned
    obtain ⟨_, _, same⟩ := bind_ok returned
    cases same
    rfl
  · cases returned
    rfl

namespace Instruction

theorem rawInfos_small {opInfo : List ExplicitStaticOperandInfo}
    {rawOperands : ExplicitStaticOperands} {raws : List StaticOperandInfo}
    (returned : rawInfos opInfo rawOperands = .ok raws)
    (small : ∀ mode size, ExplicitStaticOperandInfo.memPtr mode size ∈ opInfo → size ≤ 16) :
    ∀ raw ∈ raws, raw.Small := by
  induction opInfo generalizing rawOperands raws with
  | nil =>
      cases returned
      intro raw member
      cases member
  | cons explInfo opInfo ih =>
      cases rawOperands with
      | nil => cases returned
      | cons operand rawOperands =>
          obtain ⟨first, made, returned⟩ := bind_ok returned
          obtain ⟨rest, others, same⟩ := bind_ok returned
          cases same
          intro raw member
          rcases List.mem_cons.mp member with rfl | later
          · refine createRawOperandInfo_small made ?_
            rintro mode size rfl
            exact small mode size List.mem_cons_self
          · exact ih others
              (fun mode size inside => small mode size (List.mem_cons_of_mem _ inside)) raw later

theorem addOperands_mem {instruction : Instruction} {fn : RefineFn} {numOperands : Nat}
    {raws : List StaticOperandInfo} {nr : Nat} {info added : InstructionInfo}
    (returned : instruction.addOperands fn numOperands raws nr info = .ok added) :
    ∀ op ∈ added.operands, op ∈ info.operands ∨ ∃ i raw, raws[i]? = some raw ∧
      instruction.createOperandInfo fn raw (nr + i) (decide (numOperands ≤ nr + i)) = .ok op := by
  induction raws generalizing nr info with
  | nil =>
      cases returned
      intro op member
      exact Or.inl member
  | cons raw raws ih =>
      obtain ⟨opInfo, created, returned⟩ := bind_ok returned
      obtain ⟨masks, kept, returned⟩ := bind_ok returned
      intro op member
      rcases ih returned op member with before | ⟨i, other, found, made⟩
      · rcases List.mem_append.mp before with old | new
        · rw [addOperandToRegisterMasks_operands kept] at old
          exact Or.inl old
        · rw [List.mem_singleton.mp new]
          exact Or.inr ⟨0, raw, rfl, created⟩
      · rw [Nat.add_right_comm, Nat.add_assoc] at made
        exact Or.inr ⟨i + 1, other, found, made⟩

theorem addOperands_small {instruction : Instruction} {fn : RefineFn} {numOperands : Nat}
    {raws : List StaticOperandInfo} {nr : Nat} {info added : InstructionInfo}
    (returned : instruction.addOperands fn numOperands raws nr info = .ok added)
    (small : ∀ raw ∈ raws, raw.Small) (before : ∀ op ∈ info.operands, op.info.Small) :
    ∀ op ∈ added.operands, op.info.Small := by
  intro op member
  rcases addOperands_mem returned op member with old | ⟨i, raw, found, created⟩
  · exact before op old
  · intro m isMem
    exact small raw (List.mem_of_getElem? found) m (refine_memPtr created isMem)

theorem getInfo_small {instruction : Instruction} {info : InstructionInfo}
    (returned : instruction.getInfo = .ok info) : ∀ op ∈ info.operands, op.info.Small := by
  unfold getInfo at returned
  split at returned
  · cases returned
    intro op member
    cases member
  · rename_i row found
    obtain ⟨explicit, raws, returned⟩ := bind_ok returned
    obtain ⟨added, operands, same⟩ := bind_ok returned
    cases same
    obtain ⟨explicitSmall, implicitSmall⟩ := table_small found
    change ∀ op ∈ added.operands, op.info.Small
    refine addOperands_small operands ?_ ?_
    · intro raw member
      rcases List.mem_append.mp member with left | right
      · exact rawInfos_small raws explicitSmall raw left
      · rintro m rfl
        exact implicitSmall m right
    · intro op member
      cases member

end Instruction

/-! ### Accesses to the tracked stack -/

def stackBound : Int := 2 ^ 63 + 16

theorem stackBound_nonneg : 0 ≤ stackBound := by decide

structure ProgramState.Sized (ps : ProgramState) : Prop where
  sizes : ∀ container, (ps.reg container).size = container.size
  base_nonneg : 0 ≤ ps.stack.base
  base_le : ps.stack.base ≤ ps.stack.elems.size

theorem ProgramState.sized_initial : ProgramState.initial.Sized :=
  { sizes := fun _ => rfl
    base_nonneg := le_refl 0
    base_le := le_refl 0 }

theorem ProgramState.Sized.within {ps : ProgramState} (sized : ps.Sized) :
    ∃ bound, stackBound ≤ bound ∧ ps.Within bound := by
  have nonneg := sized.base_nonneg
  have le := sized.base_le
  have bound_nonneg := stackBound_nonneg
  refine ⟨stackBound + ps.stack.elems.size, by omega, sized.sizes, ?_⟩
  exact
    { base_nonneg := nonneg
      base_le := le
      new_le := by omega
      old_le := by omega }

section Reach

variable {bound : Int} (large : stackBound ≤ bound)
include large

theorem reaches_offset (ptrOffset : BitVec 64) {size : Nat} (small : size ≤ 16) :
    ProgramState.Reaches bound ptrOffset.toInt size where
  new := by
    have low := BitVec.le_toInt ptrOffset
    unfold stackBound at large
    omega
  old := by
    have high := BitVec.toInt_lt (x := ptrOffset)
    unfold stackBound at large
    omega

variable {ps later : ProgramState}

theorem emulateReadAccess_within {memAcc : MemAccess} {context : Context} {data : DynamicValue}
    (within : ps.Within bound) (small : memAcc.size ≤ 16)
    (returned : emulateReadAccess memAcc ps context = .ok (data, later)) : later.Within bound := by
  unfold emulateReadAccess at returned
  split at returned
  · cases returned
    exact within
  · cases returned
    exact within
  · cases returned
    exact within
  · cases returned
  · exact within.getStack (reaches_offset large _ small) returned
  · obtain ⟨ptrCfg, _, returned⟩ := bind_ok returned
    split at returned
    · obtain ⟨read, _, same⟩ := bind_ok returned
      cases same
      exact within
    · cases returned
      exact within
  · obtain ⟨read, _, same⟩ := bind_ok returned
    cases same
    exact within
  · obtain ⟨read, _, same⟩ := bind_ok returned
    cases same
    exact within

omit large in
theorem createMemAccess_size {rawMemAccess : StaticMemAccess} {memAcc : MemAccess}
    (returned : createMemAccess rawMemAccess ps = .ok memAcc) :
    memAcc.size = rawMemAccess.size := by
  unfold createMemAccess at returned
  split at returned
  · cases returned
    rfl
  · obtain ⟨_, _, returned⟩ := bind_ok returned
    obtain ⟨_, _, returned⟩ := bind_ok returned
    obtain ⟨_, _, same⟩ := bind_ok returned
    cases same
    rfl

omit large in
theorem setOutput_access (dynOperand : DynamicOperandInfo) (mode : AccessMode) :
    (dynOperand.setOutput mode).access = dynOperand.access := by
  unfold DynamicOperandInfo.setOutput
  split <;> rfl

namespace Instruction

variable {instruction : Instruction} {fn : RefineFn} {context : Context}

theorem createDynOpInfo_within {operand : OperandInfo} {dynOperand : DynamicOperandInfo}
    (within : ps.Within bound) (small : operand.info.Small)
    (returned : instruction.createDynOpInfo fn operand ps context = .ok (dynOperand, later)) :
    dynOperand.Small ∧ later.Within bound := by
  unfold createDynOpInfo at returned
  split at returned
  · obtain ⟨refined, _, returned⟩ := bind_ok returned
    split at returned
    · rename_i regAcc isReg
      have smallRegister : ∀ data mode access, DynamicOperandInfo.Small
          ((((DynamicOperandInfo.start operand (.register regAcc)).setInput mode data)).setOutput
            access) := by
        intro data mode access memAcc isMem
        rw [setOutput_access] at isMem
        cases isMem
      split at returned
      · obtain ⟨data, _, same⟩ := bind_ok returned
        cases same
        exact ⟨smallRegister _ _ _, within⟩
      · cases returned
        refine ⟨?_, within⟩
        intro memAcc isMem
        rw [setOutput_access] at isMem
        cases isMem
    · cases returned
  · obtain ⟨refined, refinement, returned⟩ := bind_ok returned
    split at returned
    · rename_i m isMem
      obtain ⟨memAcc, created, returned⟩ := bind_ok returned
      have size : memAcc.size ≤ 16 := by
        rw [createMemAccess_size created]
        exact small m (refine_memPtr refinement isMem)
      have smallMemory : ∀ other : DynamicOperandInfo, other.access = .memPtr memAcc →
          other.Small := by
        intro other access memAcc' isMem'
        rw [access] at isMem'
        cases isMem'
        exact size
      split at returned
      · obtain ⟨⟨data, grown⟩, read, same⟩ := bind_ok returned
        cases same
        exact ⟨smallMemory _ (setOutput_access _ _), emulateReadAccess_within large within size read⟩
      · split at returned
        · cases returned
          exact ⟨smallMemory _ rfl, within⟩
        · cases returned
          exact ⟨smallMemory _ (setOutput_access _ _), within⟩
    · cases returned
  · cases returned
    refine ⟨?_, within⟩
    intro memAcc isMem
    cases isMem

theorem createDynOpInfos_within {operands : List OperandInfo}
    {paired : List (OperandInfo × DynamicOperandInfo)} (within : ps.Within bound)
    (small : ∀ operand ∈ operands, operand.info.Small)
    (returned : instruction.createDynOpInfos fn context operands ps = .ok (paired, later)) :
    (∀ pair ∈ paired, pair.2.Small) ∧ later.Within bound := by
  induction operands generalizing ps paired with
  | nil =>
      cases returned
      refine ⟨?_, within⟩
      intro pair member
      cases member
  | cons operand rest ih =>
      obtain ⟨⟨dynOperand, grown⟩, first, returned⟩ := bind_ok returned
      obtain ⟨⟨dynRest, last⟩, others, same⟩ := bind_ok returned
      cases same
      obtain ⟨smallFirst, grownReach⟩ :=
        createDynOpInfo_within large within (small operand List.mem_cons_self) first
      obtain ⟨smallRest, lastReach⟩ := ih grownReach
        (fun other member => small other (List.mem_cons_of_mem _ member)) others
      refine ⟨?_, lastReach⟩
      intro pair member
      rcases List.mem_cons.mp member with rfl | inside
      · exact smallFirst
      · exact smallRest pair inside

theorem genDynInfo_within {dynInfo : DynamicInstructionInfo} (within : ps.Within bound)
    (returned : instruction.genDynInfo ps context = .ok (dynInfo, later)) :
    (∀ operand ∈ dynInfo.operands, operand.Small) ∧ later.Within bound := by
  obtain ⟨info, static, returned⟩ := bind_ok returned
  obtain ⟨willExecute, _, returned⟩ := bind_ok returned
  obtain ⟨⟨paired, grown⟩, created, returned⟩ := bind_ok returned
  obtain ⟨masks, _, same⟩ := bind_ok returned
  cases same
  obtain ⟨small, grownReach⟩ :=
    createDynOpInfos_within large within (getInfo_small static) created
  refine ⟨?_, grownReach⟩
  intro operand member
  obtain ⟨pair, inside, rfl⟩ := List.mem_map.mp member
  exact small pair inside

end Instruction

/-! ### Writing the outputs -/

theorem writeOutput_within {willExecute : TriState} {op : DynamicOperandInfo}
    (within : ps.Within bound) (small : op.Small)
    (returned : writeOutput willExecute op ps = .ok later) : later.Within bound := by
  unfold writeOutput at returned
  dsimp only at returned
  split at returned
  · cases returned
    exact within
  · split at returned
    · exact within.setRegister returned
    · rename_i memAcc isMem
      split at returned
      · exact within.setStack (reaches_offset large _ (small memAcc isMem)) returned
      · cases returned
        exact within.untrackedStackAccess
      · split at returned
        · cases returned
          exact within.untrackedStackAccess
        · cases returned
          exact within
    · cases returned

theorem writeOutputs_within {willExecute : TriState} {operands : List DynamicOperandInfo}
    (within : ps.Within bound) (small : ∀ op ∈ operands, op.Small)
    (returned : writeOutputs willExecute operands ps = .ok later) : later.Within bound := by
  induction operands generalizing ps with
  | nil =>
      cases returned
      exact within
  | cons op rest ih =>
      obtain ⟨written, first, returned⟩ := bind_ok returned
      exact ih (writeOutput_within large within (small op List.mem_cons_self) first)
        (fun other member => small other (List.mem_cons_of_mem _ member)) returned

theorem performDirectMove_within {input out : DynamicOperandInfo} {cond : Bool}
    (within : ps.Within bound) (smallIn : input.Small) (smallOut : out.Small)
    (returned : performDirectMove input out ps cond = .ok later) : later.Within bound := by
  unfold performDirectMove at returned
  split at returned
  · cases returned
    exact within
  · split at returned
    · exact within.moveRegisterRegister returned
    · rename_i regIn memOut isReg isMem
      split at returned
      · exact within.moveRegisterStack (reaches_offset large _ (smallOut memOut isMem)) returned
      · cases returned
        exact within
    · rename_i memIn regOut isMem isReg
      split at returned
      · exact within.moveStackRegister (reaches_offset large _ (smallIn memIn isMem)) returned
      · cases returned
        exact within
    · rename_i memIn memOut isMemIn isMemOut
      split at returned
      · obtain ⟨_, moved⟩ := ite_ok returned
        have size := smallOut memOut isMemOut
        exact within.moveStackStack (reaches_offset large _ size) (reaches_offset large _ size) moved
      · cases returned
        exact within
    · cases returned
      exact within
    · cases returned

theorem directMove_within {dynInfo : DynamicInstructionInfo} {source target : Nat}
    (within : ps.Within bound) (small : ∀ op ∈ dynInfo.operands, op.Small)
    (returned : directMove dynInfo source target ps = .ok later) : later.Within bound := by
  unfold directMove at returned
  split at returned
  · rename_i input out foundIn foundOut
    exact performDirectMove_within large within (small input (List.mem_of_getElem? foundIn))
      (small out (List.mem_of_getElem? foundOut)) returned
  · cases returned

theorem finishMove_within {ret : EmuRet} {dynInfo : DynamicInstructionInfo}
    (within : ps.Within bound) (small : ∀ op ∈ dynInfo.operands, op.Small)
    (returned : finishMove ret dynInfo ps = .ok later) : later.Within bound := by
  cases ret with
  | Ok =>
      cases returned
      exact within
  | Mov10 => exact directMove_within large within small returned
  | Mov02 => exact directMove_within large within small returned
  | Mov20 => exact directMove_within large within small returned

theorem Instruction.emulate_within {instruction : Instruction} {context : Context}
    {host : Host} {dynInfo : DynamicInstructionInfo} (within : ps.Within bound)
    (returned : instruction.emulate ps context host = .ok (dynInfo, later)) : later.Within bound := by
  obtain ⟨⟨generated, grown⟩, evaluated, returned⟩ := bind_ok returned
  obtain ⟨small, grownReach⟩ := Instruction.genDynInfo_within large within evaluated
  dsimp only at returned
  split at returned
  · cases returned
    exact grownReach
  · split at returned
    · obtain ⟨unknown, nasty, same⟩ := bind_ok returned
      cases same
      exact grownReach.nastyInstruction nasty
    · split at returned
      · cases returned
      · obtain ⟨⟨operands, ret⟩, dispatched, returned⟩ := bind_ok returned
        obtain ⟨written, outputs, returned⟩ := bind_ok returned
        obtain ⟨moved, finished, same⟩ := bind_ok returned
        cases same
        have smallOutputs := small_of_same (dispatch_same dispatched) small
        exact finishMove_within large (writeOutputs_within large grownReach smallOutputs outputs)
          smallOutputs finished

end Reach

end Drob
