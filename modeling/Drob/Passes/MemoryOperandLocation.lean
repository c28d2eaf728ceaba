import Drob.Instruction.OperandAddress
import Drob.Instruction.OperandOrigin
import Drob.Library.BranchFormat
import Drob.Passes.MemoryOperandOptimization

/-!
The memory operand optimization pass keeps the location that an operand accesses: the
new operand has the same effective address and the same abstract address, or it is a
constant of the pool with the bytes of the old location.
-/

namespace Drob

open DynamicValue

/-! ### Known addresses -/

def Context.Configured (context : Context) (base : PtrBase) : Prop :=
  ∀ nr ptrCfg, context.getUsrPtrCfg nr = .ok ptrCfg → ptrCfg.isKnown = true →
    base .usr nr = ptrCfg.val

/-- An encoded value that comes from a user pointer is the one of a known pointer. -/
def Context.EncodesPointer (context : Context) (usrPtrNr : Int) (usrPtrOffset val : BitVec 64) :
    Prop :=
  0 ≤ usrPtrNr → ∃ ptrCfg, context.getUsrPtrCfg usrPtrNr.toNat = .ok ptrCfg ∧
    ptrCfg.isKnown = true ∧ val = ptrCfg.val + usrPtrOffset

/-- The encoded address or displacement is the value of the pointer it comes from. The
decoder gives no pointer, and the pass only known ones. -/
def StaticMemPtr.Consistent (context : Context) : StaticMemPtr → Prop
  | .direct addr => context.EncodesPointer addr.usrPtrNr addr.usrPtrOffset addr.val
  | .SIB _ _ disp _ =>
      context.EncodesPointer disp.usrPtrNr disp.usrPtrOffset (disp.val.signExtend 64)

theorem StaticMemPtr.consistent_plain (context : Context) (base index : Option Register)
    (disp : BitVec 32) (scale : BitVec 8) (addr : BitVec 64) :
    (StaticMemPtr.SIB base index (.plain disp) scale).Consistent context ∧
      (StaticMemPtr.direct (.plain addr)).Consistent context :=
  ⟨fun isPtr => absurd isPtr (show ¬ (0 : Int) ≤ -1 by decide),
    fun isPtr => absurd isPtr (show ¬ (0 : Int) ≤ -1 by decide)⟩

inductive Context.Knows (context : Context) (val : BitVec 64) : DynamicValue → Prop
  | imm {ptr : DynamicValue} (known : ptr.imm64? = some val) : context.Knows val ptr
  | usr {nr : Nat} {ptrOffset : BitVec 64} {ptrCfg : UsrPtrCfg}
      (configured : context.getUsrPtrCfg nr = .ok ptrCfg) (isKnown : ptrCfg.isKnown = true)
      (sum : val = ptrCfg.val + ptrOffset) : context.Knows val (.ptr .usr nr ptrOffset)

variable {context : Context} {base : PtrBase} {val : BitVec 64}

theorem knows_of_ptrToInt {ptr : DynamicValue} (known : ptrToInt ptr context = .ok (some val)) :
    context.Knows val ptr := by
  unfold ptrToInt at known
  split at known
  · cases known
    exact .imm rfl
  · cases known
    exact .imm rfl
  · obtain ⟨ptrCfg, configured, known⟩ := bind_ok known
    split at known
    · rename_i isKnown
      cases known
      exact .usr configured isKnown rfl
    · cases known
  · cases known

theorem Context.Knows.eq {ptr : DynamicValue} (knows : context.Knows val ptr)
    (configured : context.Configured base) {concrete : BitVec 64}
    (described : ptr.Describes base concrete) : concrete = val := by
  cases knows with
  | imm known => exact (describes_of_imm64? known).mp described
  | usr found isKnown sum =>
      change concrete = BitVec.setWidth 64 _ at described
      rw [described, BitVec.setWidth_eq, configured _ _ found isKnown, sum]

theorem Context.EncodesPointer.describes {usrPtrNr : Int} {usrPtrOffset : BitVec 64}
    (encodes : context.EncodesPointer usrPtrNr usrPtrOffset val)
    (configured : context.Configured base) (isPtr : ¬ usrPtrNr < 0) :
    (DynamicValue.ptr .usr usrPtrNr.toNat usrPtrOffset).Describes base val := by
  obtain ⟨ptrCfg, found, isKnown, rfl⟩ := encodes (Int.not_lt.mp isPtr)
  change _ = BitVec.setWidth 64 _
  rw [BitVec.setWidth_eq, configured _ _ found isKnown]

theorem StaticMemPtr.Consistent.encodes {ptr : StaticMemPtr} (consistent : ptr.Consistent context)
    (configured : context.Configured base) : ptr.Encodes base := by
  cases ptr with
  | direct addr =>
      change (immediateValue addr).Describes base addr.val
      unfold immediateValue
      split
      · exact (describes_of_imm64? rfl).mpr rfl
      · rename_i isPtr
        exact Context.EncodesPointer.describes consistent configured isPtr
  | SIB baseReg indexReg disp scale =>
      change (dispValue disp).Describes base (disp.val.signExtend 64)
      unfold dispValue
      split
      · exact (describes_of_imm64? rfl).mpr rfl
      · rename_i isPtr
        exact Context.EncodesPointer.describes consistent configured isPtr

namespace MemoryOperand

/-! ### New addresses and displacements -/

theorem directAddress_val (ptr : DynamicValue) : (directAddress ptr val).val = val := by
  cases ptr <;> rfl

theorem directAddress_spec {ptr : DynamicValue} (knows : context.Knows val ptr) :
    immediateValue (directAddress ptr val) = ptr.offsetBy 0 ∧
      (StaticMemPtr.direct (directAddress ptr val)).Consistent context := by
  cases knows with
  | imm known =>
      have plain : directAddress ptr val = .plain val := by
        cases ptr <;> first | rfl | cases known
      rw [plain]
      refine ⟨?_, (StaticMemPtr.consistent_plain context none none 0 0 val).2⟩
      cases ptr <;> cases known <;> exact congrArg DynamicValue.imm64 (BitVec.add_zero _).symm
  | @usr nr ptrOffset ptrCfg found isKnown sum =>
      refine ⟨?_, fun _ => ⟨ptrCfg, found, isKnown, sum⟩⟩
      change (if (nr : Int) < 0 then _ else DynamicValue.ptr .usr nr ptrOffset) = _
      rw [if_neg (Int.not_lt.mpr (Int.natCast_nonneg nr))]
      exact congrArg (DynamicValue.ptr .usr nr) (BitVec.add_zero _).symm

structure Merged (context : Context) (ptr : DynamicValue) (val : BitVec 64)
    (disp : SignedImmediate32) : Prop where
  knows : context.Knows val ptr
  val_eq : disp.val.signExtend 64 = val
  value_eq : dispValue disp = ptr.offsetBy 0
  encodes : context.EncodesPointer disp.usrPtrNr disp.usrPtrOffset (disp.val.signExtend 64)

theorem mergedDisp_spec {ptr : DynamicValue} (knows : context.Knows val ptr)
    (fits : isDisp32 val = true) (disp : SignedImmediate32) :
    Merged context ptr val (mergedDisp disp ptr val) := by
  have extended : (val.setWidth 32).signExtend 64 = val := eq_of_beq fits
  cases knows with
  | imm known =>
      have plain : mergedDisp disp ptr val =
          { disp with val := val.setWidth 32, usrPtrNr := -1 } := by
        cases ptr <;> first | rfl | cases known
      rw [plain]
      refine ⟨.imm known, extended, ?_,
        fun isPtr => absurd isPtr (show ¬ (0 : Int) ≤ -1 by decide)⟩
      change DynamicValue.imm64 ((val.setWidth 32).signExtend 64) = _
      rw [extended]
      cases ptr <;> cases known <;> exact congrArg DynamicValue.imm64 (BitVec.add_zero _).symm
  | @usr nr ptrOffset ptrCfg found isKnown sum =>
      refine ⟨.usr found isKnown sum, extended, ?_,
        fun _ => ⟨ptrCfg, found, isKnown, extended.trans sum⟩⟩
      change (if (nr : Int) < 0 then _ else DynamicValue.ptr .usr nr ptrOffset) = _
      rw [if_neg (Int.not_lt.mpr (Int.natCast_nonneg nr))]
      exact congrArg (DynamicValue.ptr .usr nr) (BitVec.add_zero _).symm

theorem mergeDisp_some {disp newDisp : SignedImmediate32} {sum : DynamicValue}
    (merged : mergeDisp context disp sum = .ok (some newDisp)) :
    ∃ val, ptrToInt sum context = .ok (some val) ∧ isDisp32 val = true ∧
      Merged context sum val newDisp := by
  obtain ⟨ptrKnown, known, merged⟩ := bind_ok merged
  obtain ⟨val, filtered, rfl⟩ := Option.map_eq_some_iff.mp (Except.ok.inj merged)
  obtain ⟨found, fits⟩ := Option.filter_eq_some_iff.mp filtered
  subst found
  exact ⟨val, known, fits, mergedDisp_spec (knows_of_ptrToInt known) fits disp⟩

theorem mergeDisp_of_register {reg : Option Register} {disp newDisp : SignedImmediate32}
    {sum : DynamicValue} (merged : mergeRegister context reg disp sum = .ok (some newDisp)) :
    mergeDisp context disp sum = .ok (some newDisp) := by
  cases reg with
  | none => cases merged
  | some reg => exact merged

/-! ### The new operand -/

/-- The displacement, or the address that is encoded like one. -/
def displacement : StaticMemPtr → BitVec 64
  | .direct addr => addr.val
  | .SIB _ _ disp _ => disp.val.signExtend 64

/-- The new operand leads to the same location as the old one. -/
structure SameLocation (context : Context) (ps : ProgramState) (m : StaticMemAccess)
    (memAcc : MemAccess) (newOp : StaticMemPtr) : Prop where
  address : ∀ concrete, ps.Answers concrete → context.Configured concrete.base →
    newOp.address concrete = m.ptr.address concrete
  fits : isDisp32 (displacement newOp) = true
  hasRegister : ∀ disp scale, newOp ≠ .SIB none none disp scale
  ptrVal : ∃ newAcc, createMemAccess { m with ptr := newOp } ps = .ok newAcc ∧
    newAcc.ptrVal = memAcc.ptrVal
  consistent : newOp.Consistent context

theorem isDisp32_signExtend (val : BitVec 32) : isDisp32 (val.signExtend 64) = true := by
  unfold isDisp32
  rw [BranchFormat.setWidth_signExtend]
  exact beq_self_eq_true _

section Simplify

variable {ps : ProgramState} {baseReg indexReg : Option Register} {disp newDisp : SignedImmediate32}
  {scale : BitVec 8} {mode : AccessMode} {size : ℕ} {baseVal indexVal : DynamicValue}

def sumOf (baseVal indexVal dispVal : DynamicValue) (scale : BitVec 8) : DynamicValue :=
  addDynamicValues dispVal (addDynamicValues baseVal (multiplyDynamicValue indexVal scale))

theorem createMemAccess_sumOf (readBase : addressRegister ps baseReg = .ok baseVal)
    (readIndex : addressRegister ps indexReg = .ok indexVal) (mode : AccessMode) (size : ℕ) :
    createMemAccess { ptr := .SIB baseReg indexReg disp scale, mode, size } ps = .ok
      { ptrVal := sumOf baseVal indexVal (dispValue disp) scale
        ptr := .SIB baseVal indexVal (dispValue disp) scale
        mode
        size } := by
  unfold createMemAccess
  dsimp only
  rw [readBase, readIndex]
  change (do
    let ptrVal ← calculateMemPtr (.SIB baseVal indexVal (dispValue disp) scale)
    Except.ok (MemAccess.mk ptrVal (.SIB baseVal indexVal (dispValue disp) scale) mode size)) = _
  rw [calculateMemPtr_SIB]
  rfl

theorem sumOf_merge_base (baseVal indexVal dispVal : DynamicValue) (scale : BitVec 8) :
    sumOf (.imm64 0) indexVal ((addDynamicValues baseVal dispVal).offsetBy 0) scale =
      sumOf baseVal indexVal dispVal scale := by
  unfold sumOf
  rw [addDynamicValues_offsetBy_zero, ← addDynamicValues_assoc _ (.imm64 0),
    addDynamicValues_zero, addDynamicValues_comm baseVal dispVal, addDynamicValues_assoc]

theorem sumOf_merge_index (baseVal indexVal dispVal : DynamicValue) (scale : BitVec 8) :
    sumOf baseVal (.imm64 0)
        ((addDynamicValues (multiplyDynamicValue indexVal scale) dispVal).offsetBy 0) 0 =
      sumOf baseVal indexVal dispVal scale := by
  unfold sumOf
  rw [addDynamicValues_offsetBy_zero, multiplyDynamicValue_zero, ← addDynamicValues_assoc,
    addDynamicValues_zero, addDynamicValues_comm (multiplyDynamicValue indexVal scale),
    addDynamicValues_assoc, addDynamicValues_comm _ baseVal]

theorem sumOf_no_index (baseVal dispVal : DynamicValue) (scale : BitVec 8) :
    sumOf baseVal (.imm64 0) dispVal scale = addDynamicValues baseVal dispVal := by
  unfold sumOf
  rw [multiplyDynamicValue_zero, ← addDynamicValues_assoc, addDynamicValues_zero,
    addDynamicValues_comm]

theorem sumOf_no_base (indexVal dispVal : DynamicValue) (scale : BitVec 8) :
    sumOf (.imm64 0) indexVal dispVal scale =
      addDynamicValues (multiplyDynamicValue indexVal scale) dispVal := by
  unfold sumOf
  rw [addDynamicValues_comm (.imm64 0), ← addDynamicValues_assoc, addDynamicValues_zero,
    addDynamicValues_comm]

variable (readBase : addressRegister ps baseReg = .ok baseVal)
  (readIndex : addressRegister ps indexReg = .ok indexVal)
  (wide : (StaticMemPtr.SIB baseReg indexReg disp scale).Wide)
  (consistent : (StaticMemPtr.SIB baseReg indexReg disp scale).Consistent context)
include readBase readIndex wide consistent

theorem sameLocation_base {memAcc : MemAccess}
    (ptrVal : memAcc.ptrVal = sumOf baseVal indexVal (dispValue disp) scale)
    (hasIndex : indexReg ≠ none)
    (merged : Merged context (addDynamicValues baseVal (dispValue disp)) val newDisp) :
    SameLocation context ps { ptr := .SIB baseReg indexReg disp scale, mode, size } memAcc
      (.SIB none indexReg newDisp scale) where
  address := by
    intro concrete answers configured
    have described := (addressRegister_describes answers wide.1 readBase).add
      (consistent.encodes configured)
    have sum := merged.knows.eq configured described
    change 0#64 + _ + newDisp.val.signExtend 64 = _ + _ + disp.val.signExtend 64
    rw [merged.val_eq, ← sum, BitVec.zero_add]
    ac_rfl
  fits := isDisp32_signExtend newDisp.val
  hasRegister := by
    intro disp' scale' same
    cases same
    exact hasIndex rfl
  ptrVal := by
    refine ⟨_, createMemAccess_sumOf rfl readIndex mode size, ?_⟩
    rw [ptrVal, merged.value_eq]
    exact sumOf_merge_base baseVal indexVal (dispValue disp) scale
  consistent := merged.encodes

theorem sameLocation_index {memAcc : MemAccess}
    (ptrVal : memAcc.ptrVal = sumOf baseVal indexVal (dispValue disp) scale)
    (hasBase : baseReg ≠ none)
    (merged : Merged context
      (addDynamicValues (multiplyDynamicValue indexVal scale) (dispValue disp)) val newDisp) :
    SameLocation context ps { ptr := .SIB baseReg indexReg disp scale, mode, size } memAcc
      (.SIB baseReg none newDisp 0) where
  address := by
    intro concrete answers configured
    have described := ((addressRegister_describes answers wide.2 readIndex).multiply scale).add
      (consistent.encodes configured)
    have sum := merged.knows.eq configured described
    change _ + 0#64 * _ + newDisp.val.signExtend 64 = _ + _ + disp.val.signExtend 64
    rw [merged.val_eq, ← sum, BitVec.zero_mul, BitVec.add_zero, BitVec.add_assoc]
  fits := isDisp32_signExtend newDisp.val
  hasRegister := by
    intro disp' scale' same
    cases same
    exact hasBase rfl
  ptrVal := by
    refine ⟨_, createMemAccess_sumOf readBase rfl mode size, ?_⟩
    rw [ptrVal, merged.value_eq]
    exact sumOf_merge_index baseVal indexVal (dispValue disp) scale
  consistent := merged.encodes

theorem sameLocation_direct {memAcc : MemAccess}
    (ptrVal : memAcc.ptrVal = sumOf baseVal indexVal (dispValue disp) scale)
    (knows : context.Knows val memAcc.ptrVal) (fits : isDisp32 val = true) :
    SameLocation context ps { ptr := .SIB baseReg indexReg disp scale, mode, size } memAcc
      (.direct (directAddress memAcc.ptrVal val)) where
  address := by
    intro concrete answers configured
    have described := createMemAccess_describes answers
      (createMemAccess_sumOf readBase readIndex mode size) wide (consistent.encodes configured)
    rw [← ptrVal] at described
    exact (directAddress_val memAcc.ptrVal).trans (knows.eq configured described).symm
  fits := by
    change isDisp32 (directAddress memAcc.ptrVal val).val = true
    rw [directAddress_val]
    exact fits
  hasRegister := by
    intro disp' scale' same
    cases same
  ptrVal := by
    refine ⟨_, rfl, ?_⟩
    change immediateValue (directAddress memAcc.ptrVal val) = memAcc.ptrVal
    rw [(directAddress_spec knows).1, ptrVal]
    exact addDynamicValues_offsetBy_zero _ _
  consistent := (directAddress_spec knows).2

omit readBase readIndex wide consistent in
theorem not_merged_of_whole {ptrVal sum : DynamicValue} {ptrKnown : Option (BitVec 64)}
    (known : ptrToInt ptrVal context = .ok ptrKnown) (notDirect : ptrKnown.filter isDisp32 = none)
    (whole : ptrVal = sum) (merged : mergeDisp context disp sum = .ok (some newDisp)) : False := by
  obtain ⟨val, knownSum, fits, _⟩ := mergeDisp_some merged
  subst whole
  cases known.symm.trans knownSum
  rw [Option.filter_some, if_pos fits] at notDirect
  cases notDirect

theorem simplify_sameLocation {memAcc : MemAccess} {newOp : StaticMemPtr}
    (created : createMemAccess { ptr := .SIB baseReg indexReg disp scale, mode, size } ps =
      .ok memAcc)
    (accessed : mode ≠ .None)
    (returned : simplify context memAcc (some (.mem (.SIB baseReg indexReg disp scale))) =
      .ok (some newOp)) :
    SameLocation context ps { ptr := .SIB baseReg indexReg disp scale, mode, size } memAcc
      newOp := by
  rw [createMemAccess_sumOf readBase readIndex] at created
  cases created
  unfold simplify at returned
  dsimp only at returned
  rw [if_neg accessed] at returned
  obtain ⟨ptrKnown, known, returned⟩ := bind_ok returned
  cases direct : ptrKnown.filter isDisp32 with
  | some val =>
      rw [direct] at returned
      cases returned
      obtain ⟨found, fits⟩ := Option.filter_eq_some_iff.mp direct
      subst found
      exact sameLocation_direct readBase readIndex wide consistent rfl (knows_of_ptrToInt known) fits
  | none =>
      rw [direct] at returned
      change mergeEither context baseVal indexVal (dispValue disp) scale
        (some (.mem (.SIB baseReg indexReg disp scale))) = .ok (some newOp) at returned
      obtain ⟨mergedBase, tryBase, returned⟩ := bind_ok returned
      cases mergedBase with
      | some newDisp =>
          cases returned
          have mergedDisp := mergeDisp_of_register tryBase
          obtain ⟨val, _, _, merged⟩ := mergeDisp_some mergedDisp
          refine sameLocation_base readBase readIndex wide consistent rfl ?_ merged
          rintro rfl
          cases readIndex
          exact not_merged_of_whole known direct (sumOf_no_index _ _ _) mergedDisp
      | none =>
          obtain ⟨mergedIndex, tryIndex, returned⟩ := bind_ok returned
          cases mergedIndex with
          | none => cases returned
          | some newDisp =>
              cases returned
              have mergedDisp := mergeDisp_of_register tryIndex
              obtain ⟨val, _, _, merged⟩ := mergeDisp_some mergedDisp
              refine sameLocation_index readBase readIndex wide consistent rfl ?_ merged
              rintro rfl
              cases readBase
              exact not_merged_of_whole known direct (sumOf_no_base _ _ _) mergedDisp

end Simplify

/-! ### Constants in the pool -/

theorem getD_hostBytes (context : Context) (addr : BitVec 64) {size i : ℕ} (below : i < size) :
    (context.hostBytes addr size).getD i 0 = context.host (addr + BitVec.ofNat 64 i) := by
  unfold Context.hostBytes
  simp [below]

theorem allocConstant_memory {pool later : PoolMemory} {bytes : List (BitVec 8)} {addr : ℕ}
    (allocated : pool.allocConstant bytes = (.ok addr, later)) {i : ℕ} (below : i < bytes.length) :
    later.memory (addr + i) = bytes.getD i 0 := by
  have written (memory : ℕ → BitVec 8) : writeBytes memory addr bytes (addr + i) =
      bytes.getD i 0 := by
    unfold writeBytes
    rw [if_pos (by omega), Nat.add_sub_cancel_left]
  unfold PoolMemory.allocConstant at allocated
  dsimp only at allocated
  split at allocated
  · cases allocated
  · split at allocated
    · split at allocated
      · cases allocated
      · split at allocated
        · cases allocated
        · cases allocated
          exact written _
    · cases allocated
      exact written _

/-- The new operand is a constant of the pool with the bytes of the old location, which
is constant and only read. -/
structure InPool (context : Context) (ps : ProgramState) (later : PoolMemory)
    (m : StaticMemAccess) (newOp : StaticMemPtr) : Prop where
  read : m.mode.isRead = true
  notWritten : m.mode.isWrite = false
  located : ∃ addr val, newOp = .direct (.plain (BitVec.ofNat 64 addr)) ∧
    context.memProtCache.isConstant val m.size = .ok true ∧
    (∀ concrete, ps.Answers concrete → context.Configured concrete.base →
      m.ptr.address concrete = val) ∧
    ∀ i < m.size, later.memory (addr + i) = context.host (val + BitVec.ofNat 64 i)

theorem moveConstant_cases {pool later : PoolMemory} {size : ℕ} {moved : Option StaticMemPtr}
    (returned : moveConstant context pool val size = .ok (moved, later)) :
    moved = none ∧ later = pool ∨ ∃ addr, moved = some (.direct (.plain (BitVec.ofNat 64 addr))) ∧
      context.memProtCache.isConstant val size = .ok true ∧
        pool.allocConstant (context.hostBytes val size) = (.ok addr, later) := by
  unfold moveConstant at returned
  split at returned
  · cases returned
    exact Or.inl ⟨rfl, rfl⟩
  · obtain ⟨isConstant, checked, returned⟩ := bind_ok returned
    split at returned
    · rename_i constant
      rw [constant] at checked
      split at returned
      · rename_i addr grown allocated
        cases returned
        exact Or.inr ⟨addr, rfl, checked, allocated⟩
      · cases returned
    · cases returned
      exact Or.inl ⟨rfl, rfl⟩

theorem moveInput_cases {pool later : PoolMemory} {operand : DynamicOperandInfo}
    {memAcc : MemAccess} {moved : Option StaticMemPtr}
    (returned : moveInput context pool operand memAcc = .ok (moved, later)) :
    moved = none ∧ later = pool ∨
      operand.isInput = true ∧ operand.isOutput = false ∧ memAcc.size ≠ 0 ∧
        ∃ val addr, ptrToInt memAcc.ptrVal context = .ok (some val) ∧
          moved = some (.direct (.plain (BitVec.ofNat 64 addr))) ∧
          context.memProtCache.isConstant val memAcc.size = .ok true ∧
          pool.allocConstant (context.hostBytes val memAcc.size) = (.ok addr, later) := by
  unfold moveInput at returned
  split at returned
  · rename_i onlyRead
    simp only [Bool.and_eq_true, Bool.not_eq_true', bne_iff_ne] at onlyRead
    obtain ⟨ptrKnown, known, returned⟩ := bind_ok returned
    cases ptrKnown with
    | none =>
        cases returned
        exact Or.inl ⟨rfl, rfl⟩
    | some val =>
        rcases moveConstant_cases returned with kept | ⟨addr, new, constant, allocated⟩
        · exact Or.inl kept
        · exact Or.inr ⟨onlyRead.1.1, onlyRead.1.2, onlyRead.2, val, addr, known, new, constant,
            allocated⟩
  · cases returned
    exact Or.inl ⟨rfl, rfl⟩

/-! ### The whole pass -/

def accessedExplicit : ExplicitStaticOperandInfo → Bool
  | .memPtr mode size => decide (mode ≠ .None) && (!mode.isSpecial || size == 0)
  | _ => true

theorem table_accessed {opcode : Opcode} {row : OpcodeInfo}
    (found : archGetOpcodeInfo opcode = some row) {nr : ℕ} {mode : AccessMode} {size : ℕ}
    (declared : row.opInfo[nr]? = some (.memPtr mode size)) :
    mode ≠ .None ∧ (mode.isSpecial = true → size = 0) := by
  have explicit : row.opInfo.all accessedExplicit = true := by
    cases opcode <;> cases found <;> rfl
  have here := List.all_eq_true.mp explicit _ (List.mem_of_getElem? declared)
  simp only [accessedExplicit, Bool.and_eq_true, decide_eq_true_eq, Bool.or_eq_true, Bool.not_eq_true',
    beq_iff_eq] at here
  refine ⟨here.1, ?_⟩
  intro special
  rcases here.2 with accessed | empty
  · rw [special] at accessed
    cases accessed
  · exact empty

section Pass

variable {instruction : Instruction} {ps : ProgramState} {pool later : PoolMemory}
  {operand : DynamicOperandInfo} {memAcc : MemAccess} {m : StaticMemAccess}
  {newOp : StaticMemPtr}

theorem optimize_location (explicit : instruction.Explicit operand memAcc m ps)
    (wide : m.ptr.Wide) (consistent : m.ptr.Consistent context)
    (returned : optimize context pool operand memAcc (instruction.rawOperands.op operand.nr) =
      .ok (some newOp, later)) :
    SameLocation context ps m memAcc newOp ∨ InPool context ps later m newOp := by
  obtain ⟨row, found, declared⟩ := explicit.declared
  obtain ⟨accessed, noSize⟩ := table_accessed found declared
  have created := explicit.evaluates.created
  have size := createMemAccess_size created
  obtain ⟨⟨moved, grown⟩, move, next⟩ := bind_ok returned
  rcases moveInput_cases move with ⟨rfl, rfl⟩ |
      ⟨isInput, isOutput, nonempty, val, addr, known, rfl, constant, allocated⟩
  · obtain ⟨simplified, simple, same⟩ := bind_ok next
    cases same
    rw [explicit.encoded] at simple
    obtain ⟨ptr, mode, size⟩ := m
    cases ptr with
    | direct addr =>
        cases created
        cases simple
    | SIB baseReg indexReg disp scale =>
        obtain ⟨baseVal, indexVal, readBase, readIndex, _⟩ := createMemAccess_SIB created
        exact Or.inl
          (simplify_sameLocation readBase readIndex wide consistent created accessed simple)
  · cases next
    rw [size] at nonempty constant allocated
    have isRead : m.mode.isRead = true := by
      have input := explicit.evaluates.isInput
      rw [isInput] at input
      rcases Bool.or_eq_true_iff.mp input.symm with read | special
      · exact read
      · exact absurd (noSize special) nonempty
    refine Or.inr ⟨isRead, explicit.evaluates.isOutput.symm.trans isOutput, addr, val, rfl,
      constant, ?_, ?_⟩
    · intro concrete answers configured
      exact (knows_of_ptrToInt known).eq configured
        (createMemAccess_describes answers created wide (consistent.encodes configured))
    · intro i below
      rw [allocConstant_memory allocated (by simpa [Context.hostBytes] using below),
        getD_hostBytes context val below]

theorem optimize_none {original : Option StaticOperand}
    (returned : optimize context pool operand memAcc original = .ok (none, later)) :
    later = pool := by
  obtain ⟨⟨moved, grown⟩, move, next⟩ := bind_ok returned
  rcases moveInput_cases move with ⟨rfl, rfl⟩ | ⟨_, _, _, _, _, _, rfl, _, _⟩
  · obtain ⟨simplified, _, same⟩ := bind_ok next
    cases same
    rfl
  · cases next

theorem findOperand_cases {operands : List DynamicOperandInfo}
    {found : Option (ℕ × StaticMemPtr)}
    (returned : findOperand instruction context pool operands = .ok (found, later)) :
    found = none ∧ later = pool ∨ ∃ operand ∈ operands, ∃ memAcc newOp,
      operand.isImpl = false ∧ operand.access = .memPtr memAcc ∧
        found = some (operand.nr, newOp) ∧
          optimize context pool operand memAcc (instruction.rawOperands.op operand.nr) =
            .ok (some newOp, later) := by
  induction operands with
  | nil =>
      cases returned
      exact Or.inl ⟨rfl, rfl⟩
  | cons operand rest ih =>
      have later_of_rest (tried : findOperand instruction context pool rest = .ok (found, later)) :
          found = none ∧ later = pool ∨ ∃ other ∈ operand :: rest, ∃ memAcc newOp,
            other.isImpl = false ∧ other.access = .memPtr memAcc ∧
              found = some (other.nr, newOp) ∧
                optimize context pool other memAcc (instruction.rawOperands.op other.nr) =
                  .ok (some newOp, later) := by
        rcases ih tried with kept | ⟨other, member, rest'⟩
        · exact Or.inl kept
        · exact Or.inr ⟨other, List.mem_cons_of_mem _ member, rest'⟩
      unfold findOperand at returned
      split at returned
      · cases returned
        exact Or.inl ⟨rfl, rfl⟩
      · rename_i notImpl
        split at returned
        · rename_i memAcc access
          obtain ⟨⟨newOp, grown⟩, optimized, returned⟩ := bind_ok returned
          cases newOp with
          | some newOp =>
              cases returned
              exact Or.inr ⟨operand, List.mem_cons_self, memAcc, newOp,
                Bool.eq_false_of_not_eq_true notImpl, access, rfl, optimized⟩
          | none =>
              rw [optimize_none optimized] at returned
              exact later_of_rest returned
        · exact later_of_rest returned

theorem handleInstruction_consistent {dynInfo : DynamicInstructionInfo} {grown : ProgramState}
    {changed : Instruction} {invalidated : Bool}
    (generated : instruction.genDynInfo ps context = .ok (dynInfo, grown))
    (wide : ∀ ptr, StaticOperand.mem ptr ∈ instruction.rawOperands → ptr.Wide)
    (consistent : ∀ ptr, StaticOperand.mem ptr ∈ instruction.rawOperands →
      ptr.Consistent context)
    (handled : handleInstruction instruction (some dynInfo) context pool =
      .ok (changed, invalidated, later)) :
    ∀ ptr, StaticOperand.mem ptr ∈ changed.rawOperands → ptr.Consistent context := by
  obtain ⟨⟨found, afterwards⟩, tried, next⟩ := bind_ok handled
  rcases findOperand_cases tried with ⟨rfl, rfl⟩ |
      ⟨operand, member, memAcc, newOp, explicit, isMem, rfl, optimized⟩
  · cases next
    exact consistent
  · cases next
    intro ptr listed
    rcases List.mem_or_eq_of_mem_set listed with old | new
    · exact consistent ptr old
    · cases new
      obtain ⟨m, origin⟩ := Instruction.genDynInfo_explicit generated member explicit isMem
      have encoded : StaticOperand.mem m.ptr ∈ instruction.rawOperands :=
        List.mem_of_getElem? origin.encoded
      rcases optimize_location origin (wide _ encoded) (consistent _ encoded) optimized with
        same | inPool
      · exact same.consistent
      · obtain ⟨addr, val, rfl, _⟩ := inPool.located
        exact (StaticMemPtr.consistent_plain context none none 0 0 _).2

/-- The pass replaces at most one operand of an instruction. In every concrete state that
the program state describes, the new operand leads to the location of the old one, or
its bytes are in the constant pool. -/
theorem handleInstruction_location {dynInfo : DynamicInstructionInfo} {grown : ProgramState}
    {changed : Instruction} {invalidated : Bool}
    (generated : instruction.genDynInfo ps context = .ok (dynInfo, grown))
    (wide : ∀ ptr, StaticOperand.mem ptr ∈ instruction.rawOperands → ptr.Wide)
    (consistent : ∀ ptr, StaticOperand.mem ptr ∈ instruction.rawOperands →
      ptr.Consistent context)
    (handled : handleInstruction instruction (some dynInfo) context pool =
      .ok (changed, invalidated, later)) :
    changed = instruction ∧ invalidated = false ∧ later = pool ∨
      ∃ operand ∈ dynInfo.operands, ∃ memAcc m newOp,
        operand.access = .memPtr memAcc ∧ createMemAccess m ps = .ok memAcc ∧
        instruction.rawOperands.op operand.nr = some (.mem m.ptr) ∧ invalidated = true ∧
        changed = { instruction with
          rawOperands := instruction.rawOperands.set operand.nr (.mem newOp) } ∧
        (SameLocation context ps m memAcc newOp ∨ InPool context ps later m newOp) := by
  obtain ⟨⟨found, afterwards⟩, tried, next⟩ := bind_ok handled
  rcases findOperand_cases tried with ⟨rfl, rfl⟩ |
      ⟨operand, member, memAcc, newOp, explicit, isMem, rfl, optimized⟩
  · cases next
    exact Or.inl ⟨rfl, rfl, rfl⟩
  · cases next
    obtain ⟨m, origin⟩ := Instruction.genDynInfo_explicit generated member explicit isMem
    have listed : StaticOperand.mem m.ptr ∈ instruction.rawOperands :=
      List.mem_of_getElem? origin.encoded
    exact Or.inr ⟨operand, member, memAcc, m, newOp, isMem, origin.evaluates.created,
      origin.encoded, rfl, rfl,
      optimize_location origin (wide _ listed) (consistent _ listed) optimized⟩

end Pass

/-! ### A known base register -/

def pointerBase : ProgramState :=
  (ProgramState.initial.setRegister (.gprs64 .A) .full (.ptr .usr 0 8) false).toOption.getD
    .initial

def pointerContext : Context :=
  { usrPtrCfg := [{ isKnown := true, isConst := false, val := 0x1000 }]
    memProtCache := { memoryRanges := [], ranges := [] }
    host := fun _ => 0 }

def unusedPool : PoolMemory :=
  { mmapStart := 0x10000
    mmapSize := 0x2000
    curInstrPage := nullptr
    nextInstr := nullptr
    curConstPage := nullptr
    nextConst := nullptr
    map64 := []
    map128 := []
    mapped := fun _ => false
    memory := fun _ => 0 }

def loadFrom (ptr : StaticMemPtr) : Instruction :=
  { opcode := .MOV64rm, rawOperands := [.reg (.gprs64 .C), .mem ptr] }

theorem handleInstruction_location_pointerBase :
    let old := StaticMemPtr.SIB (some (.gprs64 .A)) (some (.gprs64 .B)) (.plain 16) 8
    let new := StaticMemPtr.SIB none (some (.gprs64 .B))
      { val := 0x1018, usrPtrNr := 0, usrPtrOffset := 24 } 8
    ∃ dynInfo grown,
      (loadFrom old).genDynInfo pointerBase pointerContext = .ok (dynInfo, grown) ∧
      handleInstruction (loadFrom old) (some dynInfo) pointerContext unusedPool =
        .ok (loadFrom new, true, unusedPool) ∧
      ∃ operand ∈ dynInfo.operands, ∃ memAcc m newOp,
        operand.access = .memPtr memAcc ∧ createMemAccess m pointerBase = .ok memAcc ∧
        (loadFrom old).rawOperands.op operand.nr = some (.mem m.ptr) ∧
        loadFrom new = { loadFrom old with
          rawOperands := (loadFrom old).rawOperands.set operand.nr (.mem newOp) } ∧
        (SameLocation pointerContext pointerBase m memAcc newOp ∨
          InPool pointerContext pointerBase unusedPool m newOp) := by
  intro old new
  have onlyMem (ptr : StaticMemPtr) (member : StaticOperand.mem ptr ∈ (loadFrom old).rawOperands) :
      ptr = old := by
    simpa [loadFrom] using member
  have evaluated : ∃ dynInfo grown,
      (loadFrom old).genDynInfo pointerBase pointerContext = .ok (dynInfo, grown) ∧
        handleInstruction (loadFrom old) (some dynInfo) pointerContext unusedPool =
          .ok (loadFrom new, true, unusedPool) := ⟨_, _, rfl, rfl⟩
  obtain ⟨dynInfo, grown, generated, handled⟩ := evaluated
  have wide : old.Wide := by
    refine ⟨?_, ?_⟩ <;> rintro reg ⟨⟩ <;> rfl
  have consistent : old.Consistent pointerContext :=
    (StaticMemPtr.consistent_plain pointerContext _ _ 16 8 0).1
  refine ⟨dynInfo, grown, generated, handled, ?_⟩
  rcases handleInstruction_location generated
      (fun ptr member => (onlyMem ptr member).symm ▸ wide)
      (fun ptr member => (onlyMem ptr member).symm ▸ consistent) handled with
    ⟨_, kept, _⟩ |
      ⟨operand, member, memAcc, m, newOp, access, created, encoded, _, changed, located⟩
  · cases kept
  · exact ⟨operand, member, memAcc, m, newOp, access, created, encoded, changed, located⟩

end MemoryOperand

end Drob
