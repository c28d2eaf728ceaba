import Drob.Instruction.AddressWidth

/-!
Memory operands as the decoder reports them, and the operands that the conversion makes of
them. An operand without registers becomes an absolute address of 32 bits, although the
processor sign extends its displacement, or uses all 64 bits of it.
-/

namespace Drob

/-- `xed_reg_enum_t`, without the registers that `translate_reg` does not know, apart from
the instruction pointers. -/
inductive XedReg where
  | INVALID | RIP | EIP
  | gprs8 (gpr : Gpr)
  | gprs8High (gpr : GprHigh)
  | gprs16 (gpr : Gpr)
  | gprs32 (gpr : Gpr)
  | gprs64 (gpr : Gpr)
  | sse128 (nr : Fin 16)
  deriving DecidableEq

namespace XedReg

def IsAddress (addr32 : Bool) : XedReg → Prop
  | .gprs32 _ => addr32 = true
  | .gprs64 _ => addr32 = false
  | _ => False

def instructionPointer (addr32 : Bool) : XedReg :=
  if addr32 then .EIP else .RIP

end XedReg

structure XedMemop where
  itext : BitVec 64
  ilen : Nat
  base : XedReg
  index : XedReg
  scale : BitVec 8
  /-- `xed_decoded_inst_get_memory_displacement` -/
  displacement : BitVec 64
  /-- `xed_operand_values_has_address_size_prefix` -/
  addr32 : Bool
  /-- Only an absolute address can have 64 bits. -/
  signed : base ≠ .INVALID ∨ index ≠ .INVALID →
    displacement = (displacement.setWidth 32).signExtend 64
  baseValid : base = .INVALID ∨ base = XedReg.instructionPointer addr32 ∨ base.IsAddress addr32
  indexValid : index = .INVALID ∨
    index.IsAddress addr32 ∧ base ≠ XedReg.instructionPointer addr32

/-- `XED_REG_INVALID` is `Register::None`. -/
def translate_reg : XedReg → Except Failure (Option Register)
  | .INVALID => .ok none
  | .gprs8 gpr => .ok (some (.gprs8 gpr))
  | .gprs8High gpr => .ok (some (.gprs8High gpr))
  | .gprs16 gpr => .ok (some (.gprs16 gpr))
  | .gprs32 gpr => .ok (some (.gprs32 gpr))
  | .gprs64 gpr => .ok (some (.gprs64 gpr))
  | .sse128 nr => .ok (some (.sse128 nr))
  | .RIP | .EIP => .error (.assertion "drob_assert_not_reached()")

def translate_memop (xedd : XedMemop) : Except Failure StaticMemPtr :=
  if xedd.base = .RIP then
    -- Convert RIP+rel32 to absolute address
    .ok (.direct (.plain (xedd.itext + BitVec.ofNat 64 xedd.ilen + xedd.displacement)))
  else if xedd.base = .INVALID ∧ xedd.index = .INVALID then
    -- Convert Disp32 only to absolute address
    .ok (.direct (.plain ((xedd.displacement.setWidth 32).setWidth 64)))
  else do
    let base ← translate_reg xedd.base
    let index ← translate_reg xedd.index
    .ok (.SIB base index (.plain (xedd.displacement.setWidth 32)) xedd.scale)

namespace XedMemop

/-! ### The processor -/

def registerValue (xedd : XedMemop) (concrete : Concrete) : XedReg → BitVec 64
  | .RIP => xedd.itext + BitVec.ofNat 64 xedd.ilen
  | .EIP => ((xedd.itext + BitVec.ofNat 64 xedd.ilen).setWidth 32).setWidth 64
  | .gprs32 gpr => concrete.registerValue (.gprs32 gpr)
  | .gprs64 gpr => concrete.registerValue (.gprs64 gpr)
  | _ => 0

def sum (xedd : XedMemop) (concrete : Concrete) : BitVec 64 :=
  xedd.registerValue concrete xedd.base +
    xedd.scale.setWidth 64 * xedd.registerValue concrete xedd.index + xedd.displacement

def effectiveAddress (xedd : XedMemop) (concrete : Concrete) : BitVec 64 :=
  if xedd.addr32 then ((xedd.sum concrete).setWidth 32).setWidth 64 else xedd.sum concrete

/-- The conversion throws, or the operand is at the effective address whatever the registers
hold. -/
def Denotes (xedd : XedMemop) : Prop :=
  match translate_memop xedd with
  | .error _ => True
  | .ok ptr => ∀ concrete : Concrete,
      ptr.effectiveAddress concrete.registerValue = xedd.effectiveAddress concrete

def Absolute (xedd : XedMemop) : Prop :=
  xedd.base = .INVALID ∧ xedd.index = .INVALID

instance (xedd : XedMemop) : Decidable xedd.Absolute :=
  inferInstanceAs (Decidable (_ ∧ _))

/-! ### Translated registers -/

variable {xedd : XedMemop}

/-- A register that is not the instruction pointer is translated to one that reads the same. -/
theorem translate_reg_value {reg : XedReg} (valid : reg = .INVALID ∨ reg.IsAddress xedd.addr32) :
    ∃ translated, translate_reg reg = .ok translated ∧
      (∀ concrete : Concrete,
        translated.elim 0 concrete.registerValue = xedd.registerValue concrete reg) ∧
      translated.any (fun reg => reg.type == .gprs32) =
        (xedd.addr32 && decide (reg ≠ .INVALID)) := by
  cases reg with
  | INVALID => exact ⟨none, rfl, fun _ => rfl, (Bool.and_false _).symm⟩
  | gprs32 gpr =>
      have narrow : xedd.addr32 = true := valid.resolve_left (by simp)
      refine ⟨some (.gprs32 gpr), rfl, fun _ => rfl, ?_⟩
      rw [narrow]
      rfl
  | gprs64 gpr =>
      have wide : xedd.addr32 = false := valid.resolve_left (by simp)
      refine ⟨some (.gprs64 gpr), rfl, fun _ => rfl, ?_⟩
      rw [wide]
      rfl
  | RIP => exact absurd valid (by simp [XedReg.IsAddress])
  | EIP => exact absurd valid (by simp [XedReg.IsAddress])
  | gprs8 gpr => exact absurd valid (by simp [XedReg.IsAddress])
  | gprs8High gpr => exact absurd valid (by simp [XedReg.IsAddress])
  | gprs16 gpr => exact absurd valid (by simp [XedReg.IsAddress])
  | sse128 nr => exact absurd valid (by simp [XedReg.IsAddress])

theorem relative (isRip : xedd.base = .RIP) : xedd.addr32 = false ∧ xedd.index = .INVALID := by
  have wide : xedd.addr32 = false := by
    by_contra narrow
    have valid := xedd.baseValid
    rw [isRip, Bool.eq_true_of_not_eq_false narrow] at valid
    revert valid
    simp [XedReg.instructionPointer, XedReg.IsAddress]
  refine ⟨wide, xedd.indexValid.resolve_right ?_⟩
  rintro ⟨-, otherBase⟩
  rw [isRip, wide] at otherBase
  exact otherBase rfl

/-! ### The three forms -/

theorem denotes_relative (isRip : xedd.base = .RIP) : xedd.Denotes := by
  obtain ⟨wide, noIndex⟩ := relative isRip
  unfold Denotes translate_memop
  rw [if_pos isRip]
  intro concrete
  unfold effectiveAddress sum
  rw [wide, if_neg Bool.false_ne_true, isRip, noIndex]
  change xedd.itext + BitVec.ofNat 64 xedd.ilen + xedd.displacement =
    xedd.itext + BitVec.ofNat 64 xedd.ilen + xedd.scale.setWidth 64 * 0#64 + xedd.displacement
  rw [BitVec.mul_zero, BitVec.add_zero]

/-- The displacement of an absolute address is truncated, by the processor only with an
address size prefix. -/
theorem denotes_absolute (absolute : xedd.Absolute) :
    xedd.Denotes ↔ xedd.addr32 = true ∨ xedd.displacement.toNat < 2 ^ 32 := by
  have notRip : xedd.base ≠ .RIP := by
    rw [absolute.1]
    decide
  have address (concrete : Concrete) : xedd.effectiveAddress concrete =
      if xedd.addr32 then (xedd.displacement.setWidth 32).setWidth 64
      else xedd.displacement := by
    have isDisplacement : xedd.sum concrete = xedd.displacement := by
      unfold sum
      rw [absolute.1, absolute.2]
      change 0#64 + xedd.scale.setWidth 64 * 0#64 + xedd.displacement = xedd.displacement
      rw [BitVec.mul_zero, BitVec.add_zero, BitVec.zero_add]
    unfold effectiveAddress
    rw [isDisplacement]
  have truncated : (xedd.displacement.setWidth 32).setWidth 64 = xedd.displacement ↔
      xedd.displacement.toNat < 2 ^ 32 := by
    rw [← BitVec.toNat_inj, BitVec.toNat_setWidth, BitVec.toNat_setWidth]
    have bound := xedd.displacement.isLt
    omega
  unfold Denotes translate_memop
  rw [if_neg notRip, if_pos (show _ ∧ _ from absolute)]
  change (∀ concrete : Concrete, (xedd.displacement.setWidth 32).setWidth 64 = _) ↔ _
  cases narrow : xedd.addr32 with
  | true =>
      refine ⟨fun _ => Or.inl rfl, fun _ concrete => ?_⟩
      rw [address, narrow]
      rfl
  | false =>
      constructor
      · intro denotes
        have same := denotes
          { base := fun _ => 0, reg := fun _ _ => 0, stack := fun _ => 0 }
        rw [address, narrow] at same
        exact Or.inr (truncated.mp same)
      · rintro (isNarrow | small) concrete
        · cases isNarrow
        · rw [address, narrow]
          exact truncated.mpr small

theorem denotes_SIB (notRip : xedd.base ≠ .RIP) (notAbsolute : ¬ xedd.Absolute) :
    xedd.Denotes := by
  have signed : xedd.displacement = (xedd.displacement.setWidth 32).signExtend 64 := by
    refine xedd.signed ?_
    by_cases noBase : xedd.base = .INVALID
    · exact Or.inr (fun noIndex => notAbsolute ⟨noBase, noIndex⟩)
    · exact Or.inl noBase
  unfold Denotes translate_memop
  rw [if_neg notRip, if_neg (show ¬ (_ ∧ _) from notAbsolute)]
  by_cases isEip : xedd.base = .EIP
  · rw [isEip]
    trivial
  · have validBase : xedd.base = .INVALID ∨ xedd.base.IsAddress xedd.addr32 := by
      obtain invalid | pointer | address := xedd.baseValid
      · exact Or.inl invalid
      · unfold XedReg.instructionPointer at pointer
        split at pointer
        · exact absurd pointer isEip
        · exact absurd pointer notRip
      · exact Or.inr address
    have validIndex : xedd.index = .INVALID ∨ xedd.index.IsAddress xedd.addr32 :=
      xedd.indexValid.imp_right And.left
    obtain ⟨base, isBase, valueBase, narrowBase⟩ := translate_reg_value validBase
    obtain ⟨index, isIndex, valueIndex, narrowIndex⟩ := translate_reg_value validIndex
    rw [isBase, isIndex]
    intro concrete
    have sums : (StaticMemPtr.SIB base index (.plain (xedd.displacement.setWidth 32))
        xedd.scale).sum concrete.registerValue = xedd.sum concrete := by
      change base.elim 0 concrete.registerValue +
        xedd.scale.setWidth 64 * index.elim 0 concrete.registerValue +
          (xedd.displacement.setWidth 32).signExtend 64 = _
      rw [valueBase, valueIndex, ← signed]
      rfl
    have narrow : (StaticMemPtr.SIB base index (.plain (xedd.displacement.setWidth 32))
        xedd.scale).addr32 = xedd.addr32 := by
      change (base.any _ || index.any _) = _
      rw [narrowBase, narrowIndex, ← Bool.and_or_distrib_left, ← Bool.decide_or]
      have registers : xedd.base ≠ .INVALID ∨ xedd.index ≠ .INVALID :=
        not_and_or.mp notAbsolute
      rw [decide_eq_true registers, Bool.and_true]
    unfold StaticMemPtr.effectiveAddress effectiveAddress
    rw [narrow, sums]

/-- The conversion of a memory operand is right unless the operand is an absolute address
above the first four gigabytes. -/
theorem denotes_iff (xedd : XedMemop) :
    xedd.Denotes ↔
      (xedd.Absolute → xedd.addr32 = true ∨ xedd.displacement.toNat < 2 ^ 32) := by
  by_cases isRip : xedd.base = .RIP
  · refine iff_of_true (denotes_relative isRip) ?_
    intro absolute
    cases isRip.symm.trans absolute.1
  · by_cases absolute : xedd.Absolute
    · rw [denotes_absolute absolute]
      exact ⟨fun right _ => right, fun right => right absolute⟩
    · exact iff_of_true (denotes_SIB isRip absolute) (fun isAbsolute => absurd isAbsolute absolute)

/-- An absolute address in the last page that a sign extended displacement reaches. -/
def lastPage : XedMemop where
  itext := 0x1000
  ilen := 8
  base := .INVALID
  index := .INVALID
  scale := 0
  displacement := 0xfffffffffffff000
  addr32 := false
  signed := by decide
  baseValid := Or.inl rfl
  indexValid := Or.inl rfl

/-- The operand becomes an address in the first four gigabytes. -/
theorem not_denotes_lastPage : ¬ lastPage.Denotes := by
  intro denotes
  have same := denotes { base := fun _ => 0, reg := fun _ _ => 0, stack := fun _ => 0 }
  revert same
  decide

end XedMemop

end Drob
