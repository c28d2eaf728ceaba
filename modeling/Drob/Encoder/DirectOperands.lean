import Drob.CodeGeneration.Branches
import Drob.Encoder.MemoryOperands

/-!
Direct memory operands: absolute addresses, addresses counted from the end of the
instruction and the 64-bit offsets of MOV.
-/

namespace Drob

namespace Encoder

open LittleEndian OperandFormat ModRMEncoding

def mov64Form (load : Bool) (reg : Register) : Form where
  oc := [if load then 0x8b else 0x89]
  reg := .register reg
  imm := 0
  immLen := 0
  flags := ⟨true, false, false⟩

def isDisp32 (val : BitVec 64) : Bool :=
  (val.setWidth 32).signExtend 64 = val

inductive DirectForm where
  | modRM (form : Form)
  | mov64 (load : Bool) (reg : Register)

namespace DirectForm

def form : DirectForm → Form
  | .modRM form => form
  | .mov64 load reg => mov64Form load reg

/-- `encode_mov` takes the offset form for RAX. -/
def usesMoffs : DirectForm → BitVec 64 → Bool
  | .modRM _, _ => false
  | .mov64 _ reg, val => reg = .gprs64 .A && !isDisp32 val

def moffsOpcode : DirectForm → BitVec 8
  | .mov64 true _ => 0xa1
  | _ => 0xa3

def encode (direct : DirectForm) (imm : Immediate64) (addr : BitVec 64) :
    Except Failure (List (BitVec 8)) :=
  if direct.usesMoffs imm.val then
    .ok (0x48 :: direct.moffsOpcode :: (List.range 8).map (byte imm.val))
  else do
    let ope ← make direct.form (.direct imm) addr
    ope.write

/-- What is written accesses the address and nothing else. -/
def ExactOrRefused (direct : DirectForm) (imm : Immediate64) (addr : BitVec 64) : Prop :=
  ∀ bytes, direct.encode imm addr = .ok bytes →
    ∀ regs, accessed direct.form.immLen bytes addr regs = some imm.val

def relLength (form : Form) (r : BitVec 8) : Nat :=
  form.oc.length + 5 + form.immLen + form.flags.p66.toNat + form.flags.pf2.toNat +
    (if form.flags.rexW || r.getLsbD 3 then 1 else 0)

def codeLength (direct : DirectForm) (r : BitVec 8) (val : BitVec 64) :
    CodeGeneration.CodeLength :=
  if direct.usesMoffs val then .fixed 10
  else if isDisp32 val then .fixed (relLength direct.form r + 1)
  else .relative (relLength direct.form r - 4) val

end DirectForm

section Direct

variable {form : Form} {r : BitVec 8}

theorem rex_val_start (form : Form) (r : BitVec 8) :
    (start form r).rex.val ≠ 0 ↔ (form.flags.rexW || r.getLsbD 3) = true := by
  have zero : ∀ b w : Bool, REX.val ⟨false, false, b, w⟩ ≠ 0 ↔ (w || b) = true := by decide
  exact zero _ _

theorem prefixBytes_length (form : Form) (r : BitVec 8) :
    (start form r).prefixBytes.length = form.flags.p66.toNat + form.flags.pf2.toNat := by
  change ((if form.flags.p66 then [_] else []) ++ [] ++
    (if form.flags.pf2 then [_] else [])).length = _
  cases form.flags.p66 <;> cases form.flags.pf2 <;> rfl

theorem five_le_relLength (form : Form) (r : BitVec 8) : 5 ≤ DirectForm.relLength form r := by
  unfold DirectForm.relLength
  omega

theorem length_start (last : ModRMEncoding) (operand : ℕ)
    (prefixes : last.prefixBytes = (start form r).prefixBytes)
    (rex : last.rex = (start form r).rex) (oc : last.oc = form.oc)
    (immLen : last.immLen = form.immLen)
    (length : last.operandBytes.length = operand) :
    last.prefixBytes.length + (rexBytes last.rex.val).length + last.oc.length +
        last.operandBytes.length + last.immLen =
      DirectForm.relLength form r - 5 + operand := by
  have rexLength : (rexBytes (start form r).rex.val).length =
      if form.flags.rexW || r.getLsbD 3 then 1 else 0 := by
    have zero := rex_val_start form r
    unfold rexBytes
    by_cases none : (start form r).rex.val = 0
    · rw [if_pos none, if_neg (fun set => zero.mpr set none)]
      rfl
    · rw [if_neg none, if_pos (zero.mp none)]
      rfl
  rw [prefixes, prefixBytes_length, rex, rexLength, oc, length, immLen]
  unfold DirectForm.relLength
  omega

theorem accessed_absolute (valid : form.Valid) (field : regNr form.reg = .ok r)
    {imm : Immediate64} (fits : isDisp32 imm.val = true) (addr : BitVec 64) :
    ∃ bytes, (make form (.direct imm) addr >>= write) = .ok bytes ∧
      bytes.length = DirectForm.relLength form r + 1 ∧
      ∀ regs, accessed form.immLen bytes addr regs = some imm.val := by
  have same : (imm.val.setWidth 32).signExtend 64 = imm.val := of_decide_eq_true fits
  let last : ModRMEncoding :=
    { start form r with
      modrm := ⟨4, r.setWidth 3, 0⟩
      sib := ⟨true, 5, 4, 0⟩
      disp := ⟨true, true, 0, imm.val.setWidth 32⟩ }
  have made : make form (.direct imm) addr = .ok last := by
    unfold make
    rw [field]
    change (start form r).encodeMemoryDirect imm.val addr = _
    unfold encodeMemoryDirect
    rw [if_pos same]
    rfl
  have operand (rest : List (BitVec 8)) : last.operandBytes ++ rest =
      fields 0 (r.setWidth 3) 4 :: fields 0 4 5 ::
        ((OperandFormat.Disp.disp32 (imm.val.setWidth 32)).bytes ++ rest) := rfl
  obtain ⟨bytes, written, decoded, length⟩ := @decode_write last _ valid.opcode valid.immLen
    (fun rest => (congrArg _ (operand rest)).trans
      ((takeModRM_sib (r.setWidth 3) _ 0 (by decide)).trans
        (takeSib_none rest 0 4 (imm.val.setWidth 32))))
  have five := five_le_relLength form r
  have long : bytes.length = DirectForm.relLength form r + 1 := by
    rw [length, length_start last 6 rfl rfl rfl rfl rfl]
    omega
  refine ⟨bytes, ?_, long, ?_⟩
  · rw [made]
    exact written
  · intro regs
    have noIndex : last.rex.val.extractLsb' 1 1 ++ (4 : BitVec 3) = 4 := by
      rw [(rex_bits _ _ _ _).2]
      change BitVec.ofBool false ++ (4 : BitVec 3) = 4
      decide
    unfold accessed
    rw [show decode form.immLen bytes = _ from decoded]
    simp only [Address.effective, noIndex, if_true, same]
    simp [last, start, atWidth]

theorem encodeMemoryDirect_wide {val : BitVec 64} (wide : isDisp32 val = false)
    (addr : BitVec 64) :
    (start form r).encodeMemoryDirect val addr =
      let rel := val - (addr + BitVec.ofNat 64 (DirectForm.relLength form r))
      if is_rel32 rel then
        .ok { start form r with
          modrm := ⟨5, r.setWidth 3, 0⟩, disp := ⟨true, true, 0, rel.setWidth 32⟩ }
      else .ok (start form r) := by
  have other : ¬ (val.setWidth 32).signExtend 64 = val := of_decide_eq_false wide
  have length : (start form r).oc.length + 5 + (start form r).immLen +
      (start form r).p66.toNat + (start form r).is32bit.toNat + (start form r).pf2.toNat +
      (if (start form r).rex.val ≠ 0 then 1 else 0) = DirectForm.relLength form r := by
    simp only [rex_val_start]
    rfl
  unfold encodeMemoryDirect
  rw [if_neg other, length]
  rfl

theorem accessed_relative (valid : form.Valid) (field : regNr form.reg = .ok r)
    {imm : Immediate64} {addr : BitVec 64} (wide : isDisp32 imm.val = false)
    (reach : is_rel32 (imm.val - (addr + BitVec.ofNat 64 (DirectForm.relLength form r))) = true) :
    ∃ bytes, (make form (.direct imm) addr >>= write) = .ok bytes ∧
      bytes.length = DirectForm.relLength form r ∧
      ∀ regs, accessed form.immLen bytes addr regs = some imm.val := by
  let rel := imm.val - (addr + BitVec.ofNat 64 (DirectForm.relLength form r))
  let last : ModRMEncoding :=
    { start form r with
      modrm := ⟨5, r.setWidth 3, 0⟩, disp := ⟨true, true, 0, rel.setWidth 32⟩ }
  have made : make form (.direct imm) addr = .ok last := by
    unfold make
    rw [field]
    exact (encodeMemoryDirect_wide wide addr).trans (if_pos reach)
  have operand (rest : List (BitVec 8)) : last.operandBytes ++ rest =
      fields 0 (r.setWidth 3) 5 ::
        ((OperandFormat.Disp.disp32 (rel.setWidth 32)).bytes ++ rest) := rfl
  obtain ⟨bytes, written, decoded, length⟩ := @decode_write last _ valid.opcode
    valid.immLen (fun rest => (congrArg _ (operand rest)).trans
      (takeModRM_rip (r.setWidth 3) rest (rel.setWidth 32)))
  have predicted : bytes.length = DirectForm.relLength form r :=
    length.trans ((length_start last 5 rfl rfl rfl rfl rfl).trans
      (Nat.sub_add_cancel (five_le_relLength form r)))
  refine ⟨bytes, ?_, predicted, ?_⟩
  · rw [made]
    exact written
  · intro regs
    have extended : (rel.setWidth 32).signExtend 64 = rel := of_decide_eq_true reach
    unfold accessed
    rw [show decode form.immLen bytes = _ from decoded, predicted]
    have reached : addr + BitVec.ofNat 64 (DirectForm.relLength form r) + rel = imm.val :=
      add_sub_cancel _ _
    simp only [Address.effective, extended]
    change some (addr + BitVec.ofNat 64 (DirectForm.relLength form r) + 0 + rel) = some imm.val
    rw [add_zero, reached]

theorem accessed_unreachable (valid : form.Valid) (field : regNr form.reg = .ok r)
    {imm : Immediate64} {addr : BitVec 64} (wide : isDisp32 imm.val = false)
    (far : is_rel32 (imm.val - (addr + BitVec.ofNat 64 (DirectForm.relLength form r))) = false) :
    ∃ bytes, (make form (.direct imm) addr >>= write) = .ok bytes ∧
      bytes.length = DirectForm.relLength form r - 4 ∧
      ∀ regs, accessed form.immLen bytes addr regs = some (regs 0) := by
  have made : make form (.direct imm) addr = .ok (start form r) := by
    unfold make
    rw [field]
    exact (encodeMemoryDirect_wide wide addr).trans
      (if_neg (fun reach => Bool.false_ne_true (far.symm.trans reach)))
  have operand (rest : List (BitVec 8)) : (start form r).operandBytes ++ rest =
      fields 0 (r.setWidth 3) 0 :: (OperandFormat.Disp.none.bytes ++ rest) := rfl
  obtain ⟨bytes, written, decoded, length⟩ := @decode_write (start form r) _ valid.opcode
    valid.immLen (fun rest => (congrArg _ (operand rest)).trans
      (takeModRM_base (r.setWidth 3) .none rest 0 (by decide) (by decide)))
  have five := five_le_relLength form r
  have short : bytes.length = DirectForm.relLength form r - 4 := by
    rw [length, length_start (start form r) 1 rfl rfl rfl rfl rfl]
    omega
  refine ⟨bytes, ?_, short, ?_⟩
  · rw [made]
    exact written
  · intro regs
    have rax : (start form r).rex.val.extractLsb' 0 1 ++ (0 : BitVec 3) = 0 := by
      rw [(rex_bits _ _ _ _).1]
      change BitVec.ofBool false ++ (0 : BitVec 3) = 0
      decide
    unfold accessed
    rw [show decode form.immLen bytes = _ from decoded]
    simp only [Address.effective, rax]
    change some (regs 0 + 0 + 0) = some (regs 0)
    rw [add_zero, add_zero]

end Direct

theorem accessed_moffs (val addr : BitVec 64) {opcode : BitVec 8}
    (offset : opcode = 0xa1 ∨ opcode = 0xa3) (regs : BitVec 4 → BitVec 64) :
    accessed 0 (0x48 :: opcode :: (List.range 8).map (byte val)) addr regs = some val := by
  have bytes : ofBytes 64 (fun i => ((List.range 8).map (byte val)).getD i 0) 8 = val := by
    have same : ofBytes 64 (fun i => ((List.range 8).map (byte val)).getD i 0) 8 =
        ofBytes 64 (byte val) 8 := by
      apply ofBytes_congr
      intro i below
      simp [List.getD_eq_getElem?_getD, below]
    rw [same, ofBytes_byte val (by decide)]
  rcases offset with rfl | rfl <;> exact congrArg some bytes

/-- The address fits a displacement, is in reach of the code address, or goes through the
offset form. -/
def DirectForm.Reaches (direct : DirectForm) (r : BitVec 8) (val addr : BitVec 64) : Prop :=
  isDisp32 val = true ∨ direct.usesMoffs val = true ∨
    is_rel32 (val - (addr + BitVec.ofNat 64 (relLength direct.form r))) = true

/-- The operand is exact exactly where the address can be reached; it is never refused. -/
theorem exactOrRefused_iff (direct : DirectForm) (r : BitVec 8) (imm : Immediate64)
    (addr : BitVec 64) (valid : direct.form.Valid) (field : regNr direct.form.reg = .ok r) :
    direct.ExactOrRefused imm addr ↔ direct.Reaches r imm.val addr := by
  by_cases moffs : direct.usesMoffs imm.val = true
  · refine iff_of_true ?_ (Or.inr (Or.inl moffs))
    intro bytes encoded regs
    unfold DirectForm.encode at encoded
    rw [if_pos moffs] at encoded
    cases encoded
    cases direct with
    | modRM form => cases moffs
    | mov64 load reg =>
        have offset : (DirectForm.mov64 load reg).moffsOpcode = 0xa1 ∨
            (DirectForm.mov64 load reg).moffsOpcode = 0xa3 := by
          cases load
          · exact Or.inr rfl
          · exact Or.inl rfl
        exact accessed_moffs imm.val addr offset regs
  · have encodes : direct.encode imm addr = (make direct.form (.direct imm) addr >>= write) := by
      unfold DirectForm.encode
      rw [if_neg moffs]
    unfold DirectForm.ExactOrRefused
    rw [encodes]
    by_cases fits : isDisp32 imm.val = true
    · refine iff_of_true ?_ (Or.inl fits)
      obtain ⟨bytes, encoded, _, exact'⟩ := accessed_absolute valid field fits addr
      rintro other otherEncoded
      rw [encoded] at otherEncoded
      cases otherEncoded
      exact exact'
    · have wide : isDisp32 imm.val = false := Bool.eq_false_iff.mpr fits
      by_cases reach : is_rel32 (imm.val - (addr +
          BitVec.ofNat 64 (DirectForm.relLength direct.form r))) = true
      · refine iff_of_true ?_ (Or.inr (Or.inr reach))
        obtain ⟨bytes, encoded, _, exact'⟩ := accessed_relative valid field wide reach
        rintro other otherEncoded
        rw [encoded] at otherEncoded
        cases otherEncoded
        exact exact'
      · refine iff_of_false ?_ ?_
        · obtain ⟨bytes, encoded, _, through⟩ :=
            accessed_unreachable valid field wide (Bool.eq_false_iff.mpr reach)
          intro always
          have both := (through (fun _ => imm.val + 1)).symm.trans
            (always bytes encoded (fun _ => imm.val + 1))
          have same : imm.val + 1 = imm.val := Option.some.inj both
          bv_omega
        · rintro (fitting | offset | relative)
          · exact fits fitting
          · exact moffs offset
          · exact reach relative

theorem length_encode (direct : DirectForm) (r : BitVec 8) (imm : Immediate64)
    (addr : BitVec 64) (valid : direct.form.Valid) (field : regNr direct.form.reg = .ok r) :
    ∃ bytes, direct.encode imm addr = .ok bytes ∧
      bytes.length = (direct.codeLength r imm.val).ilenAt addr := by
  have five := five_le_relLength direct.form r
  unfold DirectForm.encode DirectForm.codeLength
  by_cases moffs : direct.usesMoffs imm.val = true
  · rw [if_pos moffs, if_pos moffs]
    exact ⟨_, rfl, rfl⟩
  · rw [if_neg moffs, if_neg moffs]
    by_cases fits : isDisp32 imm.val = true
    · obtain ⟨bytes, encoded, length, _⟩ := accessed_absolute valid field fits addr
      rw [if_pos fits]
      exact ⟨bytes, encoded, length⟩
    · have wide : isDisp32 imm.val = false := Bool.eq_false_iff.mpr fits
      have whole : DirectForm.relLength direct.form r - 4 + 4 =
          DirectForm.relLength direct.form r := by
        omega
      rw [if_neg fits]
      unfold CodeGeneration.CodeLength.ilenAt
      dsimp only
      rw [whole]
      by_cases reach : is_rel32 (imm.val - (addr +
          BitVec.ofNat 64 (DirectForm.relLength direct.form r))) = true
      · obtain ⟨bytes, encoded, length, _⟩ := accessed_relative valid field wide reach
        rw [if_pos reach]
        exact ⟨bytes, encoded, length⟩
      · obtain ⟨bytes, encoded, length, _⟩ :=
          accessed_unreachable valid field wide (Bool.eq_false_iff.mpr reach)
        rw [if_neg reach]
        exact ⟨bytes, encoded, length⟩

theorem exactOrRefused_movRcx :
    (DirectForm.modRM movRcx).ExactOrRefused (.plain 0x600000001000) 0x600000000000 :=
  (exactOrRefused_iff (.modRM movRcx) 1 (.plain 0x600000001000) 0x600000000000 movRcx_valid
    rfl).mpr (Or.inr (Or.inr (by decide)))

/-- From code at 0x1000, an address beyond 2^40 is loaded from where RAX points. -/
theorem not_exactOrRefused :
    ¬ ∀ (direct : DirectForm) (imm : Immediate64) (addr : BitVec 64), direct.form.Valid →
      direct.ExactOrRefused imm addr := by
  intro always
  have reaches := (exactOrRefused_iff (.modRM movRcx) 1 (.plain 0x10000000000) 0x1000
    movRcx_valid rfl).mp (always _ _ _ movRcx_valid)
  rcases reaches with fits | offset | relative
  · exact absurd fits (by decide)
  · exact absurd offset (by decide)
  · exact absurd relative (by decide)

end Encoder

end Drob
