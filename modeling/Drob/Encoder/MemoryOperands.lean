import Drob.Encoder.ModRMEncoding

/-!
The addresses that encoded memory operands stand for.
-/

namespace Drob

namespace Encoder

open LittleEndian OperandFormat

/-- An opcode with a ModRM byte, an immediate of a size that can be written and a register
that can be encoded. -/
structure Form.Valid (form : Form) : Prop where
  opcode : IsOpcode form.oc
  immLen : form.immLen ∈ [0, 1, 2, 4]
  reg : ∃ r, ModRMEncoding.regNr form.reg = .ok r

namespace ModRMEncoding

section Write

variable (ope : ModRMEncoding)

def prefixBytes : List (BitVec 8) :=
  (if ope.p66 then [0x66] else []) ++ (if ope.is32bit then [0x67] else []) ++
    (if ope.pf2 then [0xf2] else [])

def dispBytes : List (BitVec 8) :=
  if ope.disp.required then
    if ope.disp.isDisp32 then (List.range 4).map (byte ope.disp.disp32) else [ope.disp.disp8]
  else []

def operandBytes : List (BitVec 8) :=
  ope.modrm.val :: ((if ope.sib.required then [ope.sib.val] else []) ++ ope.dispBytes)

theorem prefixBytes_legacy : ∀ value ∈ ope.prefixBytes, legacyPrefix value = true := by
  intro value member
  unfold prefixBytes at member
  simp only [List.mem_append, List.mem_ite_nil_right, List.mem_singleton] at member
  rcases member with (⟨_, rfl⟩ | ⟨_, rfl⟩) | ⟨_, rfl⟩ <;> rfl

theorem mem_prefixBytes : decide ((0x67 : BitVec 8) ∈ ope.prefixBytes) = ope.is32bit := by
  unfold prefixBytes
  cases ope.p66 <;> cases ope.is32bit <;> cases ope.pf2 <;> rfl

variable {ope}

theorem write_ok (immLen : ope.immLen ∈ [0, 1, 2, 4]) :
    ∃ immBytes : List (BitVec 8), immBytes.length = ope.immLen ∧
      ope.write = .ok (ope.prefixBytes ++
        (rexBytes ope.rex.val ++ (ope.oc ++ (ope.operandBytes ++ immBytes)))) := by
  have order (immBytes : List (BitVec 8)) :
      (if ope.p66 then [0x66] else []) ++
        (if ope.is32bit then [0x67] else []) ++
        (if ope.pf2 then [0xf2] else []) ++
        (if ope.rex.val ≠ 0 then [(4 : BitVec 4) ++ ope.rex.val] else []) ++
        ope.oc ++
        [ope.modrm.val] ++
        (if ope.sib.required then [ope.sib.val] else []) ++
        ope.dispBytes ++ immBytes =
      ope.prefixBytes ++
        (rexBytes ope.rex.val ++ (ope.oc ++ (ope.operandBytes ++ immBytes))) := by
    simp only [prefixBytes, rexBytes, operandBytes, ite_not, List.append_assoc, List.cons_append,
      List.nil_append]
  simp only [List.mem_cons, List.not_mem_nil, or_false] at immLen
  rcases immLen with none | one | two | four
  · refine ⟨[], none.symm, ?_⟩
    rw [← order]
    simp only [write, none]
    rfl
  · refine ⟨[byte ope.imm 0], one.symm, ?_⟩
    rw [← order]
    simp only [write, one]
    rfl
  · refine ⟨[byte ope.imm 0, byte ope.imm 1], two.symm, ?_⟩
    rw [← order]
    simp only [write, two]
    rfl
  · refine ⟨[byte ope.imm 0, byte ope.imm 1, byte ope.imm 2, byte ope.imm 3], four.symm, ?_⟩
    rw [← order]
    simp only [write, four]
    rfl

theorem decode_write {address : Address} (opcode : IsOpcode ope.oc)
    (immLen : ope.immLen ∈ [0, 1, 2, 4])
    (read : ∀ rest, takeModRM ope.is32bit ope.rex.val (ope.operandBytes ++ rest) =
      some (address, rest)) :
    ∃ bytes, ope.write = .ok bytes ∧ decode ope.immLen bytes = some address ∧
      bytes.length = ope.prefixBytes.length + (rexBytes ope.rex.val).length + ope.oc.length +
        ope.operandBytes.length + ope.immLen := by
  obtain ⟨immBytes, length, written⟩ := write_ok immLen
  refine ⟨_, written, ?_, ?_⟩
  · apply decode_operand ope.prefixBytes_legacy opcode ?_ length
    rw [mem_prefixBytes]
    exact read immBytes
  · simp only [List.length_append, length]
    omega

end Write

/-! ### Register indirect operands -/

theorem signExtend_signExtend (val : BitVec 8) :
    (val.signExtend 32).signExtend 64 = val.signExtend 64 := by
  apply BitVec.eq_of_toInt_eq
  rw [BitVec.toInt_signExtend_of_le (by decide), BitVec.toInt_signExtend_of_le (by decide),
    BitVec.toInt_signExtend_of_le (by decide)]

def compressed (required : Bool) (val : BitVec 32) : OperandFormat.Disp :=
  if val ≠ 0 then
    if (val.setWidth 8).signExtend 32 = val then .disp8 (val.setWidth 8) else .disp32 val
  else if required then .disp8 0
  else .none

theorem value_compressed (required : Bool) (val : BitVec 32) :
    (compressed required val).value = val.signExtend 64 := by
  unfold compressed
  by_cases zero : val = 0
  · rw [if_neg (not_not.mpr zero), zero]
    cases required <;> rfl
  · rw [if_pos zero]
    by_cases short : (val.setWidth 8).signExtend 32 = val
    · rw [if_pos short]
      change (val.setWidth 8).signExtend 64 = val.signExtend 64
      rw [← signExtend_signExtend, short]
    · rw [if_neg short]
      rfl

theorem mod_compressed (val : BitVec 32) : (compressed true val).mod ≠ 0 := by
  have values : (1 : BitVec 2) ≠ 0 ∧ (2 : BitVec 2) ≠ 0 := by decide
  unfold compressed
  split
  · split
    · exact values.1
    · exact values.2
  · exact values.1

theorem compressDisp_eq (ope : ModRMEncoding) (required : Bool) (val : BitVec 32)
    (fresh : ope.disp = ⟨required, false, 0, 0⟩) :
    (ope.compressDisp val).modrm.mod = (compressed required val).mod ∧
      (ope.compressDisp val).dispBytes = (compressed required val).bytes := by
  unfold compressDisp compressed dispBytes
  rw [fresh]
  by_cases zero : val = 0
  · rw [if_neg (not_not.mpr zero), if_neg (not_not.mpr zero)]
    cases required <;> exact ⟨rfl, rfl⟩
  · rw [if_pos zero, if_pos zero]
    by_cases short : (val.setWidth 8).signExtend 32 = val
    · rw [if_pos short, if_pos short]
      exact ⟨rfl, rfl⟩
    · rw [if_neg short, if_neg short]
      exact ⟨rfl, rfl⟩

def addressRegister (narrow : Bool) (gpr : Gpr) : Register :=
  if narrow then .gprs32 gpr else .gprs64 gpr

theorem encodeAddrReg_ok (narrow : Bool) (gpr : Gpr) (low : narrow = true → gprNr gpr < 8) :
    encodeAddrReg (addressRegister narrow gpr) = .ok (gprNr gpr, narrow) := by
  cases narrow with
  | false => rfl
  | true => cases gpr <;> first | rfl | exact absurd (low rfl) (by decide)

theorem encodeAddrReg_error (gpr : Gpr) (high : ¬ gprNr gpr < 8) :
    encodeAddrReg (addressRegister true gpr) =
      .error (.assertion "drob_assert_not_reached()") := by
  cases gpr <;> first | rfl | exact absurd (by decide) high

def needsDisp (gpr : Gpr) : Bool :=
  (gprNr gpr).setWidth 3 == 5

theorem switchBase_ok (form : Form) (r : BitVec 8) (narrow : Bool) (gpr : Gpr)
    (other : gpr ≠ .SP) (low : narrow = true → gprNr gpr < 8) :
    ∃ is32 : Bool, (is32 || narrow) = narrow ∧
      (start form r).switchBase (some (addressRegister narrow gpr)) =
        .ok { start form r with
          is32bit := is32, disp := ⟨needsDisp gpr, false, 0, 0⟩ } := by
  cases narrow with
  | false =>
      refine ⟨false, rfl, ?_⟩
      cases gpr <;> first | rfl | exact absurd rfl other
  | true =>
      by_cases pointer : gpr = .BP
      · subst pointer
        exact ⟨true, rfl, rfl⟩
      · refine ⟨false, rfl, ?_⟩
        cases gpr <;> first
          | rfl
          | exact absurd rfl other
          | exact absurd rfl pointer
          | exact absurd (low rfl) (by decide)

def scaleValue (s : BitVec 2) : BitVec 8 :=
  1 <<< s.toNat

theorem convertScale_ok : ∀ s : BitVec 2, convertScale (scaleValue s) = .ok s := by
  decide

theorem mul_scale (value : BitVec 64) (s : BitVec 2) :
    value * (scaleValue s).setWidth 64 = value <<< s.toNat := by
  have power : ∀ s : BitVec 2, (scaleValue s).setWidth 64 = BitVec.twoPow 64 s.toNat := by decide
  rw [power, BitVec.shiftLeft_eq_mul_twoPow]

def sibAddress (narrow : Bool) (regs : BitVec 4 → BitVec 64) (base index : Option Gpr)
    (disp : BitVec 32) (scale : BitVec 8) : BitVec 64 :=
  let value (gpr : Gpr) : BitVec 64 := atWidth narrow (regs (gprNr gpr))
  atWidth narrow
    (base.elim 0 value + index.elim 0 value * scale.setWidth 64 + disp.signExtend 64)

def EncodesSIB (form : Form) (narrow : Bool) (base index : Option Gpr)
    (disp : SignedImmediate32) (scale : BitVec 8) : Prop :=
  ∀ addr, ∃ ope bytes address,
    make form (.SIB (base.map (addressRegister narrow)) (index.map (addressRegister narrow))
      disp scale) addr = .ok ope ∧
    ope.write = .ok bytes ∧ decode form.immLen bytes = some address ∧
      ∀ regs rip, address.effective regs rip = sibAddress narrow regs base index disp.val scale

/-- No stack pointer as base, R12 as base only with an index, and only the first eight
registers with 32 bits. -/
structure Encodable (narrow : Bool) (base index : Option Gpr) : Prop where
  notSp : base ≠ some .SP
  r12 : base = some .R12 → index ≠ none
  low : narrow = true → ∀ gpr, base = some gpr ∨ index = some gpr → gprNr gpr < 8

theorem nr_split : ∀ nr : BitVec 4, BitVec.ofBool (nr.getLsbD 3) ++ nr.setWidth 3 = nr := by
  decide

theorem rex_bits : ∀ b x r w : Bool,
    (REX.val ⟨b, x, r, w⟩).extractLsb' 0 1 = BitVec.ofBool b ∧
      (REX.val ⟨b, x, r, w⟩).extractLsb' 1 1 = BitVec.ofBool x := by
  decide

theorem make_SIB {form : Form} {r : BitVec 8} {mid : ModRMEncoding} {base : Option Register}
    {s : BitVec 2} (field : regNr form.reg = .ok r)
    (switched : (start form r).switchBase base = .ok mid) (index : Option Register)
    (disp : SignedImmediate32) (addr : BitVec 64) :
    make form (.SIB base index disp (scaleValue s)) addr =
      { mid with sib := { mid.sib with scale := s } }.encodeRegisters base index disp := by
  unfold make
  rw [field]
  change (start form r).encodeMemoryIndirect base index disp (scaleValue s) = _
  unfold encodeMemoryIndirect
  rw [switched, convertScale_ok]
  rfl

section Encodes

variable {form : Form} {narrow : Bool} {disp : SignedImmediate32} {s : BitVec 2}

theorem encodesSIB_base (valid : form.Valid) {gpr : Gpr}
    (encodable : Encodable narrow (some gpr) none) :
    EncodesSIB form narrow (some gpr) none disp (scaleValue s) := by
  intro addr
  obtain ⟨r, field⟩ := valid.reg
  have low := fun isNarrow => encodable.low isNarrow gpr (Or.inl rfl)
  have notSp : gpr ≠ .SP := fun same => encodable.notSp (congrArg some same)
  have notR12 : gpr ≠ .R12 := fun same => encodable.r12 (congrArg some same) rfl
  obtain ⟨is32, width, switched⟩ := switchBase_ok form r narrow gpr notSp low
  let mid : ModRMEncoding :=
    { start form r with
      is32bit := is32, disp := ⟨needsDisp gpr, false, 0, 0⟩
      sib := ⟨false, 0, 0, s⟩ }
  let last : ModRMEncoding :=
    { mid.compressDisp disp.val with
      is32bit := is32 || narrow
      modrm := { (mid.compressDisp disp.val).modrm with rm := (gprNr gpr).setWidth 3 }
      rex := ⟨(gprNr gpr).getLsbD 3, false, r.getLsbD 3, form.flags.rexW⟩ }
  have made : make form (.SIB (some (addressRegister narrow gpr)) none disp (scaleValue s)) addr =
      .ok last := by
    rw [make_SIB field switched]
    unfold encodeRegisters
    dsimp only
    rw [encodeAddrReg_ok narrow gpr low]
    rfl
  obtain ⟨modEq, dispEq⟩ := compressDisp_eq mid (needsDisp gpr) disp.val rfl
  have operand (rest : List (BitVec 8)) : last.operandBytes ++ rest =
      fields (compressed (needsDisp gpr) disp.val).mod (r.setWidth 3) ((gprNr gpr).setWidth 3) ::
        ((compressed (needsDisp gpr) disp.val).bytes ++ rest) := by
    rw [← modEq, ← dispEq]
    rfl
  have noSib : (gprNr gpr).setWidth 3 ≠ 4 := by
    cases gpr <;> first | decide | exact absurd rfl notSp | exact absurd rfl notR12
  have noRip : (gprNr gpr).setWidth 3 = 5 → (compressed (needsDisp gpr) disp.val).mod ≠ 0 := by
    intro five
    have needed : needsDisp gpr = true := beq_iff_eq.mpr five
    rw [needed]
    exact mod_compressed disp.val
  have widthEq : last.is32bit = narrow := width
  obtain ⟨bytes, written, decoded, _⟩ := @decode_write last _ valid.opcode valid.immLen
    (fun rest => (congrArg _ (operand rest)).trans
      (takeModRM_base (r.setWidth 3) _ rest ((gprNr gpr).setWidth 3) noSib noRip))
  refine ⟨last, bytes, _, made, written, decoded, ?_⟩
  intro regs rip
  have bits : last.rex.val.extractLsb' 0 1 ++ (gprNr gpr).setWidth 3 = gprNr gpr := by
    rw [(rex_bits _ _ _ _).1]
    exact nr_split (gprNr gpr)
  unfold Address.effective sibAddress
  dsimp only
  rw [widthEq, bits, value_compressed]
  simp

theorem nr_ne_four {gpr : Gpr} (other : gpr ≠ .SP) : gprNr gpr ≠ 4 := by
  cases gpr <;> first | decide | exact absurd rfl other

theorem encodesSIB_both (valid : form.Valid) {gpr indexGpr : Gpr} (notSp : indexGpr ≠ .SP)
    (encodable : Encodable narrow (some gpr) (some indexGpr)) :
    EncodesSIB form narrow (some gpr) (some indexGpr) disp (scaleValue s) := by
  intro addr
  obtain ⟨r, field⟩ := valid.reg
  have low := fun isNarrow => encodable.low isNarrow gpr (Or.inl rfl)
  have lowIndex := fun isNarrow => encodable.low isNarrow indexGpr (Or.inr rfl)
  have baseNotSp : gpr ≠ .SP := fun same => encodable.notSp (congrArg some same)
  obtain ⟨is32, width, switched⟩ := switchBase_ok form r narrow gpr baseNotSp low
  let mid : ModRMEncoding :=
    { start form r with
      is32bit := is32, disp := ⟨needsDisp gpr, false, 0, 0⟩
      sib := ⟨false, 0, 0, s⟩ }
  let last : ModRMEncoding :=
    { mid.compressDisp disp.val with
      is32bit := is32 || narrow
      modrm := { (mid.compressDisp disp.val).modrm with rm := 4 }
      sib := ⟨true, (gprNr gpr).setWidth 3, (gprNr indexGpr).setWidth 3, s⟩
      rex := ⟨(gprNr gpr).getLsbD 3, (gprNr indexGpr).getLsbD 3, r.getLsbD 3,
        form.flags.rexW⟩ }
  have made : make form (.SIB (some (addressRegister narrow gpr))
      (some (addressRegister narrow indexGpr)) disp (scaleValue s)) addr = .ok last := by
    rw [make_SIB field switched]
    unfold encodeRegisters
    dsimp only
    rw [encodeAddrReg_ok narrow gpr low, encodeAddrReg_ok narrow indexGpr lowIndex]
    exact if_neg (not_not.mpr width)
  obtain ⟨modEq, dispEq⟩ := compressDisp_eq mid (needsDisp gpr) disp.val rfl
  have operand (rest : List (BitVec 8)) : last.operandBytes ++ rest =
      fields (compressed (needsDisp gpr) disp.val).mod (r.setWidth 3) 4 ::
        fields s ((gprNr indexGpr).setWidth 3) ((gprNr gpr).setWidth 3) ::
          ((compressed (needsDisp gpr) disp.val).bytes ++ rest) := by
    rw [← modEq, ← dispEq]
    rfl
  have noBase : (gprNr gpr).setWidth 3 = 5 → (compressed (needsDisp gpr) disp.val).mod ≠ 0 := by
    intro five
    have needed : needsDisp gpr = true := beq_iff_eq.mpr five
    rw [needed]
    exact mod_compressed disp.val
  have widthEq : last.is32bit = narrow := width
  obtain ⟨bytes, written, decoded, _⟩ := @decode_write last _ valid.opcode valid.immLen
    (fun rest => (congrArg _ (operand rest)).trans
      ((takeModRM_sib (r.setWidth 3) _ _ (OperandFormat.Disp.mod_ne _)).trans
        (takeSib_base _ rest s ((gprNr indexGpr).setWidth 3) ((gprNr gpr).setWidth 3) noBase)))
  refine ⟨last, bytes, _, made, written, decoded, ?_⟩
  intro regs rip
  have baseBits : last.rex.val.extractLsb' 0 1 ++ (gprNr gpr).setWidth 3 = gprNr gpr := by
    rw [(rex_bits _ _ _ _).1]
    exact nr_split (gprNr gpr)
  have indexBits :
      last.rex.val.extractLsb' 1 1 ++ (gprNr indexGpr).setWidth 3 = gprNr indexGpr := by
    rw [(rex_bits _ _ _ _).2]
    exact nr_split (gprNr indexGpr)
  unfold Address.effective sibAddress
  dsimp only
  rw [widthEq, baseBits, indexBits, if_neg (nr_ne_four notSp), value_compressed]
  simp only [Option.elim_some, mul_scale]

theorem encodesSIB_index (valid : form.Valid) {indexGpr : Gpr} (notSp : indexGpr ≠ .SP)
    (encodable : Encodable narrow none (some indexGpr)) :
    EncodesSIB form narrow none (some indexGpr) disp (scaleValue s) := by
  intro addr
  obtain ⟨r, field⟩ := valid.reg
  have lowIndex := fun isNarrow => encodable.low isNarrow indexGpr (Or.inr rfl)
  let last : ModRMEncoding :=
    { start form r with
      is32bit := narrow
      modrm := ⟨4, r.setWidth 3, 0⟩
      sib := ⟨true, 5, (gprNr indexGpr).setWidth 3, s⟩
      rex := ⟨false, (gprNr indexGpr).getLsbD 3, r.getLsbD 3, form.flags.rexW⟩
      disp := ⟨true, true, 0, disp.val⟩ }
  have made : make form (.SIB none (some (addressRegister narrow indexGpr)) disp
      (scaleValue s)) addr = .ok last := by
    rw [make_SIB field rfl]
    unfold encodeRegisters
    dsimp only
    rw [encodeAddrReg_ok narrow indexGpr lowIndex]
    rfl
  have operand (rest : List (BitVec 8)) : last.operandBytes ++ rest =
      fields 0 (r.setWidth 3) 4 :: fields s ((gprNr indexGpr).setWidth 3) 5 ::
        ((OperandFormat.Disp.disp32 disp.val).bytes ++ rest) := rfl
  obtain ⟨bytes, written, decoded, _⟩ := @decode_write last _ valid.opcode valid.immLen
    (fun rest => (congrArg _ (operand rest)).trans
      ((takeModRM_sib (r.setWidth 3) _ 0 (by decide)).trans
        (takeSib_none rest s ((gprNr indexGpr).setWidth 3) disp.val)))
  refine ⟨last, bytes, _, made, written, decoded, ?_⟩
  intro regs rip
  have indexBits :
      last.rex.val.extractLsb' 1 1 ++ (gprNr indexGpr).setWidth 3 = gprNr indexGpr := by
    rw [(rex_bits _ _ _ _).2]
    exact nr_split (gprNr indexGpr)
  unfold Address.effective sibAddress
  dsimp only
  rw [indexBits, if_neg (nr_ne_four notSp)]
  simp only [Option.elim_some, Option.elim_none, mul_scale]
  rfl

theorem not_encodesSIB_of_error {base index : Option Gpr} {scale : BitVec 8}
    (failure : ∃ failed, make form (.SIB (base.map (addressRegister narrow))
      (index.map (addressRegister narrow)) disp scale) 0 = .error failed) :
    ¬ EncodesSIB form narrow base index disp scale := by
  intro encodes
  obtain ⟨failed, error⟩ := failure
  obtain ⟨ope, _, _, made, _⟩ := encodes 0
  rw [error] at made
  cases made

theorem not_encodesSIB_sp (valid : form.Valid) (index : Option Gpr) :
    ¬ EncodesSIB form narrow (some .SP) index disp (scaleValue s) := by
  obtain ⟨r, field⟩ := valid.reg
  refine not_encodesSIB_of_error ⟨.assertion "drob_assert_not_reached()", ?_⟩
  unfold make
  rw [field]
  cases narrow <;> rfl

theorem switchBase_exists (form : Form) (r : BitVec 8) (base : Option Gpr)
    (other : base ≠ some .SP) :
    ∃ mid, (start form r).switchBase (base.map (addressRegister true)) = .ok mid := by
  cases base with
  | none => exact ⟨_, rfl⟩
  | some gpr => cases gpr <;> first | exact ⟨_, rfl⟩ | exact absurd rfl other

theorem encodeRegisters_error (ope : ModRMEncoding) {base index : Option Gpr} {gpr : Gpr}
    (named : base = some gpr ∨ index = some gpr) (high : ¬ gprNr gpr < 8) :
    ∃ failed, ope.encodeRegisters (base.map (addressRegister true))
      (index.map (addressRegister true)) disp = .error failed := by
  have error := encodeAddrReg_error gpr high
  rcases named with rfl | rfl
  · cases index with
    | none =>
        refine ⟨.assertion "drob_assert_not_reached()", ?_⟩
        simp only [encodeRegisters, Option.map_some, Option.map_none, error]
        rfl
    | some other =>
        refine ⟨.assertion "drob_assert_not_reached()", ?_⟩
        simp only [encodeRegisters, Option.map_some, error]
        rfl
  · cases base with
    | none =>
        refine ⟨.assertion "drob_assert_not_reached()", ?_⟩
        simp only [encodeRegisters, Option.map_some, Option.map_none, error]
        rfl
    | some other =>
        cases found : encodeAddrReg (addressRegister true other) with
        | error failed =>
            refine ⟨failed, ?_⟩
            simp only [encodeRegisters, Option.map_some, found]
            rfl
        | ok result =>
            refine ⟨.assertion "drob_assert_not_reached()", ?_⟩
            simp only [encodeRegisters, Option.map_some, found, error]
            rfl

theorem not_encodesSIB_high (valid : form.Valid) {base index : Option Gpr} {gpr : Gpr}
    (named : base = some gpr ∨ index = some gpr) (high : ¬ gprNr gpr < 8) :
    ¬ EncodesSIB form true base index disp (scaleValue s) := by
  obtain ⟨r, field⟩ := valid.reg
  by_cases pointer : base = some .SP
  · rw [pointer]
    exact not_encodesSIB_sp valid index
  · obtain ⟨mid, switched⟩ := switchBase_exists form r base pointer
    apply not_encodesSIB_of_error
    rw [make_SIB field switched]
    exact encodeRegisters_error _ named high

theorem not_encodesSIB_r12 (valid : form.Valid) :
    ¬ EncodesSIB form narrow (some .R12) none disp (scaleValue s) := by
  cases narrow with
  | true => exact not_encodesSIB_high valid (Or.inl rfl) (by decide)
  | false =>
      intro encodes
      obtain ⟨r, field⟩ := valid.reg
      obtain ⟨ope, bytes, address, made, written, decoded, _⟩ := encodes 0
      let mid : ModRMEncoding :=
        { start form r with disp := ⟨false, false, 0, 0⟩, sib := ⟨false, 0, 0, s⟩ }
      have same : ope = { mid.compressDisp disp.val with
          is32bit := false
          modrm := { (mid.compressDisp disp.val).modrm with rm := 4 }
          rex := ⟨true, false, r.getLsbD 3, form.flags.rexW⟩ } := by
        change make form (.SIB (some (.gprs64 .R12)) none disp (scaleValue s)) 0 = .ok ope at made
        rw [make_SIB field rfl] at made
        cases made
        rfl
      have immLen : ope.immLen = form.immLen := by rw [same]; rfl
      have oc : ope.oc = form.oc := by rw [same]; rfl
      obtain ⟨modEq, dispEq⟩ := compressDisp_eq mid false disp.val rfl
      have operand : ope.operandBytes =
          fields (compressed false disp.val).mod (r.setWidth 3) 4 ::
            (compressed false disp.val).bytes := by
        rw [← modEq, ← dispEq, same]
        rfl
      obtain ⟨immBytes, length, bytesEq⟩ := @write_ok ope (by rw [immLen]; exact valid.immLen)
      rw [bytesEq] at written
      cases written
      rw [operand, oc, List.cons_append, decode_noSib _ _ ope.prefixBytes_legacy valid.opcode
        (length.trans immLen)] at decoded
      cases decoded

end Encodes

/-- Register indirect operands are encoded exactly where the registers are encodable. -/
theorem encodesSIB_iff (form : Form) (narrow : Bool) (base index : Option Gpr)
    (disp : SignedImmediate32) (s : BitVec 2) (valid : form.Valid)
    (named : base ≠ none ∨ index ≠ none) (notSp : index ≠ some .SP) :
    EncodesSIB form narrow base index disp (scaleValue s) ↔ Encodable narrow base index := by
  constructor
  · intro encodes
    refine ⟨?_, ?_, ?_⟩
    · rintro rfl
      exact not_encodesSIB_sp valid index encodes
    · rintro rfl rfl
      exact not_encodesSIB_r12 valid encodes
    · rintro rfl gpr named
      by_contra high
      exact not_encodesSIB_high valid named high encodes
  · intro encodable
    cases base with
    | none =>
        cases index with
        | none => exact absurd named (by simp)
        | some indexGpr =>
            exact encodesSIB_index valid (fun same => notSp (congrArg some same)) encodable
    | some gpr =>
        cases index with
        | none => exact encodesSIB_base valid encodable
        | some indexGpr =>
            exact encodesSIB_both valid (fun same => notSp (congrArg some same)) encodable

def movRcx : Form where
  oc := [0x8b]
  reg := .register .RCX
  imm := 0
  immLen := 0
  flags := ⟨true, false, false⟩

theorem movRcx_valid : movRcx.Valid where
  opcode := Or.inl ⟨_, rfl, rfl⟩
  immLen := by decide
  reg := ⟨1, rfl⟩

theorem encodesSIB_movRcx :
    EncodesSIB movRcx false (some .R13) (some .R12) (.plain 0) (scaleValue 3) :=
  (encodesSIB_iff movRcx false (some .R13) (some .R12) (.plain 0) 3 movRcx_valid
    (Or.inl (by decide)) (by decide)).mpr ⟨by decide, by decide, by decide⟩

/-- A load from an address in R12 is written without SIB byte. -/
theorem not_encodesSIB_of_valid :
    ¬ ∀ (form : Form) (narrow : Bool) (base index : Option Gpr) (disp : SignedImmediate32)
      (s : BitVec 2), form.Valid → (base ≠ none ∨ index ≠ none) → index ≠ some .SP →
        EncodesSIB form narrow base index disp (scaleValue s) := by
  intro always
  exact not_encodesSIB_r12 movRcx_valid
    (always movRcx false (some .R12) none (.plain 0) 0 movRcx_valid (Or.inl (by decide))
      (by decide))

end ModRMEncoding

end Encoder

end Drob
