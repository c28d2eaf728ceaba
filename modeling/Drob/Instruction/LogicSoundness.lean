import Drob.Instruction.AluSoundness

/-!
The outputs of the tests, exclusive ors and shifts. These handlers run for all
inputs or compute flags that the instruction leaves undefined, so most of them are
sound for some inputs only.
-/

namespace Drob

namespace AluEmulation

open Emulator

section Logic

variable {assignment : Assignment} {row : OpcodeInfo} {op : AluOp} {w : Nat} {host : Host}

/-! ### Tests -/

def testOuts (outs : Flag → DynamicValue) : Flag → DynamicValue :=
  Function.update (Function.update (Function.update outs .CF (.imm64 0)) .AF .unknown) .OF
    (.imm64 0)

theorem setTestFlags (valid : assignment.Valid row op w) (flagged : op ≠ .pxor)
    (output : DynamicValue) (outs : Flag → DynamicValue) :
    (do
      let operands ← setFlag (assignment.operands row output outs) 2 .CF (.imm64 0)
      let operands ← setFlag operands 4 .AF .unknown
      let operands ← setFlag operands 7 .OF (.imm64 0)
      (.ok (operands, .Ok) : Except Failure (Operands × EmuRet))) =
      .ok (assignment.operands row output (testOuts outs), .Ok) := by
  rw [valid.operands_eq flagged, valid.operands_eq flagged]
  rfl

theorem test_imm (valid : assignment.Valid row op w) (flagged : op ≠ .pxor) {v : Nat}
    (run : BitVec v → BitVec v → AluResult v) {a b : BitVec 64}
    (known0 : assignment.input0.imm64? = some a) (known1 : assignment.input1.imm64? = some b) :
    Emulator.test run host (assignment.start row) =
      .ok (assignment.operands row .unknown
        (testOuts (hostFlags host (run (a.setWidth v) (b.setWidth v)).flags)), .Ok) := by
  unfold Emulator.test Emulator.testResult
  rw [valid.input_start0, valid.input_start1]
  dsimp only [bind, Except.bind]
  rw [known0, known1]
  dsimp only
  rw [setEflags_operands valid flagged]
  exact setTestFlags valid flagged _ _

theorem test_other (valid : assignment.Valid row op w) (flagged : op ≠ .pxor) {v : Nat}
    (run : BitVec v → BitVec v → AluResult v)
    (notImm : ¬ (assignment.input0.isImm = true ∧ assignment.input1.isImm = true)) :
    Emulator.test run host (assignment.start row) =
      .ok (assignment.operands row .unknown (testOuts (fun _ => .unknown)), .Ok) := by
  unfold Emulator.test Emulator.testResult
  rw [valid.input_start0, valid.input_start1]
  dsimp only [bind, Except.bind]
  cases left : assignment.input0.imm64? with
  | none => exact setTestFlags valid flagged _ _
  | some a =>
      cases right : assignment.input1.imm64? with
      | none => exact setTestFlags valid flagged _ _
      | some b =>
          exact absurd ⟨(DynamicValue.isImm_iff _).mpr ⟨a, left⟩,
            (DynamicValue.isImm_iff _).mpr ⟨b, right⟩⟩ notImm

theorem sound_test (valid : assignment.Valid row .test w) (differ : assignment.same = false)
    (narrow : w ≤ 64) (runs : Emulator.handler row.emulate = some (Emulator.test (w := w) Alu.test))
    (full : row.flags = .OfEmuFull) : SoundOutputs assignment row .test w host := by
  obtain ⟨input0, input1⟩ := inputs_of_differ differ
  have applies : handlerApplies row.flags (assignment.dynInfo row) = true := by
    rw [full]
    rfl
  have started := dispatch_of_applies host runs applies
  by_cases imms : assignment.in0.isImm = true ∧ assignment.in1.isImm = true
  · obtain ⟨a, known0⟩ := (DynamicValue.isImm_iff _).mp imms.1
    obtain ⟨b, known1⟩ := (DynamicValue.isImm_iff _).mp imms.2
    have ran := started.trans (test_imm valid (by decide) Alu.test
      (input0 ▸ known0) (input1 ▸ known1))
    refine (sound_iff valid ran).mpr ?_
    intro base x y old undef described0 described1 _same
    refine ⟨fun writes => absurd writes Bool.false_ne_true, ?_⟩
    intro _flagged _write flag
    have left := describes_imm64 narrow known0 described0
    have right : y.setWidth w = b.setWidth w := describes_imm64 narrow known1 described1
    change DynamicValue.Describes base _ (flagByte (FlagEffect.resolve
      ((Alu.test (x.setWidth w) (y.setWidth w)).flags flag) _ _))
    rw [left, right]
    cases flag with
    | CF => rfl
    | AF => trivial
    | OF => rfl
    | PF => exact describes_hostFlags host base rfl _ _
    | ZF => exact describes_hostFlags host base rfl _ _
    | SF => exact describes_hostFlags host base rfl _ _
  · have ran := started.trans (test_other valid (by decide) Alu.test
      (by rwa [input0, input1]))
    refine (sound_iff valid ran).mpr ?_
    intro base x y old undef _described0 _described1 _same
    refine ⟨fun writes => absurd writes Bool.false_ne_true, ?_⟩
    intro _flagged _write flag
    cases flag with
    | CF => rfl
    | AF => trivial
    | OF => rfl
    | PF => trivial
    | ZF => trivial
    | SF => trivial

/-! ### Exclusive ors -/

theorem exists_described (value : DynamicValue) (w : Nat) (narrow : w ≤ 64) :
    ∃ (base : DynamicValue.PtrBase) (concrete : BitVec 64),
      value.Describes base ((concrete.setWidth 128).setWidth w) := by
  cases known : value.imm64? with
  | some imm => exact ⟨fun _ _ => 0, imm, describes_own narrow _ known⟩
  | none =>
      have notImm : value.isImm = false := by
        cases value <;> first | rfl | cases known
      obtain ⟨base, described⟩ :=
        describes_of_not_isImm notImm narrow ((0 : BitVec 64).setWidth 128 |>.setWidth w)
      exact ⟨base, 0, described⟩

theorem sound_xor (valid : assignment.Valid row .xor w) (narrow : w ≤ 64)
    (runs : Emulator.handler row.emulate = some (binary (w := w) Alu.xor))
    (imm : row.flags = .OfEmuImm) :
    SoundOutputs assignment row .xor w host ↔
      assignment.same = false ∧
        ¬ (assignment.in0.isImm = true ∧ assignment.in1.isImm = true) := by
  cases applies : handlerApplies row.flags (assignment.dynInfo row) with
  | false =>
      have skipped := applies
      rw [imm, handlerApplies_imm valid, Bool.or_eq_false_iff] at skipped
      refine iff_of_true (sound_of_not_applies applies) ⟨skipped.1, ?_⟩
      rintro ⟨imm0, imm1⟩
      rw [imm0, imm1] at skipped
      cases skipped.2
  | true =>
      have both := applies
      rw [imm, handlerApplies_imm valid, Bool.or_eq_true] at both
      refine iff_of_false ?_ ?_
      · obtain ⟨a, b, known0, known1, base, x, y, described0, described1, same⟩ :
            ∃ a b, assignment.input0.imm64? = some a ∧ assignment.input1.imm64? = some b ∧
              ∃ (base : DynamicValue.PtrBase) (x y : BitVec 128),
                assignment.in0.Describes base (x.setWidth w) ∧
                assignment.in1.Describes base (y.setWidth w) ∧
                (assignment.same = true → x = y) := by
          cases same : assignment.same with
          | true =>
              obtain ⟨base, x, described⟩ := exists_described assignment.in0 w narrow
              refine ⟨0, 0, ?_, ?_, base, _, _, described, ?_, fun _ => rfl⟩
              · unfold Assignment.input0
                rw [same]
                rfl
              · unfold Assignment.input1
                rw [same]
                rfl
              · rw [← valid.sameInput same]
                exact described
          | false =>
              rw [same] at both
              rcases both with impossible | both
              · cases impossible
              · rw [Bool.and_eq_true] at both
                obtain ⟨a, known0⟩ := (DynamicValue.isImm_iff _).mp both.1
                obtain ⟨b, known1⟩ := (DynamicValue.isImm_iff _).mp both.2
                obtain ⟨input0, input1⟩ := inputs_eq same known0 known1
                exact ⟨a, b, input0, input1, fun _ _ => 0, _, _,
                  describes_own narrow _ known0, describes_own narrow _ known1,
                  fun impossible => by cases impossible⟩
        have ran := (dispatch_of_applies host runs applies).trans
          (binary_eq valid (by decide) host Alu.xor known0 known1)
        rw [sound_iff valid ran]
        intro sound
        -- the processor leaves the other value in AF
        have described := (sound base x y (fun _ => false) (fun _ => !host.eflags .AF)
          described0 described1 same).2 (by decide)
          (by rw [flagMode_write valid (by decide)]; rfl) .AF
        have equal := (describes_ofBool _ _ _).mp described
        change host.eflags .AF = !host.eflags .AF at equal
        exact (Bool.eq_not_self _).mp equal
      · rintro ⟨differ, notBoth⟩
        rw [differ] at both
        rcases both with impossible | both
        · cases impossible
        · exact notBoth (Bool.and_eq_true _ _ ▸ both)

theorem imm128?_isSome {value : DynamicValue} (imm : value.isImm = true) :
    ∃ wide, value.imm128? = some wide := by
  cases value with
  | imm64 val => exact ⟨_, rfl⟩
  | imm128 val => exact ⟨_, rfl⟩
  | dead => cases imm
  | unknown => cases imm
  | tainted => cases imm
  | ptr type nr ptrOffset => cases imm

theorem add_intMin (value : BitVec 64) :
    value + BitVec.intMin 64 = value ^^^ BitVec.intMin 64 := by
  apply BitVec.eq_of_getLsbD_eq
  intro i below
  have none : BitVec.carry i value (BitVec.intMin 64) false = false := by
    have high : (BitVec.intMin 64).toNat % 2 ^ i = 0 := by
      rw [BitVec.toNat_intMin_of_pos (by decide)]
      exact Nat.mod_eq_zero_of_dvd (Nat.pow_dvd_pow 2 (by omega))
    unfold BitVec.carry
    rw [high]
    exact decide_eq_false (Nat.not_le.mpr (Nat.mod_lt _ (Nat.two_pow_pos i)))
  rw [BitVec.getLsbD_add below, BitVec.getLsbD_xor, none, Bool.xor_false]

theorem xor_shift_iff (ptrOffset0 ptrOffset1 : BitVec 64) :
    (∀ base : BitVec 64, (base + ptrOffset0) ^^^ (base + ptrOffset1) =
      ptrOffset0 ^^^ ptrOffset1) ↔ EqualButTop ptrOffset0 ptrOffset1 := by
  constructor
  · intro fixed
    have first : 0#64 ^^^ (ptrOffset1 - ptrOffset0) = ptrOffset0 ^^^ ptrOffset1 := by
      have at0 := fixed (-ptrOffset0)
      rwa [BitVec.add_comm, BitVec.add_right_neg, BitVec.add_comm, ← BitVec.sub_eq_add_neg]
        at at0
    have second : (ptrOffset0 - ptrOffset1) ^^^ 0#64 = ptrOffset0 ^^^ ptrOffset1 := by
      have at1 := fixed (-ptrOffset1)
      rwa [BitVec.add_comm, ← BitVec.sub_eq_add_neg, BitVec.add_comm, BitVec.add_right_neg]
        at at1
    rw [BitVec.zero_xor] at first
    rw [BitVec.xor_zero] at second
    have same := first.trans second.symm
    unfold EqualButTop
    bv_omega
  · intro alike base
    have kinds : ptrOffset1 = ptrOffset0 ∨ ptrOffset1 = ptrOffset0 + BitVec.intMin 64 := by
      have top : BitVec.intMin 64 = 0x8000000000000000#64 := by decide
      unfold EqualButTop at alike
      rw [top]
      bv_omega
    rcases kinds with rfl | rfl
    · rw [BitVec.xor_self, BitVec.xor_self]
    · rw [← BitVec.add_assoc, add_intMin, add_intMin, ← BitVec.xor_assoc, ← BitVec.xor_assoc,
        BitVec.xor_self, BitVec.xor_self]

/-- What a vector input that can be read allows: one content, every content, or an
address that depends on the base. -/
inductive VectorInput (value : DynamicValue) (wide : BitVec 128) : Prop
  | known (imm : value.isImm = true)
      (content : ∀ base (concrete : BitVec 128), value.Describes base concrete ↔ concrete = wide)
  | free (notImm : value.isImm = false) (notPtr : value.isPtr = false)
      (content : ∀ base (concrete : BitVec 128), value.Describes base concrete)
  | pointer (type : PtrType) (ptrOffset : BitVec 64) (isPtr : value = .ptr type 0 ptrOffset)
      (offset : wide = ptrOffset.setWidth 128)

theorem vectorInput {value : DynamicValue} {wide : BitVec 128}
    (read : value.getImm128 = .ok wide) : VectorInput value wide := by
  cases value with
  | dead => exact .free rfl rfl (fun _ _ => trivial)
  | unknown => exact .free rfl rfl (fun _ _ => trivial)
  | tainted => exact .free rfl rfl (fun _ _ => trivial)
  | imm64 val =>
      cases read
      exact .known rfl (fun _ _ => Iff.rfl)
  | imm128 val =>
      cases read
      refine .known rfl (fun _ concrete => ?_)
      change concrete = wide.setWidth 128 ↔ _
      rw [BitVec.setWidth_eq]
  | ptr type nr ptrOffset =>
      cases nr with
      | zero =>
          cases read
          exact .pointer type ptrOffset rfl rfl
      | succ nr => cases nr <;> cases read

theorem VectorInput.content {value : DynamicValue} {wide : BitVec 128}
    (input : VectorInput value wide) (base : DynamicValue.PtrBase) :
    ∃ concrete : BitVec 128, value.Describes base concrete := by
  cases input with
  | known imm content => exact ⟨wide, (content base wide).mpr rfl⟩
  | free notImm notPtr content => exact ⟨wide, content base wide⟩
  | pointer type ptrOffset isPtr offset =>
      rw [isPtr]
      exact ⟨_, rfl⟩

section XorFixed

variable {in0 in1 : DynamicValue} {a b : BitVec 128}

def XorFixed (in0 in1 : DynamicValue) (result : BitVec 128) : Prop :=
  ∀ (base : DynamicValue.PtrBase) (x y : BitVec 128), in0.Describes base x →
    in1.Describes base y → x ^^^ y = result

theorem XorFixed.comm {result : BitVec 128} (fixed : XorFixed in0 in1 result) :
    XorFixed in1 in0 result := by
  intro base x y left right
  rw [BitVec.xor_comm]
  exact fixed base y x right left

theorem not_xorFixed_of_free (free : ∀ base (concrete : BitVec 128), in0.Describes base concrete)
    (input1 : VectorInput in1 b) (result : BitVec 128) : ¬ XorFixed in0 in1 result := by
  intro fixed
  obtain ⟨y, described⟩ := input1.content (fun _ _ => 0)
  have same := (fixed _ 0 y (free _ _) described).trans (fixed _ 1 y (free _ _) described).symm
  rw [BitVec.xor_left_inj] at same
  exact absurd same (by decide)

theorem ptr_ne (ptrOffset : BitVec 64) :
    ((0 : BitVec 64) + ptrOffset).setWidth 128 ≠ ((1 : BitVec 64) + ptrOffset).setWidth 128 := by
  intro same
  have cut := congrArg (BitVec.setWidth 64) same
  rw [BitVec.setWidth_setWidth_of_le _ (by omega), BitVec.setWidth_setWidth_of_le _ (by omega),
    BitVec.setWidth_eq, BitVec.setWidth_eq] at cut
  bv_omega

theorem not_xorFixed_of_known {type : PtrType} {ptrOffset : BitVec 64}
    (content : ∀ base (concrete : BitVec 128), in1.Describes base concrete ↔ concrete = b)
    (result : BitVec 128) : ¬ XorFixed (.ptr type 0 ptrOffset) in1 result := by
  intro fixed
  have same := (fixed (fun _ _ => 0) _ b rfl ((content _ _).mpr rfl)).trans
    (fixed (fun _ _ => 1) _ b rfl ((content _ _).mpr rfl)).symm
  rw [BitVec.xor_left_inj] at same
  exact ptr_ne ptrOffset same

/-- Two pointers of one base: the exclusive or does not depend on the base if they
differ in the highest bit at most. -/
theorem xorFixed_pointers_iff (type : PtrType) (ptrOffset0 ptrOffset1 : BitVec 64) :
    XorFixed (.ptr type 0 ptrOffset0) (.ptr type 0 ptrOffset1)
      (ptrOffset0.setWidth 128 ^^^ ptrOffset1.setWidth 128) ↔
        EqualButTop ptrOffset0 ptrOffset1 := by
  rw [← xor_shift_iff]
  constructor
  · intro fixed base
    have wide := fixed (fun _ _ => base) _ _ rfl rfl
    have cut := congrArg (BitVec.setWidth 64) wide
    simpa only [BitVec.setWidth_xor, BitVec.setWidth_setWidth_of_le _ (by omega : 64 ≤ 128),
      BitVec.setWidth_eq] using cut
  · intro fixed base x y left right
    have same := congrArg (BitVec.setWidth 128) (fixed (base type 0))
    rw [BitVec.setWidth_xor, BitVec.setWidth_xor] at same
    rw [show x = _ from left, show y = _ from right]
    exact same

theorem not_xorFixed_of_types {type0 type1 : PtrType} (differ : type0 ≠ type1)
    (ptrOffset0 ptrOffset1 : BitVec 64) (result : BitVec 128) :
    ¬ XorFixed (.ptr type0 0 ptrOffset0) (.ptr type1 0 ptrOffset1) result := by
  intro fixed
  have same := (fixed (fun _ _ => 0) _ _ rfl rfl).trans
    (fixed (fun type _ => if type = type0 then 1 else 0) _ _ rfl rfl).symm
  dsimp only at same
  rw [if_pos rfl, if_neg differ.symm, BitVec.xor_left_inj] at same
  exact ptr_ne ptrOffset0 same

theorem xorFixed_iff (input0 : VectorInput in0 a) (input1 : VectorInput in1 b) :
    XorFixed in0 in1 (a ^^^ b) ↔
      (in0.isImm = true ∧ in1.isImm = true) ∨
        ∃ type ptrOffset0 ptrOffset1, in0 = .ptr type 0 ptrOffset0 ∧
          in1 = .ptr type 0 ptrOffset1 ∧ EqualButTop ptrOffset0 ptrOffset1 := by
  cases input0 with
  | free notImm notPtr content =>
      refine iff_of_false (not_xorFixed_of_free content input1 _) ?_
      rintro (⟨imm, _⟩ | ⟨type, ptrOffset0, ptrOffset1, rfl, _⟩)
      · exact Bool.false_ne_true (notImm.symm.trans imm)
      · cases notPtr
  | known imm0 content0 =>
      cases input1 with
      | known imm1 content1 =>
          refine iff_of_true ?_ (Or.inl ⟨imm0, imm1⟩)
          intro base x y left right
          rw [(content0 _ _).mp left, (content1 _ _).mp right]
      | free notImm notPtr content1 =>
          refine iff_of_false
            (fun fixed => not_xorFixed_of_free content1 (.known imm0 content0) _ fixed.comm) ?_
          rintro (⟨_, imm⟩ | ⟨type, ptrOffset0, ptrOffset1, _, rfl, _⟩)
          · exact Bool.false_ne_true (notImm.symm.trans imm)
          · cases notPtr
      | pointer type ptrOffset isPtr offset =>
          subst isPtr
          refine iff_of_false (fun fixed => not_xorFixed_of_known content0 _ fixed.comm) ?_
          rintro (⟨_, imm⟩ | ⟨type, ptrOffset0, ptrOffset1, rfl, _⟩)
          · cases imm
          · cases imm0
  | pointer type0 ptrOffset0 isPtr0 offset0 =>
      subst isPtr0 offset0
      cases input1 with
      | known imm1 content1 =>
          refine iff_of_false (not_xorFixed_of_known content1 _) ?_
          rintro (⟨imm, _⟩ | ⟨type, ptrOffset, ptrOffset1, _, rfl, _⟩)
          · cases imm
          · cases imm1
      | free notImm notPtr content1 =>
          refine iff_of_false (fun fixed => not_xorFixed_of_free content1
            (.pointer type0 ptrOffset0 rfl rfl) _ fixed.comm) ?_
          rintro (⟨_, imm⟩ | ⟨type, ptrOffset, ptrOffset1, _, rfl, _⟩)
          · exact Bool.false_ne_true (notImm.symm.trans imm)
          · cases notPtr
      | pointer type1 ptrOffset1 isPtr1 offset1 =>
          subst isPtr1 offset1
          by_cases differ : type0 = type1
          · subst differ
            rw [xorFixed_pointers_iff]
            constructor
            · intro alike
              exact Or.inr ⟨type0, ptrOffset0, ptrOffset1, rfl, rfl, alike⟩
            · rintro (⟨imm, _⟩ | ⟨type, first, second, isFirst, isSecond, alike⟩)
              · cases imm
              · cases isFirst
                cases isSecond
                exact alike
          · refine iff_of_false (not_xorFixed_of_types differ _ _ _) ?_
            rintro (⟨imm, _⟩ | ⟨type, first, second, isFirst, isSecond, _alike⟩)
            · cases imm
            · cases isFirst
              cases isSecond
              exact differ rfl

end XorFixed

theorem packed_eq (valid : assignment.Valid row op w)
    (run : BitVec 128 → BitVec 128 → BitVec 128) {a b : BitVec 128}
    (read0 : assignment.input0.getImm128 = .ok a) (read1 : assignment.input1.getImm128 = .ok b) :
    packed run (assignment.start row) =
      .ok (assignment.operands row (.imm128 (run a b)) (fun _ => .unknown), .Ok) := by
  unfold packed
  rw [valid.input_start0, valid.input_start1]
  dsimp only [bind, Except.bind]
  rw [read0, read1]
  dsimp only
  rw [setOutput_start]

theorem getImm128_of_isOk {value : DynamicValue} (reads : value.getImm128.isOk = true) :
    ∃ wide, value.getImm128 = .ok wide := by
  cases read : value.getImm128 with
  | error failure =>
      rw [read] at reads
      cases reads
  | ok wide => exact ⟨wide, rfl⟩

theorem packed_error (valid : assignment.Valid row op w)
    (run : BitVec 128 → BitVec 128 → BitVec 128)
    (failed : (assignment.input0.getImm128).isOk = false ∨
      (assignment.input1.getImm128).isOk = false)
    (result : Operands × EmuRet) : packed run (assignment.start row) ≠ .ok result := by
  intro returned
  unfold packed at returned
  rw [valid.input_start0, valid.input_start1] at returned
  obtain ⟨input0, same0, returned⟩ := bind_ok returned
  obtain ⟨input1, same1, returned⟩ := bind_ok returned
  cases same0
  cases same1
  obtain ⟨a, read0, returned⟩ := bind_ok returned
  obtain ⟨b, read1, returned⟩ := bind_ok returned
  rcases failed with impossible | impossible
  · rw [read0] at impossible
    cases impossible
  · rw [read1] at impossible
    cases impossible

theorem sound_pxor (valid : assignment.Valid row .pxor 128)
    (runs : Emulator.handler row.emulate = some pxor) (full : row.flags = .OfEmuFull) :
    SoundOutputs assignment row .pxor 128 host ↔
      (assignment.same = true ∨ (assignment.in0.isImm = true ∧ assignment.in1.isImm = true) ∨
        ∃ type ptrOffset0 ptrOffset1, assignment.in0 = .ptr type 0 ptrOffset0 ∧
          assignment.in1 = .ptr type 0 ptrOffset1 ∧ EqualButTop ptrOffset0 ptrOffset1) := by
  have applies : handlerApplies row.flags (assignment.dynInfo row) = true := by
    rw [full]
    rfl
  have started := dispatch_of_applies host runs applies
  have own (value : BitVec 128) : value.setWidth 128 = value := BitVec.setWidth_eq value
  cases same : assignment.same with
  | true =>
      refine iff_of_true ?_ (Or.inl rfl)
      have zero0 : assignment.input0.getImm128 = .ok 0 := by
        unfold Assignment.input0
        rw [same]
        rfl
      have zero1 : assignment.input1.getImm128 = .ok 0 := by
        unfold Assignment.input1
        rw [same]
        rfl
      have ran := started.trans (packed_eq valid (fun a b => a ^^^ b) zero0 zero1)
      refine (sound_iff valid ran).mpr ?_
      intro base x y old undef _described0 _described1 equal
      refine ⟨fun _ => ?_, fun flagged => absurd rfl flagged⟩
      rw [equal same]
      change y.setWidth 128 ^^^ y.setWidth 128 = ((0 : BitVec 128) ^^^ 0).setWidth 128
      rw [BitVec.xor_self]
      rfl
  | false =>
      obtain ⟨input0, input1⟩ := inputs_of_differ same
      by_cases reads : (assignment.in0.getImm128).isOk = true ∧
          (assignment.in1.getImm128).isOk = true
      · obtain ⟨a, read0⟩ := getImm128_of_isOk reads.1
        obtain ⟨b, read1⟩ := getImm128_of_isOk reads.2
        have ran := started.trans (packed_eq valid (fun a b => a ^^^ b)
          (input0.symm ▸ read0) (input1.symm ▸ read1))
        rw [sound_iff valid ran, or_iff_right Bool.false_ne_true,
          ← xorFixed_iff (vectorInput read0) (vectorInput read1)]
        constructor
        · intro sound base x y left right
          have described := (sound base x y (fun _ => false) (fun _ => false)
            (by rwa [own]) (by
              change assignment.in1.Describes base (y.setWidth 128)
              rwa [own])
            (fun impossible => absurd (same.symm.trans impossible) Bool.false_ne_true)).1 rfl
          change x.setWidth 128 ^^^ y.setWidth 128 = (a ^^^ b).setWidth 128 at described
          rwa [own, own, own] at described
        · intro fixed base x y old undef left right _same
          refine ⟨fun _ => ?_, fun flagged => absurd rfl flagged⟩
          change assignment.in1.Describes base (y.setWidth 128) at right
          rw [own] at left right
          change x.setWidth 128 ^^^ y.setWidth 128 = (a ^^^ b).setWidth 128
          rw [own, own, own, fixed base x y left right]
      · have failed : (assignment.input0.getImm128).isOk = false ∨
            (assignment.input1.getImm128).isOk = false := by
          rw [input0, input1]
          rcases not_and_or.mp reads with first | second
          · exact Or.inl (Bool.not_eq_true _ ▸ first)
          · exact Or.inr (Bool.not_eq_true _ ▸ second)
        refine iff_of_false ?_ ?_
        · rintro ⟨operands, ret, returned, _sound⟩
          rw [started] at returned
          exact packed_error valid (fun a b => a ^^^ b) failed _ returned
        · rintro (impossible | ⟨imm0, imm1⟩ | ⟨type, ptrOffset0, ptrOffset1, isPtr0, isPtr1, _⟩)
          · cases impossible
          · obtain ⟨a, known0⟩ := imm128?_isSome imm0
            obtain ⟨b, known1⟩ := imm128?_isSome imm1
            rw [DynamicValue.getImm128_of_imm128? known0,
              DynamicValue.getImm128_of_imm128? known1] at reads
            exact reads ⟨rfl, rfl⟩
          · rw [isPtr0, isPtr1] at reads
            exact reads ⟨rfl, rfl⟩

/-! ### Shifts -/

structure ShiftSpec (run : BitVec 64 → BitVec 8 → AluResult 64) : Prop where
  unchanged : ∀ a count, Alu.shiftCount count = 0 → (run a count).flags = fun _ => .unchanged
  result : ∀ a count flag, Alu.shiftCount count ≠ 0 → flag = .PF ∨ flag = .ZF ∨ flag = .SF ∨
    flag = .CF → ∃ value, (run a count).flags flag = .value value
  overflow : ∀ a, ∃ value, (run a 1).flags .OF = .value value
  fixed : ∀ a, (run a 1).value = a → a = 0
  zero : ∀ count, (run 0 count).value = 0

theorem shl64_spec : ShiftSpec Alu.shl64 where
  unchanged := by
    intro a count none
    unfold Alu.shl64
    rw [none]
    rfl
  result := by
    intro a count flag some isResult
    unfold Alu.shl64
    dsimp only
    rw [if_neg some]
    rcases isResult with rfl | rfl | rfl | rfl <;> exact ⟨_, rfl⟩
  overflow := fun _ => ⟨_, rfl⟩
  fixed := by
    intro a same
    have doubled : a <<< 1 = a := same
    bv_omega
  zero := by
    intro count
    unfold Alu.shl64
    dsimp only
    split
    · rfl
    · exact BitVec.zero_shiftLeft _

theorem shr64_spec : ShiftSpec Alu.shr64 where
  unchanged := by
    intro a count none
    unfold Alu.shr64
    rw [none]
    rfl
  result := by
    intro a count flag some isResult
    unfold Alu.shr64
    dsimp only
    rw [if_neg some]
    rcases isResult with rfl | rfl | rfl | rfl <;> exact ⟨_, rfl⟩
  overflow := fun _ => ⟨_, rfl⟩
  fixed := by
    intro a same
    have halved : a >>> 1 = a := same
    bv_omega
  zero := by
    intro count
    unfold Alu.shr64
    dsimp only
    split
    · rfl
    · exact BitVec.zero_ushiftRight

def shiftOuts (count : DynamicValue) (outs : Flag → DynamicValue) : Flag → DynamicValue :=
  fun flag =>
    match flag with
    | .OF => if shiftUnknown count (fun count => count == 1) then .unknown else outs .OF
    | .CF => if shiftUnknown count (fun count => count < 64) then .unknown else outs .CF
    | .AF => .unknown
    | flag => outs flag

theorem setShiftFlags (valid : assignment.Valid row op w) (flagged : op ≠ .pxor)
    (count output : DynamicValue) (outs : Flag → DynamicValue) :
    (do
      let operands ← setFlagIf (shiftUnknown count (fun count => count == 1))
        (assignment.operands row output outs) 7 .OF
      let operands ← setFlagIf (shiftUnknown count (fun count => count < 64)) operands 2 .CF
      let operands ← setFlag operands 4 .AF .unknown
      (.ok (operands, .Ok) : Except Failure (Operands × EmuRet))) =
      .ok (assignment.operands row output (shiftOuts count outs), .Ok) := by
  rw [valid.operands_eq flagged, valid.operands_eq flagged]
  unfold shiftOuts
  cases shiftUnknown count (fun count => count == 1) <;>
    cases shiftUnknown count (fun count => count < 64) <;> rfl

theorem shift_imm (valid : assignment.Valid row op w) (flagged : op ≠ .pxor)
    (run : BitVec 64 → BitVec 8 → AluResult 64) {a count : BitVec 64}
    (known0 : assignment.input0.imm64? = some a)
    (known1 : assignment.input1.imm64? = some count) :
    shift run host (assignment.start row) =
      .ok (assignment.operands row (.imm64 (run a (count.setWidth 8)).value)
        (shiftOuts assignment.input1 (hostFlags host (run a (count.setWidth 8)).flags)),
        .Ok) := by
  unfold shift
  rw [valid.input_start0, valid.input_start1]
  dsimp only [bind, Except.bind]
  have shifted : shiftResult run host (assignment.start row) assignment.input0
      assignment.input1 = .ok (assignment.operands row
        (.imm64 (run a (count.setWidth 8)).value)
        (hostFlags host (run a (count.setWidth 8)).flags)) := by
    unfold shiftResult
    rcases eq_imm_of_imm64? known0 with left | ⟨wide, left, rfl⟩ <;> rw [left, known1] <;>
      dsimp only [bind, Except.bind, DynamicValue.imm64?] <;> rw [setOutput_start] <;>
      dsimp only <;> rw [setEflags_operands valid flagged]
  rw [shifted]
  exact setShiftFlags valid flagged _ _ _

/-- The destination of a shift that is not computed: as before, but no pointer. -/
def unshifted : DynamicValue → DynamicValue
  | .ptr .stack _ _ => .tainted
  | .ptr _ _ _ => .unknown
  | inout => inout

theorem shift_other (valid : assignment.Valid row op w) (flagged : op ≠ .pxor)
    (run : BitVec 64 → BitVec 8 → AluResult 64)
    (notImm : ¬ (assignment.input0.isImm = true ∧ assignment.input1.isImm = true)) :
    shift run host (assignment.start row) =
      .ok (assignment.operands row (unshifted assignment.input0)
        (shiftOuts assignment.input1 (fun _ => .unknown)), .Ok) := by
  unfold shift
  rw [valid.input_start0, valid.input_start1]
  dsimp only [bind, Except.bind]
  have shifted : shiftResult run host (assignment.start row) assignment.input0
      assignment.input1 = .ok (assignment.operands row (unshifted assignment.input0)
        (fun _ => .unknown)) := by
    unfold shiftResult
    cases left : assignment.input0 with
    | ptr type nr ptrOffset => cases type <;> rfl
    | dead => rfl
    | unknown => rfl
    | tainted => rfl
    | imm64 val =>
        cases right : assignment.input1 <;> rw [left, right] at notImm <;>
          first | rfl | exact absurd ⟨rfl, rfl⟩ notImm
    | imm128 val =>
        cases right : assignment.input1 <;> rw [left, right] at notImm <;>
          first | rfl | exact absurd ⟨rfl, rfl⟩ notImm
  rw [shifted]
  exact setShiftFlags valid flagged _ _ _

theorem flagMode_shift (valid : assignment.Valid row op w) (isShift : op = .shl ∨ op = .shr)
    (counted : shiftsByCl assignment.opcode = false) {count : BitVec 64}
    (known1 : assignment.in1.imm64? = some count) :
    assignment.flagMode row = if count = 0 then .None else .Write := by
  have refined := valid.shape.shift.mpr isShift
  obtain ⟨imm, named, encoded⟩ := valid.count refined counted
  have own : imm.val = count := by
    rw [encoded] at known1
    unfold immediateValue at known1
    split at known1
    · exact Option.some.inj known1
    · cases known1
  unfold Assignment.flagMode Assignment.noCount
  rw [if_pos refined, named]
  simp only [decide_eq_true_eq, own]

theorem shiftCount_setWidth (count : BitVec 64) :
    Alu.shiftCount (count.setWidth 8) = count.toNat % 64 := by
  unfold Alu.shiftCount
  rw [BitVec.toNat_setWidth, Nat.mod_mod_of_dvd _ (by decide)]

theorem shiftOuts_unknown (count : DynamicValue) (flag : Flag) :
    shiftOuts count (fun _ => .unknown) flag = .unknown := by
  unfold shiftOuts
  cases flag <;> dsimp only <;> split <;> rfl

/-- A shift of known inputs: the flags are those of the instruction if the masked count
is not zero. -/
theorem sound_shift_imm (valid : assignment.Valid row op 64) (isShift : op = .shl ∨ op = .shr)
    (counted : shiftsByCl assignment.opcode = false)
    (differ : assignment.same = false) {run : BitVec 64 → BitVec 8 → AluResult 64}
    (spec : ShiftSpec run)
    (exec_eq : ∀ a b, op.exec 64 a b = run (a.setWidth 64) (b.setWidth 8))
    {a count : BitVec 64} (known0 : assignment.in0.imm64? = some a)
    (known1 : assignment.in1.imm64? = some count)
    (started : dispatch row host (assignment.dynInfo row) =
      shift run host (assignment.start row)) :
    SoundOutputs assignment row op 64 host ↔ (count.toNat % 64 = 0 → count = 0) := by
  have flagged : op ≠ .pxor := by
    rcases isShift with rfl | rfl <;> decide
  have source : op.sourceWidth 64 = 8 := by
    rcases isShift with rfl | rfl <;> rfl
  obtain ⟨input0, input1⟩ := inputs_of_differ differ
  have ran := started.trans (shift_imm valid flagged run
    (input0 ▸ known0) (input1 ▸ known1))
  have mode := flagMode_shift valid isShift counted known1
  have inputs (base : DynamicValue.PtrBase) (x y : BitVec 128)
      (described0 : assignment.in0.Describes base (x.setWidth 64))
      (described1 : assignment.in1.Describes base (y.setWidth (op.sourceWidth 64))) :
      op.exec 64 x y = run a (count.setWidth 8) := by
    rw [source] at described1
    rw [exec_eq, describes_imm64 (le_refl 64) known0 described0, BitVec.setWidth_eq,
      describes_imm64 (by decide) known1 described1]
  rw [sound_iff valid ran]
  constructor
  · intro sound none
    by_contra some
    have described := (sound (fun _ _ => 0) (a.setWidth 128) (count.setWidth 128)
      (fun _ => !host.eflags .ZF) (fun _ => false) (describes_own (le_refl 64) _ known0)
      (by
        rw [source]
        exact describes_own (by decide) _ known1)
      (fun same => absurd (differ.symm.trans same) Bool.false_ne_true)).2 flagged
      (by rw [mode, if_neg some]; rfl) .ZF
    have equal := (describes_ofBool _ _ _).mp described
    rw [inputs _ _ _ (describes_own (le_refl 64) (fun _ _ => 0) known0)
      (by
        rw [source]
        exact describes_own (by decide) (fun _ _ => 0) known1)] at equal
    unfold Host.readEflags at equal
    rw [spec.unchanged a _ ((shiftCount_setWidth count).trans none)] at equal
    exact (Bool.eq_not_self _).mp equal
  · intro condition base x y old undef described0 described1 _same
    rw [inputs base x y described0 described1]
    refine ⟨fun _ => (BitVec.setWidth_eq _).symm, ?_⟩
    intro _flagged write flag
    have some : count ≠ 0 := by
      rintro rfl
      rw [mode] at write
      cases write
    have moves : Alu.shiftCount (count.setWidth 8) ≠ 0 := by
      rw [shiftCount_setWidth]
      exact fun none => some (condition none)
    have result (flag : Flag) (isResult : flag = .PF ∨ flag = .ZF ∨ flag = .SF ∨ flag = .CF) :
        (hostFlags host (run a (count.setWidth 8)).flags flag).Describes base
          (flagByte (((run a (count.setWidth 8)).flags flag).resolve (old flag)
            (undef flag))) := by
      obtain ⟨value, effect⟩ := spec.result a _ flag moves isResult
      exact describes_hostFlags host base effect _ _
    cases flag with
    | AF => trivial
    | PF => exact result .PF (Or.inl rfl)
    | ZF => exact result .ZF (Or.inr (Or.inl rfl))
    | SF => exact result .SF (Or.inr (Or.inr (Or.inl rfl)))
    | CF =>
        unfold shiftOuts
        dsimp only
        split
        · trivial
        · exact result .CF (Or.inr (Or.inr (Or.inr rfl)))
    | OF =>
        unfold shiftOuts
        dsimp only
        split
        · trivial
        · rename_i known
          rw [input1] at known
          unfold shiftUnknown at known
          rw [known1] at known
          have one : count = 1 := by simpa using known
          subst one
          obtain ⟨value, effect⟩ := spec.overflow a
          exact describes_hostFlags host base effect _ _

theorem sound_shift_other (valid : assignment.Valid row op 64)
    (isShift : op = .shl ∨ op = .shr) (differ : assignment.same = false)
    {run : BitVec 64 → BitVec 8 → AluResult 64} (spec : ShiftSpec run)
    (exec_eq : ∀ a b, op.exec 64 a b = run (a.setWidth 64) (b.setWidth 8))
    (notImm : ¬ (assignment.in0.isImm = true ∧ assignment.in1.isImm = true))
    (started : dispatch row host (assignment.dynInfo row) =
      shift run host (assignment.start row)) :
    SoundOutputs assignment row op 64 host ↔ ∀ a, assignment.in0.imm64? = some a → a = 0 := by
  have flagged : op ≠ .pxor := by
    rcases isShift with rfl | rfl <;> decide
  have source : op.sourceWidth 64 = 8 := by
    rcases isShift with rfl | rfl <;> rfl
  obtain ⟨input0, input1⟩ := inputs_of_differ differ
  have ran := started.trans (shift_other valid flagged run
    (by rwa [input0, input1]))
  rw [input0] at ran
  rw [sound_iff valid ran]
  constructor
  · intro sound a known0
    have notImm1 : assignment.in1.isImm = false := by
      by_contra imm1
      exact notImm ⟨(DynamicValue.isImm_iff _).mpr ⟨a, known0⟩, Bool.not_eq_false _ ▸ imm1⟩
    obtain ⟨base, described1⟩ :=
      describes_of_not_isImm notImm1 (by decide) (((1 : BitVec 128).setWidth 8))
    have described := (sound base (a.setWidth 128) 1 (fun _ => false) (fun _ => false)
      (describes_own (le_refl 64) _ known0)
      (by
        rw [source]
        exact described1)
      (fun same => absurd (differ.symm.trans same) Bool.false_ne_true)).1
      (by rcases isShift with rfl | rfl <;> rfl)
    rw [exec_eq, BitVec.setWidth_setWidth_of_le _ (by omega), BitVec.setWidth_eq] at described
    apply spec.fixed a
    rcases eq_imm_of_imm64? known0 with left | ⟨wide, left, rfl⟩
    · rw [left] at described
      exact Eq.trans described (BitVec.setWidth_eq _)
    · rw [left] at described
      exact described
  · intro zero base x y old undef described0 described1 _same
    refine ⟨fun _ => ?_, fun _ _ flag => ?_⟩
    · cases left : assignment.in0 with
      | ptr type nr ptrOffset => cases type <;> trivial
      | dead => trivial
      | unknown => trivial
      | tainted => trivial
      | imm64 val =>
          have known0 : assignment.in0.imm64? = some val := by
            rw [left]
            rfl
          rw [exec_eq, describes_imm64 (le_refl 64) known0 described0, zero val known0]
          exact spec.zero _
      | imm128 val =>
          have known0 : assignment.in0.imm64? = some (val.setWidth 64) := by
            rw [left]
            rfl
          have none := zero _ known0
          rw [exec_eq, describes_imm64 (le_refl 64) known0 described0, none]
          change _ = val.setWidth 64
          rw [none]
          exact spec.zero _
    · rw [shiftOuts_unknown]
      trivial

theorem sound_shift (valid : assignment.Valid row op 64) (isShift : op = .shl ∨ op = .shr)
    (counted : shiftsByCl assignment.opcode = false)
    (differ : assignment.same = false) {run : BitVec 64 → BitVec 8 → AluResult 64}
    (spec : ShiftSpec run)
    (exec_eq : ∀ a b, op.exec 64 a b = run (a.setWidth 64) (b.setWidth 8))
    (runs : Emulator.handler row.emulate = some (shift run)) (full : row.flags = .OfEmuFull) :
    SoundOutputs assignment row op 64 host ↔
      (∀ a, assignment.in0.imm64? = some a → assignment.in1.isImm = false → a = 0) ∧
        ∀ a count, assignment.in0.imm64? = some a → assignment.in1.imm64? = some count →
          count.toNat % 64 = 0 → count = 0 := by
  have applies : handlerApplies row.flags (assignment.dynInfo row) = true := by
    rw [full]
    rfl
  have started := dispatch_of_applies host runs applies
  by_cases imms : assignment.in0.isImm = true ∧ assignment.in1.isImm = true
  · obtain ⟨a, known0⟩ := (DynamicValue.isImm_iff _).mp imms.1
    obtain ⟨count, known1⟩ := (DynamicValue.isImm_iff _).mp imms.2
    rw [sound_shift_imm valid isShift counted differ spec exec_eq known0 known1 started]
    constructor
    · intro condition
      refine ⟨fun _ _ notImm => absurd (notImm.symm.trans imms.2) Bool.false_ne_true, ?_⟩
      intro a' count' _known0 known1'
      cases known1.symm.trans known1'
      exact condition
    · intro condition
      exact condition.2 a count known0 known1
  · rw [sound_shift_other valid isShift differ spec exec_eq imms started]
    constructor
    · intro zero
      refine ⟨fun a known0 _ => zero a known0, ?_⟩
      intro a count known0 known1
      exact absurd ⟨(DynamicValue.isImm_iff _).mpr ⟨a, known0⟩,
        (DynamicValue.isImm_iff _).mpr ⟨count, known1⟩⟩ imms
    · intro condition a known0
      refine condition.1 a known0 (Bool.not_eq_true _ ▸ fun imm1 => ?_)
      exact imms ⟨(DynamicValue.isImm_iff _).mpr ⟨a, known0⟩, imm1⟩

end Logic

end AluEmulation

end Drob
