import Drob.Instruction.AluOperands

/-!
The outputs of each arithmetic handler, and for which inputs they are sound.
-/

namespace Drob

namespace AluEmulation

open Emulator

/-! ### Setting outputs -/

section Handlers

variable {assignment : Assignment} {row : OpcodeInfo} {op : AluOp} {w : Nat}

theorem Assignment.Valid.operands_eq (valid : assignment.Valid row op w) (flagged : op ≠ .pxor)
    (output : DynamicValue) (outs : Flag → DynamicValue) :
    assignment.operands row output outs =
      assignment.operand0 row output :: assignment.operand1 row ::
        flagOperands (assignment.flagMode row) outs := by
  unfold Assignment.operands
  rw [valid.flags_eq flagged]

abbrev Assignment.start (assignment : Assignment) (row : OpcodeInfo) : Operands :=
  assignment.operands row .unknown (fun _ => .unknown)

theorem Assignment.Valid.input_start0 (valid : assignment.Valid row op w) :
    input (assignment.start row) 0 = .ok assignment.input0 := by
  change Except.ok (assignment.operand0 row .unknown).input = _
  rw [valid.input_operand0]

theorem Assignment.Valid.input_start1 (valid : assignment.Valid row op w) :
    input (assignment.start row) 1 = .ok assignment.input1 := by
  change Except.ok (assignment.operand1 row).input = _
  rw [valid.input_operand1]

theorem setOutput_start (assignment : Assignment) (row : OpcodeInfo) (output : DynamicValue) :
    setOutput (assignment.start row) 0 output =
      .ok (assignment.operands row output (fun _ => .unknown)) := rfl

def hostFlags (host : Host) (flags : Flag → FlagEffect) : Flag → DynamicValue :=
  fun flag => ofBool (host.readEflags flags flag)

theorem setEflags_operands (valid : assignment.Valid row op w) (flagged : op ≠ .pxor)
    (host : Host) (output : DynamicValue) (outs : Flag → DynamicValue)
    (flags : Flag → FlagEffect) :
    setEflags (assignment.operands row output outs) 2 (host.readEflags flags) =
      .ok (assignment.operands row output (hostFlags host flags)) := by
  rw [valid.operands_eq flagged, valid.operands_eq flagged]
  rfl

theorem binary_eq (valid : assignment.Valid row op w) (flagged : op ≠ .pxor) (host : Host)
    {v : Nat} (run : BitVec v → BitVec v → AluResult v) {a b : BitVec 64}
    (known0 : assignment.input0.imm64? = some a) (known1 : assignment.input1.imm64? = some b) :
    binary run host (assignment.start row) =
      .ok (assignment.operands row
        (.imm64 ((run (a.setWidth v) (b.setWidth v)).value.setWidth 64))
        (hostFlags host (run (a.setWidth v) (b.setWidth v)).flags), .Ok) := by
  unfold binary
  rw [valid.input_start0, valid.input_start1]
  dsimp only [bind, Except.bind]
  rw [DynamicValue.getImm64_of_imm64? known0, DynamicValue.getImm64_of_imm64? known1]
  dsimp only
  rw [setOutput_start]
  dsimp only
  rw [setEflags_operands valid flagged]

theorem compare_eq (valid : assignment.Valid row op w) (flagged : op ≠ .pxor) (host : Host)
    {v : Nat} (run : BitVec v → BitVec v → AluResult v) {a b : BitVec 64}
    (known0 : assignment.input0.imm64? = some a) (known1 : assignment.input1.imm64? = some b) :
    Emulator.compare run host (assignment.start row) =
      .ok (assignment.operands row .unknown
        (hostFlags host (run (a.setWidth v) (b.setWidth v)).flags), .Ok) := by
  unfold Emulator.compare
  rw [valid.input_start0, valid.input_start1]
  dsimp only [bind, Except.bind]
  rw [DynamicValue.getImm64_of_imm64? known0, DynamicValue.getImm64_of_imm64? known1]
  dsimp only
  rw [setEflags_operands valid flagged]

end Handlers

/-! ### Soundness of one handler -/

section Sound

variable {assignment : Assignment} {row : OpcodeInfo} {op : AluOp} {w : Nat} {host : Host}

theorem sound_iff (valid : assignment.Valid row op w) {output : DynamicValue}
    {outs : Flag → DynamicValue}
    (ran : dispatch row host (assignment.dynInfo row) =
      .ok (assignment.operands row output outs, .Ok)) :
    SoundOutputs assignment row op w host ↔
      ∀ (base : DynamicValue.PtrBase) (a b : BitVec 128) (old undef : Eflags),
        assignment.in0.Describes base (a.setWidth w) →
        assignment.in1.Describes base (b.setWidth (op.sourceWidth w)) →
        (assignment.same = true → a = b) →
        (op.writesDestination = true → output.Describes base (op.exec w a b).value) ∧
          (op ≠ .pxor → (assignment.flagMode row).isWrite = true → ∀ flag,
            (outs flag).Describes base
              (flagByte (((op.exec w a b).flags flag).resolve (old flag) (undef flag)))) := by
  constructor
  · rintro ⟨operands, ret, returned, sound⟩ base a b old undef described0 described1 same
    rw [ran] at returned
    cases returned
    exact (describesOutputs_iff valid base output outs _ old undef).mp
      (sound base a b old undef described0 described1 same)
  · intro sound
    refine ⟨_, _, ran, ?_⟩
    intro base a b old undef described0 described1 same
    exact (describesOutputs_iff valid base output outs _ old undef).mpr
      (sound base a b old undef described0 described1 same)

theorem sound_of_not_applies
    (skipped : handlerApplies row.flags (assignment.dynInfo row) = false) :
    SoundOutputs assignment row op w host := by
  have generic : dispatch row host (assignment.dynInfo row) =
      .ok (emulateGeneric (assignment.dynInfo row), .Ok) := by
    unfold dispatch
    split
    · rfl
    · rw [skipped]
      rfl
  exact sound_generic generic rfl

theorem dispatch_of_applies (host : Host)
    {handler : Host → Operands → Except Failure (Operands × EmuRet)}
    (runs : Emulator.handler row.emulate = some handler)
    (applies : handlerApplies row.flags (assignment.dynInfo row) = true) :
    dispatch row host (assignment.dynInfo row) = handler host (assignment.start row) := by
  unfold dispatch
  rw [runs]
  dsimp only
  rw [applies]
  rfl

theorem resolve_value (host : Host) {flags : Flag → FlagEffect} {flag : Flag} {value : Bool}
    (defined : flags flag = .value value) (old undef : Bool) :
    host.readEflags flags flag = (flags flag).resolve old undef := by
  unfold Host.readEflags
  rw [defined]
  rfl

/-- A flag that the host reads describes the flag of the instruction where the
instruction defines it. -/
theorem describes_hostFlags (host : Host) (base : DynamicValue.PtrBase)
    {flags : Flag → FlagEffect} {flag : Flag} {value : Bool}
    (defined : flags flag = .value value) (old undef : Bool) :
    (hostFlags host flags flag).Describes base (flagByte ((flags flag).resolve old undef)) :=
  (describes_ofBool base _ _).mpr (resolve_value host defined old undef)

theorem describes_narrow (base : DynamicValue.PtrBase) {v : Nat} (narrow : v ≤ 64)
    (value : BitVec v) : (DynamicValue.imm64 (value.setWidth 64)).Describes base value := by
  change value = (value.setWidth 64).setWidth v
  rw [BitVec.setWidth_setWidth_of_le value narrow, BitVec.setWidth_eq]

theorem inputs_eq (differ : assignment.same = false) {a b : BitVec 64}
    (known0 : assignment.in0.imm64? = some a) (known1 : assignment.in1.imm64? = some b) :
    assignment.input0.imm64? = some a ∧ assignment.input1.imm64? = some b := by
  unfold Assignment.input0 Assignment.input1
  rw [differ]
  exact ⟨known0, known1⟩

theorem sound_binary (valid : assignment.Valid row op w) (flagged : op ≠ .pxor)
    (differ : assignment.same = false) (run : BitVec w → BitVec w → AluResult w)
    (narrow : w ≤ 64) (source : op.sourceWidth w = w)
    (exec_eq : ∀ a b, op.exec w a b = run (a.setWidth w) (b.setWidth w))
    (defined : ∀ a b flag, ∃ value, (run a b).flags flag = .value value)
    (runs : Emulator.handler row.emulate = some (binary run))
    (imm : row.flags = .OfEmuImm) : SoundOutputs assignment row op w host := by
  cases applies : handlerApplies row.flags (assignment.dynInfo row) with
  | false => exact sound_of_not_applies applies
  | true =>
      have both := applies
      rw [imm, handlerApplies_imm valid, differ, Bool.false_or, Bool.and_eq_true] at both
      obtain ⟨a, known0⟩ := (DynamicValue.isImm_iff _).mp both.1
      obtain ⟨b, known1⟩ := (DynamicValue.isImm_iff _).mp both.2
      obtain ⟨input0, input1⟩ := inputs_eq differ known0 known1
      have ran := (dispatch_of_applies host runs applies).trans
        (binary_eq valid flagged host run input0 input1)
      refine (sound_iff valid ran).mpr ?_
      intro base x y old undef described0 described1 _same
      rw [source] at described1
      rw [exec_eq, describes_imm64 narrow known0 described0,
        describes_imm64 narrow known1 described1]
      refine ⟨fun _ => describes_narrow base narrow _, ?_⟩
      intro _flagged _write flag
      obtain ⟨value, effect⟩ := defined (a.setWidth w) (b.setWidth w) flag
      exact describes_hostFlags host base effect _ _

theorem sound_compare (valid : assignment.Valid row op w) (flagged : op ≠ .pxor)
    (differ : assignment.same = false) (noDestination : op.writesDestination = false)
    (run : BitVec w → BitVec w → AluResult w)
    (narrow : w ≤ 64) (source : op.sourceWidth w = w)
    (exec_eq : ∀ a b, op.exec w a b = run (a.setWidth w) (b.setWidth w))
    (defined : ∀ a b flag, ∃ value, (run a b).flags flag = .value value)
    (runs : Emulator.handler row.emulate = some (Emulator.compare run))
    (imm : row.flags = .OfEmuImm) : SoundOutputs assignment row op w host := by
  cases applies : handlerApplies row.flags (assignment.dynInfo row) with
  | false => exact sound_of_not_applies applies
  | true =>
      have both := applies
      rw [imm, handlerApplies_imm valid, differ, Bool.false_or, Bool.and_eq_true] at both
      obtain ⟨a, known0⟩ := (DynamicValue.isImm_iff _).mp both.1
      obtain ⟨b, known1⟩ := (DynamicValue.isImm_iff _).mp both.2
      obtain ⟨input0, input1⟩ := inputs_eq differ known0 known1
      have ran := (dispatch_of_applies host runs applies).trans
        (compare_eq valid flagged host run input0 input1)
      refine (sound_iff valid ran).mpr ?_
      intro base x y old undef described0 described1 _same
      rw [source] at described1
      rw [exec_eq, describes_imm64 narrow known0 described0,
        describes_imm64 narrow known1 described1]
      refine ⟨fun writes => absurd (noDestination.symm.trans writes) Bool.false_ne_true, ?_⟩
      intro _flagged _write flag
      obtain ⟨value, effect⟩ := defined (a.setWidth w) (b.setWidth w) flag
      exact describes_hostFlags host base effect _ _

theorem add_defined {v : Nat} (a b : BitVec v) (flag : Flag) :
    ∃ value, (Alu.add a b).flags flag = .value value := by
  cases flag <;> exact ⟨_, rfl⟩

theorem sub_defined {v : Nat} (a b : BitVec v) (flag : Flag) :
    ∃ value, (Alu.sub a b).flags flag = .value value := by
  cases flag <;> exact ⟨_, rfl⟩

theorem sub_self_flags (a : BitVec 64) :
    (Alu.sub a a).flags = (Alu.sub (0 : BitVec 64) 0).flags := by
  simp [Alu.sub, BitVec.ssubOverflow]

theorem parity_congr {v u : Nat} (x : BitVec v) (y : BitVec u)
    (same : x.setWidth 8 = y.setWidth 8) : Alu.parity x = Alu.parity y := by
  have bit (i : Nat) (below : i < 8) : x.getLsbD i = y.getLsbD i := by
    have found := congrArg (fun z => BitVec.getLsbD z i) same
    simpa [BitVec.getLsbD_setWidth, below] using found
  unfold Alu.parity
  rw [bit 0 (by omega), bit 1 (by omega), bit 2 (by omega), bit 3 (by omega), bit 4 (by omega),
    bit 5 (by omega), bit 6 (by omega), bit 7 (by omega)]

theorem sub_sign (a b : BitVec 64) {v : Nat} (positive : 0 < v) (narrow : v ≤ 64) :
    (a.setWidth v - b.setWidth v).msb = (a - b).getLsbD (v - 1) := by
  have cut : a.setWidth v - b.setWidth v = (a - b).setWidth v := by
    rw [BitVec.sub_eq_add_neg, BitVec.sub_eq_add_neg, BitVec.setWidth_add _ _ narrow,
      BitVec.setWidth_neg_of_le narrow]
  rw [cut, BitVec.msb_setWidth, decide_eq_true positive, Bool.true_and]

theorem slt_iff {v : Nat} (isNarrow : v = 8 ∨ v = 16) (x y : BitVec v) :
    x.slt y = true ↔ ¬ (BitVec.ssubOverflow x y = true ↔ (x - y).msb = true) := by
  have below : x.slt y = decide (x.toInt < y.toInt) := rfl
  have overflow : BitVec.ssubOverflow x y =
      (decide (2 ^ (v - 1) ≤ x.toInt - y.toInt) ||
        decide (x.toInt - y.toInt < - 2 ^ (v - 1))) := rfl
  rw [below, overflow, BitVec.msb_eq_decide, Bool.or_eq_true, BitVec.toNat_sub,
    BitVec.toInt_eq_toNat_cond, BitVec.toInt_eq_toNat_cond]
  simp only [decide_eq_true_eq]
  have left := x.isLt
  have right := y.isLt
  rcases isNarrow with rfl | rfl <;> omega

theorem sub_beq_zero {v : Nat} (x y : BitVec v) : (x - y == 0) = true ↔ x = y := by
  rw [beq_iff_eq, sub_eq_zero]

theorem iff_of_not_iff {p q r : Prop} (same : ¬ (p ↔ r) ↔ ¬ (q ↔ r)) : q ↔ p := by
  tauto

/-- Comparing eight bits as sixteen bits gives the right flags for numbers that are
ordered alike only. -/
theorem cmp8_as_cmp16 (a b : BitVec 64) :
    (∀ flag, (Alu.sub (a.setWidth 16) (b.setWidth 16)).flags flag =
      (Alu.sub (a.setWidth 8) (b.setWidth 8)).flags flag) ↔ OrderedAlike a b := by
  have sign8 := sub_sign a b (v := 8) (by omega) (by omega)
  have sign16 := sub_sign a b (v := 16) (by omega) (by omega)
  have less8 := slt_iff (Or.inl rfl) (a.setWidth 8) (b.setWidth 8)
  have less16 := slt_iff (Or.inr rfl) (a.setWidth 16) (b.setWidth 16)
  constructor
  · intro same
    have equal := FlagEffect.value.inj (same .ZF)
    have below := FlagEffect.value.inj (same .CF)
    have sign := FlagEffect.value.inj (same .SF)
    have overflow := FlagEffect.value.inj (same .OF)
    refine
      { equal := ?_
        below := below.symm
        less := ?_
        sign := ?_ }
    · rw [← sub_beq_zero, ← sub_beq_zero, equal]
    · rw [Bool.eq_iff_iff, less8, less16, overflow, sign]
    · rw [← sign8, ← sign16, sign]
  · intro alike flag
    have sign : (a.setWidth 16 - b.setWidth 16).msb = (a.setWidth 8 - b.setWidth 8).msb := by
      rw [sign8, sign16, alike.sign]
    cases flag with
    | CF => exact congrArg FlagEffect.value alike.below.symm
    | PF =>
        refine congrArg FlagEffect.value (parity_congr _ _ ?_)
        apply BitVec.eq_of_toNat_eq
        simp only [BitVec.toNat_setWidth, BitVec.toNat_sub]
        omega
    | AF =>
        refine congrArg FlagEffect.value ?_
        simp only [BitVec.toNat_setWidth]
        rw [Nat.mod_mod_of_dvd _ (by decide), Nat.mod_mod_of_dvd _ (by decide),
          Nat.mod_mod_of_dvd _ (by decide), Nat.mod_mod_of_dvd _ (by decide)]
    | ZF =>
        refine congrArg FlagEffect.value ?_
        rw [Bool.eq_iff_iff, sub_beq_zero, sub_beq_zero]
        exact alike.equal.symm
    | SF => exact congrArg FlagEffect.value sign
    | OF =>
        refine congrArg FlagEffect.value ?_
        have less := alike.less
        rw [Bool.eq_iff_iff, less8, less16, sign] at less
        exact Bool.eq_iff_iff.mpr (iff_of_not_iff less)

theorem describes_own {v : Nat} (narrow : v ≤ 64) (base : DynamicValue.PtrBase)
    {value : DynamicValue} {imm : BitVec 64} (known : value.imm64? = some imm) :
    value.Describes base ((imm.setWidth 128).setWidth v) := by
  rw [BitVec.setWidth_setWidth_of_le imm (by omega)]
  cases value with
  | imm64 val =>
      cases known
      rfl
  | imm128 val =>
      cases known
      exact BitVec.setWidth_setWidth_of_le val narrow
  | dead => cases known
  | unknown => cases known
  | tainted => cases known
  | ptr type nr ptrOffset => cases known

theorem flagMode_write (valid : assignment.Valid row op w) (noShift : op ≠ .shl ∧ op ≠ .shr) :
    assignment.flagMode row = .Write := by
  unfold Assignment.flagMode
  rw [if_neg]
  intro refined
  rcases valid.shape.shift.mp refined with shl | shr
  · exact noShift.1 shl
  · exact noShift.2 shr

/-- `CMP8ri` runs the handler for sixteen bits. -/
theorem sound_cmp8ri (valid : assignment.Valid row .cmp 8)
    (differ : assignment.same = false) (runs : row.emulate = .cmp16)
    (imm : row.flags = .OfEmuImm) :
    SoundOutputs assignment row .cmp 8 host ↔
      ∀ a b, assignment.in0.imm64? = some a → assignment.in1.imm64? = some b →
        OrderedAlike a b := by
  have handler : Emulator.handler row.emulate =
      some (Emulator.compare (w := 16) Alu.sub) := by
    rw [runs]
    rfl
  cases applies : handlerApplies row.flags (assignment.dynInfo row) with
  | false =>
      have notBoth := applies
      rw [imm, handlerApplies_imm valid, differ, Bool.false_or] at notBoth
      refine ⟨fun _ => ?_, fun _ => sound_of_not_applies applies⟩
      intro a b known0 known1
      rw [(DynamicValue.isImm_iff _).mpr ⟨a, known0⟩,
        (DynamicValue.isImm_iff _).mpr ⟨b, known1⟩] at notBoth
      cases notBoth
  | true =>
      have both := applies
      rw [imm, handlerApplies_imm valid, differ, Bool.false_or, Bool.and_eq_true] at both
      obtain ⟨a, known0⟩ := (DynamicValue.isImm_iff _).mp both.1
      obtain ⟨b, known1⟩ := (DynamicValue.isImm_iff _).mp both.2
      obtain ⟨input0, input1⟩ := inputs_eq differ known0 known1
      have ran := (dispatch_of_applies host handler applies).trans
        (compare_eq valid (by decide) host (v := 16) Alu.sub input0 input1)
      have write := flagMode_write valid (by decide)
      have alike : (∀ x y, assignment.in0.imm64? = some x → assignment.in1.imm64? = some y →
          OrderedAlike x y) ↔ OrderedAlike a b := by
        constructor
        · intro each
          exact each a b known0 known1
        · intro alike x y knownX knownY
          cases known0.symm.trans knownX
          cases known1.symm.trans knownY
          exact alike
      rw [sound_iff valid ran, alike, ← cmp8_as_cmp16 a b]
      constructor
      · intro sound flag
        have described := (sound (fun _ _ => 0) (a.setWidth 128) (b.setWidth 128)
          (fun _ => false) (fun _ => false) (describes_own (by omega) _ known0)
          (describes_own (by decide) _ known1)
          (fun same => absurd (differ.symm.trans same) Bool.false_ne_true)).2 (by decide)
          (by rw [write]; rfl) flag
        have equal := (describes_ofBool _ _ _).mp described
        change host.readEflags _ flag = FlagEffect.resolve ((Alu.sub
          ((a.setWidth 128).setWidth 8) ((b.setWidth 128).setWidth 8)).flags flag) _ _ at equal
        rw [BitVec.setWidth_setWidth_of_le a (by omega),
          BitVec.setWidth_setWidth_of_le b (by omega)] at equal
        obtain ⟨value16, effect16⟩ := sub_defined (a.setWidth 16) (b.setWidth 16) flag
        obtain ⟨value8, effect8⟩ := sub_defined (a.setWidth 8) (b.setWidth 8) flag
        unfold Host.readEflags at equal
        rw [effect16, effect8] at equal ⊢
        exact congrArg FlagEffect.value equal
      · intro sameFlags base x y old undef described0 described1 _same
        refine ⟨fun writes => absurd writes Bool.false_ne_true, ?_⟩
        intro _flagged _write flag
        refine (describes_ofBool base _ _).mpr ?_
        change _ = FlagEffect.resolve ((Alu.sub (x.setWidth 8) (y.setWidth 8)).flags flag) _ _
        have left : x.setWidth 8 = a.setWidth 8 := describes_imm64 (by omega) known0 described0
        have right : y.setWidth 8 = b.setWidth 8 := describes_imm64 (by omega) known1 described1
        rw [left, right]
        obtain ⟨value8, effect8⟩ := sub_defined (a.setWidth 8) (b.setWidth 8) flag
        have effect16 := (sameFlags flag).trans effect8
        unfold Host.readEflags
        change FlagEffect.resolve _ _ _ = FlagEffect.resolve
          ((Alu.sub (a.setWidth 8) (b.setWidth 8)).flags flag) _ _
        rw [effect16, effect8]
        rfl

/-! ### Pointers -/

theorem eq_imm_of_imm64? {value : DynamicValue} {imm : BitVec 64}
    (known : value.imm64? = some imm) :
    value = .imm64 imm ∨ ∃ wide : BitVec 128, value = .imm128 wide ∧ imm = wide.setWidth 64 := by
  cases value with
  | imm64 val =>
      cases known
      exact Or.inl rfl
  | imm128 val =>
      cases known
      exact Or.inr ⟨val, rfl, rfl⟩
  | dead => cases known
  | unknown => cases known
  | tainted => cases known
  | ptr type nr ptrOffset => cases known

theorem pointerArith_imm (valid : assignment.Valid row op w) (flagged : op ≠ .pxor)
    (run : BitVec 64 → BitVec 64 → AluResult 64) {a b : BitVec 64}
    (known0 : assignment.input0.imm64? = some a) (known1 : assignment.input1.imm64? = some b) :
    pointerArith run host (assignment.start row) =
      .ok (assignment.operands row (.imm64 (run a b).value)
        (hostFlags host (run a b).flags), .Ok) := by
  unfold pointerArith
  rw [valid.input_start0, valid.input_start1]
  dsimp only [bind, Except.bind]
  rcases eq_imm_of_imm64? known0 with left | ⟨wide0, left, rfl⟩ <;>
    rcases eq_imm_of_imm64? known1 with right | ⟨wide1, right, rfl⟩ <;>
    rw [left, right] <;> dsimp only [DynamicValue.imm64?] <;> rw [setOutput_start] <;>
    dsimp only <;> rw [setEflags_operands valid flagged]

theorem pointerArith_ptr (valid : assignment.Valid row op w)
    (run : BitVec 64 → BitVec 64 → AluResult 64) {type : PtrType} {nr : Nat}
    {ptrOffset b : BitVec 64} (pointer : assignment.input0 = .ptr type nr ptrOffset)
    (known1 : assignment.input1.imm64? = some b) :
    pointerArith run host (assignment.start row) =
      .ok (assignment.operands row (.ptr type nr (run ptrOffset b).value)
        (fun _ => .unknown), .Ok) := by
  unfold pointerArith
  rw [valid.input_start0, valid.input_start1, pointer]
  dsimp only [bind, Except.bind]
  rcases eq_imm_of_imm64? known1 with right | ⟨wide1, right, rfl⟩ <;>
    rw [right] <;> dsimp only [DynamicValue.imm64?] <;> rw [setOutput_start]

theorem pointerArith_swapped (valid : assignment.Valid row op w)
    (run : BitVec 64 → BitVec 64 → AluResult 64) {type : PtrType} {nr : Nat}
    {ptrOffset a : BitVec 64} (known0 : assignment.input0.imm64? = some a)
    (pointer : assignment.input1 = .ptr type nr ptrOffset) :
    pointerArith run host (assignment.start row) =
      .ok (assignment.operands row (.ptr type nr (run ptrOffset a).value)
        (fun _ => .unknown), .Ok) := by
  unfold pointerArith
  rw [valid.input_start0, valid.input_start1, pointer]
  dsimp only [bind, Except.bind]
  rcases eq_imm_of_imm64? known0 with left | ⟨wide0, left, rfl⟩ <;>
    rw [left] <;> dsimp only [DynamicValue.imm64?] <;> rw [setOutput_start]

theorem pointerArith_both (valid : assignment.Valid row op w)
    (run : BitVec 64 → BitVec 64 → AluResult 64) (pointer0 : assignment.input0.isPtr = true)
    (pointer1 : assignment.input1.isPtr = true) :
    ∃ output, (∀ (base : DynamicValue.PtrBase) (concrete : BitVec w),
        output.Describes base concrete) ∧
      pointerArith run host (assignment.start row) =
        .ok (assignment.operands row output (fun _ => .unknown), .Ok) := by
  unfold pointerArith
  rw [valid.input_start0, valid.input_start1]
  dsimp only [bind, Except.bind]
  cases left : assignment.input0 with
  | ptr type0 nr0 ptrOffset0 =>
      cases right : assignment.input1 with
      | ptr type1 nr1 ptrOffset1 =>
          dsimp only [DynamicValue.imm64?]
          refine ⟨_, ?_, by rw [setOutput_start]⟩
          intro base concrete
          split <;> trivial
      | dead => rw [right] at pointer1; cases pointer1
      | unknown => rw [right] at pointer1; cases pointer1
      | tainted => rw [right] at pointer1; cases pointer1
      | imm64 val => rw [right] at pointer1; cases pointer1
      | imm128 val => rw [right] at pointer1; cases pointer1
  | dead => rw [left] at pointer0; cases pointer0
  | unknown => rw [left] at pointer0; cases pointer0
  | tainted => rw [left] at pointer0; cases pointer0
  | imm64 val => rw [left] at pointer0; cases pointer0
  | imm128 val => rw [left] at pointer0; cases pointer0

theorem eq_ptr_of_isPtr {value : DynamicValue} (pointer : value.isPtr = true) :
    ∃ type nr ptrOffset, value = .ptr type nr ptrOffset := by
  cases value with
  | ptr type nr ptrOffset => exact ⟨type, nr, ptrOffset, rfl⟩
  | dead => cases pointer
  | unknown => cases pointer
  | tainted => cases pointer
  | imm64 val => cases pointer
  | imm128 val => cases pointer

theorem inputs_of_differ (differ : assignment.same = false) :
    assignment.input0 = assignment.in0 ∧ assignment.input1 = assignment.in1 := by
  unfold Assignment.input0 Assignment.input1
  rw [differ]
  exact ⟨rfl, rfl⟩

/-- A pointer plus or minus an immediate, and two immediates, as the handler for
addition or subtraction computes them. -/
theorem sound_pointerArith (valid : assignment.Valid row op 64) (flagged : op ≠ .pxor)
    (differ : assignment.same = false) (run : BitVec 64 → BitVec 64 → AluResult 64)
    (source : op.sourceWidth 64 = 64)
    (exec_eq : ∀ a b, op.exec 64 a b = run (a.setWidth 64) (b.setWidth 64))
    (defined : ∀ a b flag, ∃ value, (run a b).flags flag = .value value)
    (shift : ∀ base ptrOffset b, (run (base + ptrOffset) b).value =
      base + (run ptrOffset b).value)
    (runs : Emulator.handler row.emulate = some (pointerArith run))
    (pointers : row.flags = .OfEmuPtr)
    (swapped : assignment.in0.isImm = true → assignment.in1.isPtr = true →
      ∀ base a ptrOffset, (run a (base + ptrOffset)).value = base + (run ptrOffset a).value) :
    SoundOutputs assignment row op 64 host := by
  cases applies : handlerApplies row.flags (assignment.dynInfo row) with
  | false => exact sound_of_not_applies applies
  | true =>
      have both := applies
      rw [pointers, handlerApplies_ptr valid differ, Bool.and_eq_true, Bool.or_eq_true,
        Bool.or_eq_true] at both
      obtain ⟨input0, input1⟩ := inputs_of_differ differ
      have started := dispatch_of_applies host runs applies
      have vague (base : DynamicValue.PtrBase) (result : AluResult 64) (old undef : Eflags)
          (flag : Flag) : DynamicValue.Describes base .unknown
            (flagByte ((result.flags flag).resolve (old flag) (undef flag))) := trivial
      rcases both.1 with imm0 | ptr0
      · obtain ⟨a, known0⟩ := (DynamicValue.isImm_iff _).mp imm0
        rcases both.2 with imm1 | ptr1
        · obtain ⟨b, known1⟩ := (DynamicValue.isImm_iff _).mp imm1
          have ran := started.trans (pointerArith_imm valid flagged run
            (input0 ▸ known0) (input1 ▸ known1))
          refine (sound_iff valid ran).mpr ?_
          intro base x y old undef described0 described1 _same
          rw [source] at described1
          have left : x.setWidth 64 = a := by
            rw [describes_imm64 (le_refl 64) known0 described0, BitVec.setWidth_eq]
          have right : y.setWidth 64 = b := by
            rw [describes_imm64 (le_refl 64) known1 described1, BitVec.setWidth_eq]
          rw [exec_eq, left, right]
          refine ⟨fun _ => (BitVec.setWidth_eq _).symm, ?_⟩
          intro _flagged _write flag
          obtain ⟨value, effect⟩ := defined a b flag
          exact describes_hostFlags host base effect _ _
        · obtain ⟨type, nr, ptrOffset, pointer⟩ := eq_ptr_of_isPtr ptr1
          have ran := started.trans (pointerArith_swapped valid run
            (input0 ▸ known0) (input1.trans pointer))
          refine (sound_iff valid ran).mpr ?_
          intro base x y old undef described0 described1 _same
          rw [source, pointer] at described1
          have left : x.setWidth 64 = a := by
            rw [describes_imm64 (le_refl 64) known0 described0, BitVec.setWidth_eq]
          have right : y.setWidth 64 = base type nr + ptrOffset := by
            have found : y.setWidth 64 = (base type nr + ptrOffset).setWidth 64 := described1
            rwa [BitVec.setWidth_eq] at found
          rw [exec_eq, left, right]
          refine ⟨fun _ => ?_, fun _ _ flag => vague base _ old undef flag⟩
          change _ = (base type nr + (run ptrOffset a).value).setWidth 64
          rw [BitVec.setWidth_eq, swapped imm0 ptr1]
      · obtain ⟨type, nr, ptrOffset, pointer⟩ := eq_ptr_of_isPtr ptr0
        rcases both.2 with imm1 | ptr1
        · obtain ⟨b, known1⟩ := (DynamicValue.isImm_iff _).mp imm1
          have ran := started.trans (pointerArith_ptr valid run
            (input0.trans pointer) (input1 ▸ known1))
          refine (sound_iff valid ran).mpr ?_
          intro base x y old undef described0 described1 _same
          rw [source] at described1
          rw [pointer] at described0
          have left : x.setWidth 64 = base type nr + ptrOffset := by
            have found : x.setWidth 64 = (base type nr + ptrOffset).setWidth 64 := described0
            rwa [BitVec.setWidth_eq] at found
          have right : y.setWidth 64 = b := by
            rw [describes_imm64 (le_refl 64) known1 described1, BitVec.setWidth_eq]
          rw [exec_eq, left, right]
          refine ⟨fun _ => ?_, fun _ _ flag => vague base _ old undef flag⟩
          change _ = (base type nr + (run ptrOffset b).value).setWidth 64
          rw [BitVec.setWidth_eq, shift]
        · obtain ⟨output, describes, returned⟩ := pointerArith_both valid run
            (input0 ▸ ptr0) (input1 ▸ ptr1)
          refine (sound_iff valid (started.trans returned)).mpr ?_
          intro base x y old undef _described0 _described1 _same
          exact ⟨fun _ => describes base _, fun _ _ flag => vague base _ old undef flag⟩

theorem not_sound_sub64 (valid : assignment.Valid row .sub 64)
    (differ : assignment.same = false)
    (runs : Emulator.handler row.emulate = some sub64)
    (pointers : row.flags = .OfEmuPtr) (imm0 : assignment.in0.isImm = true)
    (ptr1 : assignment.in1.isPtr = true) : ¬ SoundOutputs assignment row .sub 64 host := by
  obtain ⟨a, known0⟩ := (DynamicValue.isImm_iff _).mp imm0
  obtain ⟨type, nr, ptrOffset, pointer⟩ := eq_ptr_of_isPtr ptr1
  obtain ⟨input0, input1⟩ := inputs_of_differ differ
  have applies : handlerApplies row.flags (assignment.dynInfo row) = true := by
    rw [pointers, handlerApplies_ptr valid differ, imm0, ptr1, Bool.true_or, Bool.or_true]
    rfl
  have ran := (dispatch_of_applies host runs applies).trans
    (pointerArith_swapped valid Alu.sub (input0 ▸ known0)
      (input1.trans pointer))
  rw [sound_iff valid ran]
  intro sound
  -- with this base the difference is -1, and the pointer describes 1
  have described := (sound (fun _ _ => a + 1 - ptrOffset) (a.setWidth 128)
    ((a + 1).setWidth 128) (fun _ => false) (fun _ => false)
    (describes_own (le_refl 64) _ known0)
    (by
      rw [pointer]
      change ((a + 1).setWidth 128).setWidth 64 = (a + 1 - ptrOffset + ptrOffset).setWidth 64
      rw [BitVec.sub_add_cancel, BitVec.setWidth_setWidth_of_le _ (by omega)])
    (fun same => absurd (differ.symm.trans same) Bool.false_ne_true)).1 rfl
  change (a.setWidth 128).setWidth 64 - ((a + 1).setWidth 128).setWidth 64 =
    (a + 1 - ptrOffset + (ptrOffset - a)).setWidth 64 at described
  rw [BitVec.setWidth_setWidth_of_le _ (by omega), BitVec.setWidth_setWidth_of_le _ (by omega),
    BitVec.setWidth_eq, BitVec.setWidth_eq, BitVec.setWidth_eq] at described
  bv_omega

/-! ### Comparisons of pointers -/

theorem cmp64_imm (valid : assignment.Valid row .cmp 64) {a b : BitVec 64}
    (known0 : assignment.input0.imm64? = some a) (known1 : assignment.input1.imm64? = some b) :
    cmp64 host (assignment.start row) =
      .ok (assignment.operands row .unknown (hostFlags host (Alu.sub a b).flags), .Ok) := by
  unfold cmp64
  rw [valid.input_start0, valid.input_start1]
  dsimp only [bind, Except.bind]
  rcases eq_imm_of_imm64? known0 with left | ⟨wide0, left, rfl⟩ <;>
    rcases eq_imm_of_imm64? known1 with right | ⟨wide1, right, rfl⟩ <;>
    rw [left, right] <;> dsimp only [DynamicValue.imm64?] <;>
    rw [setEflags_operands valid (by decide)]

theorem cmp64_same (valid : assignment.Valid row .cmp 64) {type : PtrType} {nr : Nat}
    {ptrOffset0 ptrOffset1 : BitVec 64} (pointer0 : assignment.input0 = .ptr type nr ptrOffset0)
    (pointer1 : assignment.input1 = .ptr type nr ptrOffset1) :
    cmp64 host (assignment.start row) =
      .ok (assignment.operands row .unknown
        (hostFlags host (Alu.sub ptrOffset0 ptrOffset1).flags), .Ok) := by
  unfold cmp64
  rw [valid.input_start0, valid.input_start1, pointer0, pointer1]
  dsimp only [bind, Except.bind, DynamicValue.imm64?]
  rw [if_pos ⟨rfl, rfl⟩, setEflags_operands valid (by decide)]

theorem cmp64_other (valid : assignment.Valid row .cmp 64)
    (notImm : ¬ (assignment.input0.isImm = true ∧ assignment.input1.isImm = true))
    (notSame : ∀ type nr ptrOffset0 ptrOffset1, assignment.input0 = .ptr type nr ptrOffset0 →
      assignment.input1 ≠ .ptr type nr ptrOffset1) :
    cmp64 host (assignment.start row) = .ok (assignment.start row, .Ok) := by
  unfold cmp64
  rw [valid.input_start0, valid.input_start1]
  dsimp only [bind, Except.bind]
  cases left : assignment.input0 <;> cases right : assignment.input1 <;>
    rw [left, right] at notImm <;> dsimp only [DynamicValue.imm64?]
  case ptr.ptr type0 nr0 ptrOffset0 type1 nr1 ptrOffset1 =>
    rw [if_neg]
    rintro ⟨rfl, rfl⟩
    exact notSame _ _ _ _ left right
  all_goals exact absurd ⟨rfl, rfl⟩ notImm

/-- Flags computed from two offsets say nothing about the pointers if these differ:
one base makes the first address zero, another one the second. -/
theorem sub_flags_of_ptr (valid : assignment.Valid row .cmp 64)
    (differ : assignment.same = false) {type : PtrType} {nr : Nat}
    {ptrOffset0 ptrOffset1 : BitVec 64} (pointer0 : assignment.in0 = .ptr type nr ptrOffset0)
    (pointer1 : assignment.in1 = .ptr type nr ptrOffset1)
    (ran : dispatch row host (assignment.dynInfo row) =
      .ok (assignment.operands row .unknown
        (hostFlags host (Alu.sub ptrOffset0 ptrOffset1).flags), .Ok)) :
    SoundOutputs assignment row .cmp 64 host ↔ ptrOffset0 = ptrOffset1 := by
  have wide (value : BitVec 64) : (value.setWidth 128).setWidth 64 = value := by
    rw [BitVec.setWidth_setWidth_of_le _ (by omega), BitVec.setWidth_eq]
  rw [sound_iff valid ran]
  constructor
  · intro sound
    have write := flagMode_write valid (by decide)
    have carry (base : BitVec 64) : (Alu.sub ptrOffset0 ptrOffset1).flags .CF =
        (Alu.sub (base + ptrOffset0) (base + ptrOffset1)).flags .CF := by
      have described := (sound (fun _ _ => base) ((base + ptrOffset0).setWidth 128)
        ((base + ptrOffset1).setWidth 128) (fun _ => false) (fun _ => false)
        (by
          rw [pointer0, wide]
          exact (BitVec.setWidth_eq _).symm)
        (by
          rw [pointer1]
          change _ = (base + ptrOffset1).setWidth 64
          rw [BitVec.setWidth_eq]
          exact wide _)
        (fun same => absurd (differ.symm.trans same) Bool.false_ne_true)).2 (by decide)
        (by rw [write]; rfl) .CF
      have equal := (describes_ofBool _ _ _).mp described
      change FlagEffect.resolve ((Alu.sub ptrOffset0 ptrOffset1).flags .CF) _ _ =
        FlagEffect.resolve ((Alu.sub (((base + ptrOffset0).setWidth 128).setWidth 64)
          (((base + ptrOffset1).setWidth 128).setWidth 64)).flags .CF) _ _ at equal
      rw [wide, wide] at equal
      exact congrArg FlagEffect.value equal
    have zero := (carry (-ptrOffset0)).symm.trans (carry (-ptrOffset1))
    have below := FlagEffect.value.inj zero
    rw [decide_eq_decide] at below
    bv_omega
  · rintro rfl base x y old undef described0 described1 _same
    refine ⟨fun writes => absurd writes Bool.false_ne_true, ?_⟩
    intro _flagged _write flag
    refine (describes_ofBool base _ _).mpr ?_
    have left : x.setWidth 64 = base type nr + ptrOffset0 := by
      rw [pointer0] at described0
      have found : x.setWidth 64 = (base type nr + ptrOffset0).setWidth 64 := described0
      rwa [BitVec.setWidth_eq] at found
    have right : y.setWidth 64 = base type nr + ptrOffset0 := by
      rw [pointer1] at described1
      have found : y.setWidth 64 = (base type nr + ptrOffset0).setWidth 64 := described1
      rwa [BitVec.setWidth_eq] at found
    change _ = FlagEffect.resolve ((Alu.sub (x.setWidth 64) (y.setWidth 64)).flags flag) _ _
    rw [left, right, sub_self_flags, sub_self_flags (base type nr + ptrOffset0)]
    obtain ⟨value, effect⟩ := sub_defined (0 : BitVec 64) 0 flag
    unfold Host.readEflags
    rw [effect]
    rfl

theorem sound_cmp64 (valid : assignment.Valid row .cmp 64)
    (differ : assignment.same = false)
    (runs : Emulator.handler row.emulate = some cmp64) (pointers : row.flags = .OfEmuPtr) :
    SoundOutputs assignment row .cmp 64 host ↔
      ∀ type nr ptrOffset0 ptrOffset1, assignment.in0 = .ptr type nr ptrOffset0 →
        assignment.in1 = .ptr type nr ptrOffset1 → ptrOffset0 = ptrOffset1 := by
  obtain ⟨input0, input1⟩ := inputs_of_differ differ
  cases applies : handlerApplies row.flags (assignment.dynInfo row) with
  | false =>
      refine ⟨fun _ => ?_, fun _ => sound_of_not_applies applies⟩
      intro type nr ptrOffset0 ptrOffset1 pointer0 pointer1
      rw [pointers, handlerApplies_ptr valid differ, pointer0, pointer1] at applies
      cases applies
  | true =>
      have started := dispatch_of_applies host runs applies
      by_cases imms : assignment.in0.isImm = true ∧ assignment.in1.isImm = true
      · obtain ⟨a, known0⟩ := (DynamicValue.isImm_iff _).mp imms.1
        obtain ⟨b, known1⟩ := (DynamicValue.isImm_iff _).mp imms.2
        have ran := started.trans
          (cmp64_imm valid (input0 ▸ known0) (input1 ▸ known1))
        refine iff_of_true ((sound_iff valid ran).mpr ?_) ?_
        · intro base x y old undef described0 described1 _same
          refine ⟨fun writes => absurd writes Bool.false_ne_true, ?_⟩
          intro _flagged _write flag
          have left : x.setWidth 64 = a := by
            rw [describes_imm64 (le_refl 64) known0 described0, BitVec.setWidth_eq]
          have right : y.setWidth 64 = b :=
            (describes_imm64 (le_refl 64) known1 described1).trans (BitVec.setWidth_eq b)
          change DynamicValue.Describes base _ (flagByte (FlagEffect.resolve
            ((Alu.sub (x.setWidth 64) (y.setWidth 64)).flags flag) _ _))
          rw [left, right]
          obtain ⟨value, effect⟩ := sub_defined a b flag
          exact describes_hostFlags host base effect _ _
        · intro type nr ptrOffset0 ptrOffset1 pointer0
          rw [pointer0] at known0
          cases known0
      · by_cases pair : ∃ type nr ptrOffset0 ptrOffset1,
            assignment.in0 = .ptr type nr ptrOffset0 ∧ assignment.in1 = .ptr type nr ptrOffset1
        · obtain ⟨type, nr, ptrOffset0, ptrOffset1, pointer0, pointer1⟩ := pair
          have ran := started.trans (cmp64_same valid
            (input0.trans pointer0) (input1.trans pointer1))
          rw [sub_flags_of_ptr valid differ pointer0 pointer1 ran]
          constructor
          · rintro equal other nr' first second left right
            rw [pointer0] at left
            rw [pointer1] at right
            cases left
            cases right
            exact equal
          · intro equal
            exact equal type nr ptrOffset0 ptrOffset1 pointer0 pointer1
        · have notSame : ∀ type nr ptrOffset0 ptrOffset1,
              assignment.in0 = .ptr type nr ptrOffset0 →
              assignment.in1 ≠ .ptr type nr ptrOffset1 :=
            fun type nr first second left right => pair ⟨type, nr, first, second, left, right⟩
          have ran := started.trans (cmp64_other valid
            (by rwa [input0, input1]) (by rwa [input0, input1]))
          refine iff_of_true ((sound_iff valid ran).mpr ?_) ?_
          · intro base x y old undef _described0 _described1 _same
            exact ⟨fun writes => absurd writes Bool.false_ne_true, fun _ _ _ => trivial⟩
          · intro type nr ptrOffset0 ptrOffset1 left right
            exact absurd right (notSame type nr ptrOffset0 ptrOffset1 left)

end Sound

end AluEmulation

end Drob
