import Drob.Instruction.LogicSoundness

/-!
Which rows of the opcode table are emulated soundly, and for which inputs.
-/

namespace Drob

namespace AluEmulation

open Emulator

variable {assignment : Assignment} {row : OpcodeInfo} {op : AluOp} {w : Nat} {host : Host}

theorem Assignment.Valid.differ (valid : assignment.Valid row op w)
    (noXor : op ≠ .xor ∧ op ≠ .pxor) : assignment.same = false := by
  by_contra same
  rcases valid.same_op (Bool.not_eq_false _ ▸ same) with isXor | isPxor
  · exact noXor.1 isXor
  · exact noXor.2 isPxor

/-- The handler of a row that is not the one of `CMP8ri`. -/
theorem Assignment.Valid.runs (valid : assignment.Valid row op w)
    (other : assignment.opcode ≠ .CMP8ri) :
    Emulator.handler row.emulate = Emulator.handler (handlerOf op w).1 ∧
      row.flags = (handlerOf op w).2 := by
  have found := row_handler valid.row_eq valid.kind_eq
  rw [if_neg other] at found
  exact ⟨congrArg _ found.1, found.2⟩

theorem ne_CMP8ri (valid : assignment.Valid row op w) (different : ¬ (op = .cmp ∧ w = 8)) :
    assignment.opcode ≠ .CMP8ri := by
  intro isCmp8
  have kind := valid.kind_eq
  rw [isCmp8] at kind
  cases kind
  exact different ⟨rfl, rfl⟩

theorem sound_add (valid : assignment.Valid row .add w) :
    SoundOutputs assignment row .add w host := by
  have differ := valid.differ (by decide)
  obtain ⟨runs, flags⟩ := valid.runs (ne_CMP8ri valid (by simp))
  have width := width_mem valid.kind_eq
  simp only [widths, List.mem_cons, List.not_mem_nil, or_false] at width
  rcases width with rfl | rfl | rfl | rfl
  · exact sound_binary valid (by decide) differ Alu.add (by omega) rfl (fun _ _ => rfl)
      add_defined runs flags
  · exact sound_binary valid (by decide) differ Alu.add (by omega) rfl (fun _ _ => rfl)
      add_defined runs flags
  · exact sound_binary valid (by decide) differ Alu.add (by omega) rfl (fun _ _ => rfl)
      add_defined runs flags
  · exact sound_pointerArith valid (by decide) differ Alu.add rfl (fun _ _ => rfl) add_defined
      (fun base ptrOffset b => BitVec.add_assoc base ptrOffset b) runs flags
      (fun _ _ base a ptrOffset => by
        change a + (base + ptrOffset) = base + (ptrOffset + a)
        rw [BitVec.add_comm, BitVec.add_assoc])

theorem sound_sub (valid : assignment.Valid row .sub w) :
    SoundOutputs assignment row .sub w host ↔
      (w = 64 → ¬ (assignment.in0.isImm = true ∧ assignment.in1.isPtr = true)) := by
  have differ := valid.differ (by decide)
  obtain ⟨runs, flags⟩ := valid.runs (ne_CMP8ri valid (by simp))
  have width := width_mem valid.kind_eq
  simp only [widths, List.mem_cons, List.not_mem_nil, or_false] at width
  rcases width with rfl | rfl | rfl | rfl
  · exact iff_of_true (sound_binary valid (by decide) differ Alu.sub (by omega) rfl
      (fun _ _ => rfl) sub_defined runs flags) (fun impossible => by omega)
  · exact iff_of_true (sound_binary valid (by decide) differ Alu.sub (by omega) rfl
      (fun _ _ => rfl) sub_defined runs flags) (fun impossible => by omega)
  · exact iff_of_true (sound_binary valid (by decide) differ Alu.sub (by omega) rfl
      (fun _ _ => rfl) sub_defined runs flags) (fun impossible => by omega)
  · constructor
    · rintro sound _ ⟨imm0, ptr1⟩
      exact not_sound_sub64 valid differ runs flags imm0 ptr1 sound
    · intro condition
      refine sound_pointerArith valid (by decide) differ Alu.sub rfl (fun _ _ => rfl) sub_defined
        ?_ runs flags (fun imm0 ptr1 => absurd ⟨imm0, ptr1⟩ (condition rfl))
      intro base ptrOffset b
      change base + ptrOffset - b = base + (ptrOffset - b)
      bv_omega

theorem sound_cmp (valid : assignment.Valid row .cmp w) :
    SoundOutputs assignment row .cmp w host ↔
      (assignment.opcode = .CMP8ri → ∀ a b, assignment.in0.imm64? = some a →
        assignment.in1.imm64? = some b → OrderedAlike a b) ∧
        (w = 64 → ∀ type nr ptrOffset0 ptrOffset1,
          assignment.in0 = .ptr type nr ptrOffset0 →
          assignment.in1 = .ptr type nr ptrOffset1 → ptrOffset0 = ptrOffset1) := by
  have differ := valid.differ (by decide)
  by_cases isCmp8 : assignment.opcode = .CMP8ri
  · have kind := valid.kind_eq
    rw [isCmp8] at kind
    cases kind
    have found := row_handler valid.row_eq valid.kind_eq
    rw [if_pos isCmp8] at found
    rw [sound_cmp8ri valid differ found.1 found.2]
    exact ⟨fun same => ⟨fun _ => same, fun impossible => by omega⟩,
      fun condition => condition.1 isCmp8⟩
  · obtain ⟨runs, flags⟩ := valid.runs isCmp8
    have width := width_mem valid.kind_eq
    simp only [widths, List.mem_cons, List.not_mem_nil, or_false] at width
    rcases width with rfl | rfl | rfl | rfl
    · exact iff_of_true (sound_compare valid (by decide) differ rfl Alu.sub (by omega) rfl
        (fun _ _ => rfl) sub_defined runs flags)
        ⟨fun impossible => absurd impossible isCmp8, fun impossible => by omega⟩
    · exact iff_of_true (sound_compare valid (by decide) differ rfl Alu.sub (by omega) rfl
        (fun _ _ => rfl) sub_defined runs flags)
        ⟨fun impossible => absurd impossible isCmp8, fun impossible => by omega⟩
    · exact iff_of_true (sound_compare valid (by decide) differ rfl Alu.sub (by omega) rfl
        (fun _ _ => rfl) sub_defined runs flags)
        ⟨fun impossible => absurd impossible isCmp8, fun impossible => by omega⟩
    · rw [sound_cmp64 valid differ runs flags]
      exact ⟨fun offsets => ⟨fun impossible => absurd impossible isCmp8, fun _ => offsets⟩,
        fun condition => condition.2 rfl⟩

theorem sound_tests (valid : assignment.Valid row .test w) :
    SoundOutputs assignment row .test w host := by
  have differ := valid.differ (by decide)
  obtain ⟨runs, flags⟩ := valid.runs (ne_CMP8ri valid (by simp))
  have width := width_mem valid.kind_eq
  simp only [widths, List.mem_cons, List.not_mem_nil, or_false] at width
  rcases width with rfl | rfl | rfl | rfl
  · exact sound_test valid differ (by omega) runs flags
  · exact sound_test valid differ (by omega) runs flags
  · exact sound_test valid differ (by omega) runs flags
  · exact sound_test valid differ (by omega) runs flags

theorem sound_xors (valid : assignment.Valid row .xor w) :
    SoundOutputs assignment row .xor w host ↔
      assignment.same = false ∧
        ¬ (assignment.in0.isImm = true ∧ assignment.in1.isImm = true) := by
  obtain ⟨runs, flags⟩ := valid.runs (ne_CMP8ri valid (by simp))
  have width := width_mem valid.kind_eq
  simp only [widths, List.mem_cons, List.not_mem_nil, or_false] at width
  rcases width with rfl | rfl
  · exact sound_xor valid (by omega) runs flags
  · exact sound_xor valid (by omega) runs flags

theorem exec_shl (a b : BitVec 128) :
    AluOp.shl.exec 64 a b = Alu.shl64 (a.setWidth 64) (b.setWidth 8) := by
  unfold AluOp.exec
  dsimp only
  rw [BitVec.setWidth_eq]

theorem exec_shr (a b : BitVec 128) :
    AluOp.shr.exec 64 a b = Alu.shr64 (a.setWidth 64) (b.setWidth 8) := by
  unfold AluOp.exec
  dsimp only
  rw [BitVec.setWidth_eq]

theorem soundOutputs_iff (host : Host) (valid : assignment.Valid row op w)
    (counted : shiftsByCl assignment.opcode = false) :
    SoundOutputs assignment row op w host ↔ Emulated assignment := by
  unfold Emulated
  rw [valid.kind_eq]
  cases op with
  | add => exact iff_of_true (sound_add valid) trivial
  | test => exact iff_of_true (sound_tests valid) trivial
  | sub =>
      rw [sound_sub valid]
      have width := width_mem valid.kind_eq
      simp only [widths, List.mem_cons, List.not_mem_nil, or_false] at width
      rcases width with rfl | rfl | rfl | rfl
      · exact iff_of_true (fun impossible => by omega) trivial
      · exact iff_of_true (fun impossible => by omega) trivial
      · exact iff_of_true (fun impossible => by omega) trivial
      · exact ⟨fun condition => condition rfl, fun condition _ => condition⟩
  | cmp =>
      rw [sound_cmp valid]
      have width := width_mem valid.kind_eq
      simp only [widths, List.mem_cons, List.not_mem_nil, or_false] at width
      rcases width with rfl | rfl | rfl | rfl
      · exact ⟨fun condition => condition.1,
          fun condition => ⟨condition, fun impossible => by omega⟩⟩
      · exact iff_of_true ⟨fun isCmp8 => absurd isCmp8 (ne_CMP8ri valid (by simp)),
          fun impossible => by omega⟩ trivial
      · exact iff_of_true ⟨fun isCmp8 => absurd isCmp8 (ne_CMP8ri valid (by simp)),
          fun impossible => by omega⟩ trivial
      · exact ⟨fun condition => condition.2 rfl, fun condition =>
          ⟨fun isCmp8 => absurd isCmp8 (ne_CMP8ri valid (by simp)), fun _ => condition⟩⟩
  | xor => exact sound_xors valid
  | pxor =>
      obtain ⟨runs, flags⟩ := valid.runs (ne_CMP8ri valid (by simp))
      have width := width_mem valid.kind_eq
      simp only [widths, List.mem_cons, List.not_mem_nil, or_false] at width
      subst width
      exact sound_pxor valid runs flags
  | shl =>
      have differ := valid.differ (by decide)
      obtain ⟨runs, flags⟩ := valid.runs (ne_CMP8ri valid (by simp))
      have width := width_mem valid.kind_eq
      simp only [widths, List.mem_cons, List.not_mem_nil, or_false] at width
      subst width
      rw [sound_shift valid (Or.inl rfl) counted differ shl64_spec exec_shl runs flags]
      exact ⟨fun condition => ⟨counted, condition⟩, fun condition => condition.2⟩
  | shr =>
      have differ := valid.differ (by decide)
      obtain ⟨runs, flags⟩ := valid.runs (ne_CMP8ri valid (by simp))
      have width := width_mem valid.kind_eq
      simp only [widths, List.mem_cons, List.not_mem_nil, or_false] at width
      subst width
      rw [sound_shift valid (Or.inr rfl) counted differ shr64_spec exec_shr runs flags]
      exact ⟨fun condition => ⟨counted, condition⟩, fun condition => condition.2⟩

theorem kind_of_shiftsByCl {opcode : Opcode} (byCl : shiftsByCl opcode = true) :
    opcode.kind = .alu .shl 64 ∨ opcode.kind = .alu .shr 64 := by
  cases opcode <;> cases byCl <;> first | exact Or.inl rfl | exact Or.inr rfl

/-- The emulation of an arithmetic instruction is sound exactly under the condition for
its opcode. -/
theorem sound_iff_emulated (host : Host) (valid : assignment.Valid row op w) :
    Sound assignment row op w host ↔ Emulated assignment := by
  cases byCl : shiftsByCl assignment.opcode with
  | true =>
      refine iff_of_false ?_ ?_
      · rintro ⟨dynInfo, operands, ret, returned, _sound⟩
        exact valid.genDynInfo_shiftsByCl byCl dynInfo returned
      · unfold Emulated
        rcases kind_of_shiftsByCl byCl with kind | kind
        · rw [kind]
          rintro ⟨counted, _⟩
          exact Bool.false_ne_true (counted.symm.trans byCl)
        · rw [kind]
          rintro ⟨counted, _⟩
          exact Bool.false_ne_true (counted.symm.trans byCl)
  | false =>
      obtain ⟨dynInfo, returned, same⟩ := valid.genDynInfo byCl
      rw [← soundOutputs_iff host valid byCl]
      constructor
      · rintro ⟨other, operands, ret, generated, ran, sound⟩
        rw [returned] at generated
        cases generated
        exact ⟨operands, ret, (same host).symm.trans ran, sound⟩
      · rintro ⟨operands, ret, ran, sound⟩
        exact ⟨dynInfo, operands, ret, returned, (same host).trans ran, sound⟩

def clearHost : Host :=
  { eflags := fun _ => false
    addpd := fun a _ => a
    mulpd := fun a _ => a
    addsd := fun a _ => a
    mulsd := fun a _ => a }

/-- A stack pointer subtracted from zero, `sub rax, rbx`. -/
def negatePointer : Assignment :=
  { instruction :=
      { opcode := .SUB64rr
        rawOperands := [.reg (.gprs64 .A), .reg (.gprs64 .B)] }
    ptrVal := .unknown
    ptr := .direct (.plain 0)
    in0 := .imm64 0
    in1 := .ptr .stack 0 0 }

theorem negatePointer_valid {row : OpcodeInfo} (found : archGetOpcodeInfo .SUB64rr = some row) :
    negatePointer.Valid row .sub 64 where
  row_eq := found
  kind_eq := rfl
  declared := by
    cases found
    exact .cons rfl (.cons rfl .nil)
  encoded := by
    intro imm named
    cases named
  sameInput := fun impossible => by cases impossible

theorem sound_iff_emulated_negatePointer :
    ∃ row, archGetOpcodeInfo .SUB64rr = some row ∧
      (Sound negatePointer row .sub 64 clearHost ↔ Emulated negatePointer) :=
  ⟨_, rfl, sound_iff_emulated clearHost (negatePointer_valid rfl)⟩

/-- Not every arithmetic instruction is emulated soundly. -/
theorem not_sound_of_valid :
    ¬ ∀ (assignment : Assignment) (row : OpcodeInfo) (op : AluOp) (w : Nat) (host : Host),
      assignment.Valid row op w → Sound assignment row op w host := by
  intro always
  obtain ⟨row, found⟩ : ∃ row, archGetOpcodeInfo .SUB64rr = some row := ⟨_, rfl⟩
  have valid := negatePointer_valid found
  obtain ⟨runs, flags⟩ := valid.runs (by decide)
  obtain ⟨dynInfo, returned, same⟩ := valid.genDynInfo rfl
  obtain ⟨other, operands, ret, generated, ran, sound⟩ := always _ _ _ _ clearHost valid
  rw [returned] at generated
  cases generated
  exact not_sound_sub64 valid rfl runs flags rfl rfl
    ⟨operands, ret, (same clearHost).symm.trans ran, sound⟩

end AluEmulation

end Drob
