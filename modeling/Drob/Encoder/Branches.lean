import Drob.CodeGeneration.Branches
import Drob.Instruction.Predicates
import Drob.Library.BranchFormat

/-!
The bytes of branches and calls: `arch_prepare_branch` reserves them and
`arch_fixup_branch` fills them.
-/

namespace Drob

namespace Encoder

open LittleEndian BranchFormat CodeGeneration

abbrev Text := Nat → BitVec 8

def Text.set (itext : Text) (pos : Nat) (value : BitVec 8) : Text :=
  Function.update itext pos value

def Text.set32 (itext : Text) (pos : Nat) (disp : BitVec 32) : Text :=
  overwrite itext pos 4 (byte disp)

def Text.bytes (itext : Text) (count : Nat) : List (BitVec 8) :=
  (List.range count).map itext

structure BranchLocation where
  itext : BitVec 64
  ilen : Nat
  opcode : Opcode
  useShortBranch : Bool

/-- A difference of two code addresses as an `int32_t`. -/
def displacement (target behind : BitVec 64) : BitVec 32 :=
  (target - behind).setWidth 32

def arch_prepare_branch (opcode : Opcode) (useShortBranch : Bool) (itext : BitVec 64) :
    Except Failure BranchLocation :=
  match branchLengths opcode with
  | none => .error (.assertion "drob_assert_not_reached()")
  | some (short, long) =>
      .ok { itext, ilen := if useShortBranch then short else long, opcode, useShortBranch }

def fixupBranch (branch : BranchLocation) (target : BitVec 64) (itext : Text) :
    Except Failure Text :=
  let disp := displacement target (branch.itext + BitVec.ofNat 64 branch.ilen)
  if branch.useShortBranch then
    if branch.ilen ≠ 2 then .error (.assertion "branch.ilen == 2")
    else if is_rel8 disp.toInt then
      .ok ((itext.set 0 0xeb).set 1 (disp.setWidth 8))
    else .error (.assertion "is_rel8(disp)")
  else if branch.ilen ≠ 5 then .error (.assertion "branch.ilen == 5")
  else .ok ((itext.set 0 0xe9).set32 1 disp)

/-- The prefix is written without advancing `pos`, so the opcode replaces it. -/
def fixupSpecialCondBranch (branch : BranchLocation) (target : BitVec 64) (itext : Text) :
    Except Failure Text := do
  let addr_prefix ← match branch.opcode with
    | .JCXZ64a => .ok true
    | .JCXZ32a => .ok false
    | _ => .error (.assertion "drob_assert_not_reached()")
  let opcode : BitVec 8 := 0xe3
  let short_ilen := if addr_prefix then 3 else 2
  let long_ilen := if addr_prefix then 10 else 9
  let prefixed := if addr_prefix then itext.set 0 0x67 else itext
  if branch.useShortBranch then
    let disp := displacement target (branch.itext + BitVec.ofNat 64 short_ilen)
    if short_ilen ≠ branch.ilen then .error (.assertion "short_ilen == branch.ilen")
    else if is_rel8 disp.toInt then
      .ok ((prefixed.set 0 opcode).set 1 (disp.setWidth 8))
    else .error (.assertion "is_rel8(disp)")
  else if long_ilen ≠ branch.ilen then .error (.assertion "long_ilen == branch.ilen")
  else
    let jumps := ((((prefixed.set 0 opcode).set 1 2).set 2 0xeb).set 3 5).set 4 0xe9
    -- The displacement is counted from `&itext[pos] + 5` with `pos` behind the opcode.
    .ok (jumps.set32 5 (displacement target (branch.itext + 5 + 5)))

def condOpcode : Opcode → Option (BitVec 8)
  | .JOa => some 0x80
  | .JNOa => some 0x81
  | .JBa => some 0x82
  | .JNBa => some 0x83
  | .JZa => some 0x84
  | .JNZa => some 0x85
  | .JBEa => some 0x86
  | .JNBEa => some 0x87
  | .JSa => some 0x88
  | .JNSa => some 0x89
  | .JPa => some 0x8a
  | .JNPa => some 0x8b
  | .JLa => some 0x8c
  | .JNLa => some 0x8d
  | .JLEa => some 0x8e
  | .JNLEa => some 0x8f
  | _ => none

def arch_fixup_branch (branch : BranchLocation) (target : BitVec 64) (itext : Text) :
    Except Failure Text :=
  match branch.opcode with
  | .JMPa | .JMPr | .JMPm => fixupBranch branch target itext
  | .JCXZ32a | .JCXZ64a => fixupSpecialCondBranch branch target itext
  | other =>
      match condOpcode other with
      | none => .error (.assertion "drob_assert_not_reached()")
      | some opcode =>
          let disp := displacement target (branch.itext + BitVec.ofNat 64 branch.ilen)
          if branch.useShortBranch then
            if branch.ilen ≠ 2 then .error (.assertion "branch.ilen == 2")
            else if is_rel8 disp.toInt then
              .ok ((itext.set 0 (opcode - 0x10)).set 1 (disp.setWidth 8))
            else .error (.assertion "is_rel8(disp)")
          else if branch.ilen ≠ 6 then .error (.assertion "branch.ilen == 6")
          else .ok (((itext.set 0 0x0f).set 1 opcode).set32 2 disp)

def arch_fixup_call (location : BitVec 64) (ilen : Nat) (target : BitVec 64) (itext : Text) :
    Except Failure Text :=
  let disp := displacement target (location + BitVec.ofNat 64 ilen)
  if ilen ≠ 5 then .error (.assertion "call.ilen == 5")
  else .ok ((itext.set 0 0xe8).set32 1 disp)

/-! ### What the bytes do -/

def read (machine : Machine) : Register → BitVec 64
  | .CF => (BitVec.ofBool machine.cf).setWidth 64
  | .PF => (BitVec.ofBool machine.pf).setWidth 64
  | .ZF => (BitVec.ofBool machine.zf).setWidth 64
  | .SF => (BitVec.ofBool machine.sf).setWidth 64
  | .OF => (BitVec.ofBool machine.of).setWidth 64
  | .ECX => (machine.rcx.setWidth 32).setWidth 64
  | .RCX => machine.rcx
  | _ => 0

def holds (opcode : Opcode) (machine : Machine) : Bool :=
  match (archGetOpcodeInfo opcode).bind OpcodeInfo.predicate with
  | none => true
  | some predicate => predicate.holds (read machine)

theorem code_condOpcode {opcode : Opcode} {second : BitVec 8}
    (found : condOpcode opcode = some second) (machine : Machine) :
    machine.code (second.setWidth 4) = holds opcode machine := by
  cases machine with
  | mk cf pf zf sf of rcx =>
      cases opcode <;> cases found <;>
        first
          | (cases cf <;> rfl)
          | (cases pf <;> rfl)
          | (cases zf <;> rfl)
          | (cases sf <;> rfl)
          | (cases of <;> rfl)
          | (cases cf <;> cases zf <;> rfl)
          | (cases sf <;> cases of <;> rfl)
          | (cases zf <;> cases sf <;> cases of <;> rfl)

def BranchLocation.InRange (branch : BranchLocation) (target : BitVec 64) : Prop :=
  let distance := (target - (branch.itext + BitVec.ofNat 64 branch.ilen)).toInt
  if branch.useShortBranch then -2 ^ 7 ≤ distance ∧ distance < 2 ^ 7
  else -2 ^ 31 ≤ distance ∧ distance < 2 ^ 31

def BranchLocation.FixedUp (branch : BranchLocation) (target : BitVec 64) : Prop :=
  ∀ itext, ∃ filled, arch_fixup_branch branch target itext = .ok filled ∧
    Leads (filled.bytes branch.ilen) branch.itext target (holds branch.opcode)

theorem bytes_short (itext : Text) (opcode cb : BitVec 8) :
    ((itext.set 0 opcode).set 1 cb).bytes 2 = [opcode, cb] := by
  simp [Text.bytes, Text.set, List.range_succ]

theorem bytes_near (itext : Text) (opcode : BitVec 8) (cd : BitVec 32) :
    ((itext.set 0 opcode).set32 1 cd).bytes 5 =
      [opcode, byte cd 0, byte cd 1, byte cd 2, byte cd 3] := by
  simp [Text.bytes, Text.set, Text.set32, overwrite, List.range_succ]

theorem bytes_nearCond (itext : Text) (first opcode : BitVec 8) (cd : BitVec 32) :
    (((itext.set 0 first).set 1 opcode).set32 2 cd).bytes 6 =
      [first, opcode, byte cd 0, byte cd 1, byte cd 2, byte cd 3] := by
  simp [Text.bytes, Text.set, Text.set32, overwrite, List.range_succ]

section Displacement

variable {target behind : BitVec 64}

theorem displacement_near (low : -2 ^ 31 ≤ (target - behind).toInt)
    (high : (target - behind).toInt < 2 ^ 31) :
    (displacement target behind).signExtend 64 = target - behind :=
  signExtend_setWidth (by decide) (by decide) low high

theorem displacement_short (low : -2 ^ 7 ≤ (target - behind).toInt)
    (high : (target - behind).toInt < 2 ^ 7) :
    is_rel8 (displacement target behind).toInt = true ∧
      ((displacement target behind).setWidth 8).signExtend 64 = target - behind := by
  have wide : (displacement target behind).signExtend 64 = target - behind :=
    displacement_near (by omega) (by omega)
  constructor
  · have same : (displacement target behind).toInt = (target - behind).toInt := by
      rw [← wide, BitVec.toInt_signExtend_of_le (by decide)]
    unfold is_rel8
    rw [same]
    exact decide_eq_true (by omega)
  · have narrow : (displacement target behind).setWidth 8 = (target - behind).setWidth 8 :=
      BitVec.setWidth_setWidth_of_le _ (by decide)
    rw [narrow]
    exact signExtend_setWidth (by decide) (by decide) low high

end Displacement

theorem short_of_long : ∀ second : BitVec 8, second.extractLsb' 4 4 = 8 →
    (second - 0x10).extractLsb' 4 4 = 7 ∧ (second - 0x10).setWidth 4 = second.setWidth 4 := by
  decide

theorem decode_shortCond {opcode : BitVec 8} (row : opcode.extractLsb' 4 4 = 7) (cb : BitVec 8) :
    decode [opcode, cb] =
      some (⟨.code (opcode.setWidth 4), 2, cb.signExtend 64, false⟩, []) := by
  have others : opcode ≠ 0xeb ∧ opcode ≠ 0xe9 ∧ opcode ≠ 0xe8 ∧ opcode ≠ 0xe3 := by
    refine ⟨?_, ?_, ?_, ?_⟩ <;> rintro rfl <;> exact absurd row (by decide)
  obtain ⟨shortJump, nearJump, call, counter⟩ := others
  simp only [decode, if_neg shortJump, if_neg nearJump, if_neg call, if_neg counter, if_pos row,
    rel8]

theorem decode_nearCond {second : BitVec 8} (row : second.extractLsb' 4 4 = 8) (cd : BitVec 32) :
    decode [0x0f, second, byte cd 0, byte cd 1, byte cd 2, byte cd 3] =
      some (⟨.code (second.setWidth 4), 6, cd.signExtend 64, false⟩, []) := by
  simp [decode, row, rel32_byte]

theorem decode_short (cb : BitVec 8) :
    decode [0xeb, cb] = some (⟨.always, 2, cb.signExtend 64, false⟩, []) := rfl

theorem decode_near (cd : BitVec 32) :
    decode [0xe9, byte cd 0, byte cd 1, byte cd 2, byte cd 3] =
      some (⟨.always, 5, cd.signExtend 64, false⟩, []) := by
  simp [decode, rel32_byte]

section FixedUp

variable {target : BitVec 64}

theorem fixedUp_jump {branch : BranchLocation}
    (length : branch.ilen = if branch.useShortBranch then 2 else 5)
    (jump : branch.opcode = .JMPa ∨ branch.opcode = .JMPr ∨ branch.opcode = .JMPm)
    (reach : branch.InRange target) : branch.FixedUp target := by
  intro itext
  have fixup : arch_fixup_branch branch target itext = fixupBranch branch target itext := by
    unfold arch_fixup_branch
    rcases jump with opcode | opcode | opcode <;> rw [opcode]
  have always : ∀ machine : Machine, machine.holds .always = holds branch.opcode machine := by
    intro machine
    rcases jump with opcode | opcode | opcode <;> rw [opcode] <;> rfl
  unfold BranchLocation.InRange at reach
  rw [fixup]
  unfold fixupBranch
  cases form : branch.useShortBranch with
  | true =>
      simp only [form, if_true] at length reach
      rw [length] at reach ⊢
      obtain ⟨rel8, reached⟩ := displacement_short reach.1 reach.2
      refine ⟨(itext.set 0 0xeb).set 1 ((displacement target (branch.itext + 2)).setWidth 8),
        ?_, ?_⟩
      · simp only [if_true, ne_eq, not_true_eq_false, if_false]
        rw [if_pos rel8]
        rfl
      · rw [bytes_short]
        apply leads_single (decode_short _) rfl rfl always
        refine (congrArg _ reached).trans ?_
        exact add_sub_cancel _ _
  | false =>
      simp only [form, if_false, Bool.false_eq_true] at length reach
      rw [length] at reach ⊢
      have reached := displacement_near reach.1 reach.2
      refine ⟨(itext.set 0 0xe9).set32 1 (displacement target (branch.itext + 5)), ?_, ?_⟩
      · simp only [ne_eq, not_true_eq_false, if_false, Bool.false_eq_true]
        rfl
      · rw [bytes_near]
        apply leads_single (decode_near _) rfl rfl always
        refine (congrArg _ reached).trans ?_
        exact add_sub_cancel _ _

theorem fixedUp_cond {branch : BranchLocation} {second : BitVec 8}
    (length : branch.ilen = if branch.useShortBranch then 2 else 6)
    (found : condOpcode branch.opcode = some second) (reach : branch.InRange target) :
    branch.FixedUp target := by
  intro itext
  have row : second.extractLsb' 4 4 = 8 := by
    generalize branch.opcode = opcode at found
    cases opcode <;> cases found <;> rfl
  obtain ⟨shortRow, sameCode⟩ := short_of_long second row
  have condition : ∀ machine : Machine,
      machine.holds (.code (second.setWidth 4)) = holds branch.opcode machine :=
    code_condOpcode found
  unfold BranchLocation.InRange at reach
  have fixup : arch_fixup_branch branch target itext =
      let disp := displacement target (branch.itext + BitVec.ofNat 64 branch.ilen)
      if branch.useShortBranch then
        if branch.ilen ≠ 2 then .error (.assertion "branch.ilen == 2")
        else if is_rel8 disp.toInt then
          .ok ((itext.set 0 (second - 0x10)).set 1 (disp.setWidth 8))
        else .error (.assertion "is_rel8(disp)")
      else if branch.ilen ≠ 6 then .error (.assertion "branch.ilen == 6")
      else .ok (((itext.set 0 0x0f).set 1 second).set32 2 disp) := by
    unfold arch_fixup_branch
    generalize branch.opcode = opcode at found
    cases opcode <;> cases found <;> rfl
  rw [fixup]
  cases form : branch.useShortBranch with
  | true =>
      simp only [form, if_true] at length reach
      rw [length] at reach ⊢
      obtain ⟨rel8, reached⟩ := displacement_short reach.1 reach.2
      refine ⟨(itext.set 0 (second - 0x10)).set 1
        ((displacement target (branch.itext + 2)).setWidth 8), ?_, ?_⟩
      · simp only [if_true, ne_eq, not_true_eq_false, if_false]
        rw [if_pos rel8]
        rfl
      · rw [bytes_short]
        apply leads_single (decode_shortCond shortRow _) rfl rfl
        · rw [sameCode]
          exact condition
        · refine (congrArg _ reached).trans ?_
          exact add_sub_cancel _ _
  | false =>
      simp only [form, if_false, Bool.false_eq_true] at length reach
      rw [length] at reach ⊢
      have reached := displacement_near reach.1 reach.2
      refine ⟨((itext.set 0 0x0f).set 1 second).set32 2 (displacement target (branch.itext + 6)),
        ?_, ?_⟩
      · simp only [ne_eq, not_true_eq_false, if_false, Bool.false_eq_true]
        rfl
      · rw [bytes_nearCond]
        apply leads_single (decode_nearCond row _) rfl rfl condition
        refine (congrArg _ reached).trans ?_
        exact add_sub_cancel _ _

end FixedUp

/-! ### The branches on the counter -/

/-- The three jumps of the long form; the last one is off by one. -/
def counterJumps (location target : BitVec 64) : List Branch :=
  [⟨.rcxZero, 2, 2, false⟩, ⟨.always, 2, 5, false⟩,
    ⟨.always, 5, (displacement target (location + 10)).signExtend 64, false⟩]

theorem fixup_counter {branch : BranchLocation} {target : BitVec 64} {itext filled : Text}
    (counter : branch.opcode = .JCXZ32a ∨ branch.opcode = .JCXZ64a)
    (fixup : arch_fixup_branch branch target itext = .ok filled) :
    ∃ prefixed : Text, (∀ pos, 0 < pos → prefixed pos = itext pos) ∧
      (branch.useShortBranch = true → ∃ cb, filled = (prefixed.set 0 0xe3).set 1 cb ∧
        (branch.opcode = .JCXZ32a →
          cb = (displacement target (branch.itext + 2)).setWidth 8)) ∧
      (branch.useShortBranch = false → filled =
        (((((prefixed.set 0 0xe3).set 1 2).set 2 0xeb).set 3 5).set 4 0xe9).set32 5
          (displacement target (branch.itext + 10))) := by
  have behind : branch.itext + 5 + 5 = branch.itext + 10 := by
    rw [BitVec.add_assoc]
    rfl
  unfold arch_fixup_branch at fixup
  rcases counter with opcode | opcode
  all_goals
    rw [opcode] at fixup
    unfold fixupSpecialCondBranch at fixup
    rw [opcode] at fixup
    change (if branch.useShortBranch then _ else _) = _ at fixup
    cases form : branch.useShortBranch with
    | true =>
        rw [if_pos form] at fixup
        obtain ⟨_, fixup⟩ := ite_error fixup
        obtain ⟨_, fixup⟩ := ite_ok fixup
        cases fixup
        refine ⟨_, ?_, fun _ => ⟨_, rfl, ?_⟩, nofun⟩
        · intro pos positive
          first
            | rfl
            | exact Function.update_of_ne (by omega) _ _
        · intro
          first
            | rfl
            | (rename_i other; rw [opcode] at other; cases other)
    | false =>
        rw [form] at fixup
        obtain ⟨_, fixup⟩ := ite_error fixup
        cases fixup
        rw [behind]
        refine ⟨_, ?_, nofun, fun _ => rfl⟩
        intro pos positive
        first
          | rfl
          | exact Function.update_of_ne (by omega) _ _

section Counter

variable {target : BitVec 64}

theorem bytes_shortPrefixed (prefixed : Text) (cb : BitVec 8) :
    ((prefixed.set 0 0xe3).set 1 cb).bytes 3 = [0xe3, cb, prefixed 2] := by
  simp [Text.bytes, Text.set, List.range_succ]

theorem bytes_long (prefixed : Text) (cd : BitVec 32) :
    ((((((prefixed.set 0 0xe3).set 1 2).set 2 0xeb).set 3 5).set 4 0xe9).set32 5 cd).bytes 9 =
      [0xe3, 2, 0xeb, 5, 0xe9, byte cd 0, byte cd 1, byte cd 2, byte cd 3] := by
  simp [Text.bytes, Text.set, Text.set32, overwrite, List.range_succ]

theorem bytes_longPrefixed (prefixed : Text) (cd : BitVec 32) :
    ((((((prefixed.set 0 0xe3).set 1 2).set 2 0xeb).set 3 5).set 4 0xe9).set32 5 cd).bytes 10 =
      [0xe3, 2, 0xeb, 5, 0xe9, byte cd 0, byte cd 1, byte cd 2, byte cd 3, prefixed 9] := by
  simp [Text.bytes, Text.set, Text.set32, overwrite, List.range_succ]

theorem not_fixedUp_jcxz64 {branch : BranchLocation}
    (length : branch.ilen = if branch.useShortBranch then 3 else 10)
    (opcode : branch.opcode = .JCXZ64a) : ¬ branch.FixedUp target := by
  intro fixedUp
  obtain ⟨filled, fixup, branches, decoded, _⟩ := fixedUp (fun _ => 0)
  obtain ⟨prefixed, kept, short, long⟩ := fixup_counter (Or.inr opcode) fixup
  cases form : branch.useShortBranch with
  | true =>
      simp only [form, if_true] at length
      obtain ⟨cb, rfl, _⟩ := short form
      rw [length, bytes_shortPrefixed, kept 2 (by decide)] at decoded
      cases decoded
  | false =>
      simp only [form, if_false, Bool.false_eq_true] at length
      rw [length, long form, bytes_longPrefixed, kept 9 (by decide)] at decoded
      cases decoded

theorem decodeAll_long (location target : BitVec 64) :
    let cd := displacement target (location + 10)
    decodeAll 9 [0xe3, 2, 0xeb, 5, 0xe9, byte cd 0, byte cd 1, byte cd 2, byte cd 3] =
      some (counterJumps location target) := by
  intro cd
  simp [decodeAll, decode, rel8, rel32_byte, counterJumps, cd]

theorem not_fixedUp_long {branch : BranchLocation} (length : branch.ilen = 9)
    (form : branch.useShortBranch = false) (opcode : branch.opcode = .JCXZ32a) :
    ¬ branch.FixedUp target := by
  intro fixedUp
  obtain ⟨filled, fixup, branches, decoded, _, leads⟩ := fixedUp (fun _ => 0)
  obtain ⟨prefixed, _, _, long⟩ := fixup_counter (Or.inl opcode) fixup
  rw [length, long form, bytes_long] at decoded
  have jumps := decoded.symm.trans (decodeAll_long branch.itext target)
  cases jumps
  have zero := leads ⟨false, false, false, false, false, 0⟩
  rw [opcode] at zero
  have skipped : branch.itext + 2 + 2 ≠ branch.itext + 2 := by bv_omega
  have reached : branch.itext + 2 + 2 + 5 +
      (displacement target (branch.itext + 10)).signExtend 64 = target := by
    refine Eq.trans ?_ zero
    unfold counterJumps
    simp only [BranchFormat.run, if_true]
    change _ = if (if branch.itext + 2 + 2 = branch.itext + 2 then _ else branch.itext + 2 + 2) =
      branch.itext + 2 + 2 then _ else _
    rw [if_neg skipped, if_pos rfl]
    rfl
  have narrow : ((displacement target (branch.itext + 10)).signExtend 64).setWidth 32 =
      displacement target (branch.itext + 10) := setWidth_signExtend _
  have offset : (displacement target (branch.itext + 10)).signExtend 64 =
      target - (branch.itext + 10) + 1 := by
    bv_omega
  rw [offset] at narrow
  have cut : (target - (branch.itext + 10) + 1).setWidth 32 =
      (target - (branch.itext + 10)).setWidth 32 := narrow
  generalize target - (branch.itext + 10) = distance at cut
  bv_omega

/-- The short form looks at the 64-bit counter, which only does not matter if both ways
lead to the same place. -/
theorem fixedUp_short_iff {branch : BranchLocation} (length : branch.ilen = 2)
    (form : branch.useShortBranch = true) (opcode : branch.opcode = .JCXZ32a)
    (reach : branch.InRange target) :
    branch.FixedUp target ↔ target = branch.itext + 2 := by
  constructor
  · intro fixedUp
    obtain ⟨filled, fixup, branches, decoded, _, leads⟩ := fixedUp (fun _ => 0)
    obtain ⟨prefixed, _, short, _⟩ := fixup_counter (Or.inl opcode) fixup
    obtain ⟨cb, rfl, _⟩ := short form
    rw [length, bytes_short] at decoded
    cases decoded
    have upper := leads ⟨false, false, false, false, false, 2 ^ 32⟩
    have empty : holds .JCXZ32a ⟨false, false, false, false, false, 2 ^ 32⟩ = true := rfl
    rw [opcode, if_pos empty, run_single] at upper
    exact upper.symm
  · intro same itext
    unfold BranchLocation.InRange at reach
    simp only [form, if_true] at reach
    rw [length] at reach
    obtain ⟨rel8, reached⟩ := displacement_short reach.1 reach.2
    refine ⟨(itext.set 0 0xe3).set 1 ((displacement target (branch.itext + 2)).setWidth 8),
      ?_, ?_⟩
    · unfold arch_fixup_branch
      rw [opcode]
      unfold fixupSpecialCondBranch
      rw [opcode]
      change (if branch.useShortBranch then _ else _) = _
      rw [if_pos form, if_neg]
      · exact if_pos rel8
      · exact not_not.mpr length.symm
    · rw [length, bytes_short]
      refine ⟨[⟨.rcxZero, 2, _, false⟩], rfl, ?_, ?_⟩
      · intro other member
        rw [List.mem_singleton.mp member]
      · intro machine
        rw [run_single]
        change (if _ then branch.itext + 2 + _ else branch.itext + 2) =
          if _ then target else branch.itext + 2
        have behind : branch.itext + 2 + (BitVec.setWidth 8
            (displacement target (branch.itext + 2))).signExtend 64 = branch.itext + 2 :=
          (congrArg _ reached).trans ((add_sub_cancel _ _).trans same)
        rw [behind, same]
        simp only [ite_self]

end Counter

/-! ### All branches and the call -/

/-- Whatever the five reserved bytes are, they are filled with a call of the target. -/
def CallFixedUp (location target : BitVec 64) : Prop :=
  ∀ itext, ∃ filled, arch_fixup_call location 5 target itext = .ok filled ∧
    Calls (filled.bytes 5) location target

theorem callFixedUp {location target : BitVec 64}
    (low : -2 ^ 31 ≤ (target - (location + 5)).toInt)
    (high : (target - (location + 5)).toInt < 2 ^ 31) : CallFixedUp location target := by
  intro itext
  have reached := displacement_near low high
  refine ⟨(itext.set 0 0xe8).set32 1 (displacement target (location + 5)), rfl, ?_⟩
  rw [bytes_near]
  refine ⟨⟨.always, 5, (displacement target (location + 5)).signExtend 64, true⟩, ?_, rfl, rfl, ?_⟩
  · simp [decode, rel32_byte]
  · intro machine
    change location + 5 + (displacement target (location + 5)).signExtend 64 = target
    rw [reached]
    exact add_sub_cancel _ _

theorem kinds_of_branchLengths {opcode : Opcode} {short long : Nat}
    (found : branchLengths opcode = some (short, long)) :
    (∃ second, condOpcode opcode = some second ∧ short = 2 ∧ long = 6) ∨
      ((opcode = .JMPa ∨ opcode = .JMPr ∨ opcode = .JMPm) ∧ short = 2 ∧ long = 5) ∨
        (opcode = .JCXZ32a ∧ short = 2 ∧ long = 9) ∨
          (opcode = .JCXZ64a ∧ short = 3 ∧ long = 10) := by
  cases opcode <;> cases found <;> simp [condOpcode]

/-- The fixups write the right jump for every branch but those on the counter. -/
theorem fixedUp_iff (opcode : Opcode) (useShortBranch : Bool) (location target : BitVec 64)
    (branch : BranchLocation)
    (prepared : arch_prepare_branch opcode useShortBranch location = .ok branch)
    (reach : branch.InRange target) :
    (branch.FixedUp target ↔ opcode ≠ .JCXZ64a ∧
        (opcode = .JCXZ32a → useShortBranch = true ∧ target = location + 2)) ∧
      ∀ location target : BitVec 64, -2 ^ 31 ≤ (target - (location + 5)).toInt →
        (target - (location + 5)).toInt < 2 ^ 31 → CallFixedUp location target := by
  refine ⟨?_, fun location target low high => callFixedUp low high⟩
  unfold arch_prepare_branch at prepared
  split at prepared
  · cases prepared
  · rename_i short long found
    cases prepared
    rcases kinds_of_branchLengths found with
      ⟨second, code, rfl, rfl⟩ | ⟨jump, rfl, rfl⟩ | ⟨rfl, rfl, rfl⟩ | ⟨rfl, rfl, rfl⟩
    · refine iff_of_true (fixedUp_cond rfl code reach) ⟨?_, ?_⟩
      · rintro rfl
        cases code
      · rintro rfl
        cases code
    · refine iff_of_true (fixedUp_jump rfl jump reach) ⟨?_, ?_⟩
      · rintro rfl
        rcases jump with other | other | other <;> cases other
      · rintro rfl
        rcases jump with other | other | other <;> cases other
    · cases useShortBranch with
      | true =>
          rw [fixedUp_short_iff rfl rfl rfl reach]
          simp
      | false =>
          refine iff_of_false (not_fixedUp_long rfl rfl rfl) ?_
          rintro ⟨_, short⟩
          cases (short rfl).1
    · refine iff_of_false (not_fixedUp_jcxz64 rfl rfl) ?_
      rintro ⟨other, _⟩
      exact other rfl

theorem fixedUp_jz : (⟨0x1000, 2, .JZa, true⟩ : BranchLocation).FixedUp 0x1010 :=
  (fixedUp_iff .JZa true 0x1000 0x1010 _ rfl ⟨by decide, by decide⟩).1.mpr ⟨nofun, nofun⟩

/-- The long form of the branch on the 32-bit counter leads to the byte before 0x2000. -/
theorem not_fixedUp_of_inRange :
    ¬ ∀ (opcode : Opcode) (useShortBranch : Bool) (location target : BitVec 64)
      (branch : BranchLocation),
      arch_prepare_branch opcode useShortBranch location = .ok branch →
        branch.InRange target → branch.FixedUp target := by
  intro always
  have reach : -2 ^ 31 ≤ ((0x2000 : BitVec 64) - (0x1000 + 9)).toInt ∧
      ((0x2000 : BitVec 64) - (0x1000 + 9)).toInt < 2 ^ 31 := by decide
  exact not_fixedUp_long rfl rfl rfl (always .JCXZ32a false 0x1000 0x2000 _ rfl reach)

end Encoder

end Drob
