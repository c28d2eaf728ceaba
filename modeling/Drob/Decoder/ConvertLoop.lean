import Drob.Encoder.Branches
import Drob.Instruction.AddressWidth

/-!
LOOP, LOOPE and LOOPNE are converted to a sequence of an address computation and
branches. The address size prefix selects ECX as the counter, and the conversion takes it
for the one that selects RCX.
-/

namespace Drob

namespace ConvertLoop

open BranchFormat (Machine)

inductive LoopClass where
  | LOOP | LOOPE | LOOPNE
  deriving DecidableEq

structure DecodedLoop where
  itext : BitVec 64
  ilen : Nat
  iclass : LoopClass
  /-- `xed_operand_values_has_address_size_prefix` -/
  hasAddressSizePrefix : Bool
  branchDisplacement : BitVec 32

def DecodedLoop.follow (xedd : DecodedLoop) : BitVec 64 :=
  xedd.itext + BitVec.ofNat 64 xedd.ilen

def translate_rel (xedd : DecodedLoop) : StaticOperand :=
  .mem (.direct (.plain (xedd.follow + xedd.branchDisplacement.signExtend 64)))

/-- LEA to do the subtraction, JCXZ and JNZ or JZ to the next instruction, and the final JMP
to the original target. -/
def convert_loop (xedd : DecodedLoop) : List Instruction :=
  let is64bit := xedd.hasAddressSizePrefix
  let rcx : Register := if is64bit then .RCX else .ECX
  let toFollow : ExplicitStaticOperands := [.mem (.direct (.plain xedd.follow))]
  let lea : Instruction :=
    { opcode := if is64bit then .LEA64ra else .LEA32ra
      rawOperands := [.reg rcx, .mem (.SIB (some rcx) none (.plain (-1)) 0)] }
  let jcxz : Instruction :=
    { opcode := if is64bit then .JCXZ64a else .JCXZ32a, rawOperands := toFollow }
  let jcc : List Instruction :=
    match xedd.iclass with
    | .LOOP => []
    | .LOOPE => [{ opcode := .JNZa, rawOperands := toFollow }]
    | .LOOPNE => [{ opcode := .JZa, rawOperands := toFollow }]
  let jmp : Instruction := { opcode := .JMPa, rawOperands := [translate_rel xedd] }
  lea :: jcxz :: jcc ++ [jmp]

/-! ### Meaning -/

def writeCounter (machine : Machine) (reg : Register) (value : BitVec 64) : Option Machine :=
  match reg with
  | .RCX => some { machine with rcx := value }
  | .ECX => some { machine with rcx := (value.setWidth 32).setWidth 64 }
  | _ => none

/-- An instruction of the sequence: the machine after it, and where it jumps to. -/
def execute (instruction : Instruction) (machine : Machine) :
    Option (Machine × Option (BitVec 64)) :=
  match instruction.rawOperands with
  | [.reg reg, .mem ptr] =>
      if instruction.opcode = .LEA64ra ∨ instruction.opcode = .LEA32ra then
        (writeCounter machine reg (ptr.effectiveAddress (Encoder.read machine))).map
          (fun written => (written, none))
      else none
  | [.mem (.direct addr)] =>
      if instruction.opcodeInfo.elim .Other OpcodeInfo.type = .Branch then
        some (machine, if Encoder.holds instruction.opcode machine then some addr.val else none)
      else none
  | _ => none

/-- A sequence of instructions, up to the jump that is taken or to the next instruction. -/
def run (follow : BitVec 64) : List Instruction → Machine → Option (Machine × BitVec 64)
  | [], machine => some (machine, follow)
  | instruction :: rest, machine => do
      let (later, jump) ← execute instruction machine
      match jump with
      | some target => some (later, target)
      | none => run follow rest later

/-- The counter after a LOOP instruction; ECX is zero extended. -/
def DecodedLoop.counter (xedd : DecodedLoop) (machine : Machine) : BitVec 64 :=
  if xedd.hasAddressSizePrefix then (machine.rcx.setWidth 32 - 1).setWidth 64
  else machine.rcx - 1

def DecodedLoop.execute (xedd : DecodedLoop) (machine : Machine) : Machine × BitVec 64 :=
  let count := xedd.counter machine
  let goesOn :=
    count != 0 &&
      match xedd.iclass with
      | .LOOP => true
      | .LOOPE => machine.zf
      | .LOOPNE => !machine.zf
  ({ machine with rcx := count },
    if goesOn then xedd.follow + xedd.branchDisplacement.signExtend 64 else xedd.follow)

/-- The sequence has the effect of the instruction. -/
def Preserves (xedd : DecodedLoop) (machine : Machine) : Prop :=
  run xedd.follow (convert_loop xedd) machine = some (xedd.execute machine)

def leaCounter (xedd : DecodedLoop) (machine : Machine) : BitVec 64 :=
  if xedd.hasAddressSizePrefix then machine.rcx - 1
  else (machine.rcx.setWidth 32 - 1).setWidth 64

theorem sum_decrement (counter : BitVec 64) :
    counter + BitVec.setWidth 64 (0 : BitVec 8) * 0 + BitVec.signExtend 64 (-1 : BitVec 32) =
      counter - 1 := by
  have noIndex : BitVec.setWidth 64 (0 : BitVec 8) = 0 := by decide
  have minusOne : BitVec.signExtend 64 (-1 : BitVec 32) = -1 := by decide
  rw [noIndex, minusOne]
  bv_omega

theorem setWidth_decrement (count : BitVec 32) :
    (count.setWidth 64 - 1).setWidth 32 = count - 1 := by
  have bound := count.isLt
  apply BitVec.eq_of_toNat_eq
  rw [BitVec.toNat_setWidth, BitVec.toNat_sub, BitVec.toNat_sub, BitVec.toNat_setWidth]
  change (2 ^ 64 - 1 + count.toNat % 2 ^ 64) % 2 ^ 64 % 2 ^ 32 = (2 ^ 32 - 1 + count.toNat) % 2 ^ 32
  omega

theorem setWidth_zeroExtended (count : BitVec 32) : (count.setWidth 64).setWidth 32 = count := by
  apply BitVec.eq_of_toNat_eq
  have bound := count.isLt
  simp only [BitVec.toNat_setWidth]
  omega

theorem address_RCX (machine : Machine) :
    (StaticMemPtr.SIB (some .RCX) none (.plain (-1)) 0).effectiveAddress
      (Encoder.read machine) = machine.rcx - 1 :=
  sum_decrement machine.rcx

theorem address_ECX (machine : Machine) :
    (StaticMemPtr.SIB (some .ECX) none (.plain (-1)) 0).effectiveAddress
      (Encoder.read machine) = (machine.rcx.setWidth 32 - 1).setWidth 64 := by
  have sum := sum_decrement ((machine.rcx.setWidth 32).setWidth 64)
  have whole : (StaticMemPtr.SIB (some .ECX) none (.plain (-1)) 0).effectiveAddress
      (Encoder.read machine) =
        (((machine.rcx.setWidth 32).setWidth 64 - 1).setWidth 32).setWidth 64 :=
    congrArg (fun sum : BitVec 64 => (sum.setWidth 32).setWidth 64) sum
  rw [whole, setWidth_decrement]

theorem holds_JNZa (machine : Machine) : Encoder.holds .JNZa machine = !machine.zf := by
  cases machine with
  | mk cf pf zf sf of rcx => cases zf <;> rfl

theorem holds_JZa (machine : Machine) : Encoder.holds .JZa machine = machine.zf := by
  cases machine with
  | mk cf pf zf sf of rcx => cases zf <;> rfl

def branchTarget (xedd : DecodedLoop) (machine : Machine) : BitVec 64 :=
  if machine.rcx != 0 &&
      (match xedd.iclass with
      | .LOOP => true
      | .LOOPE => machine.zf
      | .LOOPNE => !machine.zf)
  then xedd.follow + xedd.branchDisplacement.signExtend 64 else xedd.follow

theorem run_branch (follow target : BitVec 64) (opcode : Opcode) {row : OpcodeInfo}
    (found : archGetOpcodeInfo opcode = some row) (isBranch : row.type = .Branch)
    (rest : List Instruction) (machine : Machine) :
    run follow ({ opcode, rawOperands := [.mem (.direct (.plain target))] } :: rest) machine =
      if Encoder.holds opcode machine then some (machine, target)
      else run follow rest machine := by
  have executed : execute { opcode, rawOperands := [.mem (.direct (.plain target))] } machine =
      some (machine, if Encoder.holds opcode machine then some target else none) := by
    change (if (archGetOpcodeInfo opcode).elim .Other OpcodeInfo.type = .Branch then _
      else _) = _
    rw [found]
    exact if_pos isBranch
  change (do
    let (later, jump) ← execute _ machine
    match jump with
    | some target => some (later, target)
    | none => run follow rest later) = _
  rw [executed]
  change (match (if Encoder.holds opcode machine then some target else none) with
    | some target => some (machine, target)
    | none => run follow rest machine) = _
  split <;> rename_i jump <;> split at jump <;> rename_i holds
  · cases jump
    rw [if_pos holds]
  · cases jump
  · cases jump
  · rw [if_neg holds]

theorem run_branches (xedd : DecodedLoop) (jcxz : Opcode) {row : OpcodeInfo}
    (found : archGetOpcodeInfo jcxz = some row) (isBranch : row.type = .Branch)
    (machine : Machine)
    (tests : Encoder.holds jcxz machine = (machine.rcx == 0)) :
    run xedd.follow
      ({ opcode := jcxz, rawOperands := [.mem (.direct (.plain xedd.follow))] } ::
        (match xedd.iclass with
        | .LOOP => []
        | .LOOPE =>
            [{ opcode := .JNZa, rawOperands := [.mem (.direct (.plain xedd.follow))] }]
        | .LOOPNE =>
            [{ opcode := .JZa, rawOperands := [.mem (.direct (.plain xedd.follow))] }]) ++
        [{ opcode := .JMPa, rawOperands := [translate_rel xedd] }]) machine =
      some (machine, branchTarget xedd machine) := by
  have jump : run xedd.follow
      [{ opcode := .JMPa, rawOperands := [translate_rel xedd] }] machine =
        some (machine, xedd.follow + xedd.branchDisplacement.signExtend 64) :=
    run_branch xedd.follow _ .JMPa rfl rfl [] machine
  rw [List.cons_append, run_branch xedd.follow xedd.follow jcxz found isBranch, tests]
  unfold branchTarget
  by_cases zero : machine.rcx = 0
  · rw [if_pos (beq_iff_eq.mpr zero), zero]
    rfl
  · rw [if_neg (fun isZero => zero (eq_of_beq isZero)), bne_iff_ne.mpr zero, Bool.true_and]
    cases xedd.iclass with
    | LOOP => exact jump
    | LOOPE =>
        dsimp only
        rw [List.cons_append, run_branch xedd.follow xedd.follow .JNZa rfl rfl,
          holds_JNZa]
        cases machine.zf with
        | false => rfl
        | true => exact jump
    | LOOPNE =>
        dsimp only
        rw [List.cons_append, run_branch xedd.follow xedd.follow .JZa rfl rfl,
          holds_JZa]
        cases machine.zf with
        | false => exact jump
        | true => rfl

theorem run_lea (follow : BitVec 64) {opcode : Opcode}
    (isLea : opcode = .LEA64ra ∨ opcode = .LEA32ra)
    {reg : Register} {ptr : StaticMemPtr} {machine written : Machine}
    (writes : writeCounter machine reg (ptr.effectiveAddress (Encoder.read machine)) =
      some written) (rest : List Instruction) :
    run follow ({ opcode, rawOperands := [.reg reg, .mem ptr] } :: rest) machine =
      run follow rest written := by
  have executed : execute { opcode, rawOperands := [.reg reg, .mem ptr] } machine =
      some (written, none) := by
    unfold execute
    dsimp only
    rw [if_pos isLea, writes]
    rfl
  change (do
    let (later, jump) ← execute _ machine
    match jump with
    | some target => some (later, target)
    | none => run follow rest later) = _
  rw [executed]
  rfl

theorem run_convert_loop (xedd : DecodedLoop) (machine : Machine) :
    run xedd.follow (convert_loop xedd) machine =
      some ({ machine with rcx := leaCounter xedd machine },
        branchTarget xedd { machine with rcx := leaCounter xedd machine }) := by
  unfold leaCounter convert_loop
  dsimp only
  cases hasPrefix : xedd.hasAddressSizePrefix with
  | true =>
      have writes : writeCounter machine .RCX
          ((StaticMemPtr.SIB (some .RCX) none (.plain (-1)) 0).effectiveAddress
            (Encoder.read machine)) = some { machine with rcx := machine.rcx - 1 } := by
        rw [address_RCX]
        rfl
      rw [if_pos rfl, if_pos rfl, if_pos rfl, if_pos rfl]
      refine (run_lea xedd.follow (Or.inl rfl) writes _).trans ?_
      exact run_branches xedd .JCXZ64a rfl rfl _ rfl
  | false =>
      have writes : writeCounter machine .ECX
          ((StaticMemPtr.SIB (some .ECX) none (.plain (-1)) 0).effectiveAddress
            (Encoder.read machine)) =
              some { machine with rcx := (machine.rcx.setWidth 32 - 1).setWidth 64 } := by
        rw [address_ECX]
        change some { machine with rcx := _ } = _
        rw [setWidth_zeroExtended]
      rw [if_neg Bool.false_ne_true, if_neg Bool.false_ne_true, if_neg Bool.false_ne_true,
        if_neg Bool.false_ne_true]
      refine (run_lea xedd.follow (Or.inr rfl) writes _).trans ?_
      refine run_branches xedd .JCXZ32a rfl rfl _ ?_
      change ((((machine.rcx.setWidth 32 - 1).setWidth 64).setWidth 32).setWidth 64 == 0) = _
      rw [setWidth_zeroExtended]

theorem counter_eq_iff (rcx : BitVec 64) :
    rcx - 1 = (rcx.setWidth 32 - 1).setWidth 64 ↔ 0 < rcx.toNat ∧ rcx.toNat ≤ 2 ^ 32 := by
  rw [← BitVec.toNat_inj, BitVec.toNat_setWidth, BitVec.toNat_sub, BitVec.toNat_sub,
    BitVec.toNat_setWidth]
  have bound := rcx.isLt
  change (2 ^ 64 - 1 + rcx.toNat) % 2 ^ 64 =
    (2 ^ 32 - 1 + rcx.toNat % 2 ^ 32) % 2 ^ 32 % 2 ^ 64 ↔ _
  omega

/-- The conversion preserves a LOOP instruction if and only if the counter is between one and
2^32. -/
theorem preserves_iff (xedd : DecodedLoop) (machine : Machine) :
    Preserves xedd machine ↔ 0 < machine.rcx.toNat ∧ machine.rcx.toNat ≤ 2 ^ 32 := by
  have counters : leaCounter xedd machine = xedd.counter machine ↔
      0 < machine.rcx.toNat ∧ machine.rcx.toNat ≤ 2 ^ 32 := by
    rw [← counter_eq_iff]
    unfold leaCounter DecodedLoop.counter
    split
    · exact Iff.rfl
    · exact eq_comm
  unfold Preserves
  rw [run_convert_loop, ← counters]
  constructor
  · intro same
    have machines := congrArg (fun result => result.map (fun pair => pair.1.rcx)) same
    exact Option.some.inj machines
  · intro same
    rw [same]
    rfl

def wideLoop : DecodedLoop :=
  { itext := 0x1000
    ilen := 2
    iclass := .LOOP
    hasAddressSizePrefix := false
    branchDisplacement := -2 }

def wideMachine : Machine :=
  { cf := false, pf := false, zf := false, sf := false, of := false, rcx := 0x100000002 }

/-- The upper half of RCX is lost. -/
theorem not_preserves_wideLoop : ¬ Preserves wideLoop wideMachine := by
  intro preserves
  unfold Preserves at preserves
  rw [run_convert_loop] at preserves
  have machines := congrArg (fun result => result.map (fun pair => pair.1.rcx)) preserves
  revert machines
  decide

end ConvertLoop

end Drob
