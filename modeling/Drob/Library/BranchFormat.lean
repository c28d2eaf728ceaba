import Drob.Library.LittleEndian

/-!
Near branches in 64-bit mode: the instructions that bytes stand for, and where control is
after a sequence of them.
-/

namespace BranchFormat

open LittleEndian

structure Machine where
  cf : Bool
  pf : Bool
  zf : Bool
  sf : Bool
  of : Bool
  rcx : BitVec 64

/-- The condition that the low four bits of an opcode name; the lowest bit negates it. -/
def Machine.code (machine : Machine) (code : BitVec 4) : Bool :=
  let holds :=
    if code.extractLsb' 1 3 = 0 then machine.of
    else if code.extractLsb' 1 3 = 1 then machine.cf
    else if code.extractLsb' 1 3 = 2 then machine.zf
    else if code.extractLsb' 1 3 = 3 then machine.cf || machine.zf
    else if code.extractLsb' 1 3 = 4 then machine.sf
    else if code.extractLsb' 1 3 = 5 then machine.pf
    else if code.extractLsb' 1 3 = 6 then machine.sf != machine.of
    else machine.zf || (machine.sf != machine.of)
  holds != code.getLsbD 0

inductive Condition where
  | always
  | code (code : BitVec 4)
  | ecxZero
  | rcxZero

def Machine.holds (machine : Machine) : Condition → Bool
  | .always => true
  | .code code => machine.code code
  | .ecxZero => machine.rcx.setWidth 32 == 0
  | .rcxZero => machine.rcx == 0

structure Branch where
  condition : Condition
  length : Nat
  /-- From the end of the instruction. -/
  displacement : BitVec 64
  /-- The address of the next instruction is pushed. -/
  call : Bool

/-- The address of the next instruction that is executed. -/
def Branch.next (branch : Branch) (machine : Machine) (address : BitVec 64) : BitVec 64 :=
  let follow := address + BitVec.ofNat 64 branch.length
  if machine.holds branch.condition then follow + branch.displacement else follow

def rel8 (condition : Condition) (length : Nat) :
    List (BitVec 8) → Option (Branch × List (BitVec 8))
  | cb :: rest =>
      some ({ condition, length, displacement := cb.signExtend 64, call := false }, rest)
  | [] => none

def rel32 (condition : Condition) (length : Nat) (call : Bool) :
    List (BitVec 8) → Option (Branch × List (BitVec 8))
  | b0 :: b1 :: b2 :: b3 :: rest =>
      let cd := ofBytes 32 (fun i => [b0, b1, b2, b3].getD i 0) 4
      some ({ condition, length, displacement := cd.signExtend 64, call }, rest)
  | _ => none

/-- The near branch at the start of a sequence and the bytes after it. -/
def decode : List (BitVec 8) → Option (Branch × List (BitVec 8))
  | [] => none
  | opcode :: rest =>
      if opcode = 0xeb then rel8 .always 2 rest
      else if opcode = 0xe9 then rel32 .always 5 false rest
      else if opcode = 0xe8 then rel32 .always 5 true rest
      else if opcode = 0xe3 then rel8 .rcxZero 2 rest
      else if opcode.extractLsb' 4 4 = 7 then rel8 (.code (opcode.setWidth 4)) 2 rest
      else
        match rest with
        | [] => none
        | second :: rest =>
            -- The address size prefix selects ECX.
            if opcode = 0x67 ∧ second = 0xe3 then rel8 .ecxZero 3 rest
            else if opcode = 0x0f ∧ second.extractLsb' 4 4 = 8 then
              rel32 (.code (second.setWidth 4)) 6 false rest
            else none

/-- A sequence of near branches and nothing else; the count bounds their number. -/
def decodeAll : Nat → List (BitVec 8) → Option (List Branch)
  | _, [] => some []
  | 0, _ :: _ => none
  | count + 1, bytes => do
      let (branch, rest) ← decode bytes
      let branches ← decodeAll count rest
      some (branch :: branches)

/-- Where control is after a sequence. An instruction is executed if control is at it, so
jumps within the sequence go forward. -/
def run (machine : Machine) : List Branch → BitVec 64 → BitVec 64 → BitVec 64
  | [], _, control => control
  | branch :: rest, address, control =>
      run machine rest (address + BitVec.ofNat 64 branch.length)
        (if control = address then branch.next machine address else control)

/-- The bytes are jumps that lead from a location to a target exactly where a condition
holds, and behind the bytes otherwise. -/
def Leads (bytes : List (BitVec 8)) (location target : BitVec 64) (holds : Machine → Bool) :
    Prop :=
  ∃ branches, decodeAll bytes.length bytes = some branches ∧
    (∀ branch ∈ branches, branch.call = false) ∧
      ∀ machine, run machine branches location location =
        if holds machine then target else location + BitVec.ofNat 64 bytes.length

/-- The bytes are one call of a target that returns behind them. -/
def Calls (bytes : List (BitVec 8)) (location target : BitVec 64) : Prop :=
  ∃ branch, decode bytes = some (branch, []) ∧ branch.call = true ∧
    branch.length = bytes.length ∧ ∀ machine, branch.next machine location = target

theorem ofBytes_getD (word : BitVec 32) :
    ofBytes 32 (fun i => [byte word 0, byte word 1, byte word 2, byte word 3].getD i 0) 4 =
      word := by
  rw [← ofBytes_byte word (n := 4) (by decide)]
  apply ofBytes_congr
  intro i below
  rw [ofBytes_byte word (by decide)]
  match i with
  | 0 | 1 | 2 | 3 => rfl

theorem rel32_byte (condition : Condition) (length : Nat) (call : Bool) (cd : BitVec 32)
    (rest : List (BitVec 8)) :
    rel32 condition length call (byte cd 0 :: byte cd 1 :: byte cd 2 :: byte cd 3 :: rest) =
      some ({ condition, length, displacement := cd.signExtend 64, call }, rest) := by
  simp only [rel32, ofBytes_getD]

theorem decodeAll_single {bytes : List (BitVec 8)} {branch : Branch}
    (decoded : decode bytes = some (branch, [])) : decodeAll bytes.length bytes = some [branch] := by
  cases bytes with
  | nil => cases decoded
  | cons opcode rest => simp [decodeAll, decoded]

theorem run_single (machine : Machine) (branch : Branch) (location : BitVec 64) :
    run machine [branch] location location = branch.next machine location := by
  simp only [run, if_true]

theorem leads_single {bytes : List (BitVec 8)} {location target : BitVec 64}
    {holds : Machine → Bool} {branch : Branch} (decoded : decode bytes = some (branch, []))
    (call : branch.call = false) (length : branch.length = bytes.length)
    (condition : ∀ machine, machine.holds branch.condition = holds machine)
    (reached : location + BitVec.ofNat 64 bytes.length + branch.displacement = target) :
    Leads bytes location target holds := by
  refine ⟨[branch], decodeAll_single decoded, ?_, ?_⟩
  · intro other member
    rw [List.mem_singleton.mp member]
    exact call
  · intro machine
    simp only [run_single, Branch.next, length, condition, reached]

/-- A displacement of limited width reaches what is in its range. -/
theorem signExtend_setWidth {displacement : BitVec 64} {width : Nat} (positive : 0 < width)
    (narrow : width ≤ 64) (low : -2 ^ (width - 1) ≤ displacement.toInt)
    (high : displacement.toInt < 2 ^ (width - 1)) :
    (displacement.setWidth width).signExtend 64 = displacement := by
  have double : (2 : Int) ^ width = 2 * 2 ^ (width - 1) := by
    rw [← pow_succ', Nat.sub_add_cancel positive]
  have wraps : ((2 ^ 64 : Nat) : Int) = 2 ^ (64 - width) * ((2 ^ width : Nat) : Int) := by
    rw [Nat.cast_pow, Nat.cast_pow, Nat.cast_ofNat, ← pow_add, Nat.sub_add_cancel narrow]
  have same : Int.bmod displacement.toNat (2 ^ width) =
      Int.bmod displacement.toInt (2 ^ width) := by
    rw [BitVec.toInt_eq_toNat_cond]
    split
    · rfl
    · rw [wraps, Int.sub_mul_bmod_self_right]
  apply BitVec.eq_of_toInt_eq
  rw [BitVec.toInt_signExtend_of_le narrow, BitVec.toInt_setWidth, same]
  apply Int.bmod_eq_of_le_mul_two <;> push_cast <;> omega

theorem setWidth_signExtend (word : BitVec 32) : (word.signExtend 64).setWidth 32 = word := by
  apply BitVec.eq_of_getLsbD_eq
  intro i inside
  have wide : i < 64 := by omega
  rw [BitVec.getLsbD_setWidth, BitVec.getLsbD_signExtend]
  simp only [inside, wide, decide_true, Bool.true_and, if_true]

end BranchFormat
