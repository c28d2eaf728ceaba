import Drob.Arch.Register

/-!
The arithmetic of the x86 instructions that are emulated: the result and the status
flags as the architecture defines them. A flag gets a value, is left undefined, or
is not changed.
-/

namespace Drob

inductive FlagEffect where
  | value (flag : Bool)
  | undefined
  | unchanged
  deriving DecidableEq

structure AluResult (w : Nat) where
  value : BitVec w
  flags : Flag → FlagEffect

abbrev Eflags := Flag → Bool

namespace Alu

/-- The parity flag: an even number of ones in the low byte. -/
def parity {w : Nat} (value : BitVec w) : Bool :=
  !(value.getLsbD 0 ^^ value.getLsbD 1 ^^ value.getLsbD 2 ^^ value.getLsbD 3 ^^
    value.getLsbD 4 ^^ value.getLsbD 5 ^^ value.getLsbD 6 ^^ value.getLsbD 7)

def resultFlags {w : Nat} (value : BitVec w) (cf af of : FlagEffect) : Flag → FlagEffect
  | .CF => cf
  | .PF => .value (parity value)
  | .AF => af
  | .ZF => .value (value == 0)
  | .SF => .value value.msb
  | .OF => of

def add {w : Nat} (a b : BitVec w) : AluResult w :=
  { value := a + b
    flags :=
      resultFlags (a + b) (.value (decide (2 ^ w ≤ a.toNat + b.toNat)))
        (.value (decide (16 ≤ a.toNat % 16 + b.toNat % 16)))
        (.value (BitVec.saddOverflow a b)) }

def sub {w : Nat} (a b : BitVec w) : AluResult w :=
  { value := a - b
    flags :=
      resultFlags (a - b) (.value (decide (a.toNat < b.toNat)))
        (.value (decide (a.toNat % 16 < b.toNat % 16)))
        (.value (BitVec.ssubOverflow a b)) }

def logicFlags {w : Nat} (value : BitVec w) : Flag → FlagEffect :=
  resultFlags value (.value false) .undefined (.value false)

def xor {w : Nat} (a b : BitVec w) : AluResult w :=
  { value := a ^^^ b, flags := logicFlags (a ^^^ b) }

/-- TEST computes the flags of the conjunction only. -/
def test {w : Nat} (a b : BitVec w) : AluResult w :=
  { value := a &&& b, flags := logicFlags (a &&& b) }

/-- The count of a 64-bit shift is masked to six bits. -/
def shiftCount (count : BitVec 8) : Nat :=
  count.toNat % 64

/-- A shift by zero changes nothing; OF is defined for shifts by one only. -/
def shl64 (a : BitVec 64) (count : BitVec 8) : AluResult 64 :=
  let n := shiftCount count
  if n = 0 then { value := a, flags := fun _ => .unchanged }
  else
    let value := a <<< n
    let cf := a.getLsbD (64 - n)
    { value
      flags :=
        resultFlags value (.value cf) .undefined
          (if n = 1 then .value (value.msb ^^ cf) else .undefined) }

def shr64 (a : BitVec 64) (count : BitVec 8) : AluResult 64 :=
  let n := shiftCount count
  if n = 0 then { value := a, flags := fun _ => .unchanged }
  else
    let value := a >>> n
    { value
      flags :=
        resultFlags value (.value (a.getLsbD (n - 1))) .undefined
          (if n = 1 then .value a.msb else .undefined) }

end Alu

/-- A flag after an instruction: `old` before it, `undef` what the processor chooses
where the architecture leaves the flag undefined. -/
def FlagEffect.resolve (effect : FlagEffect) (old undef : Bool) : Bool :=
  match effect with
  | .value flag => flag
  | .undefined => undef
  | .unchanged => old

end Drob
