import Drob.Arch.Operand
import Drob.Library.OperandFormat

/-!
Instructions with a ModRM byte and a memory operand, as `ModRMEncoding` puts them together.
-/

namespace Drob

namespace Encoder

open LittleEndian

def gprNr : Gpr → BitVec 4
  | .A => 0
  | .C => 1
  | .D => 2
  | .B => 3
  | .SP => 4
  | .BP => 5
  | .SI => 6
  | .DI => 7
  | .R8 => 8
  | .R9 => 9
  | .R10 => 10
  | .R11 => 11
  | .R12 => 12
  | .R13 => 13
  | .R14 => 14
  | .R15 => 15

def encodeReg : Register → Except Failure (BitVec 4)
  | .gprs8 gpr | .gprs16 gpr | .gprs32 gpr | .gprs64 gpr => .ok (gprNr gpr)
  | .gprs8High .AH => .ok 4
  | .gprs8High .CH => .ok 5
  | .gprs8High .DH => .ok 6
  | .gprs8High .BH => .ok 7
  | .sse128 nr => .ok (BitVec.ofFin nr)
  | .flag1 _ => .error (.assertion "drob_assert_not_reached()")

def encodeAddrReg : Register → Except Failure (BitVec 4 × Bool)
  | .gprs64 gpr => .ok (gprNr gpr, false)
  | .gprs32 gpr =>
      match gpr with
      | .A | .C | .D | .B | .SP | .BP | .SI | .DI => .ok (gprNr gpr, true)
      | _ => .error (.assertion "drob_assert_not_reached()")
  | _ => .error (.assertion "drob_assert_not_reached()")

structure REX where
  b : Bool
  x : Bool
  r : Bool
  w : Bool

/-- The low half of the byte; the high half is 4. -/
def REX.val (rex : REX) : BitVec 4 :=
  BitVec.ofBool rex.w ++ BitVec.ofBool rex.r ++ BitVec.ofBool rex.x ++ BitVec.ofBool rex.b

structure SIB where
  required : Bool
  base : BitVec 3
  index : BitVec 3
  scale : BitVec 2

def SIB.val (sib : SIB) : BitVec 8 :=
  sib.scale ++ sib.index ++ sib.base

structure ModRM where
  rm : BitVec 3
  reg : BitVec 3
  mod : BitVec 2

def ModRM.val (modrm : ModRM) : BitVec 8 :=
  modrm.mod ++ modrm.reg ++ modrm.rm

structure Disp where
  required : Bool
  isDisp32 : Bool
  disp8 : BitVec 8
  disp32 : BitVec 32

structure EncFlags where
  rexW : Bool
  p66 : Bool
  pf2 : Bool

structure ModRMEncoding where
  oc : List (BitVec 8)
  imm : BitVec 64
  immLen : Nat
  is32bit : Bool
  p66 : Bool
  pf2 : Bool
  rex : REX
  modrm : ModRM
  sib : SIB
  disp : Disp

/-- The register field: a register or an extension of the opcode. -/
inductive RegField where
  | register (reg : Register)
  | extension (reg : BitVec 8)

structure Form where
  oc : List (BitVec 8)
  reg : RegField
  imm : BitVec 64
  immLen : Nat
  flags : EncFlags

namespace ModRMEncoding

def write (ope : ModRMEncoding) : Except Failure (List (BitVec 8)) :=
  let immBytes : Except Failure (List (BitVec 8)) :=
    match ope.immLen with
    | 1 => .ok [byte ope.imm 0]
    | 2 => .ok [byte ope.imm 0, byte ope.imm 1]
    | 4 => .ok [byte ope.imm 0, byte ope.imm 1, byte ope.imm 2, byte ope.imm 3]
    | 0 => .ok []
    | _ => .error (.assertion "!immLen")
  let dispBytes : List (BitVec 8) :=
    if ope.disp.required then
      if ope.disp.isDisp32 then (List.range 4).map (byte ope.disp.disp32) else [ope.disp.disp8]
    else []
  immBytes.map (fun immBytes =>
    (if ope.p66 then [0x66] else []) ++
      (if ope.is32bit then [0x67] else []) ++
      (if ope.pf2 then [0xf2] else []) ++
      (if ope.rex.val ≠ 0 then [(4 : BitVec 4) ++ ope.rex.val] else []) ++
      ope.oc ++
      [ope.modrm.val] ++
      (if ope.sib.required then [ope.sib.val] else []) ++
      dispBytes ++ immBytes)

def is_rel32 (val : BitVec 64) : Bool :=
  (val.setWidth 32).signExtend 64 = val

/-- An address that cannot be reached is reported and encoded nevertheless. -/
def encodeMemoryDirect (ope : ModRMEncoding) (val addr : BitVec 64) :
    Except Failure ModRMEncoding :=
  if (val.setWidth 32).signExtend 64 = val then
    .ok { ope with
      modrm := { ope.modrm with mod := 0, rm := 4 }
      sib := { ope.sib with required := true, base := 5, index := 4 }
      disp := { ope.disp with required := true, isDisp32 := true, disp32 := val.setWidth 32 } }
  else
    let ilen := ope.oc.length + 5 + ope.immLen + ope.p66.toNat + ope.is32bit.toNat +
      ope.pf2.toNat + (if ope.rex.val ≠ 0 then 1 else 0)
    if ope.sib.required then .error (.assertion "!sib.isRequired()")
    else
      let rel := val - (addr + BitVec.ofNat 64 ilen)
      if is_rel32 rel then
        .ok { ope with
          modrm := { ope.modrm with mod := 0, rm := 5 }
          disp := { ope.disp with required := true, isDisp32 := true, disp32 := rel.setWidth 32 } }
      else .ok ope

/-- Compress the displacement; the `mod` field follows. -/
def compressDisp (ope : ModRMEncoding) (val : BitVec 32) : ModRMEncoding :=
  let disp :=
    if val ≠ 0 then
      if (val.setWidth 8).signExtend 32 = val then
        { ope.disp with required := true, disp8 := val.setWidth 8 }
      else { ope.disp with required := true, isDisp32 := true, disp32 := val }
    else ope.disp
  let mod := if disp.required then (if disp.isDisp32 then 2 else 1) else 0
  { ope with disp, modrm := { ope.modrm with mod } }

/-- The first switch of `encodeMemoryIndirect`, on the base. -/
def switchBase (ope : ModRMEncoding) (base : Option Register) : Except Failure ModRMEncoding :=
  match base with
  | some (.gprs32 .BP) =>
      .ok { ope with is32bit := true, disp := { ope.disp with required := true } }
  | some (.gprs64 .BP) | some (.gprs64 .R13) =>
      .ok { ope with disp := { ope.disp with required := true } }
  | some (.gprs32 .SP) | some (.gprs64 .SP) =>
      .error (.assertion "drob_assert_not_reached()")
  | _ => .ok ope

def convertScale (scale : BitVec 8) : Except Failure (BitVec 2) :=
  if scale = 0 ∨ scale = 1 then .ok 0
  else if scale = 2 then .ok 1
  else if scale = 4 then .ok 2
  else if scale = 8 then .ok 3
  else .error (.assertion "drob_assert_not_reached()")

/-- The rest of `encodeMemoryIndirect`, for the registers that the operand has. -/
def encodeRegisters (ope : ModRMEncoding) (base index : Option Register)
    (disp : SignedImmediate32) : Except Failure ModRMEncoding :=
  match base, index with
  | none, none =>
      .error (.assertion "rm.sib.base != Register::None || rm.sib.index != Register::None")
  | some base, none => do
      let ope := ope.compressDisp disp.val
      let (r, is32) ← encodeAddrReg base
      .ok { ope with
        is32bit := ope.is32bit || is32
        modrm := { ope.modrm with rm := r.setWidth 3 }
        rex := { ope.rex with b := r.getLsbD 3 } }
  | none, some index => do
      let (r, is32) ← encodeAddrReg index
      .ok { ope with
        is32bit := ope.is32bit || is32
        modrm := { ope.modrm with mod := 0, rm := 4 }
        sib := { ope.sib with required := true, base := 5, index := r.setWidth 3 }
        rex := { ope.rex with x := r.getLsbD 3 }
        disp := { ope.disp with required := true, isDisp32 := true, disp32 := disp.val } }
  | some base, some index => do
      let ope := ope.compressDisp disp.val
      let (r, is32) ← encodeAddrReg base
      let (i, needs32bit) ← encodeAddrReg index
      if (ope.is32bit || is32) ≠ needs32bit then .error (.assertion "is32bit == needs32bit")
      else
        .ok { ope with
          is32bit := ope.is32bit || is32
          modrm := { ope.modrm with rm := 4 }
          sib := { ope.sib with
            required := true, base := r.setWidth 3, index := i.setWidth 3 }
          rex := { ope.rex with b := r.getLsbD 3, x := i.getLsbD 3 } }

def encodeMemoryIndirect (ope : ModRMEncoding) (base index : Option Register)
    (disp : SignedImmediate32) (scale : BitVec 8) : Except Failure ModRMEncoding := do
  let ope ← ope.switchBase base
  let sibScale ← convertScale scale
  { ope with sib := { ope.sib with scale := sibScale } }.encodeRegisters base index disp

def start (form : Form) (r : BitVec 8) : ModRMEncoding where
  oc := form.oc
  imm := form.imm
  immLen := form.immLen
  is32bit := false
  p66 := form.flags.p66
  pf2 := form.flags.pf2
  rex := { b := false, x := false, r := r.getLsbD 3, w := form.flags.rexW }
  modrm := { rm := 0, reg := r.setWidth 3, mod := 0 }
  sib := { required := false, base := 0, index := 0, scale := 0 }
  disp := { required := false, isDisp32 := false, disp8 := 0, disp32 := 0 }

def regNr : RegField → Except Failure (BitVec 8)
  | .register reg => (encodeReg reg).map (BitVec.setWidth 8)
  | .extension reg => .ok reg

def make (form : Form) (rm : StaticMemPtr) (addr : BitVec 64) : Except Failure ModRMEncoding := do
  let r ← regNr form.reg
  match rm with
  | .direct imm => (start form r).encodeMemoryDirect imm.val addr
  | .SIB base index disp scale => (start form r).encodeMemoryIndirect base index disp scale

end ModRMEncoding

end Encoder

end Drob
