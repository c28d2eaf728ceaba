import Mathlib

/-!
Registers of the modelled machine: the names the rewriter knows, their physical
storage (container, byte offset, size) and the sub-register masks liveness
analysis works with. `Register::None` is not a register here; where the source
allows it, the model has an `Option Register`.
-/

namespace Drob

inductive Failure where
  /-- A failed `drob_assert` or a reached `drob_assert_not_reached`. -/
  | assertion (condition : String)
  /-- Any other `drob_throw`. -/
  | exception (message : String)
  /-- A null pointer read, an out-of-bounds access or a read of an inactive union member. -/
  | undefined
  deriving DecidableEq, Repr

/-! Literals of `Fin 2` and `Fin 3` name one proof, wherever they stand. -/

instance neZero_two : NeZero 2 := ⟨Nat.succ_ne_zero 1⟩

instance neZero_three : NeZero 3 := ⟨Nat.succ_ne_zero 2⟩

inductive Flag where
  | CF | PF | AF | ZF | SF | OF
  deriving DecidableEq, Repr

instance : Fintype Flag :=
  .ofList [.CF, .PF, .AF, .ZF, .SF, .OF] (by intro item; cases item <;> decide)

inductive Gpr where
  | A | B | C | D | SI | DI | BP | SP
  | R8 | R9 | R10 | R11 | R12 | R13 | R14 | R15
  deriving DecidableEq, Repr

instance : Fintype Gpr :=
  .ofList [.A, .B, .C, .D, .SI, .DI, .BP, .SP, .R8, .R9, .R10, .R11,
    .R12, .R13, .R14, .R15] (by intro item; cases item <;> decide)

inductive GprHigh where
  | AH | BH | CH | DH
  deriving DecidableEq, Repr

instance : Fintype GprHigh :=
  .ofList [.AH, .BH, .CH, .DH] (by intro item; cases item <;> decide)

def GprHigh.parent : GprHigh → Gpr
  | .AH => .A
  | .BH => .B
  | .CH => .C
  | .DH => .D

inductive Register where
  | flag1 (flag : Flag)
  /-- AL, BL, CL, DL, SIL, DIL, BPL, SPL and R8B to R15B. -/
  | gprs8 (gpr : Gpr)
  | gprs8High (gpr : GprHigh)
  | gprs16 (gpr : Gpr)
  | gprs32 (gpr : Gpr)
  | gprs64 (gpr : Gpr)
  | sse128 (nr : Fin 16)
  deriving DecidableEq, Repr, Fintype

namespace Register

abbrev CF : Register := .flag1 .CF
abbrev PF : Register := .flag1 .PF
abbrev AF : Register := .flag1 .AF
abbrev ZF : Register := .flag1 .ZF
abbrev SF : Register := .flag1 .SF
abbrev OF : Register := .flag1 .OF
abbrev CL : Register := .gprs8 .C
abbrev ECX : Register := .gprs32 .C
abbrev RCX : Register := .gprs64 .C
abbrev RSP : Register := .gprs64 .SP

end Register

inductive RegisterType where
  | flag1 | gprs8 | gprs16 | gprs32 | gprs64 | sse128
  deriving DecidableEq, Repr

inductive RegisterAccessType where
  /-- Dummy value, the register is not accessed. -/
  | none
  /-- The full register; a write sets the parent register to zero first. -/
  | fullZeroParent
  | full
  | h0 | h1
  | f0 | f1 | f2 | f3
  deriving DecidableEq, Repr

inductive GprPart where
  | B0 | B1 | W1 | D1
  deriving DecidableEq, Repr

instance : Fintype GprPart :=
  .ofList [.B0, .B1, .W1, .D1] (by intro item; cases item <;> decide)

inductive SubRegister where
  | flag (flag : Flag)
  | gpr (gpr : Gpr) (part : GprPart)
  | xmm (nr : Fin 16) (lane : Fin 4)
  deriving DecidableEq, Repr, Fintype

/-- A set of sub-registers; `+=`, `-=` and `&` of the source are `∪`, `\` and `∩`. -/
abbrev SubRegisterMask := Finset SubRegister

inductive Container where
  | flag1 (flag : Flag)
  | gprs64 (gpr : Gpr)
  | sse128 (nr : Fin 16)
  deriving DecidableEq, Repr, Fintype

def Container.size : Container → Nat
  | .flag1 _ => 1
  | .gprs64 _ => 8
  | .sse128 _ => 16

structure RegisterInfo where
  type : RegisterType
  byteOffs : Nat
  /-- The outermost parent register, if any. -/
  parent : Option Register
  full : SubRegisterMask
  h : Option (Fin 2 → SubRegisterMask)
  f : Option (Fin 4 → SubRegisterMask)

def gprMask (gpr : Gpr) : SubRegisterMask :=
  {.gpr gpr .B0, .gpr gpr .B1, .gpr gpr .W1, .gpr gpr .D1}

def xmmLanes (nr : Fin 16) : SubRegisterMask :=
  {.xmm nr 0, .xmm nr 1, .xmm nr 2, .xmm nr 3}

/-- `DEF_REG_SIMPLE` of the source. -/
def RegisterInfo.simple (type : RegisterType) (parent : Option Register)
    (byteOffs : Nat) (full : SubRegisterMask) : RegisterInfo :=
  { type, byteOffs, parent, full, h := none, f := none }

def archGetRegisterInfo : Register → RegisterInfo
  | .flag1 flag => .simple .flag1 none 0 {.flag flag}
  | .gprs8 gpr => .simple .gprs8 (some (.gprs64 gpr)) 0 {.gpr gpr .B0}
  | .gprs8High high =>
      .simple .gprs8 (some (.gprs64 high.parent)) 1 {.gpr high.parent .B1}
  | .gprs16 gpr =>
      .simple .gprs16 (some (.gprs64 gpr)) 0 {.gpr gpr .B0, .gpr gpr .B1}
  | .gprs32 gpr =>
      .simple .gprs32 (some (.gprs64 gpr)) 0
        {.gpr gpr .B0, .gpr gpr .B1, .gpr gpr .W1}
  | .gprs64 gpr => .simple .gprs64 none 0 (gprMask gpr)
  | .sse128 nr =>
      { type := .sse128
        byteOffs := 0
        parent := none
        full := xmmLanes nr
        h := some (fun half =>
          if half = 0 then {.xmm nr 0, .xmm nr 1} else {.xmm nr 2, .xmm nr 3})
        f := some (fun lane => {.xmm nr lane}) }

def RegisterInfo.sizeInBytes (info : RegisterInfo) : Nat :=
  match info.type with
  | .flag1 => 1
  | .gprs8 => 1
  | .gprs16 => 2
  | .gprs32 => 4
  | .gprs64 => 8
  | .sse128 => 16

def Register.type (reg : Register) : RegisterType :=
  (archGetRegisterInfo reg).type

def Register.container : Register → Container
  | .flag1 flag => .flag1 flag
  | .gprs8 gpr => .gprs64 gpr
  | .gprs8High high => .gprs64 high.parent
  | .gprs16 gpr => .gprs64 gpr
  | .gprs32 gpr => .gprs64 gpr
  | .gprs64 gpr => .gprs64 gpr
  | .sse128 nr => .sse128 nr

/-- A null `h` or `f` table is dereferenced for everything but an XMM register. -/
def subRegisterHalf (info : RegisterInfo) (half : Fin 2) : Except Failure SubRegisterMask :=
  match info.h with
  | some masks => .ok (masks half)
  | none => .error .undefined

def subRegisterFourth (info : RegisterInfo) (fourth : Fin 4) : Except Failure SubRegisterMask :=
  match info.f with
  | some masks => .ok (masks fourth)
  | none => .error .undefined

def getSubRegisterMask (reg : Register) (access : RegisterAccessType) :
    Except Failure SubRegisterMask :=
  let info := archGetRegisterInfo reg
  match access with
  | .fullZeroParent =>
      match info.parent with
      | some parent => .ok (archGetRegisterInfo parent).full
      | none => .error .undefined
  | .full => .ok info.full
  | .h0 => subRegisterHalf info 0
  | .h1 => subRegisterHalf info 1
  | .f0 => subRegisterFourth info 0
  | .f1 => subRegisterFourth info 1
  | .f2 => subRegisterFourth info 2
  | .f3 => subRegisterFourth info 3
  | .none => .error (.assertion "drob_assert_not_reached()")

/-- The mask of a whole register, the one-argument `getSubRegisterMask`. -/
def fullSubRegisterMask (reg : Register) : SubRegisterMask :=
  (archGetRegisterInfo reg).full

structure RegisterSlice where
  container : Container
  byteOffset : Nat
  bytes : Nat
  deriving DecidableEq, Repr

/-- `ProgramState::getRegisterData` without the lookup of the container. -/
def getRegisterData (reg : Register) (access : RegisterAccessType) :
    Except Failure RegisterSlice :=
  let slice (reg : Register) (access : RegisterAccessType) : Except Failure RegisterSlice :=
    let info := archGetRegisterInfo reg
    let bytes := info.sizeInBytes
    let make (offset size : Nat) : RegisterSlice :=
      { container := reg.container, byteOffset := info.byteOffs + offset, bytes := size }
    match access with
    | .full => .ok (make 0 bytes)
    | .h0 => .ok (make 0 (bytes / 2))
    | .h1 => .ok (make (bytes / 2) (bytes / 2))
    | .f0 => .ok (make 0 (bytes / 4))
    | .f1 => .ok (make (bytes / 4) (bytes / 4))
    | .f2 => .ok (make (bytes / 2) (bytes / 4))
    | .f3 => .ok (make (3 * bytes / 4) (bytes / 4))
    | _ => .error (.assertion "drob_assert_not_reached()")
  match access with
  | .fullZeroParent =>
      match (archGetRegisterInfo reg).parent with
      | some parent => slice parent .full
      | none => .error .undefined
  | other => slice reg other

def SubRegister.covers : SubRegister → Container → Nat → Prop
  | .flag name, .flag1 other, byte => name = other ∧ byte = 0
  | .gpr base part, .gprs64 other, byte =>
      base = other ∧
        match part with
        | .B0 => byte = 0
        | .B1 => byte = 1
        | .W1 => 2 ≤ byte ∧ byte < 4
        | .D1 => 4 ≤ byte ∧ byte < 8
  | .xmm nr lane, .sse128 other, byte =>
      nr = other ∧ 4 * lane.val ≤ byte ∧ byte < 4 * lane.val + 4
  | _, _, _ => False

end Drob
