import Drob.Arch.Operand

/-!
The opcode table. Each row gives the explicit and implicit operands of an opcode, its
predicate, its control flow type, its handlers and how far it can be emulated.
-/

namespace Drob

inductive ControlFlowType where
  | Other | Ret | Call | Branch
  deriving DecidableEq

inductive OpcodeFlag where
  | OfNone | OfEmuImm | OfEmuPtr | OfEmuFull
  deriving DecidableEq

inductive RefineFn where
  | nullptr | sh | xor_rr
  deriving DecidableEq

inductive EmulateFn where
  | nullptr
  | add8 | add16 | add32 | add64 | addpd | addsd | call | cmp8 | cmp16 | cmp32 | cmp64 | lea
  | mov | mulpd | mulsd | pop | push | pxor | ret | shl64 | shr64 | sub8 | sub16 | sub32
  | sub64 | test8 | test16 | test32 | test64 | xor64 | xor32
  deriving DecidableEq

inductive SpecializeFn where
  | nullptr
  | add64 | addpd | addsd | cmp8 | cmp16 | cmp32 | cmp64 | lea64 | lea32 | lea16 | mov64
  | mov32 | movapd | movsd | movupd | movups | mulpd | mulsd | pop | push16 | push64 | pxor
  | shl64 | shr64 | test8 | test16 | test32 | test64 | xor64 | xor32
  deriving DecidableEq

structure OpcodeInfo where
  opInfo : List ExplicitStaticOperandInfo
  iOpInfo : List StaticOperandInfo
  predicate : Option Predicate
  type : ControlFlowType
  refine : RefineFn
  emulate : EmulateFn
  specialize : SpecializeFn
  flags : OpcodeFlag
  deriving DecidableEq

inductive Opcode where
  | NONE
  | ADD8mr | ADD8rr | ADD8rm | ADD8mi | ADD8ri | ADD16mr | ADD16rr | ADD16rm | ADD16mi
  | ADD16ri | ADD32mr | ADD32rr | ADD32rm | ADD32mi | ADD32ri | ADD64mr | ADD64rr | ADD64rm
  | ADD64mi | ADD64ri
  | ADDPDrm | ADDPDrr
  | ADDSDrm | ADDSDrr
  | CALLa | CALLm | CALLr
  | CMP8mr | CMP8mi | CMP8rm | CMP8rr | CMP8ri | CMP16mr | CMP16mi | CMP16rm | CMP16rr
  | CMP16ri | CMP32mr | CMP32mi | CMP32rm | CMP32rr | CMP32ri | CMP64mr | CMP64mi | CMP64rm
  | CMP64rr | CMP64ri
  | JNBEa | JNBa | JBa | JBEa | JCXZ32a | JCXZ64a | JZa | JNLEa | JNLa | JLa | JLEa | JNZa
  | JNOa | JNPa | JNSa | JOa | JPa | JSa
  | JMPa | JMPm | JMPr
  | LEA64ra | LEA32ra | LEA16ra
  | MOV64mr | MOV64rr | MOV64rm | MOV64mi | MOV64ri | MOV32mr | MOV32rr | MOV32rm | MOV32mi
  | MOV32ri
  | MOVAPDrm | MOVAPDrr | MOVAPDmr
  | MOVSDrm | MOVSDrr | MOVSDmr
  | MOVUPDmr | MOVUPDrr | MOVUPDrm
  | MOVUPSmr | MOVUPSrr | MOVUPSrm
  | MULPDrm | MULPDrr
  | MULSDrm | MULSDrr
  | POP16m | POP16r | POP64m | POP64r
  | PUSH16m | PUSH16r | PUSH16i | PUSH64m | PUSH64r | PUSH64i
  | PXOR128rm | PXOR128rr
  | RET
  | SHL64m | SHL64r | SHL64mi | SHL64ri
  | SHR64m | SHR64r | SHR64mi | SHR64ri
  | SUB8mr | SUB8rr | SUB8rm | SUB8mi | SUB8ri | SUB16mr | SUB16rr | SUB16rm | SUB16mi
  | SUB16ri | SUB32mr | SUB32rr | SUB32rm | SUB32mi | SUB32ri | SUB64mr | SUB64rr | SUB64rm
  | SUB64mi | SUB64ri
  | TEST8mr | TEST8mi | TEST8rr | TEST8ri | TEST16mr | TEST16mi | TEST16rr | TEST16ri
  | TEST32mr | TEST32mi | TEST32rr | TEST32ri | TEST64mr | TEST64mi | TEST64rr | TEST64ri
  | XOR64mr | XOR64rr | XOR64rm | XOR64mi | XOR64ri | XOR32mr | XOR32rr | XOR32rm | XOR32mi
  | XOR32ri
  deriving DecidableEq

namespace OpcodeTable

/-! ### Explicit operands -/

def regRead (type : RegisterType) (access : RegisterAccessType) : ExplicitStaticOperandInfo :=
  .register type .Read access .none

def regMayRead (type : RegisterType) (access : RegisterAccessType) :
    ExplicitStaticOperandInfo :=
  .register type .MayRead access .none

def regWrite (type : RegisterType) (access : RegisterAccessType) : ExplicitStaticOperandInfo :=
  .register type .Write .none access

def regReadWrite (type : RegisterType) (r w : RegisterAccessType) :
    ExplicitStaticOperandInfo :=
  .register type .ReadWrite r w

def regMayReadWrite (type : RegisterType) (r w : RegisterAccessType) :
    ExplicitStaticOperandInfo :=
  .register type .MayReadWrite r w

def mA : ExplicitStaticOperandInfo := .memPtr .Address 0

def m8R : ExplicitStaticOperandInfo := .memPtr .Read 1
def m8RW : ExplicitStaticOperandInfo := .memPtr .ReadWrite 1

def m16R : ExplicitStaticOperandInfo := .memPtr .Read 2
def m16W : ExplicitStaticOperandInfo := .memPtr .Write 2
def m16RW : ExplicitStaticOperandInfo := .memPtr .ReadWrite 2

def m32R : ExplicitStaticOperandInfo := .memPtr .Read 4
def m32W : ExplicitStaticOperandInfo := .memPtr .Write 4
def m32RW : ExplicitStaticOperandInfo := .memPtr .ReadWrite 4

def m64R : ExplicitStaticOperandInfo := .memPtr .Read 8
def m64W : ExplicitStaticOperandInfo := .memPtr .Write 8
def m64RW : ExplicitStaticOperandInfo := .memPtr .ReadWrite 8

def m128R : ExplicitStaticOperandInfo := .memPtr .Read 16
def m128W : ExplicitStaticOperandInfo := .memPtr .Write 16

def r8R : ExplicitStaticOperandInfo := regRead .gprs8 .full
def r8RW : ExplicitStaticOperandInfo := regReadWrite .gprs8 .full .full

def r16R : ExplicitStaticOperandInfo := regRead .gprs16 .full
def r16W : ExplicitStaticOperandInfo := regWrite .gprs16 .full
def r16RW : ExplicitStaticOperandInfo := regReadWrite .gprs16 .full .full

def r32R : ExplicitStaticOperandInfo := regRead .gprs32 .full
def r32W : ExplicitStaticOperandInfo := regWrite .gprs32 .fullZeroParent
def r32RW : ExplicitStaticOperandInfo := regReadWrite .gprs32 .full .fullZeroParent
def r32MR : ExplicitStaticOperandInfo := regMayRead .gprs32 .full
def r32MRW : ExplicitStaticOperandInfo := regMayReadWrite .gprs32 .full .fullZeroParent

def r64R : ExplicitStaticOperandInfo := regRead .gprs64 .full
def r64W : ExplicitStaticOperandInfo := regWrite .gprs64 .full
def r64RW : ExplicitStaticOperandInfo := regReadWrite .gprs64 .full .full
def r64MR : ExplicitStaticOperandInfo := regMayRead .gprs64 .full
def r64MRW : ExplicitStaticOperandInfo := regMayReadWrite .gprs64 .full .full

def x64W : ExplicitStaticOperandInfo := regWrite .sse128 .h0
def x64R : ExplicitStaticOperandInfo := regRead .sse128 .h0
def x64RW : ExplicitStaticOperandInfo := regReadWrite .sse128 .h0 .h0

def x128W : ExplicitStaticOperandInfo := regWrite .sse128 .full
def x128R : ExplicitStaticOperandInfo := regRead .sse128 .full
def x128RW : ExplicitStaticOperandInfo := regReadWrite .sse128 .full .full
def x128MR : ExplicitStaticOperandInfo := regMayRead .sse128 .full
def x128MRW : ExplicitStaticOperandInfo := regMayReadWrite .sse128 .full .full

def i8 : ExplicitStaticOperandInfo := .immediate .Immediate8
def i16 : ExplicitStaticOperandInfo := .immediate .Immediate16
def i32 : ExplicitStaticOperandInfo := .immediate .Immediate32
def i64 : ExplicitStaticOperandInfo := .immediate .Immediate64
def s32 : ExplicitStaticOperandInfo := .immediate .SignedImmediate32

/-! ### Implicit operands -/

def eflags (mode : AccessMode) : List StaticOperandInfo :=
  [.register { reg := .CF, mode, r := .none, w := .full },
   .register { reg := .PF, mode, r := .none, w := .full },
   .register { reg := .AF, mode, r := .none, w := .full },
   .register { reg := .ZF, mode, r := .none, w := .full },
   .register { reg := .SF, mode, r := .none, w := .full },
   .register { reg := .OF, mode, r := .none, w := .full }]

def eflagsW : List StaticOperandInfo := eflags .Write

def eflagsMW : List StaticOperandInfo := eflags .MayWrite

def rspReadWrite : StaticOperandInfo :=
  .register { reg := .RSP, mode := .ReadWrite, r := .full, w := .full }

def rspMem (disp : BitVec 32) (mode : AccessMode) (size : Nat) : StaticOperandInfo :=
  .memPtr { ptr := .SIB (some .RSP) none (.plain disp) 0, mode, size }

def pop64 : List StaticOperandInfo := [rspReadWrite, rspMem 0 .Read 8]
def pop16 : List StaticOperandInfo := [rspReadWrite, rspMem 0 .Read 2]
def ret : List StaticOperandInfo := [rspReadWrite, rspMem 0 .Read 8]
def push64 : List StaticOperandInfo := [rspReadWrite, rspMem (-8) .Write 8]
def push16 : List StaticOperandInfo := [rspReadWrite, rspMem (-2) .Write 2]

/-- The shift count in CL has no read access type. -/
def sh : List StaticOperandInfo :=
  .register { reg := .CL, mode := .Read, r := .none, w := .full } :: eflags .MayWrite

def opc (opInfo : List ExplicitStaticOperandInfo) (iOpInfo : List StaticOperandInfo)
    (predicate : Option Predicate) (type : ControlFlowType) (refine : RefineFn)
    (emulate : EmulateFn) (specialize : SpecializeFn) (flags : OpcodeFlag) :
    Option OpcodeInfo :=
  some { opInfo, iOpInfo, predicate, type, refine, emulate, specialize, flags }

end OpcodeTable

open OpcodeTable in
def archGetOpcodeInfo : Opcode → Option OpcodeInfo
  | .NONE => none
  | .ADD8mr => opc [m8RW, r8R] eflagsW none .Other .nullptr .add8 .nullptr .OfEmuImm
  | .ADD8rr => opc [r8RW, r8R] eflagsW none .Other .nullptr .add8 .nullptr .OfEmuImm
  | .ADD8rm => opc [r8RW, m8R] eflagsW none .Other .nullptr .add8 .nullptr .OfEmuImm
  | .ADD8mi => opc [m8RW, i8] eflagsW none .Other .nullptr .add8 .nullptr .OfEmuImm
  | .ADD8ri => opc [r8RW, i8] eflagsW none .Other .nullptr .add8 .nullptr .OfEmuImm
  | .ADD16mr => opc [m16RW, r16R] eflagsW none .Other .nullptr .add16 .nullptr .OfEmuImm
  | .ADD16rr => opc [r16RW, r16R] eflagsW none .Other .nullptr .add16 .nullptr .OfEmuImm
  | .ADD16rm => opc [r16RW, m16R] eflagsW none .Other .nullptr .add16 .nullptr .OfEmuImm
  | .ADD16mi => opc [m16RW, i16] eflagsW none .Other .nullptr .add16 .nullptr .OfEmuImm
  | .ADD16ri => opc [r16RW, i16] eflagsW none .Other .nullptr .add16 .nullptr .OfEmuImm
  | .ADD32mr => opc [m32RW, r32R] eflagsW none .Other .nullptr .add32 .nullptr .OfEmuImm
  | .ADD32rr => opc [r32RW, r32R] eflagsW none .Other .nullptr .add32 .nullptr .OfEmuImm
  | .ADD32rm => opc [r32RW, m32R] eflagsW none .Other .nullptr .add32 .nullptr .OfEmuImm
  | .ADD32mi => opc [m32RW, i32] eflagsW none .Other .nullptr .add32 .nullptr .OfEmuImm
  | .ADD32ri => opc [r32RW, i32] eflagsW none .Other .nullptr .add32 .nullptr .OfEmuImm
  | .ADD64mr => opc [m64RW, r64R] eflagsW none .Other .nullptr .add64 .add64 .OfEmuPtr
  | .ADD64rr => opc [r64RW, r64R] eflagsW none .Other .nullptr .add64 .add64 .OfEmuPtr
  | .ADD64rm => opc [r64RW, m64R] eflagsW none .Other .nullptr .add64 .add64 .OfEmuPtr
  | .ADD64mi => opc [m64RW, s32] eflagsW none .Other .nullptr .add64 .add64 .OfEmuPtr
  | .ADD64ri => opc [r64RW, s32] eflagsW none .Other .nullptr .add64 .add64 .OfEmuPtr
  | .ADDPDrm => opc [x128RW, m128R] [] none .Other .nullptr .addpd .addpd .OfEmuImm
  | .ADDPDrr => opc [x128RW, x128R] [] none .Other .nullptr .addpd .addpd .OfEmuImm
  | .ADDSDrm => opc [x64RW, m64R] [] none .Other .nullptr .addsd .addsd .OfEmuImm
  | .ADDSDrr => opc [x64RW, x64R] [] none .Other .nullptr .addsd .addsd .OfEmuImm
  | .CALLa => opc [mA] push64 none .Call .nullptr .call .nullptr .OfEmuFull
  | .CALLm => opc [m64R] push64 none .Call .nullptr .call .nullptr .OfEmuFull
  | .CALLr => opc [r64R] push64 none .Call .nullptr .call .nullptr .OfEmuFull
  | .CMP8mr => opc [m8R, r8R] eflagsW none .Other .nullptr .cmp8 .cmp8 .OfEmuImm
  | .CMP8mi => opc [m8R, i8] eflagsW none .Other .nullptr .cmp8 .nullptr .OfEmuImm
  | .CMP8rm => opc [r8R, m8R] eflagsW none .Other .nullptr .cmp8 .cmp8 .OfEmuImm
  | .CMP8rr => opc [r8R, r8R] eflagsW none .Other .nullptr .cmp8 .cmp8 .OfEmuImm
  | .CMP8ri => opc [r8R, i8] eflagsW none .Other .nullptr .cmp16 .nullptr .OfEmuImm
  | .CMP16mr => opc [m16R, r16R] eflagsW none .Other .nullptr .cmp16 .cmp16 .OfEmuImm
  | .CMP16mi => opc [m16R, i16] eflagsW none .Other .nullptr .cmp16 .nullptr .OfEmuImm
  | .CMP16rm => opc [r16R, m16R] eflagsW none .Other .nullptr .cmp16 .cmp16 .OfEmuImm
  | .CMP16rr => opc [r16R, r16R] eflagsW none .Other .nullptr .cmp16 .cmp16 .OfEmuImm
  | .CMP16ri => opc [r16R, i16] eflagsW none .Other .nullptr .cmp16 .nullptr .OfEmuImm
  | .CMP32mr => opc [m32R, r32R] eflagsW none .Other .nullptr .cmp32 .cmp32 .OfEmuImm
  | .CMP32mi => opc [m32R, i32] eflagsW none .Other .nullptr .cmp32 .nullptr .OfEmuImm
  | .CMP32rm => opc [r32R, m32R] eflagsW none .Other .nullptr .cmp32 .cmp32 .OfEmuImm
  | .CMP32rr => opc [r32R, r32R] eflagsW none .Other .nullptr .cmp32 .cmp32 .OfEmuImm
  | .CMP32ri => opc [r32R, i32] eflagsW none .Other .nullptr .cmp32 .nullptr .OfEmuImm
  | .CMP64mr => opc [m64R, r64R] eflagsW none .Other .nullptr .cmp64 .cmp64 .OfEmuPtr
  | .CMP64mi => opc [m64R, s32] eflagsW none .Other .nullptr .cmp64 .nullptr .OfEmuPtr
  | .CMP64rm => opc [r64R, m64R] eflagsW none .Other .nullptr .cmp64 .cmp64 .OfEmuPtr
  | .CMP64rr => opc [r64R, r64R] eflagsW none .Other .nullptr .cmp64 .cmp64 .OfEmuPtr
  | .CMP64ri => opc [r64R, s32] eflagsW none .Other .nullptr .cmp64 .nullptr .OfEmuPtr
  | .JNBEa => opc [mA] [] (some .NBE) .Branch .nullptr .nullptr .nullptr .OfNone
  | .JNBa => opc [mA] [] (some .NB) .Branch .nullptr .nullptr .nullptr .OfNone
  | .JBa => opc [mA] [] (some .B) .Branch .nullptr .nullptr .nullptr .OfNone
  | .JBEa => opc [mA] [] (some .BE) .Branch .nullptr .nullptr .nullptr .OfNone
  | .JCXZ32a => opc [mA] [] (some .ECX0) .Branch .nullptr .nullptr .nullptr .OfNone
  | .JCXZ64a => opc [mA] [] (some .RCX0) .Branch .nullptr .nullptr .nullptr .OfNone
  | .JZa => opc [mA] [] (some .Z) .Branch .nullptr .nullptr .nullptr .OfNone
  | .JNLEa => opc [mA] [] (some .NLE) .Branch .nullptr .nullptr .nullptr .OfNone
  | .JNLa => opc [mA] [] (some .NL) .Branch .nullptr .nullptr .nullptr .OfNone
  | .JLa => opc [mA] [] (some .L) .Branch .nullptr .nullptr .nullptr .OfNone
  | .JLEa => opc [mA] [] (some .LE) .Branch .nullptr .nullptr .nullptr .OfNone
  | .JNZa => opc [mA] [] (some .NZ) .Branch .nullptr .nullptr .nullptr .OfNone
  | .JNOa => opc [mA] [] (some .NO) .Branch .nullptr .nullptr .nullptr .OfNone
  | .JNPa => opc [mA] [] (some .NP) .Branch .nullptr .nullptr .nullptr .OfNone
  | .JNSa => opc [mA] [] (some .NS) .Branch .nullptr .nullptr .nullptr .OfNone
  | .JOa => opc [mA] [] (some .O) .Branch .nullptr .nullptr .nullptr .OfNone
  | .JPa => opc [mA] [] (some .P) .Branch .nullptr .nullptr .nullptr .OfNone
  | .JSa => opc [mA] [] (some .S) .Branch .nullptr .nullptr .nullptr .OfNone
  | .JMPa => opc [mA] [] none .Branch .nullptr .nullptr .nullptr .OfNone
  | .JMPm => opc [m64R] [] none .Branch .nullptr .nullptr .nullptr .OfNone
  | .JMPr => opc [r64R] [] none .Branch .nullptr .nullptr .nullptr .OfNone
  | .LEA64ra => opc [r64W, mA] [] none .Other .nullptr .lea .lea64 .OfEmuFull
  | .LEA32ra => opc [r32W, mA] [] none .Other .nullptr .lea .lea32 .OfEmuFull
  | .LEA16ra => opc [r16W, mA] [] none .Other .nullptr .lea .lea16 .OfEmuFull
  | .MOV64mr => opc [m64W, r64R] [] none .Other .nullptr .mov .mov64 .OfEmuFull
  | .MOV64rr => opc [r64W, r64R] [] none .Other .nullptr .mov .mov64 .OfEmuFull
  | .MOV64rm => opc [r64W, m64R] [] none .Other .nullptr .mov .mov64 .OfEmuFull
  | .MOV64mi => opc [m64W, s32] [] none .Other .nullptr .mov .nullptr .OfEmuFull
  | .MOV64ri => opc [r64W, i64] [] none .Other .nullptr .mov .nullptr .OfEmuFull
  | .MOV32mr => opc [m32W, r32R] [] none .Other .nullptr .mov .mov32 .OfEmuFull
  | .MOV32rr => opc [r32W, r32R] [] none .Other .nullptr .mov .mov32 .OfEmuFull
  | .MOV32rm => opc [r32W, m32R] [] none .Other .nullptr .mov .mov32 .OfEmuFull
  | .MOV32mi => opc [m32W, i32] [] none .Other .nullptr .mov .nullptr .OfEmuFull
  | .MOV32ri => opc [r32W, i32] [] none .Other .nullptr .mov .nullptr .OfEmuFull
  | .MOVAPDrm => opc [x128W, m128R] [] none .Other .nullptr .mov .movapd .OfEmuFull
  | .MOVAPDrr => opc [x128W, x128R] [] none .Other .nullptr .mov .movapd .OfEmuFull
  | .MOVAPDmr => opc [m128W, x128R] [] none .Other .nullptr .mov .nullptr .OfEmuFull
  | .MOVSDrm => opc [x64W, m64R] [] none .Other .nullptr .mov .movsd .OfEmuFull
  | .MOVSDrr => opc [x64W, x64R] [] none .Other .nullptr .mov .movsd .OfEmuFull
  | .MOVSDmr => opc [m64W, x64R] [] none .Other .nullptr .mov .movsd .OfEmuFull
  | .MOVUPDmr => opc [m128W, x128R] [] none .Other .nullptr .mov .nullptr .OfEmuFull
  | .MOVUPDrr => opc [x128W, x128R] [] none .Other .nullptr .mov .movupd .OfEmuFull
  | .MOVUPDrm => opc [x128W, m128R] [] none .Other .nullptr .mov .movupd .OfEmuFull
  | .MOVUPSmr => opc [m128W, x128R] [] none .Other .nullptr .mov .nullptr .OfEmuFull
  | .MOVUPSrr => opc [x128W, x128R] [] none .Other .nullptr .mov .movups .OfEmuFull
  | .MOVUPSrm => opc [x128W, m128R] [] none .Other .nullptr .mov .movups .OfEmuFull
  | .MULPDrm => opc [x128RW, m128R] [] none .Other .nullptr .mulpd .mulpd .OfEmuImm
  | .MULPDrr => opc [x128RW, x128R] [] none .Other .nullptr .mulpd .mulpd .OfEmuImm
  | .MULSDrm => opc [x64RW, m64R] [] none .Other .nullptr .mulsd .mulsd .OfEmuImm
  | .MULSDrr => opc [x64RW, x64R] [] none .Other .nullptr .mulsd .mulsd .OfEmuImm
  | .POP16m => opc [m16W] pop16 none .Other .nullptr .pop .nullptr .OfEmuFull
  | .POP16r => opc [r16W] pop16 none .Other .nullptr .pop .pop .OfEmuFull
  | .POP64m => opc [m64W] pop64 none .Other .nullptr .pop .nullptr .OfEmuFull
  | .POP64r => opc [r64W] pop64 none .Other .nullptr .pop .pop .OfEmuFull
  | .PUSH16m => opc [m16R] push16 none .Other .nullptr .push .push16 .OfEmuFull
  | .PUSH16r => opc [r16R] push16 none .Other .nullptr .push .push16 .OfEmuFull
  | .PUSH16i => opc [i16] push16 none .Other .nullptr .push .nullptr .OfEmuFull
  | .PUSH64m => opc [m64R] push64 none .Other .nullptr .push .push64 .OfEmuFull
  | .PUSH64r => opc [r64R] push64 none .Other .nullptr .push .push64 .OfEmuFull
  | .PUSH64i => opc [s32] push64 none .Other .nullptr .push .nullptr .OfEmuFull
  | .PXOR128rm => opc [x128RW, m128R] [] none .Other .nullptr .pxor .pxor .OfEmuFull
  | .PXOR128rr => opc [x128MRW, x128MR] [] none .Other .xor_rr .pxor .pxor .OfEmuFull
  | .RET => opc [] ret none .Ret .nullptr .ret .nullptr .OfEmuFull
  | .SHL64m => opc [m64RW] sh none .Other .sh .shl64 .shl64 .OfEmuFull
  | .SHL64r => opc [r64RW] sh none .Other .sh .shl64 .shl64 .OfEmuFull
  | .SHL64mi => opc [m64RW, i8] eflagsMW none .Other .sh .shl64 .shl64 .OfEmuFull
  | .SHL64ri => opc [r64RW, i8] eflagsMW none .Other .sh .shl64 .shl64 .OfEmuFull
  | .SHR64m => opc [m64RW] sh none .Other .sh .shr64 .shr64 .OfEmuFull
  | .SHR64r => opc [r64RW] sh none .Other .sh .shr64 .shr64 .OfEmuFull
  | .SHR64mi => opc [m64RW, i8] eflagsMW none .Other .sh .shr64 .shr64 .OfEmuFull
  | .SHR64ri => opc [r64RW, i8] eflagsMW none .Other .sh .shr64 .shr64 .OfEmuFull
  | .SUB8mr => opc [m8RW, r8R] eflagsW none .Other .nullptr .sub8 .nullptr .OfEmuImm
  | .SUB8rr => opc [r8RW, r8R] eflagsW none .Other .nullptr .sub8 .nullptr .OfEmuImm
  | .SUB8rm => opc [r8RW, m8R] eflagsW none .Other .nullptr .sub8 .nullptr .OfEmuImm
  | .SUB8mi => opc [m8RW, i8] eflagsW none .Other .nullptr .sub8 .nullptr .OfEmuImm
  | .SUB8ri => opc [r8RW, i8] eflagsW none .Other .nullptr .sub8 .nullptr .OfEmuImm
  | .SUB16mr => opc [m16RW, r16R] eflagsW none .Other .nullptr .sub16 .nullptr .OfEmuImm
  | .SUB16rr => opc [r16RW, r16R] eflagsW none .Other .nullptr .sub16 .nullptr .OfEmuImm
  | .SUB16rm => opc [r16RW, m16R] eflagsW none .Other .nullptr .sub16 .nullptr .OfEmuImm
  | .SUB16mi => opc [m16RW, i16] eflagsW none .Other .nullptr .sub16 .nullptr .OfEmuImm
  | .SUB16ri => opc [r16RW, i16] eflagsW none .Other .nullptr .sub16 .nullptr .OfEmuImm
  | .SUB32mr => opc [m32RW, r32R] eflagsW none .Other .nullptr .sub32 .nullptr .OfEmuImm
  | .SUB32rr => opc [r32RW, r32R] eflagsW none .Other .nullptr .sub32 .nullptr .OfEmuImm
  | .SUB32rm => opc [r32RW, m32R] eflagsW none .Other .nullptr .sub32 .nullptr .OfEmuImm
  | .SUB32mi => opc [m32RW, i32] eflagsW none .Other .nullptr .sub32 .nullptr .OfEmuImm
  | .SUB32ri => opc [r32RW, i32] eflagsW none .Other .nullptr .sub32 .nullptr .OfEmuImm
  | .SUB64mr => opc [m64RW, r64R] eflagsW none .Other .nullptr .sub64 .nullptr .OfEmuPtr
  | .SUB64rr => opc [r64RW, r64R] eflagsW none .Other .nullptr .sub64 .nullptr .OfEmuPtr
  | .SUB64rm => opc [r64RW, m64R] eflagsW none .Other .nullptr .sub64 .nullptr .OfEmuPtr
  | .SUB64mi => opc [m64RW, s32] eflagsW none .Other .nullptr .sub64 .nullptr .OfEmuPtr
  | .SUB64ri => opc [r64RW, s32] eflagsW none .Other .nullptr .sub64 .nullptr .OfEmuPtr
  | .TEST8mr => opc [m8R, r8R] eflagsW none .Other .nullptr .test8 .test8 .OfEmuFull
  | .TEST8mi => opc [m8R, i8] eflagsW none .Other .nullptr .test8 .nullptr .OfEmuFull
  | .TEST8rr => opc [r8R, r8R] eflagsW none .Other .nullptr .test8 .test8 .OfEmuFull
  | .TEST8ri => opc [r8R, i8] eflagsW none .Other .nullptr .test8 .nullptr .OfEmuFull
  | .TEST16mr => opc [m16R, r16R] eflagsW none .Other .nullptr .test16 .test16 .OfEmuFull
  | .TEST16mi => opc [m16R, i16] eflagsW none .Other .nullptr .test16 .nullptr .OfEmuFull
  | .TEST16rr => opc [r16R, r16R] eflagsW none .Other .nullptr .test16 .test16 .OfEmuFull
  | .TEST16ri => opc [r16R, i16] eflagsW none .Other .nullptr .test16 .nullptr .OfEmuFull
  | .TEST32mr => opc [m32R, r32R] eflagsW none .Other .nullptr .test32 .test32 .OfEmuFull
  | .TEST32mi => opc [m32R, i32] eflagsW none .Other .nullptr .test32 .nullptr .OfEmuFull
  | .TEST32rr => opc [r32R, r32R] eflagsW none .Other .nullptr .test32 .test32 .OfEmuFull
  | .TEST32ri => opc [r32R, i32] eflagsW none .Other .nullptr .test32 .nullptr .OfEmuFull
  | .TEST64mr => opc [m64R, r64R] eflagsW none .Other .nullptr .test64 .test64 .OfEmuFull
  | .TEST64mi => opc [m64R, s32] eflagsW none .Other .nullptr .test64 .nullptr .OfEmuFull
  | .TEST64rr => opc [r64R, r64R] eflagsW none .Other .nullptr .test64 .test64 .OfEmuFull
  | .TEST64ri => opc [r64R, s32] eflagsW none .Other .nullptr .test64 .nullptr .OfEmuFull
  | .XOR64mr => opc [m64RW, r64R] eflagsW none .Other .nullptr .xor64 .xor64 .OfEmuImm
  | .XOR64rr => opc [r64MRW, r64MR] eflagsW none .Other .xor_rr .xor64 .xor64 .OfEmuImm
  | .XOR64rm => opc [r64RW, m64R] eflagsW none .Other .nullptr .xor64 .xor64 .OfEmuImm
  | .XOR64mi => opc [m64RW, s32] eflagsW none .Other .nullptr .xor64 .xor64 .OfEmuImm
  | .XOR64ri => opc [r64RW, s32] eflagsW none .Other .nullptr .xor64 .xor64 .OfEmuImm
  | .XOR32mr => opc [m32RW, r32R] eflagsW none .Other .nullptr .xor32 .xor32 .OfEmuImm
  | .XOR32rr => opc [r32MRW, r32MR] eflagsW none .Other .xor_rr .xor32 .xor32 .OfEmuImm
  | .XOR32rm => opc [r32RW, m32R] eflagsW none .Other .nullptr .xor32 .xor32 .OfEmuImm
  | .XOR32mi => opc [m32RW, i32] eflagsW none .Other .nullptr .xor32 .xor32 .OfEmuImm
  | .XOR32ri => opc [r32RW, i32] eflagsW none .Other .nullptr .xor32 .xor32 .OfEmuImm

end Drob
