import Drob.Library.LittleEndian

/-!
Memory operands in 64-bit mode: the address that the bytes of an instruction with a ModRM
byte stand for.
-/

namespace OperandFormat

open LittleEndian

inductive Base where
  | none
  | reg (nr : BitVec 4)
  | rip

structure Address where
  /-- Registers and sums have 32 bits. -/
  narrow : Bool
  base : Base
  index : Option (BitVec 4)
  scale : BitVec 2
  disp : BitVec 64

def atWidth (narrow : Bool) (value : BitVec 64) : BitVec 64 :=
  if narrow then (value.setWidth 32).setWidth 64 else value

def Address.effective (address : Address) (regs : BitVec 4 → BitVec 64) (rip : BitVec 64) :
    BitVec 64 :=
  let base := match address.base with
    | .none => 0
    | .reg nr => atWidth address.narrow (regs nr)
    | .rip => rip
  let index := match address.index with
    | none => 0
    | some nr => atWidth address.narrow (regs nr) <<< address.scale.toNat
  atWidth address.narrow (base + index + address.disp)

/-! ### Reading -/

def legacyPrefix (value : BitVec 8) : Bool :=
  value = 0x66 || value = 0x67 || value = 0xf2 || value = 0xf3 || value = 0xf0 ||
    value = 0x2e || value = 0x36 || value = 0x3e || value = 0x26 || value = 0x64 || value = 0x65

def isRex (value : BitVec 8) : Bool :=
  value.extractLsb' 4 4 = 4

/-- Whether the address size prefix is there, and the bytes behind the prefixes. -/
def skipPrefixes : Bool → List (BitVec 8) → Bool × List (BitVec 8)
  | narrow, [] => (narrow, [])
  | narrow, value :: rest =>
      if legacyPrefix value then skipPrefixes (narrow || value = 0x67) rest
      else (narrow, value :: rest)

def takeRex : List (BitVec 8) → BitVec 4 × List (BitVec 8)
  | [] => (0, [])
  | value :: rest => if isRex value then (value.setWidth 4, rest) else (0, value :: rest)

def hasModRM (value : BitVec 8) : Bool :=
  value &&& 0xc4 = 0 || value = 0x63 || value = 0x69 || value = 0x6b ||
    (0x80 ≤ value && value ≤ 0x8f) || value = 0xc0 || value = 0xc1 || value = 0xc6 ||
    value = 0xc7 || (0xd0 ≤ value && value ≤ 0xd3) || (0xd8 ≤ value && value ≤ 0xdf) ||
    value = 0xf6 || value = 0xf7 || value = 0xfe || value = 0xff

/-- The two-byte opcodes that have a ModRM byte, by their second byte. -/
def hasModRM2 (value : BitVec 8) : Bool :=
  (0x10 ≤ value && value ≤ 0x2f) || (0x40 ≤ value && value ≤ 0x76) ||
    (0x7c ≤ value && value ≤ 0x7f) || (0x90 ≤ value && value ≤ 0x9f) ||
    (0xa3 ≤ value && value ≤ 0xa5) || (0xab ≤ value && value ≤ 0xc7) || 0xd0 ≤ value

def skipOpcode : List (BitVec 8) → Option (List (BitVec 8))
  | [] => none
  | value :: rest =>
      if value = 0x0f then
        match rest with
        | [] => none
        | second :: rest => if hasModRM2 second then some rest else none
      else if hasModRM value then some rest
      else none

def take32 : List (BitVec 8) → Option (BitVec 64 × List (BitVec 8))
  | b0 :: b1 :: b2 :: b3 :: rest =>
      some ((ofBytes 32 (fun i => [b0, b1, b2, b3].getD i 0) 4).signExtend 64, rest)
  | _ => none

/-- The displacement that follows for a value of the `mod` field. -/
def takeDisp (mod : BitVec 2) (bytes : List (BitVec 8)) : Option (BitVec 64 × List (BitVec 8)) :=
  if mod = 0 then some (0, bytes)
  else if mod = 1 then
    match bytes with
    | [] => none
    | value :: rest => some (value.signExtend 64, rest)
  else take32 bytes

def takeSib (narrow : Bool) (rex : BitVec 4) (mod : BitVec 2) :
    List (BitVec 8) → Option (Address × List (BitVec 8))
  | [] => none
  | sib :: rest =>
      let indexNr := rex.extractLsb' 1 1 ++ sib.extractLsb' 3 3
      let index := if indexNr = 4 then none else some indexNr
      let scale := sib.extractLsb' 6 2
      if sib.extractLsb' 0 3 = 5 ∧ mod = 0 then do
        let (disp, rest) ← take32 rest
        some ({ narrow, base := .none, index, scale, disp }, rest)
      else do
        let (disp, rest) ← takeDisp mod rest
        let base := .reg (rex.extractLsb' 0 1 ++ sib.extractLsb' 0 3)
        some ({ narrow, base, index, scale, disp }, rest)

def takeModRM (narrow : Bool) (rex : BitVec 4) :
    List (BitVec 8) → Option (Address × List (BitVec 8))
  | [] => none
  | modrm :: rest =>
      let mod := modrm.extractLsb' 6 2
      let rm := modrm.extractLsb' 0 3
      if mod = 3 then none
      else if rm = 4 then takeSib narrow rex mod rest
      else if rm = 5 ∧ mod = 0 then do
        let (disp, rest) ← take32 rest
        some ({ narrow, base := .rip, index := none, scale := 0, disp }, rest)
      else do
        let (disp, rest) ← takeDisp mod rest
        let base := .reg (rex.extractLsb' 0 1 ++ rm)
        some ({ narrow, base, index := none, scale := 0, disp }, rest)

/-- The memory operand of an instruction with an immediate of some bytes, if nothing is
behind it. -/
def decode (immLen : Nat) (bytes : List (BitVec 8)) : Option Address := do
  let (narrow, bytes) := skipPrefixes false bytes
  let (rex, bytes) := takeRex bytes
  let bytes ← skipOpcode bytes
  let (address, bytes) ← takeModRM narrow rex bytes
  if bytes.length = immLen then some address else none

/-- The offset of a MOV between the accumulator and a 64-bit offset. -/
def decodeMoffs (bytes : List (BitVec 8)) : Option (BitVec 64) :=
  let (narrow, bytes) := skipPrefixes false bytes
  match (takeRex bytes).2 with
  | [] => none
  | value :: offset =>
      if narrow = false ∧ 0xa0 ≤ value ∧ value ≤ 0xa3 ∧ offset.length = 8 then
        some (ofBytes 64 (fun i => offset.getD i 0) 8)
      else none

/-- The address that an instruction at a location accesses. -/
def accessed (immLen : Nat) (bytes : List (BitVec 8)) (location : BitVec 64)
    (regs : BitVec 4 → BitVec 64) : Option (BitVec 64) :=
  match decode immLen bytes with
  | some address =>
      some (address.effective regs (location + BitVec.ofNat 64 bytes.length))
  | none => decodeMoffs bytes

/-! ### Reading what was put together -/

def IsOpcode (oc : List (BitVec 8)) : Prop :=
  (∃ value, oc = [value] ∧ hasModRM value = true) ∨
    ∃ value, oc = [0x0f, value] ∧ hasModRM2 value = true

theorem hasModRM_spec : ∀ value : BitVec 8, hasModRM value = true →
    legacyPrefix value = false ∧ isRex value = false ∧ value ≠ 0x0f := by
  decide

theorem skipPrefixes_append {prefixes rest : List (BitVec 8)} {narrow : Bool}
    (legacy : ∀ value ∈ prefixes, legacyPrefix value = true)
    (stops : ∀ value ∈ rest.head?, legacyPrefix value = false) :
    skipPrefixes narrow (prefixes ++ rest) =
      (narrow || decide ((0x67 : BitVec 8) ∈ prefixes), rest) := by
  induction prefixes generalizing narrow with
  | nil =>
      cases rest with
      | nil => simp [skipPrefixes]
      | cons value rest => simp [skipPrefixes, stops value rfl]
  | cons value others ih =>
      have first := legacy value List.mem_cons_self
      have later := fun other member => legacy other (List.mem_cons_of_mem value member)
      rw [List.cons_append, skipPrefixes, if_pos first, ih later]
      simp [Bool.or_assoc, eq_comm]

def rexBytes (rex : BitVec 4) : List (BitVec 8) :=
  if rex = 0 then [] else [(4 : BitVec 4) ++ rex]

theorem takeRex_append {rex : BitVec 4} {rest : List (BitVec 8)}
    (stops : ∀ value ∈ rest.head?, isRex value = false) :
    takeRex (rexBytes rex ++ rest) = (rex, rest) := by
  unfold rexBytes
  by_cases zero : rex = 0
  · rw [if_pos zero, zero]
    cases rest with
    | nil => rfl
    | cons value rest => simp [takeRex, stops value rfl]
  · have isRexByte : ∀ rex : BitVec 4, isRex ((4 : BitVec 4) ++ rex) = true ∧
        ((4 : BitVec 4) ++ rex).setWidth 4 = rex := by decide
    rw [if_neg zero, List.cons_append, takeRex, if_pos (isRexByte rex).1, (isRexByte rex).2]
    rfl

theorem skipOpcode_append {oc rest : List (BitVec 8)} (opcode : IsOpcode oc) :
    skipOpcode (oc ++ rest) = some rest := by
  rcases opcode with ⟨value, rfl, one⟩ | ⟨value, rfl, two⟩
  · exact (if_neg (hasModRM_spec value one).2.2).trans (if_pos one)
  · exact if_pos two

/-- A displacement as it is written behind the ModRM byte and the SIB byte. -/
inductive Disp where
  | none
  | disp8 (value : BitVec 8)
  | disp32 (value : BitVec 32)

namespace Disp

/-- The `mod` field. -/
def mod : Disp → BitVec 2
  | .none => 0
  | .disp8 _ => 1
  | .disp32 _ => 2

def bytes : Disp → List (BitVec 8)
  | .none => []
  | .disp8 value => [value]
  | .disp32 value => [byte value 0, byte value 1, byte value 2, byte value 3]

def value : Disp → BitVec 64
  | .none => 0
  | .disp8 value => value.signExtend 64
  | .disp32 value => value.signExtend 64

theorem mod_ne (disp : Disp) : disp.mod ≠ 3 := by
  have values : (0 : BitVec 2) ≠ 3 ∧ (1 : BitVec 2) ≠ 3 ∧ (2 : BitVec 2) ≠ 3 := by decide
  cases disp with
  | none => exact values.1
  | disp8 value => exact values.2.1
  | disp32 value => exact values.2.2

end Disp

theorem take32_append (value : BitVec 32) (rest : List (BitVec 8)) :
    take32 ((Disp.disp32 value).bytes ++ rest) = some (value.signExtend 64, rest) := by
  change some ((ofBytes 32 (fun i => [byte value 0, byte value 1, byte value 2,
    byte value 3].getD i 0) 4).signExtend 64, rest) = _
  have same : ofBytes 32 (fun i => [byte value 0, byte value 1, byte value 2,
      byte value 3].getD i 0) 4 = ofBytes 32 (byte value) 4 := by
    apply ofBytes_congr
    intro i below
    match i with
    | 0 | 1 | 2 | 3 => rfl
  rw [same, ofBytes_byte value (by decide)]

theorem takeDisp_append (disp : Disp) (rest : List (BitVec 8)) :
    takeDisp disp.mod (disp.bytes ++ rest) = some (disp.value, rest) := by
  cases disp with
  | none => rfl
  | disp8 value => rfl
  | disp32 value => exact take32_append value rest

/-- A ModRM byte, or a SIB byte with the scale, the index and the base. -/
def fields (high : BitVec 2) (middle low : BitVec 3) : BitVec 8 :=
  high ++ middle ++ low

theorem extract_fields : ∀ (high : BitVec 2) (middle low : BitVec 3),
    (fields high middle low).extractLsb' 6 2 = high ∧
      (fields high middle low).extractLsb' 3 3 = middle ∧
        (fields high middle low).extractLsb' 0 3 = low := by
  decide

section Take

variable {narrow : Bool} {rex : BitVec 4} (reg : BitVec 3) (disp : Disp)
  (rest : List (BitVec 8))

theorem takeModRM_base (low : BitVec 3) (noSib : low ≠ 4) (noRip : low = 5 → disp.mod ≠ 0) :
    takeModRM narrow rex (fields disp.mod reg low :: (disp.bytes ++ rest)) =
      some (⟨narrow, .reg (rex.extractLsb' 0 1 ++ low), none, 0, disp.value⟩, rest) := by
  obtain ⟨mod, _, rm⟩ := extract_fields disp.mod reg low
  simp only [takeModRM, mod, rm]
  rw [if_neg disp.mod_ne, if_neg noSib, if_neg (fun both => noRip both.1 both.2), takeDisp_append]
  rfl

theorem takeModRM_sib (next : List (BitVec 8)) (mod : BitVec 2) (memory : mod ≠ 3) :
    takeModRM narrow rex (fields mod reg 4 :: next) = takeSib narrow rex mod next := by
  obtain ⟨modEq, _, rm⟩ := extract_fields mod reg 4
  simp only [takeModRM, modEq, rm]
  rw [if_neg memory]
  rfl

theorem takeModRM_rip (value : BitVec 32) :
    takeModRM narrow rex (fields 0 reg 5 :: ((Disp.disp32 value).bytes ++ rest)) =
      some (⟨narrow, .rip, none, 0, value.signExtend 64⟩, rest) := by
  obtain ⟨mod, _, rm⟩ := extract_fields 0 reg 5
  simp only [takeModRM, mod, rm]
  rw [if_neg (by decide), if_neg (by decide), if_pos (by decide), take32_append]
  rfl

theorem takeSib_base (scale : BitVec 2) (index low : BitVec 3) (noBase : low = 5 → disp.mod ≠ 0) :
    takeSib narrow rex disp.mod (fields scale index low :: (disp.bytes ++ rest)) =
      some (⟨narrow, .reg (rex.extractLsb' 0 1 ++ low),
        if rex.extractLsb' 1 1 ++ index = 4 then none else some (rex.extractLsb' 1 1 ++ index),
        scale, disp.value⟩, rest) := by
  obtain ⟨scaleEq, indexEq, base⟩ := extract_fields scale index low
  simp only [takeSib, scaleEq, indexEq, base]
  rw [if_neg (fun both => noBase both.1 both.2), takeDisp_append]
  rfl

theorem takeSib_none (scale : BitVec 2) (index : BitVec 3) (value : BitVec 32) :
    takeSib narrow rex 0 (fields scale index 5 :: ((Disp.disp32 value).bytes ++ rest)) =
      some (⟨narrow, .none,
        if rex.extractLsb' 1 1 ++ index = 4 then none else some (rex.extractLsb' 1 1 ++ index),
        scale, value.signExtend 64⟩, rest) := by
  obtain ⟨scaleEq, indexEq, base⟩ := extract_fields scale index 5
  simp only [takeSib, scaleEq, indexEq, base]
  rw [if_pos ⟨trivial, trivial⟩, take32_append]
  rfl

end Take

theorem decode_append {prefixes oc rest : List (BitVec 8)} {rex : BitVec 4} {immLen : Nat}
    (legacy : ∀ value ∈ prefixes, legacyPrefix value = true) (opcode : IsOpcode oc) :
    decode immLen (prefixes ++ (rexBytes rex ++ (oc ++ rest))) = (do
      let (address, bytes) ← takeModRM (decide ((0x67 : BitVec 8) ∈ prefixes)) rex rest
      if bytes.length = immLen then some address else none) := by
  have starts : ∀ value ∈ (oc ++ rest).head?, legacyPrefix value = false ∧ isRex value = false := by
    intro value head
    rcases opcode with ⟨other, rfl, one⟩ | ⟨second, rfl, _⟩
    · cases head
      obtain ⟨notPrefix, notRex, _⟩ := hasModRM_spec _ one
      exact ⟨notPrefix, notRex⟩
    · cases head
      decide
  have behind : ∀ value ∈ (rexBytes rex ++ (oc ++ rest)).head?, legacyPrefix value = false := by
    intro value head
    unfold rexBytes at head
    by_cases zero : rex = 0
    · rw [if_pos zero] at head
      exact (starts value head).1
    · rw [if_neg zero] at head
      cases head
      have notLegacy : ∀ rex : BitVec 4, legacyPrefix ((4 : BitVec 4) ++ rex) = false := by decide
      exact notLegacy rex
  unfold decode
  rw [skipPrefixes_append legacy behind]
  simp only [takeRex_append (fun value head => (starts value head).2), skipOpcode_append opcode,
    Option.bind_eq_bind, Option.bind_some, Bool.false_or]

theorem decode_operand {prefixes oc operand imm : List (BitVec 8)} {rex : BitVec 4}
    {address : Address} {immLen : Nat} (legacy : ∀ value ∈ prefixes, legacyPrefix value = true)
    (opcode : IsOpcode oc)
    (read : takeModRM (decide ((0x67 : BitVec 8) ∈ prefixes)) rex (operand ++ imm) =
      some (address, imm)) (length : imm.length = immLen) :
    decode immLen (prefixes ++ (rexBytes rex ++ (oc ++ (operand ++ imm)))) = some address := by
  rw [decode_append legacy opcode, read]
  exact if_pos length

theorem take32_length {bytes rest : List (BitVec 8)} {value : BitVec 64}
    (taken : take32 bytes = some (value, rest)) : bytes.length = rest.length + 4 := by
  unfold take32 at taken
  split at taken
  · cases taken
    rfl
  · cases taken

theorem takeDisp_length {disp : Disp} {bytes rest : List (BitVec 8)} {value : BitVec 64}
    (taken : takeDisp disp.mod bytes = some (value, rest)) :
    bytes.length = rest.length + disp.bytes.length := by
  cases disp with
  | none =>
      cases taken
      rfl
  | disp8 val =>
      cases bytes with
      | nil => cases taken
      | cons first others =>
          cases taken
          rfl
  | disp32 val => exact take32_length taken

/-- An operand with a SIB byte takes more than a displacement. -/
theorem takeSib_length {narrow : Bool} {rex : BitVec 4} {disp : Disp}
    {bytes rest : List (BitVec 8)} {address : Address}
    (taken : takeSib narrow rex disp.mod bytes = some (address, rest)) :
    rest.length + disp.bytes.length < bytes.length := by
  cases bytes with
  | nil => cases taken
  | cons sib others =>
      unfold takeSib at taken
      dsimp only at taken
      rw [List.length_cons]
      split at taken
      · rename_i zero
        obtain ⟨⟨value, left⟩, found, same⟩ := Option.bind_eq_some_iff.mp taken
        have sameRest : left = rest := (Prod.mk.inj (Option.some.inj same)).2
        rw [← sameRest]
        have length : others.length = left.length + 4 := take32_length found
        have empty : disp.bytes.length = 0 := by
          cases disp with
          | none => rfl
          | disp8 val => exact absurd zero.2 (by intro one; cases one)
          | disp32 val => exact absurd zero.2 (by intro two; cases two)
        omega
      · obtain ⟨⟨value, left⟩, found, same⟩ := Option.bind_eq_some_iff.mp taken
        have sameRest : left = rest := (Prod.mk.inj (Option.some.inj same)).2
        rw [← sameRest]
        have length : others.length = left.length + disp.bytes.length := takeDisp_length found
        omega

/-- Without the SIB byte that the `rm` field asks for, the operand cannot be read. -/
theorem decode_noSib {prefixes oc imm : List (BitVec 8)} {rex : BitVec 4} {immLen : Nat}
    (reg : BitVec 3) (disp : Disp) (legacy : ∀ value ∈ prefixes, legacyPrefix value = true)
    (opcode : IsOpcode oc) (length : imm.length = immLen) :
    decode immLen (prefixes ++ (rexBytes rex ++
      (oc ++ (fields disp.mod reg 4 :: (disp.bytes ++ imm))))) = none := by
  rw [decode_append legacy opcode, takeModRM_sib reg _ _ disp.mod_ne]
  apply Option.bind_eq_none_iff.mpr
  rintro ⟨address, rest⟩ taken
  have less := takeSib_length taken
  rw [List.length_append] at less
  have other : rest.length ≠ immLen := by omega
  exact if_neg other

end OperandFormat
