import Drob.CodeGeneration.BinaryPool
import Drob.Library.LittleEndian
import Drob.State.DynamicValue

/-!
The memory behind the binary pool: one reserved region in which code grows upwards
from the start and constants grow downwards from the end, page by page. `mmap` with a
fixed address succeeds for aligned ranges of the region only.
-/

namespace Drob

def ARCH_MAX_MMAP_SIZE : Nat := 2 ^ 31

/-- The value `mmap` returns on failure. -/
def MAP_FAILED : Nat := 2 ^ 64 - 1

def nullptr : Nat := 0

/-- All data of a `BinaryPool`, with the mapped bytes and their contents. -/
structure PoolMemory where
  mmapStart : Nat
  mmapSize : Nat
  curInstrPage : Nat
  nextInstr : Nat
  curConstPage : Nat
  nextConst : Nat
  map64 : List (BitVec 64 × Nat)
  map128 : List (BitVec 128 × Nat)
  /-- The bytes that are mapped read-write. -/
  mapped : Nat → Bool
  memory : Nat → BitVec 8

/-- Read-write mappings are zeroed; the others are not accessible. -/
inductive Protection where
  | none | readWrite
  deriving DecidableEq

def IS_POWER_OF_2 (val : Nat) : Bool :=
  val != 0 && Nat.land val (val - 1) == 0

def nops : Nat → List (BitVec 8)
  | 0 => []
  | 1 => [0x90]
  | 2 => [0x66, 0x90]
  | 3 => [0x0f, 0x1f, 0x00]
  | 4 => [0x0f, 0x1f, 0x40, 0x00]
  | 5 => [0x0f, 0x1f, 0x44, 0x00, 0x00]
  | 6 => [0x66, 0x0f, 0x1f, 0x44, 0x00, 0x00]
  | 7 => [0x0f, 0x1f, 0x80, 0x00, 0x00, 0x00, 0x00]
  | 8 => [0x0f, 0x1f, 0x84, 0x00, 0x00, 0x00, 0x00, 0x00]
  | _ => [0x66, 0x0f, 0x1f, 0x84, 0x00, 0x00, 0x00, 0x00, 0x00]

def arch_fill_with_nops (size : Nat) : List (BitVec 8) :=
  if 9 < size then nops 9 ++ arch_fill_with_nops (size - 9) else nops size
termination_by size

theorem length_arch_fill_with_nops (size : Nat) : (arch_fill_with_nops size).length = size := by
  induction size using Nat.strong_induction_on with
  | _ size ih =>
      unfold arch_fill_with_nops
      split
      · rename_i large
        rw [List.length_append, ih (size - 9) (by omega)]
        change 9 + (size - 9) = size
        omega
      · rename_i small
        have bound : size ≤ 9 := Nat.le_of_not_lt small
        interval_cases size <;> rfl

def writeBytes (memory : Nat → BitVec 8) (start : Nat) (bytes : List (BitVec 8)) :
    Nat → BitVec 8 :=
  fun addr =>
    if start ≤ addr ∧ addr < start + bytes.length then bytes.getD (addr - start) 0
    else memory addr

def wordBytes {w : Nat} (val : BitVec w) (bytes : Nat) : List (BitVec 8) :=
  (List.range bytes).map (LittleEndian.byte val)

namespace PoolMemory

def mmapFixed (pool : PoolMemory) (addr size : Nat) (protection : Protection) :
    Option PoolMemory :=
  let stop := addr + alignUp size ARCH_PAGE_SIZE
  if addr % ARCH_PAGE_SIZE = 0 ∧ 0 < size ∧ pool.mmapStart ≤ addr ∧
      stop ≤ pool.mmapStart + pool.mmapSize then
    some { pool with
      mapped := fun a => if addr ≤ a ∧ a < stop then protection == .readWrite else pool.mapped a
      memory := fun a => if addr ≤ a ∧ a < stop then 0 else pool.memory a }
  else none

/-! ### Code -/

def nextCode (pool : PoolMemory) : Nat :=
  pool.nextInstr

def allocCode (pool : PoolMemory) (size : Nat) : Except Failure Nat × PoolMemory :=
  if alignDown (pool.nextInstr + size - 1) ARCH_PAGE_SIZE ≠ pool.curInstrPage then
    let tmp := (pool.curInstrPage + 1) % 2 ^ 64
    if tmp = pool.curConstPage then (.error (.exception "Memory region full"), pool)
    else
      match pool.mmapFixed tmp ARCH_PAGE_SIZE .readWrite with
      | none =>
          (.error (.exception "Can't allocate memory for instructions"),
            { pool with curInstrPage := MAP_FAILED })
      | some grown =>
          (.ok pool.nextInstr,
            { grown with curInstrPage := tmp, nextInstr := pool.nextInstr + size })
  else (.ok pool.nextInstr, { pool with nextInstr := pool.nextInstr + size })

def newBlock (pool : PoolMemory) (write : Bool) : Nat × PoolMemory :=
  let aligned := alignUp pool.nextInstr ARCH_BLOCK_ALIGN
  if pool.nextInstr % ARCH_BLOCK_ALIGN = 0 then (pool.nextInstr, pool)
  else
    (aligned,
      { pool with
        nextInstr := aligned
        memory :=
          if write then
            writeBytes pool.memory pool.nextInstr (arch_fill_with_nops (aligned - pool.nextInstr))
          else pool.memory })

def resetCodePool (pool : PoolMemory) : Except Failure Unit × PoolMemory :=
  let poolSize := (pool.curInstrPage + ARCH_PAGE_SIZE + 2 ^ 64 - pool.mmapStart) % 2 ^ 64
  let cleared :=
    if pool.curInstrPage = nullptr then some pool
    else
      (pool.mmapFixed pool.mmapStart poolSize .none).map (fun unmapped =>
        { unmapped with curInstrPage := nullptr, nextInstr := nullptr })
  match cleared with
  | none => (.error (.exception "Cannot reset code pool"), pool)
  | some cleared =>
      match cleared.mmapFixed pool.mmapStart ARCH_PAGE_SIZE .readWrite with
      | none =>
          (.error (.exception "Can't allocate memory for instructions"),
            { cleared with curInstrPage := MAP_FAILED })
      | some reset =>
          (.ok (), { reset with curInstrPage := pool.mmapStart, nextInstr := pool.mmapStart })

/-! ### Constants -/

/-- `allocConstant` for the bytes at an address. -/
def allocConstant (pool : PoolMemory) (bytes : List (BitVec 8)) :
    Except Failure Nat × PoolMemory :=
  let size := bytes.length
  let current := alignDown (pool.nextConst + 1 - size) size
  let copy (pool : PoolMemory) : PoolMemory :=
    { pool with memory := writeBytes pool.memory current bytes, nextConst := current - 1 }
  if ¬ IS_POWER_OF_2 size then (.error (.assertion "IS_POWER_OF_2(size)"), pool)
  else if alignDown current ARCH_PAGE_SIZE ≠ pool.curConstPage then
    let tmp := pool.curConstPage - 1
    if tmp = pool.curInstrPage then (.error (.exception "Memory region full"), pool)
    else
      match pool.mmapFixed tmp ARCH_PAGE_SIZE .readWrite with
      | none =>
          (.error (.exception "Can't allocate memory for constants"),
            { pool with curConstPage := MAP_FAILED })
      | some grown => (.ok current, copy { grown with curConstPage := tmp })
  else (.ok current, copy pool)

def allocConstant64 (pool : PoolMemory) (val : BitVec 64) : Except Failure Nat × PoolMemory :=
  match pool.map64.lookup val with
  | some addr => (.ok addr, pool)
  | none =>
      match pool.allocConstant (wordBytes val 8) with
      | (.ok addr, later) => (.ok addr, { later with map64 := (val, addr) :: later.map64 })
      | failed => failed

def allocConstant128 (pool : PoolMemory) (val : BitVec 128) : Except Failure Nat × PoolMemory :=
  match pool.map128.lookup val with
  | some addr => (.ok addr, pool)
  | none =>
      match pool.allocConstant (wordBytes val 16) with
      | (.ok addr, later) => (.ok addr, { later with map128 := (val, addr) :: later.map128 })
      | failed => failed

def resetConstantPool (pool : PoolMemory) : Except Failure Unit × PoolMemory :=
  let fresh := { pool with map64 := [], map128 := [] }
  let poolSize := pool.mmapStart + pool.mmapSize - pool.curConstPage
  let cleared :=
    if pool.curConstPage = nullptr then some fresh
    else
      (fresh.mmapFixed pool.curConstPage poolSize .none).map (fun unmapped =>
        { unmapped with curConstPage := nullptr, nextConst := nullptr })
  let tmp := pool.mmapStart + pool.mmapSize - ARCH_PAGE_SIZE
  match cleared with
  | none => (.error (.exception "Cannot reset constant pool"), fresh)
  | some cleared =>
      match cleared.mmapFixed tmp ARCH_PAGE_SIZE .readWrite with
      | none =>
          (.error (.exception "Can't allocate memory for constants"),
            { cleared with curConstPage := MAP_FAILED })
      | some reset =>
          (.ok (), { reset with curConstPage := tmp, nextConst := tmp + ARCH_PAGE_SIZE - 1 })

def resetPools (pool : PoolMemory) : Except Failure PoolMemory :=
  match pool.resetCodePool with
  | (.error failure, _) => .error failure
  | (.ok (), pool) =>
      match pool.resetConstantPool with
      | (.error failure, _) => .error failure
      | (.ok (), pool) => .ok pool

theorem resetPools_ok {pool code both : PoolMemory} (codeReset : pool.resetCodePool = (.ok (), code))
    (constantReset : code.resetConstantPool = (.ok (), both)) : pool.resetPools = .ok both := by
  unfold resetPools
  rw [codeReset]
  dsimp only
  rw [constantReset]

def create (mmapStart mmapSize : Nat) : Except Failure PoolMemory :=
  if mmapSize % ARCH_PAGE_SIZE ≠ 0 then
    .error (.exception "Memory region size not aligned to 4096")
  else if ARCH_MAX_MMAP_SIZE < mmapSize then
    .error (.exception "Memory region size bigger than 2147483648")
  else if mmapSize < 2 * ARCH_PAGE_SIZE then
    .error (.exception "Memory region size smaller than 8192")
  else
    resetPools
      { mmapStart
        mmapSize
        curInstrPage := nullptr
        nextInstr := nullptr
        curConstPage := nullptr
        nextConst := nullptr
        map64 := []
        map128 := []
        mapped := fun _ => false
        memory := fun _ => 0 }

end PoolMemory

/-! ### Sequences of calls -/

inductive PoolCall where
  | allocCode (size : Nat)
  | newBlock (write : Bool)
  | nextCode
  | allocConstant (bytes : List (BitVec 8))
  | allocConstant64 (val : BitVec 64)
  | allocConstant128 (val : BitVec 128)
  | resetCodePool

/-- What was handed out: the code ranges since the last reset, and all constants. -/
structure PoolHistory where
  code : List (Nat × Nat)
  constants : List (Nat × List (BitVec 8))

namespace PoolCall

def run (pool : PoolMemory) : PoolCall → Except Failure Nat × PoolMemory
  | .allocCode size => pool.allocCode size
  | .newBlock write => (.ok (pool.newBlock write).1, (pool.newBlock write).2)
  | .nextCode => (.ok pool.nextCode, pool)
  | .allocConstant bytes => pool.allocConstant bytes
  | .allocConstant64 val => pool.allocConstant64 val
  | .allocConstant128 val => pool.allocConstant128 val
  | .resetCodePool => (pool.resetCodePool.1.map (fun _ => nullptr), pool.resetCodePool.2)

def constant? : PoolCall → Option (List (BitVec 8))
  | .allocConstant bytes => some bytes
  | .allocConstant64 val => some (wordBytes val 8)
  | .allocConstant128 val => some (wordBytes val 16)
  | _ => none

def record (history : PoolHistory) (addr : Nat) (call : PoolCall) : PoolHistory :=
  match call with
  | .allocCode size => { history with code := history.code ++ [(addr, size)] }
  | .resetCodePool => { history with code := [] }
  | _ =>
      match call.constant? with
      | some bytes => { history with constants := history.constants ++ [(addr, bytes)] }
      | none => history

/-- The history and the pool after a call; a failed call hands out nothing. -/
def next (history : PoolHistory) (pool : PoolMemory) (call : PoolCall) :
    PoolHistory × PoolMemory :=
  match call.run pool with
  | (.ok addr, later) => (call.record history addr, later)
  | (.error _, later) => (history, later)

def runAll (history : PoolHistory) (pool : PoolMemory) :
    List PoolCall → PoolHistory × PoolMemory
  | [] => (history, pool)
  | call :: calls => runAll (call.next history pool).1 (call.next history pool).2 calls

/-- The calls of the interface: instructions have at most 15 bytes, and constants a
size that is a power of two. -/
def Valid : PoolCall → Prop
  | .allocCode size => 1 ≤ size ∧ size ≤ 15
  | .allocConstant bytes =>
      bytes.length = 1 ∨ bytes.length = 2 ∨ bytes.length = 4 ∨ bytes.length = 8 ∨
        bytes.length = 16
  | _ => True

end PoolCall

end Drob
