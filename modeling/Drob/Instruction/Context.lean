import Drob.State.ProgramState

/-!
What the analyses know about the memory of the process: the configuration of user
pointers, the memory map and the configured constant ranges.
-/

namespace Drob

structure UsrPtrCfg where
  isKnown : Bool
  isConst : Bool
  val : BitVec 64

structure MemoryRange where
  start : BitVec 64
  stop : BitVec 64
  r : Bool
  w : Bool

/-- A range that the user declares constant, `drob_mem_cfg` of the source. -/
structure MemCfg where
  start : BitVec 64
  size : BitVec 64

structure MemProtCache where
  memoryRanges : List MemoryRange
  ranges : List MemCfg

namespace MemProtCache

def findMemoryRange (cache : MemProtCache) (addr : Nat) : Option MemoryRange :=
  cache.memoryRanges.find? (fun range => range.start.toNat ≤ addr && addr < range.stop.toNat)

def isConfiguredConstantLoop (cache : MemProtCache) (addr stop : Nat) : Bool :=
  if inside : addr < stop then
    match found : cache.ranges.find? (fun mem =>
        mem.start.toNat ≤ addr && addr < (mem.start + mem.size).toNat) with
    | none => false
    | some mem =>
        have later : addr < (mem.start + mem.size).toNat := by
          have holds := List.find?_some found
          simp only [Bool.and_eq_true, decide_eq_true_eq] at holds
          exact holds.2
        isConfiguredConstantLoop cache (mem.start + mem.size).toNat stop
  else true
termination_by stop - addr
decreasing_by exact Nat.sub_lt_sub_left inside later

def isConfiguredConstant (cache : MemProtCache) (addr size : Nat) : Except Failure Bool :=
  let stop := (addr + size) % 2 ^ 64
  if size = 0 then .ok true
  else if addr < stop then .ok (cache.isConfiguredConstantLoop addr stop)
  else .error (.assertion "end > addr")

/-- Going over the ranges; the size is not reduced for the later ones. -/
def isConstantLoop (cache : MemProtCache) (size addr stop : Nat) : Except Failure Bool :=
  if inside : addr < stop then
    match found : cache.findMemoryRange addr with
    | none => .ok false
    | some range =>
        have later : addr < range.stop.toNat := by
          have holds := List.find?_some found
          simp only [Bool.and_eq_true, decide_eq_true_eq] at holds
          exact holds.2
        if range.r then do
          let configured ← if range.w then cache.isConfiguredConstant addr size else .ok true
          if configured then isConstantLoop cache size range.stop.toNat stop
          else .ok false
        else .ok false
  else .ok true
termination_by stop - addr
decreasing_by exact Nat.sub_lt_sub_left inside later

def isConstant (cache : MemProtCache) (addr : BitVec 64) (size : Nat) : Except Failure Bool :=
  let stop := (addr.toNat + size) % 2 ^ 64
  if size = 0 then .ok true
  else if addr.toNat < stop then cache.isConstantLoop size addr.toNat stop
  else .error (.assertion "end > addr")

end MemProtCache

structure Context where
  usrPtrCfg : List UsrPtrCfg
  memProtCache : MemProtCache
  host : BitVec 64 → BitVec 8

def Context.getUsrPtrCfg (context : Context) (nr : Nat) : Except Failure UsrPtrCfg :=
  match context.usrPtrCfg[nr]? with
  | some cfg => .ok cfg
  | none => .error (.assertion "nr < usrPtrCfg.size()")

def readMemory (memory : BitVec 64 → BitVec 8) (w : Nat) (addr : BitVec 64) (bytes : Nat) :
    BitVec w :=
  LittleEndian.ofBytes w (fun i => memory (addr + BitVec.ofNat 64 i)) bytes

end Drob
