import Drob.Cfg.Order

/-!
Emitting the code of a function: the code part of the binary pool, and the writing run
of the code generation pass. Encoding is a parameter that gives the length of each
instruction; the text keeps which bytes belong to which instruction.
-/

namespace Drob

def ARCH_PAGE_SIZE : Nat := 4096
def ARCH_BLOCK_ALIGN : Nat := 16

def alignDown (val size : Nat) : Nat :=
  val / size * size

def alignUp (val size : Nat) : Nat :=
  alignDown (val + size - 1) size

inductive CodeByte (ι : Type) where
  | nop
  | instr (block : ι) (nr : Nat)
  deriving DecidableEq

/-- Addresses are relative to the start of the region, which is aligned to pages. -/
structure BinaryPool (ι : Type) where
  curInstrPage : Nat
  text : List (CodeByte ι)

namespace BinaryPool

variable {ι : Type}

def resetCodePool : BinaryPool ι :=
  { curInstrPage := 0, text := [] }

def nextInstr (pool : BinaryPool ι) : Nat :=
  pool.text.length

/-- Memory for one instruction. A further page is requested at the byte after the
start of the current one; such a fixed address is not aligned, so `mmap` fails. -/
def allocCode (pool : BinaryPool ι) (block : ι) (nr size : Nat) :
    Except Failure (BinaryPool ι) :=
  if alignDown (pool.nextInstr + size - 1) ARCH_PAGE_SIZE = pool.curInstrPage then
    .ok { pool with text := pool.text ++ List.replicate size (.instr block nr) }
  else .error (.exception "Can't allocate memory for instructions")

def newBlock (pool : BinaryPool ι) : BinaryPool ι :=
  { pool with
    text := pool.text ++
      List.replicate (alignUp pool.nextInstr ARCH_BLOCK_ALIGN - pool.nextInstr) .nop }

end BinaryPool

structure EmittedBlock (ι : Type) where
  block : ι
  start : Nat
  stop : Nat

namespace CodeGeneration

variable {ι : Type}

/-- The length of an instruction of a block at an address. -/
abbrev Encoder (ι : Type) := ι → Nat → Nat → Nat

def handleInstructions (encoder : Encoder ι) (block : ι) :
    Nat → Nat → BinaryPool ι → Except Failure (BinaryPool ι)
  | 0, _, pool => .ok pool
  | count + 1, nr, pool => do
      let emitted ← pool.allocCode block nr (encoder block nr pool.nextInstr)
      handleInstructions encoder block count (nr + 1) emitted

def handleBlock (cfg : FunctionCfg ι) (encoder : Encoder ι) (block : ι) (pool : BinaryPool ι) :
    Except Failure (BinaryPool ι × EmittedBlock ι) := do
  let aligned := pool.newBlock
  let count := (cfg.block block).instrs.length
  if count = 0 then .error (.assertion "!block->getInstructions().empty() && \"Empty block\"")
  else
    let emitted ← handleInstructions encoder block count 0 aligned
    .ok (emitted, { block, start := aligned.nextInstr, stop := emitted.nextInstr })

def handleBlocks (cfg : FunctionCfg ι) (encoder : Encoder ι) :
    List ι → BinaryPool ι → Except Failure (BinaryPool ι × List (EmittedBlock ι))
  | [], pool => .ok (pool, [])
  | block :: rest, pool => do
      let (emitted, place) ← handleBlock cfg encoder block pool
      let (last, places) ← handleBlocks cfg encoder rest emitted
      .ok (last, place :: places)

/-- All blocks in depth-first order; the function starts at a block boundary. -/
def handleFunction [DecidableEq ι] (cfg : FunctionCfg ι) (encoder : Encoder ι) (fuel : Nat)
    (pool : BinaryPool ι) :
    Option (Except Failure (BinaryPool ι × List (EmittedBlock ι))) :=
  (cfg.dfs fuel).map (fun order => handleBlocks cfg encoder order pool.newBlock)

/-! ### The layout -/

def Padding (text : List (CodeByte ι)) (start stop : Nat) : Prop :=
  start ≤ stop ∧ ∀ i, start ≤ i → i < stop → text[i]? = some .nop

/-- Running off the end of every emitted block leads to its fallthrough block. -/
def FallsThrough (cfg : FunctionCfg ι) (text : List (CodeByte ι))
    (places : List (EmittedBlock ι)) : Prop :=
  ∀ place ∈ places, ∀ n, (cfg.block place.block).next = some n →
    ∃ target ∈ places, target.block = n ∧ Padding text place.stop target.start

def Laid (text : List (CodeByte ι)) : Nat → List (EmittedBlock ι) → Prop
  | _, [] => True
  | start, place :: rest =>
      Padding text start place.start ∧ place.start < place.stop ∧ Laid text place.stop rest

theorem Padding.mono {text more : List (CodeByte ι)} {start stop : Nat}
    (padding : Padding text start stop) (grown : text <+: more) : Padding more start stop := by
  obtain ⟨rest, rfl⟩ := grown
  refine ⟨padding.1, ?_⟩
  intro i later before
  have found := padding.2 i later before
  have inside : i < text.length := (List.getElem?_eq_some_iff.mp found).1
  rw [List.getElem?_append_left inside]
  exact found

theorem padding_newBlock (pool : BinaryPool ι) :
    Padding pool.newBlock.text pool.nextInstr pool.newBlock.nextInstr := by
  have length : pool.newBlock.nextInstr = pool.nextInstr +
      (alignUp pool.nextInstr ARCH_BLOCK_ALIGN - pool.nextInstr) := by
    unfold BinaryPool.nextInstr BinaryPool.newBlock
    rw [List.length_append, List.length_replicate]
    rfl
  refine ⟨by omega, ?_⟩
  intro i later before
  change (pool.text ++ List.replicate _ _)[i]? = _
  rw [List.getElem?_append_right later, List.getElem?_replicate]
  have inside : i - pool.text.length <
      alignUp pool.nextInstr ARCH_BLOCK_ALIGN - pool.nextInstr := by
    unfold BinaryPool.nextInstr at length later before ⊢
    omega
  rw [if_pos inside]

theorem handleInstructions_grows {encoder : Encoder ι}
    (positive : ∀ block nr address, 0 < encoder block nr address) {block : ι} {count nr : Nat}
    {pool emitted : BinaryPool ι}
    (returned : handleInstructions encoder block count nr pool = .ok emitted) :
    pool.text <+: emitted.text ∧ pool.nextInstr + count ≤ emitted.nextInstr := by
  induction count generalizing nr pool with
  | zero =>
      cases returned
      exact ⟨List.prefix_rfl, le_refl _⟩
  | succ count ih =>
      unfold handleInstructions BinaryPool.allocCode at returned
      dsimp only [bind, Except.bind] at returned
      split at returned
      · cases returned
      · rename_i next allocated
        split at allocated
        · cases allocated
          obtain ⟨grown, longer⟩ := ih returned
          refine ⟨(List.prefix_append _ _).trans grown, ?_⟩
          have one := positive block nr pool.nextInstr
          unfold BinaryPool.nextInstr at longer one ⊢
          rw [List.length_append, List.length_replicate] at longer
          omega
        · cases allocated

theorem handleBlocks_laid {cfg : FunctionCfg ι} {encoder : Encoder ι}
    (positive : ∀ block nr address, 0 < encoder block nr address) {order : List ι}
    {pool last : BinaryPool ι} {places : List (EmittedBlock ι)}
    (returned : handleBlocks cfg encoder order pool = .ok (last, places)) :
    pool.text <+: last.text ∧ places.map EmittedBlock.block = order ∧
      Laid last.text pool.nextInstr places := by
  induction order generalizing pool places with
  | nil =>
      cases returned
      exact ⟨List.prefix_rfl, rfl, trivial⟩
  | cons block rest ih =>
      unfold handleBlocks handleBlock at returned
      dsimp only [bind, Except.bind] at returned
      split at returned
      · cases returned
      · rename_i handled emittedPlace
        split at emittedPlace
        · cases emittedPlace
        · rename_i nonempty
          split at emittedPlace
          · cases emittedPlace
          · rename_i emitted instructions
            cases emittedPlace
            split at returned
            · cases returned
            · rename_i finished later
              cases returned
              obtain ⟨grown, blocks, laid⟩ := ih later
              obtain ⟨within, longer⟩ := handleInstructions_grows positive instructions
              have padded := (padding_newBlock pool).mono (within.trans grown)
              refine ⟨(List.prefix_append _ _).trans (within.trans grown),
                congrArg (block :: ·) blocks, padded, ?_, laid⟩
              dsimp only
              omega

end CodeGeneration

end Drob
