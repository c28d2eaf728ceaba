import Drob.CodeGeneration.Branches

/-!
The layout of code: blocks follow each other at aligned places. The layout with long
branches depends on the code only. It tells which branches are close to their destination,
how many bytes their short forms gain, and how many bytes the blocks lose by that, which are
whole units of the alignment.
-/

namespace Drob

namespace CodeGeneration

variable {ι : Type}

/-! ### Places -/

section Places

variable (code : ι → List (BlockInstruction ι)) (encoder : Encoder ι) (marks : Marks ι)

def lengthOf (b : ι) (nr address : ℕ) (instr : BlockInstruction ι) : ℕ :=
  match destination instr with
  | none => encoder b nr address
  | some _ =>
      let (short, long) := (branchLengths instr.instruction.opcode).getD (0, 0)
      if marks b nr then short else long

def placeFrom (b : ι) (start : ℕ) : ℕ → ℕ
  | 0 => start
  | nr + 1 =>
      placeFrom b start nr +
        ((code b)[nr]?).elim 0 (lengthOf encoder marks b nr (placeFrom b start nr))

def endOf (blocks : List ι) : ℕ :=
  blocks.foldl (fun address b =>
    placeFrom code encoder marks b (alignUp address ARCH_BLOCK_ALIGN) (code b).length) 0

variable [DecidableEq ι] (order : List ι)

def before (b : ι) : List ι :=
  order.takeWhile (fun x => decide (x ≠ b))

def startOf (b : ι) : ℕ :=
  alignUp (endOf code encoder marks (before order b)) ARCH_BLOCK_ALIGN

def placeOf (b : ι) (nr : ℕ) : ℕ :=
  placeFrom code encoder marks b (startOf code encoder marks order b) nr

end Places

/-! ### Long branches -/

section Long

variable [DecidableEq ι] (code : ι → List (BlockInstruction ι)) (encoder : Encoder ι)
  (order : List ι)

/-- From the end of the short form of a branch to a block, in the layout with long branches. -/
def distance (b : ι) (nr short : ℕ) (dst : ι) : ℤ :=
  startOf code encoder noMarks order dst - (placeOf code encoder noMarks order b nr + short)

/-- The bytes that the short form of an instruction gains: none, unless it is a branch that is
close to its destination. -/
def gain (b : ι) (nr : ℕ) : ℕ :=
  match (code b)[nr]? with
  | none => 0
  | some instr =>
      match destination instr, branchLengths instr.instruction.opcode with
      | some dst, some (short, long) =>
          if is_rel8 (distance code encoder order b nr short dst) then long - short else 0
      | _, _ => 0

def gained (b : ι) (nr : ℕ) : ℕ :=
  ((List.range nr).map (gain code encoder order b)).sum

def size (b : ι) : ℕ :=
  placeOf code encoder noMarks order b (code b).length - startOf code encoder noMarks order b

def lost (b : ι) : ℕ :=
  alignUp (size code encoder order b) ARCH_BLOCK_ALIGN -
    alignUp (size code encoder order b - gained code encoder order b (code b).length)
      ARCH_BLOCK_ALIGN

def lostBy (blocks : List ι) : ℕ :=
  (blocks.map (lost code encoder order)).sum

end Long

/-- An address goes out of reach or comes into reach when an instruction moves down: it is at
most that many bytes from the upper or from the lower end of what is in reach. -/
def Crosses (ilen : ℕ) (val addr : BitVec 64) (moved : ℕ) : Prop :=
  let rel := (val - (addr + BitVec.ofNat 64 (ilen + 4))).toInt
  2 ^ 31 - moved ≤ rel ∧ rel < 2 ^ 31 ∨ -2 ^ 31 - moved ≤ rel ∧ rel < -2 ^ 31

structure Settled [DecidableEq ι] (code : ι → List (BlockInstruction ι))
    (lengths : ι → ℕ → CodeLength) (region : BitVec 64) (order : List ι) : Prop where
  /-- A branch ahead has room for what is gained before it in its block, beyond what is lost
  from its block up to the destination. -/
  ahead : ∀ b ∈ order, ∀ nr instr dst short long, (code b)[nr]? = some instr →
    destination instr = some dst → branchLengths instr.instruction.opcode = some (short, long) →
    dst ≠ b → dst ∉ before order b →
    distance code (encoderAt lengths region) order b nr short dst ≤ 127 →
      distance code (encoderAt lengths region) order b nr short dst +
          gained code (encoderAt lengths region) order b nr ≤
        127 + lostBy code (encoderAt lengths region) order
          ((before order dst).drop (before order b).length)
  /-- No address that is counted from the end of an instruction crosses an end of the reach. -/
  direct : ∀ b ∈ order, ∀ nr instr ilen val, (code b)[nr]? = some instr →
    destination instr = none → lengths b nr = .relative ilen val →
      ¬ Crosses ilen val
        (region + BitVec.ofNat 64 (placeOf code (encoderAt lengths region) noMarks order b nr))
        (lostBy code (encoderAt lengths region) order (before order b) +
          gained code (encoderAt lengths region) order b nr)

section Icfg

variable {φ : Type} [DecidableEq φ] [DecidableEq ι]

/-- The functions have entry blocks, and their code fits the pool with long branches. -/
def Fits (encoder : Encoder (φ × ι)) (icfg : MarkedIcfg φ ι) (walked : List (φ × List ι)) :
    Prop :=
  (∀ f ∈ walked.map Prod.fst, (icfg.function f).entryBlock ≠ none) ∧
    ∃ out, emitBlocks (instrsOf icfg) encoder noMarks (MarkedIcfg.order walked) .resetCodePool =
      .ok out

end Icfg

/-! ### Alignment -/

theorem le_alignUp (val : ℕ) : val ≤ alignUp val ARCH_BLOCK_ALIGN := by
  unfold alignUp alignDown ARCH_BLOCK_ALIGN
  omega

theorem alignUp_aligned (val : ℕ) : 16 ∣ alignUp val ARCH_BLOCK_ALIGN := by
  unfold alignUp alignDown ARCH_BLOCK_ALIGN
  omega

theorem alignUp_distance {low high distance : ℕ} (multiple : 16 ∣ distance)
    (apart : low + distance ≤ high) :
    alignUp low ARCH_BLOCK_ALIGN + distance ≤ alignUp high ARCH_BLOCK_ALIGN := by
  unfold alignUp alignDown ARCH_BLOCK_ALIGN
  omega

theorem alignUp_add {start : ℕ} (aligned : 16 ∣ start) (count : ℕ) :
    alignUp (start + count) ARCH_BLOCK_ALIGN = start + alignUp count ARCH_BLOCK_ALIGN := by
  unfold alignUp alignDown ARCH_BLOCK_ALIGN
  omega

theorem nextInstr_newBlock (pool : BinaryPool ι) :
    pool.newBlock.nextInstr = alignUp pool.nextInstr ARCH_BLOCK_ALIGN := by
  have le := le_alignUp pool.nextInstr
  unfold BinaryPool.newBlock BinaryPool.nextInstr at *
  rw [List.length_append, List.length_replicate]
  omega

/-! ### Places -/

section Geometry

variable (code : ι → List (BlockInstruction ι)) (encoder : Encoder ι) (marks : Marks ι)

theorem placeFrom_mono (b : ι) (start : ℕ) {nr later : ℕ} (le : nr ≤ later) :
    placeFrom code encoder marks b start nr ≤ placeFrom code encoder marks b start later := by
  induction later with
  | zero => exact le_of_eq (congrArg _ (Nat.le_zero.mp le))
  | succ later ih =>
      rcases Nat.le_succ_iff.mp le with before | same
      · exact le_trans (ih before) (Nat.le_add_right _ _)
      · rw [same]

theorem start_le_placeFrom (b : ι) (start nr : ℕ) :
    start ≤ placeFrom code encoder marks b start nr :=
  placeFrom_mono code encoder marks b start (Nat.zero_le nr)

theorem endOf_snoc (blocks : List ι) (b : ι) :
    endOf code encoder marks (blocks ++ [b]) = placeFrom code encoder marks b
      (alignUp (endOf code encoder marks blocks) ARCH_BLOCK_ALIGN) (code b).length := by
  unfold endOf
  rw [List.foldl_append]
  rfl

theorem endOf_append (blocks more : List ι) :
    endOf code encoder marks blocks ≤ endOf code encoder marks (blocks ++ more) := by
  induction more using List.reverseRecOn with
  | nil => rw [List.append_nil]
  | append_singleton more b ih =>
      rw [← List.append_assoc, endOf_snoc]
      calc
        endOf code encoder marks blocks ≤ endOf code encoder marks (blocks ++ more) := ih
        _ ≤ alignUp (endOf code encoder marks (blocks ++ more)) ARCH_BLOCK_ALIGN := le_alignUp _
        _ ≤ _ := start_le_placeFrom code encoder marks b _ _

variable [DecidableEq ι] {order early middle rest : List ι} {b c : ι}

omit code encoder marks in
theorem before_append (once : order.Nodup) (split : order = early ++ b :: rest) :
    before order b = early := by
  unfold before
  rw [split, List.takeWhile_append_of_pos, List.takeWhile_cons_of_neg]
  · simp
  · simp
  · intro x member
    apply decide_eq_true
    rintro rfl
    rw [split] at once
    exact (List.nodup_append.mp once).2.2 x member x List.mem_cons_self rfl

theorem place_le_startOf (once : order.Nodup) (split : order = early ++ b :: (middle ++ c :: rest))
    {nr : ℕ} (inside : nr ≤ (code b).length) :
    placeOf code encoder marks order b nr ≤ startOf code encoder marks order c := by
  have splitLater : order = (early ++ [b] ++ middle) ++ c :: rest := by rw [split]; simp
  unfold placeOf startOf
  rw [before_append once split, before_append once splitLater]
  calc
    placeFrom code encoder marks b _ nr ≤ endOf code encoder marks (early ++ [b]) := by
      rw [endOf_snoc]
      exact placeFrom_mono code encoder marks b _ inside
    _ ≤ endOf code encoder marks (early ++ [b] ++ middle) := endOf_append code encoder marks _ _
    _ ≤ _ := le_alignUp _

end Geometry

end CodeGeneration

end Drob
