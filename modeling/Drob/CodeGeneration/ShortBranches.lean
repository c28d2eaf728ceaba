import Drob.CodeGeneration.Layout
import Drob.Library.Result

/-!
What a run emits: instructions are where the layout says, the first run marks the branches
that are close to their destination, and the second run asks that marked ones still are.
-/

namespace Drob

namespace CodeGeneration

variable {ι : Type}

/-! ### Emission -/

section Emission

variable {code : ι → List (BlockInstruction ι)} {encoder : Encoder ι} {marks : Marks ι}

theorem branchLengths_isSome {instr : BlockInstruction ι} {dst : ι}
    (leads : destination instr = some dst) :
    ∃ short long, branchLengths instr.instruction.opcode = some (short, long) ∧ short ≤ long := by
  have isBranch : instr.instruction.isBranch = true := by
    unfold destination at leads
    by_contra other
    rw [if_neg other] at leads
    cases leads
  unfold Instruction.isBranch Instruction.opcodeInfo at isBranch
  revert isBranch
  cases instr.instruction.opcode <;>
    first
      | exact fun _ => ⟨_, _, rfl, by decide⟩
      | exact fun impossible => absurd impossible (by decide)

theorem instrLength_eq (b : ι) (nr address : ℕ) (instr : BlockInstruction ι) :
    instrLength encoder marks b nr instr address = .ok (lengthOf encoder marks b nr address instr) := by
  unfold instrLength lengthOf
  cases leads : destination instr with
  | none => rfl
  | some dst =>
      obtain ⟨short, long, lengths, _⟩ := branchLengths_isSome leads
      dsimp only
      rw [lengths]
      rfl

theorem nextInstr_allocCode {pool emitted : BinaryPool ι} {b : ι} {nr size : ℕ}
    (returned : pool.allocCode b nr size = .ok emitted) :
    emitted.nextInstr = pool.nextInstr + size := by
  obtain ⟨_, same⟩ := ite_ok returned
  cases same
  unfold BinaryPool.nextInstr
  rw [List.length_append, List.length_replicate]

theorem curInstrPage_allocCode {pool emitted : BinaryPool ι} {b : ι} {nr size : ℕ}
    (returned : pool.allocCode b nr size = .ok emitted) :
    emitted.curInstrPage = pool.curInstrPage := by
  obtain ⟨_, same⟩ := ite_ok returned
  cases same
  rfl

theorem emitInstrs_spec {b : ι} {start : ℕ} {rest : List (BlockInstruction ι)} {nr : ℕ}
    {pool last : BinaryPool ι} {emitted : List (EmittedInstr ι)}
    (suffix : rest = (code b).drop nr)
    (place : pool.nextInstr = placeFrom code encoder marks b start nr)
    (returned : emitInstrs encoder marks b rest nr pool = .ok (last, emitted)) :
    last.nextInstr = placeFrom code encoder marks b start (nr + rest.length) ∧
      ∀ e, e ∈ emitted ↔ nr ≤ e.nr ∧ e.block = b ∧ (code b)[e.nr]? = some e.instr ∧
        e.itext = placeFrom code encoder marks b start e.nr ∧
        e.ilen = lengthOf encoder marks b e.nr e.itext e.instr := by
  induction rest generalizing nr pool emitted with
  | nil =>
      cases returned
      refine ⟨place, fun e => iff_of_false List.not_mem_nil ?_⟩
      rintro ⟨later, _, found, _⟩
      have short := List.drop_eq_nil_iff.mp suffix.symm
      have inside := (List.getElem?_eq_some_iff.mp found).1
      omega
  | cons instr rest ih =>
      unfold emitInstrs at returned
      obtain ⟨ilen, measured, returned⟩ := bind_ok returned
      obtain ⟨grown, allocated, returned⟩ := bind_ok returned
      obtain ⟨⟨finished, others⟩, emits, same⟩ := bind_ok returned
      cases same
      have found : (code b)[nr]? = some instr := by
        rw [← List.head?_drop, ← suffix]
        rfl
      have tail : rest = (code b).drop (nr + 1) := by
        rw [← List.tail_drop, ← suffix]
        rfl
      have lengthEq := Except.ok.inj (measured.symm.trans (instrLength_eq b nr _ instr))
      have next : grown.nextInstr = placeFrom code encoder marks b start (nr + 1) := by
        rw [nextInstr_allocCode allocated, lengthEq, placeFrom, found, place]
        rfl
      obtain ⟨stop, members⟩ := ih tail next emits
      refine ⟨?_, ?_⟩
      · rw [stop, List.length_cons]
        congr 1
        omega
      · intro e
        rw [List.mem_cons, members]
        constructor
        · rintro (rfl | ⟨later, others⟩)
          · exact ⟨le_refl nr, rfl, found, place, lengthEq⟩
          · exact ⟨by omega, others⟩
        · rintro ⟨later, block, instrAt, itext, length⟩
          by_cases here : e.nr = nr
          · left
            obtain ⟨eBlock, eNr, eInstr, eText, eLen⟩ := e
            dsimp only at *
            subst here
            subst block
            have sameInstr := Option.some.inj (instrAt.symm.trans found)
            have sameText := itext.trans place.symm
            rw [length, lengthEq, sameInstr, sameText]
          · exact Or.inr ⟨by omega, block, instrAt, itext, length⟩

def Placed [DecidableEq ι] (code : ι → List (BlockInstruction ι)) (encoder : Encoder ι)
    (marks : Marks ι) (order : List ι) (e : EmittedInstr ι) : Prop :=
  (code e.block)[e.nr]? = some e.instr ∧
    e.itext = placeOf code encoder marks order e.block e.nr ∧
    e.ilen = lengthOf encoder marks e.block e.nr e.itext e.instr

variable [DecidableEq ι]

theorem emitBlocks_spec {order early rest : List ι} {pool last : BinaryPool ι}
    {blockMap : List (ι × ℕ)} {emitted : List (EmittedInstr ι)} (once : order.Nodup)
    (split : order = early ++ rest) (place : pool.nextInstr = endOf code encoder marks early)
    (returned : emitBlocks code encoder marks rest pool = .ok (last, blockMap, emitted)) :
    blockMap = rest.map (fun b => (b, startOf code encoder marks order b)) ∧
      ∀ e, e ∈ emitted ↔ e.block ∈ rest ∧ Placed code encoder marks order e := by
  induction rest generalizing early pool blockMap emitted with
  | nil =>
      cases returned
      exact ⟨rfl, fun e => iff_of_false List.not_mem_nil (fun both => List.not_mem_nil both.1)⟩
  | cons b rest ih =>
      unfold emitBlocks at returned
      obtain ⟨_, returned⟩ := ite_error returned
      obtain ⟨⟨grown, own⟩, emits, returned⟩ := bind_ok returned
      obtain ⟨⟨finished, others, later⟩, follows, same⟩ := bind_ok returned
      cases same
      have start : pool.newBlock.nextInstr = startOf code encoder marks order b := by
        unfold startOf
        rw [before_append once split, nextInstr_newBlock, place]
      have whole : (code b) = (code b).drop 0 := rfl
      obtain ⟨stop, members⟩ := emitInstrs_spec whole start emits
      have stopEq : grown.nextInstr = endOf code encoder marks (early ++ [b]) := by
        rw [stop, Nat.zero_add, before_append once split]
        unfold endOf
        rw [List.foldl_append]
        rfl
      have shifted : order = (early ++ [b]) ++ rest := by rw [split]; simp
      obtain ⟨mapEq, laterMembers⟩ := ih shifted stopEq follows
      refine ⟨?_, ?_⟩
      · rw [mapEq, start]
        rfl
      · intro e
        rw [List.mem_append, members, laterMembers, List.mem_cons, or_and_right]
        apply or_congr_left
        unfold Placed placeOf
        constructor
        · rintro ⟨_, rfl, placed⟩
          exact ⟨rfl, placed⟩
        · rintro ⟨rfl, placed⟩
          exact ⟨Nat.zero_le _, rfl, placed⟩

theorem emit_spec {order : List ι} {last : BinaryPool ι} {blockMap : List (ι × ℕ)}
    {emitted : List (EmittedInstr ι)} (once : order.Nodup)
    (returned : emitBlocks code encoder marks order .resetCodePool = .ok (last, blockMap, emitted)) :
    (∀ b ∈ order, blockMap.lookup b = some (startOf code encoder marks order b)) ∧
      ∀ e, e ∈ emitted ↔ e.block ∈ order ∧ Placed code encoder marks order e := by
  obtain ⟨mapEq, members⟩ := emitBlocks_spec once (List.nil_append order).symm rfl returned
  refine ⟨?_, members⟩
  intro b member
  rw [mapEq]
  clear mapEq members returned once
  generalize startOf code encoder marks order = start
  induction order with
  | nil => cases member
  | cons first rest ih =>
      rw [List.map_cons, List.lookup_cons]
      by_cases here : b = first
      · rw [here, beq_self_eq_true]
      · rw [beq_eq_false_iff_ne.mpr here]
        exact ih ((List.mem_cons.mp member).resolve_left here)

/-! ### The pool -/

omit [DecidableEq ι] in
theorem curInstrPage_emitInstrs {b : ι} {rest : List (BlockInstruction ι)} {nr : ℕ}
    {pool last : BinaryPool ι} {emitted : List (EmittedInstr ι)} (first : pool.curInstrPage = 0)
    (returned : emitInstrs encoder marks b rest nr pool = .ok (last, emitted)) :
    last.curInstrPage = 0 := by
  induction rest generalizing nr pool emitted with
  | nil =>
      cases returned
      exact first
  | cons instr rest ih =>
      unfold emitInstrs at returned
      obtain ⟨ilen, _, returned⟩ := bind_ok returned
      obtain ⟨grown, allocated, returned⟩ := bind_ok returned
      obtain ⟨⟨finished, others⟩, emits, same⟩ := bind_ok returned
      cases same
      exact ih ((curInstrPage_allocCode allocated).trans first) emits

omit [DecidableEq ι] in
theorem allocCode_iff {pool : BinaryPool ι} (first : pool.curInstrPage = 0) (b : ι) (nr size : ℕ) :
    (∃ grown, pool.allocCode b nr size = .ok grown ∧ grown.curInstrPage = 0 ∧
        grown.nextInstr = pool.nextInstr + size) ↔
      pool.nextInstr + size - 1 < ARCH_PAGE_SIZE := by
  have inPage : alignDown (pool.nextInstr + size - 1) ARCH_PAGE_SIZE = pool.curInstrPage ↔
      pool.nextInstr + size - 1 < ARCH_PAGE_SIZE := by
    rw [first]
    unfold alignDown ARCH_PAGE_SIZE
    omega
  constructor
  · rintro ⟨grown, allocated, _⟩
    exact inPage.mp (ite_ok allocated).1
  · intro fits
    obtain ⟨grown, allocated⟩ : ∃ grown, pool.allocCode b nr size = .ok grown :=
      ⟨_, if_pos (inPage.mpr fits)⟩
    exact ⟨grown, allocated, (curInstrPage_allocCode allocated).trans first,
      nextInstr_allocCode allocated⟩

/-- An instruction ends in the first page. -/
def InPage (code : ι → List (BlockInstruction ι)) (encoder : Encoder ι)
    (marks : Marks ι) (b : ι) (start nr : ℕ) : Prop :=
  ∀ instr, (code b)[nr]? = some instr →
    placeFrom code encoder marks b start nr +
      lengthOf encoder marks b nr (placeFrom code encoder marks b start nr) instr - 1 <
        ARCH_PAGE_SIZE

omit [DecidableEq ι] in
theorem emitInstrs_iff {b : ι} {start : ℕ} {rest : List (BlockInstruction ι)} {nr : ℕ}
    {pool : BinaryPool ι} (suffix : rest = (code b).drop nr) (first : pool.curInstrPage = 0)
    (place : pool.nextInstr = placeFrom code encoder marks b start nr) :
    (∃ last emitted, emitInstrs encoder marks b rest nr pool = .ok (last, emitted) ∧
        last.curInstrPage = 0) ↔
      ∀ k, nr ≤ k → InPage code encoder marks b start k := by
  induction rest generalizing nr pool with
  | nil =>
      refine iff_of_true ⟨pool, [], rfl, first⟩ ?_
      intro k later instr found
      have short := List.drop_eq_nil_iff.mp suffix.symm
      have inside := (List.getElem?_eq_some_iff.mp found).1
      omega
  | cons instr rest ih =>
      have found : (code b)[nr]? = some instr := by
        rw [← List.head?_drop, ← suffix]
        rfl
      have tail : rest = (code b).drop (nr + 1) := by
        rw [← List.tail_drop, ← suffix]
        rfl
      have here : InPage code encoder marks b start nr ↔ pool.nextInstr +
          lengthOf encoder marks b nr pool.nextInstr instr - 1 < ARCH_PAGE_SIZE := by
        unfold InPage
        rw [place, found]
        exact ⟨fun all => all instr rfl, fun fits other same => Option.some.inj same ▸ fits⟩
      constructor
      · rintro ⟨last, emitted, emits, firstLast⟩
        unfold emitInstrs at emits
        rw [instrLength_eq] at emits
        obtain ⟨ilen, measured, emits⟩ := bind_ok emits
        obtain ⟨grown, allocated, emits⟩ := bind_ok emits
        obtain ⟨⟨last', others⟩, emitsRest, same⟩ := bind_ok emits
        cases same
        cases measured
        have next := nextInstr_allocCode allocated
        have firstGrown := (curInstrPage_allocCode allocated).trans first
        have later := (ih tail firstGrown (by
          rw [next, placeFrom, found, place]
          rfl)).mp ⟨last, others, emitsRest, firstLast⟩
        intro k le
        rcases Nat.eq_or_lt_of_le le with same | less
        · rw [← same, here]
          exact (allocCode_iff first b nr _).mp ⟨grown, allocated, firstGrown, next⟩
        · exact later k less
      · intro all
        obtain ⟨grown, allocated, firstGrown, next⟩ :=
          (allocCode_iff first b nr _).mpr (here.mp (all nr le_rfl))
        obtain ⟨last, others, emits, firstLast⟩ := (ih tail firstGrown (by
          rw [next, placeFrom, found, place]
          rfl)).mpr (fun k less => all k (Nat.le_of_succ_le less))
        unfold emitInstrs
        rw [instrLength_eq]
        simp only [bind, Except.bind, allocated, emits]
        exact ⟨last, _, rfl, firstLast⟩

theorem emitBlocks_iff {order early rest : List ι} {pool : BinaryPool ι} (once : order.Nodup)
    (split : order = early ++ rest) (first : pool.curInstrPage = 0)
    (place : pool.nextInstr = endOf code encoder marks early) :
    (∃ out, emitBlocks code encoder marks rest pool = .ok out) ↔
      ∀ b ∈ rest, code b ≠ [] ∧
        ∀ k, InPage code encoder marks b (startOf code encoder marks order b) k := by
  induction rest generalizing early pool with
  | nil => exact iff_of_true ⟨_, rfl⟩ nofun
  | cons b rest ih =>
      have start : pool.newBlock.nextInstr = startOf code encoder marks order b := by
        unfold startOf
        rw [before_append once split, nextInstr_newBlock, place]
      have whole : code b = (code b).drop 0 := rfl
      have firstNew : pool.newBlock.curInstrPage = 0 := first
      have shifted : order = (early ++ [b]) ++ rest := by rw [split]; simp
      have own : (∃ grown emitted, emitInstrs encoder marks b (code b) 0 pool.newBlock =
          .ok (grown, emitted) ∧ grown.curInstrPage = 0) ↔ _ :=
        emitInstrs_iff whole firstNew start
      have goesOn {grown : BinaryPool ι} {emitted : List (EmittedInstr ι)}
          (emits : emitInstrs encoder marks b (code b) 0 pool.newBlock = .ok (grown, emitted))
          (firstGrown : grown.curInstrPage = 0) := ih shifted firstGrown (by
        rw [(emitInstrs_spec whole start emits).1, Nat.zero_add, endOf_snoc,
          before_append once split])
      rw [List.forall_mem_cons]
      unfold emitBlocks
      constructor
      · rintro ⟨out, emits⟩
        obtain ⟨nonempty, emits⟩ := ite_error emits
        obtain ⟨⟨grown, emitted⟩, emitsOwn, emits⟩ := bind_ok emits
        obtain ⟨later, emitsLater, same⟩ := bind_ok emits
        have firstGrown : grown.curInstrPage = 0 := curInstrPage_emitInstrs firstNew emitsOwn
        refine ⟨⟨fun empty => nonempty (List.isEmpty_iff.mpr empty), fun k => ?_⟩, ?_⟩
        · exact own.mp ⟨grown, emitted, emitsOwn, firstGrown⟩ k (Nat.zero_le k)
        · exact (goesOn emitsOwn firstGrown).mp ⟨later, emitsLater⟩
      · rintro ⟨⟨nonempty, inPage⟩, others⟩
        obtain ⟨grown, emitted, emitsOwn, firstGrown⟩ := own.mpr (fun k _ => inPage k)
        obtain ⟨⟨last, blockMap, later⟩, emitsLater⟩ := (goesOn emitsOwn firstGrown).mpr others
        dsimp only
        rw [if_neg (fun empty => nonempty (List.isEmpty_iff.mp empty))]
        simp only [bind, Except.bind, emitsOwn, emitsLater]
        exact ⟨_, rfl⟩

theorem emits_iff {order : List ι} (once : order.Nodup) :
    (∃ out, emitBlocks code encoder marks order .resetCodePool = .ok out) ↔
      ∀ b ∈ order, code b ≠ [] ∧
        ∀ k, InPage code encoder marks b (startOf code encoder marks order b) k :=
  emitBlocks_iff once (List.nil_append order).symm rfl rfl

end Emission

/-! ### Marking -/

section Marking

variable [DecidableEq ι] {code : ι → List (BlockInstruction ι)} {encoder : Encoder ι} {order : List ι}
  {blockMap : List (ι × ℕ)}

def LeadsInside (code : ι → List (BlockInstruction ι)) (order : List ι) : Prop :=
  ∀ b ∈ order, ∀ instr ∈ (code b), ∀ dst, destination instr = some dst → dst ∈ order

variable (code encoder order) in
/-- The marks of the first run: the branches that are close to their destination. -/
def shortMarks : Marks ι := fun b nr =>
  match (code b)[nr]? with
  | none => false
  | some instr =>
      match destination instr, branchLengths instr.instruction.opcode with
      | some dst, some (short, _) =>
          decide (b ∈ order) && is_rel8 (distance code encoder order b nr short dst)
      | _, _ => false

theorem shortMarks_eq {b : ι} {nr : ℕ} {instr : BlockInstruction ι} {dst : ι} {short long : ℕ}
    (found : (code b)[nr]? = some instr) (leads : destination instr = some dst)
    (lengths : branchLengths instr.instruction.opcode = some (short, long)) (member : b ∈ order) :
    shortMarks code encoder order b nr = is_rel8 (distance code encoder order b nr short dst) := by
  unfold shortMarks
  rw [found]
  dsimp only
  rw [leads, lengths]
  dsimp only
  rw [decide_eq_true member, Bool.true_and]

theorem shortMarks_plain {b : ι} {nr : ℕ} {instr : BlockInstruction ι}
    (found : (code b)[nr]? = some instr) (plain : destination instr = none) :
    shortMarks code encoder order b nr = false := by
  unfold shortMarks
  rw [found]
  dsimp only
  rw [plain]

theorem fixup_first {marks : Marks ι} {e : EmittedInstr ι} (inside : LeadsInside code order)
    (starts : ∀ b ∈ order, blockMap.lookup b = some (startOf code encoder noMarks order b))
    (member : e.block ∈ order) (placed : Placed code encoder noMarks order e) :
    arch_fixup_branch false blockMap marks e = .ok (fun b nr =>
      (decide (b = e.block ∧ nr = e.nr) && shortMarks code encoder order e.block e.nr) ||
        marks b nr) := by
  obtain ⟨found, itext, _⟩ := placed
  unfold arch_fixup_branch
  cases leads : destination e.instr with
  | none =>
      dsimp only
      rw [shortMarks_plain found leads]
      congr 1
      funext b nr
      rw [Bool.and_false, Bool.false_or]
  | some dst =>
      obtain ⟨short, long, lengths, _⟩ := branchLengths_isSome leads
      have dstMember := inside e.block member e.instr (List.mem_of_getElem? found) dst leads
      rw [shortMarks_eq found leads lengths member]
      dsimp only
      rw [lengths, starts dst dstMember]
      dsimp only
      rw [if_neg Bool.false_ne_true, itext]
      unfold distance
      split
      · rename_i reaches
        rw [reaches]
        congr 1
        funext b nr
        rw [Bool.and_true]
      · rename_i far
        rw [Bool.eq_false_iff.mpr far]
        congr 1
        funext b nr
        rw [Bool.and_false, Bool.false_or]

theorem fixups_first {emitted : List (EmittedInstr ι)} (inside : LeadsInside code order)
    (starts : ∀ b ∈ order, blockMap.lookup b = some (startOf code encoder noMarks order b))
    (all : ∀ e ∈ emitted, e.block ∈ order ∧ Placed code encoder noMarks order e) (marks : Marks ι) :
    emitted.foldlM (arch_fixup_branch false blockMap) marks = .ok (fun b nr =>
      emitted.any (fun e =>
        decide (b = e.block ∧ nr = e.nr) && shortMarks code encoder order e.block e.nr) ||
          marks b nr) := by
  induction emitted generalizing marks with
  | nil =>
      change Except.ok marks = _
      congr 1
  | cons e rest ih =>
      obtain ⟨member, placed⟩ := all e List.mem_cons_self
      rw [List.foldlM_cons, fixup_first inside starts member placed]
      change rest.foldlM _ _ = _
      rw [ih (fun e later => all e (List.mem_cons_of_mem _ later))]
      congr 1
      funext b nr
      rw [List.any_cons, ← Bool.or_assoc]
      congr 1
      exact Bool.or_comm _ _

theorem run_first {last : BinaryPool ι} {emitted : List (EmittedInstr ι)} (once : order.Nodup)
    (inside : LeadsInside code order)
    (emits : emitBlocks code encoder noMarks order .resetCodePool = .ok (last, blockMap, emitted)) :
    handleBranches code encoder order false noMarks =
      .ok (shortMarks code encoder order, emitted) := by
  obtain ⟨starts, members⟩ := emit_spec once emits
  have marked := fixups_first inside starts (fun e member => (members e).mp member) noMarks
  unfold handleBranches
  rw [emits]
  change (do
    let later ← emitted.foldlM (arch_fixup_branch false blockMap) noMarks
    Except.ok (later, emitted)) = _
  rw [marked]
  change Except.ok (_, emitted) = _
  congr 2
  funext b nr
  rw [show noMarks b nr = false from rfl, Bool.or_false]
  cases short : shortMarks code encoder order b nr with
  | false =>
      apply List.any_eq_false.mpr
      intro e _ both
      obtain ⟨same, marks⟩ := Bool.and_eq_true_iff.mp both
      obtain ⟨rfl, rfl⟩ := of_decide_eq_true same
      rw [short] at marks
      cases marks
  | true =>
      apply List.any_eq_true.mpr
      have isMarked := short
      unfold shortMarks at isMarked
      split at isMarked
      · cases isMarked
      · rename_i instr found
        split at isMarked
        · have member := of_decide_eq_true (Bool.and_eq_true_iff.mp isMarked).1
          let place := placeOf code encoder noMarks order b nr
          refine ⟨⟨b, nr, instr, place, lengthOf encoder noMarks b nr place instr⟩,
            (members _).mpr ⟨member, found, rfl, rfl⟩, ?_⟩
          dsimp only
          rw [short, Bool.and_true]
          exact decide_eq_true ⟨rfl, rfl⟩
        · cases isMarked

def Reaches (code : ι → List (BlockInstruction ι)) (encoder : Encoder ι) (order : List ι) (marks : Marks ι)
    (e : EmittedInstr ι) : Prop :=
  ∀ dst short long, destination e.instr = some dst →
    branchLengths e.instr.instruction.opcode = some (short, long) →
      marks e.block e.nr = true →
        is_rel8 (startOf code encoder marks order dst - (e.itext + short)) = true

theorem fixup_second {marks : Marks ι} {e : EmittedInstr ι} (inside : LeadsInside code order)
    (starts : ∀ b ∈ order, blockMap.lookup b = some (startOf code encoder marks order b))
    (member : e.block ∈ order) (placed : Placed code encoder marks order e) :
    (arch_fixup_branch true blockMap marks e = .ok marks ∧
      Reaches code encoder order marks e) ∨
      (∃ failure, arch_fixup_branch true blockMap marks e = .error failure) ∧
        ¬ Reaches code encoder order marks e := by
  obtain ⟨found, _, ilen⟩ := placed
  unfold arch_fixup_branch
  cases leads : destination e.instr with
  | none =>
      left
      refine ⟨rfl, ?_⟩
      intro dst short long leadsTo
      rw [leads] at leadsTo
      cases leadsTo
  | some dst =>
      obtain ⟨short, long, lengths, _⟩ := branchLengths_isSome leads
      have dstMember := inside e.block member e.instr (List.mem_of_getElem? found) dst leads
      unfold lengthOf at ilen
      rw [leads, lengths] at ilen
      dsimp only
      rw [lengths, starts dst dstMember]
      dsimp only
      rw [if_pos rfl]
      cases marked : marks e.block e.nr with
      | false =>
          left
          rw [marked] at ilen
          rw [if_neg Bool.false_ne_true]
          refine ⟨if_pos ilen, ?_⟩
          intro _ _ _ _ _ impossible
          rw [marked] at impossible
          cases impossible
      | true =>
          rw [marked] at ilen
          have isShort : e.ilen = short := ilen
          rw [if_pos rfl, if_neg (not_not.mpr isShort), isShort]
          split
          · rename_i reaches
            left
            refine ⟨rfl, ?_⟩
            intro dst' short' long' leads' lengths' _
            cases leads.symm.trans leads'
            cases lengths.symm.trans lengths'
            exact reaches
          · rename_i far
            right
            refine ⟨⟨_, rfl⟩, fun reaches => far ?_⟩
            exact reaches dst short long leads lengths marked

theorem fixups_second {marks : Marks ι} {emitted : List (EmittedInstr ι)}
    (inside : LeadsInside code order)
    (starts : ∀ b ∈ order, blockMap.lookup b = some (startOf code encoder marks order b))
    (all : ∀ e ∈ emitted, e.block ∈ order ∧ Placed code encoder marks order e) :
    (∃ last, emitted.foldlM (arch_fixup_branch true blockMap) marks = .ok last) ↔
      ∀ e ∈ emitted, Reaches code encoder order marks e := by
  induction emitted with
  | nil => exact iff_of_true ⟨marks, rfl⟩ (fun _ impossible => absurd impossible List.not_mem_nil)
  | cons e rest ih =>
      obtain ⟨member, placed⟩ := all e List.mem_cons_self
      have others := ih (fun e later => all e (List.mem_cons_of_mem _ later))
      rw [List.foldlM_cons]
      rcases fixup_second inside starts member placed with ⟨same, reaches⟩ | ⟨⟨failure, fails⟩, far⟩
      · rw [same]
        change (∃ last, rest.foldlM (arch_fixup_branch true blockMap) marks = .ok last) ↔ _
        rw [others, List.forall_mem_cons]
        exact (and_iff_right reaches).symm
      · rw [fails]
        refine iff_of_false ?_ (fun every => far (every e List.mem_cons_self))
        rintro ⟨_, impossible⟩
        cases impossible

end Marking

end CodeGeneration

end Drob
