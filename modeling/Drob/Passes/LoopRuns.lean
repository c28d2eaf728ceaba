import Drob.Passes.LoopUnrolling

/-!
What splitting, copying and inverting the condition of a block does to the runs of a
function.
-/

namespace Drob

namespace FunctionCfg

open Traces

variable {ι : Type} {cfg later last : FunctionCfg ι}

/-! ### Runs that end outside of a loop -/

def Outside (inside : ι → Prop) (place : Option (Point ι)) : Prop :=
  ∀ here ∈ place, ¬ inside here.block

/-- The runs show the same, and get to the same places outside of the loop. -/
structure SameRuns (inside : ι → Prop) (cfg later : FunctionCfg ι) : Prop where
  shows : ∀ events, later.Shows events ↔ cfg.Shows events
  reaches : ∀ events place, Outside inside place →
    (later.Reaches events place ↔ cfg.Reaches events place)

theorem SameRuns.refl (inside : ι → Prop) (cfg : FunctionCfg ι) : SameRuns inside cfg cfg :=
  ⟨fun _ => Iff.rfl, fun _ _ _ => Iff.rfl⟩

theorem SameRuns.trans {inside : ι → Prop} (first : SameRuns inside cfg later)
    (second : SameRuns inside later last) : SameRuns inside cfg last :=
  ⟨fun events => (second.shows events).trans (first.shows events),
    fun events place outside =>
      (second.reaches events place outside).trans (first.reaches events place outside)⟩

theorem SameRuns.of_simulates {inside : ι → Prop}
    {related : Option (Point ι) → Option (Point ι) → Prop}
    (forth : Simulates cfg.Step later.Step related)
    (back : Simulates later.Step cfg.Step (fun after before => related before after))
    (start : related (some (cfg.enter cfg.entryBlock)) (some (later.enter later.entryBlock)))
    (leaves : ∀ before after, related before after → Outside inside before →
      Weak later.Step after none before)
    (returns : ∀ before after, related before after → Outside inside after →
      Weak cfg.Step before none after) : SameRuns inside cfg later := by
  refine ⟨trace_iff forth back start, ?_⟩
  intro events place outside
  constructor
  · intro run
    obtain ⟨before, matched, reached⟩ := back.run start run
    have extended := reached.append (Run.of_weak (returns before place matched outside) (.nil _))
    rw [Option.toList_none, List.append_nil, List.append_nil] at extended
    exact extended
  · intro run
    obtain ⟨after, matched, reached⟩ := forth.run start run
    have extended := reached.append (Run.of_weak (leaves place after matched outside) (.nil _))
    rw [Option.toList_none, List.append_nil, List.append_nil] at extended
    exact extended

def Avoids (x : ι) (instrs : List (BlockInstruction ι)) : Prop :=
  ∀ instr ∈ instrs, instr.branchEdge ≠ some x

structure Unused (cfg : FunctionCfg ι) (x : ι) : Prop where
  entry : cfg.entryBlock ≠ x
  next : ∀ y, (cfg.block y).next ≠ some x
  avoids : ∀ y, Avoids x (cfg.block y).instrs

theorem Avoids.ne {x dst : ι} {instr : BlockInstruction ι} {rest : List (BlockInstruction ι)}
    (avoids : Avoids x (instr :: rest)) {label : Option Event} {goes : Goes ι}
    (outcome : Outcome instr label goes) (leads : goes = .block dst) : dst ≠ x := by
  rintro rfl
  exact avoids instr List.mem_cons_self (branchEdge_of_outcome outcome leads)

theorem Avoids.tail {x : ι} {instr : BlockInstruction ι} {rest : List (BlockInstruction ι)}
    (avoids : Avoids x (instr :: rest)) : Avoids x rest :=
  fun other member => avoids other (List.mem_cons_of_mem instr member)

/-! ### Splitting a block -/

section Split

variable {b new : ι} {back : List (BlockInstruction ι)}

structure Splits (cfg later : FunctionCfg ι) (b new : ι) (back : List (BlockInstruction ι)) :
    Prop where
  unused : cfg.Unused new
  entry : later.entryBlock = cfg.entryBlock
  block : (cfg.block b).instrs = (later.block b).instrs ++ back
  moved : (later.block new).instrs = back
  instrs : ∀ x, x ≠ b → x ≠ new → (later.block x).instrs = (cfg.block x).instrs
  falls : (later.block b).next = some new
  next : (later.block new).next = (cfg.block b).next
  others : ∀ x, x ≠ b → x ≠ new → (later.block x).next = (cfg.block x).next

inductive SplitRelated (b new : ι) (back : List (BlockInstruction ι)) :
    Option (Point ι) → Option (Point ι) → Prop where
  | left : SplitRelated b new back none none
  | other {x : ι} {rest : List (BlockInstruction ι)} (notBlock : x ≠ b) (notNew : x ≠ new)
      (avoids : Avoids new rest) :
      SplitRelated b new back (some { block := x, rest }) (some { block := x, rest })
  | front {rest : List (BlockInstruction ι)} (avoids : Avoids new (rest ++ back)) :
      SplitRelated b new back (some { block := b, rest := rest ++ back })
        (some { block := b, rest })
  | moved {rest : List (BlockInstruction ι)} (avoids : Avoids new rest) :
      SplitRelated b new back (some { block := b, rest }) (some { block := new, rest })

theorem Splits.enter (splits : Splits cfg later b new back) {x : ι} (old : x ≠ new) :
    SplitRelated b new back (some (cfg.enter x)) (some (later.enter x)) := by
  have avoids := splits.unused.avoids x
  unfold FunctionCfg.enter
  by_cases here : x = b
  · rw [here, splits.block]
    rw [here, splits.block] at avoids
    exact .front avoids
  · rw [splits.instrs x here old]
    exact .other here old avoids

theorem Splits.place (splits : Splits cfg later b new back) {x y : ι}
    {instr : BlockInstruction ι} {rest rest' : List (BlockInstruction ι)}
    (avoids : Avoids new (instr :: rest))
    (behind : SplitRelated b new back (some { block := x, rest }) (some { block := y, rest := rest' }))
    {label : Option Event} {goes : Goes ι} (outcome : Outcome instr label goes) :
    SplitRelated b new back (cfg.place x rest goes) (later.place y rest' goes) := by
  cases goes with
  | on => exact behind
  | block dst => exact splits.enter (avoids.ne outcome rfl)
  | leave => exact .left

theorem Splits.moved_step (splits : Splits cfg later b new back)
    {rest : List (BlockInstruction ι)} (avoids : Avoids new rest) {label : Option Event}
    {after : Option (Point ι)} (step : cfg.Step (some { block := b, rest }) label after) :
    ∃ matched, SplitRelated b new back after matched ∧
      later.Step (some { block := new, rest }) label matched := by
  cases step with
  | @fall _ n falls =>
      have old : n ≠ new := fun same => splits.unused.next b (same ▸ falls)
      exact ⟨_, splits.enter old, .fall (splits.next.trans falls)⟩
  | instr outcome =>
      exact ⟨_, splits.place avoids (.moved avoids.tail) outcome, .instr outcome⟩

theorem Splits.simulates (splits : Splits cfg later b new back) :
    Simulates cfg.Step later.Step (SplitRelated b new back) := by
  intro before after next label related step
  cases related with
  | left => cases step
  | @other x rest notBlock notNew avoids =>
      cases step with
      | @fall _ n falls =>
          have old : n ≠ new := fun same => splits.unused.next x (same ▸ falls)
          exact ⟨_, splits.enter old, .single (.fall ((splits.others x notBlock notNew).trans falls))⟩
      | instr outcome =>
          exact ⟨_, splits.place avoids (.other notBlock notNew avoids.tail) outcome,
            .single (.instr outcome)⟩
  | @front rest avoids =>
      cases rest with
      | nil =>
          have first : later.Step (some { block := b, rest := [] }) none (some (later.enter new)) :=
            .fall splits.falls
          obtain ⟨matched, related, second⟩ := splits.moved_step avoids step
          refine ⟨matched, related, .silent first (.single ?_)⟩
          unfold FunctionCfg.enter
          rw [splits.moved]
          exact second
      | cons instr rest =>
          cases step with
          | instr outcome =>
              exact ⟨_, splits.place avoids (.front avoids.tail) outcome, .single (.instr outcome)⟩
  | moved avoids =>
      obtain ⟨matched, related, second⟩ := splits.moved_step avoids step
      exact ⟨matched, related, .single second⟩

theorem Splits.simulated (splits : Splits cfg later b new back) :
    Simulates later.Step cfg.Step (fun after before => SplitRelated b new back before after) := by
  intro after before next label related step
  cases related with
  | left => cases step
  | @other x rest notBlock notNew avoids =>
      cases step with
      | @fall _ n falls =>
          have falls := (splits.others x notBlock notNew).symm.trans falls
          have old : n ≠ new := fun same => splits.unused.next x (same ▸ falls)
          exact ⟨_, splits.enter old, .single (.fall falls)⟩
      | instr outcome =>
          exact ⟨_, splits.place avoids (.other notBlock notNew avoids.tail) outcome,
            .single (.instr outcome)⟩
  | @front rest avoids =>
      cases rest with
      | nil =>
          cases step with
          | @fall _ n falls =>
              cases Falls.unique falls splits.falls
              refine ⟨_, ?_, .stay _⟩
              unfold FunctionCfg.enter
              rw [splits.moved]
              exact .moved avoids
      | cons instr rest =>
          cases step with
          | instr outcome =>
              exact ⟨_, splits.place avoids (.front avoids.tail) outcome, .single (.instr outcome)⟩
  | moved avoids =>
      cases step with
      | @fall _ n falls =>
          have falls := splits.next.symm.trans falls
          have old : n ≠ new := fun same => splits.unused.next b (same ▸ falls)
          exact ⟨_, splits.enter old, .single (.fall falls)⟩
      | instr outcome =>
          exact ⟨_, splits.place avoids (.moved avoids.tail) outcome, .single (.instr outcome)⟩

theorem Splits.sameRuns (splits : Splits cfg later b new back) {inside : ι → Prop}
    (block : inside b) (fresh : inside new) : SameRuns inside cfg later := by
  apply SameRuns.of_simulates splits.simulates splits.simulated
  · rw [splits.entry]
    exact splits.enter splits.unused.entry
  · intro before after related outside
    cases related with
    | left => exact .stay _
    | other => exact .stay _
    | front | moved => exact absurd block (outside _ rfl)
  · intro before after related outside
    cases related with
    | left => exact .stay _
    | other => exact .stay _
    | front => exact absurd block (outside _ rfl)
    | moved => exact absurd fresh (outside _ rfl)

end Split

/-! ### Making the fallthrough explicit -/

theorem Chains.sameRuns [DecidableEq ι] {b dst : ι} (chains : Chains later cfg b dst)
    {inside : ι → Prop} (block : inside b) : SameRuns inside cfg later := by
  apply SameRuns.of_simulates chains.simulated chains.simulates
  · rw [chains.entry]
    exact chains.enter later.entryBlock
  · rintro after before ⟨_, rfl⟩ outside
    cases before with
    | none => exact .stay _
    | some place =>
        have other : place.block ≠ b := fun same => outside _ rfl (same ▸ block)
        rw [Option.map_some, if_neg other]
        exact .stay _
  · rintro after before ⟨_, rfl⟩ outside
    cases before with
    | none => exact .stay _
    | some place =>
        have other : place.block ≠ b := fun same => outside _ rfl (same ▸ block)
        rw [Option.map_some, if_neg other]
        exact .stay _

/-! ### Copying a block -/

section Copy

variable [DecidableEq ι] {b copy : ι}

def Mirrors (b copy : ι) (instr other : BlockInstruction ι) : Prop :=
  other.instruction = instr.instruction ∧
    other.branchEdge = instr.branchEdge.map (redirect b copy)

omit [DecidableEq ι] in
theorem outcome_congr {instr other : BlockInstruction ι}
    (instruction : other.instruction = instr.instruction)
    (edge : other.branchEdge = instr.branchEdge) {label : Option Event} {goes : Goes ι}
    (outcome : Outcome instr label goes) : Outcome other label goes := by
  obtain ⟨_, livenessData, _⟩ := other
  cases instruction
  cases edge
  cases outcome with
  | jump branch always edge => exact .jump branch always edge
  | away branch always edge => exact @Outcome.away _ ⟨_, livenessData, _⟩ branch always edge
  | taken branch sometimes condition holds =>
      exact @Outcome.taken _ ⟨_, livenessData, _⟩ _ branch sometimes condition holds
  | passed branch sometimes condition holds =>
      exact @Outcome.passed _ ⟨_, livenessData, _⟩ _ branch sometimes condition holds
  | ret branch ret => exact @Outcome.ret _ ⟨_, livenessData, _⟩ branch ret
  | exec branch ret => exact @Outcome.exec _ ⟨_, livenessData, _⟩ branch ret

theorem Mirrors.outcome {instr other : BlockInstruction ι} (mirrors : Mirrors b copy instr other)
    {label : Option Event} {goes : Goes ι} (outcome : Outcome instr label goes) :
    Outcome other label (redirectGoes b copy goes) :=
  @outcome_congr _ (redirectInstr b copy instr) other mirrors.1 mirrors.2 label _
    (Outcome.redirect outcome)

theorem Mirrors.of_outcome {instr other : BlockInstruction ι}
    (mirrors : Mirrors b copy instr other) {label : Option Event} {goes : Goes ι}
    (outcome : Outcome other label goes) :
    ∃ before, Outcome instr label before ∧ goes = redirectGoes b copy before := by
  have redirected : Outcome (redirectInstr b copy instr) label goes :=
    @outcome_congr _ other (redirectInstr b copy instr) mirrors.1.symm mirrors.2.symm label goes
      outcome
  exact outcome_of_redirectInstr redirected

/-- The self branches of a block and of its copy lead to the copy. -/
structure Copies (cfg later : FunctionCfg ι) (b copy : ι) : Prop where
  unused : cfg.Unused copy
  entry : later.entryBlock = cfg.entryBlock
  ends : (cfg.block b).next = none
  stays : (later.block b).next = none
  stops : (later.block copy).next = none
  block : List.Forall₂ (Mirrors b copy) (cfg.block b).instrs (later.block b).instrs
  copied : List.Forall₂ (Mirrors b copy) (cfg.block b).instrs (later.block copy).instrs
  instrs : ∀ x, x ≠ b → x ≠ copy → (later.block x).instrs = (cfg.block x).instrs
  others : ∀ x, x ≠ b → x ≠ copy → (later.block x).next = (cfg.block x).next

inductive CopyRelated (b copy : ι) : Option (Point ι) → Option (Point ι) → Prop where
  | left : CopyRelated b copy none none
  | other {x : ι} {rest : List (BlockInstruction ι)} (notBlock : x ≠ b) (notCopy : x ≠ copy)
      (avoids : Avoids copy rest) :
      CopyRelated b copy (some { block := x, rest }) (some { block := x, rest })
  | loop {y : ι} {rest mirrored : List (BlockInstruction ι)} (either : y = b ∨ y = copy)
      (avoids : Avoids copy rest) (mirrors : List.Forall₂ (Mirrors b copy) rest mirrored) :
      CopyRelated b copy (some { block := b, rest }) (some { block := y, rest := mirrored })

theorem Copies.enter (copies : Copies cfg later b copy) {x : ι} (old : x ≠ copy) :
    CopyRelated b copy (some (cfg.enter x)) (some (later.enter x)) := by
  have avoids := copies.unused.avoids x
  unfold FunctionCfg.enter
  by_cases here : x = b
  · rw [here]
    exact .loop (Or.inl rfl) (here ▸ avoids) copies.block
  · rw [copies.instrs x here old]
    exact .other here old avoids

theorem Copies.enter_redirect (copies : Copies cfg later b copy) {x : ι} (old : x ≠ copy) :
    CopyRelated b copy (some (cfg.enter x)) (some (later.enter (redirect b copy x))) := by
  unfold redirect
  split
  · rename_i here
    rw [here]
    exact .loop (Or.inr rfl) (copies.unused.avoids b) copies.copied
  · exact copies.enter old

theorem Copies.place_loop (copies : Copies cfg later b copy) {y : ι} (either : y = b ∨ y = copy)
    {instr : BlockInstruction ι} {rest mirrored : List (BlockInstruction ι)}
    (avoids : Avoids copy (instr :: rest)) (mirrors : List.Forall₂ (Mirrors b copy) rest mirrored)
    {label : Option Event} {goes : Goes ι} (outcome : Outcome instr label goes) :
    CopyRelated b copy (cfg.place b rest goes)
      (later.place y mirrored (redirectGoes b copy goes)) := by
  cases goes with
  | on => exact .loop either avoids.tail mirrors
  | block dst => exact copies.enter_redirect (avoids.ne outcome rfl)
  | leave => exact .left

theorem Copies.place_other (copies : Copies cfg later b copy) {x : ι} (notBlock : x ≠ b)
    (notCopy : x ≠ copy) {instr : BlockInstruction ι} {rest : List (BlockInstruction ι)}
    (avoids : Avoids copy (instr :: rest)) {label : Option Event} {goes : Goes ι}
    (outcome : Outcome instr label goes) :
    CopyRelated b copy (cfg.place x rest goes) (later.place x rest goes) := by
  cases goes with
  | on => exact .other notBlock notCopy avoids.tail
  | block dst => exact copies.enter (avoids.ne outcome rfl)
  | leave => exact .left

theorem Copies.simulates (copies : Copies cfg later b copy) :
    Simulates cfg.Step later.Step (CopyRelated b copy) := by
  intro before after next label related step
  cases related with
  | left => cases step
  | @other x rest notBlock notCopy avoids =>
      cases step with
      | @fall _ n falls =>
          have old : n ≠ copy := fun same => copies.unused.next x (same ▸ falls)
          exact ⟨_, copies.enter old,
            .single (.fall ((copies.others x notBlock notCopy).trans falls))⟩
      | instr outcome =>
          exact ⟨_, copies.place_other notBlock notCopy avoids outcome, .single (.instr outcome)⟩
  | loop either avoids mirrors =>
      cases step with
      | @fall _ n falls =>
          rw [copies.ends] at falls
          cases falls
      | instr outcome =>
          cases mirrors with
          | cons first others =>
              exact ⟨_, copies.place_loop either avoids others outcome,
                .single (.instr (first.outcome outcome))⟩

theorem Copies.simulated (copies : Copies cfg later b copy) :
    Simulates later.Step cfg.Step (fun after before => CopyRelated b copy before after) := by
  intro after before next label related step
  cases related with
  | left => cases step
  | @other x rest notBlock notCopy avoids =>
      cases step with
      | @fall _ n falls =>
          have falls := (copies.others x notBlock notCopy).symm.trans falls
          have old : n ≠ copy := fun same => copies.unused.next x (same ▸ falls)
          exact ⟨_, copies.enter old, .single (.fall falls)⟩
      | instr outcome =>
          exact ⟨_, copies.place_other notBlock notCopy avoids outcome, .single (.instr outcome)⟩
  | loop either avoids mirrors =>
      cases step with
      | @fall _ n falls =>
          have ends : (later.block _).next = none := either.elim
            (fun same => same ▸ copies.stays) (fun same => same ▸ copies.stops)
          rw [ends] at falls
          cases falls
      | instr outcome =>
          cases mirrors with
          | cons first others =>
              obtain ⟨goes, matched, rfl⟩ := first.of_outcome outcome
              exact ⟨_, copies.place_loop either avoids others matched, .single (.instr matched)⟩

theorem Copies.sameRuns (copies : Copies cfg later b copy) {inside : ι → Prop}
    (block : inside b) (fresh : inside copy) : SameRuns inside cfg later := by
  apply SameRuns.of_simulates copies.simulates copies.simulated
  · rw [copies.entry]
    exact copies.enter copies.unused.entry
  · intro before after related outside
    cases related with
    | left => exact .stay _
    | other => exact .stay _
    | loop => exact absurd block (outside _ rfl)
  · intro before after related outside
    cases related with
    | left => exact .stay _
    | other => exact .stay _
    | loop either =>
        exact either.elim (fun same => absurd (same ▸ block) (outside _ rfl))
          (fun same => absurd (same ▸ fresh) (outside _ rfl))

end Copy

/-! ### Inverting a condition -/

theorem archInvertBranch_spec {opcode inverted : Opcode}
    (found : archInvertBranch opcode = some inverted) (operands others : ExplicitStaticOperands) :
    ∃ predicate opposite,
      Instruction.isBranch ⟨opcode, operands⟩ = true ∧
      Instruction.getPredicate ⟨opcode, operands⟩ = some predicate ∧
      Instruction.isBranch ⟨inverted, others⟩ = true ∧
      Instruction.getPredicate ⟨inverted, others⟩ = some opposite ∧
      ∀ condition : Condition,
        opposite.holds condition.read = !predicate.holds condition.read := by
  have bits (condition : Condition) (flag : Register)
      (member : flag ∈ [Register.CF, .ZF, .SF, .PF, .OF]) :
      (condition.read flag == 1#64) = !(condition.read flag == 0#64) := by
    rcases condition.bit flag member with zero | one
    · rw [zero]
      rfl
    · rw [one]
      rfl
  cases opcode <;> cases found
  all_goals
    refine ⟨_, _, rfl, rfl, rfl, rfl, ?_⟩
    intro condition
    have cf := bits condition .CF (by decide)
    have zf := bits condition .ZF (by decide)
    have sf := bits condition .SF (by decide)
    have pf := bits condition .PF (by decide)
    have of := bits condition .OF (by decide)
    simp [Predicate.holds, PredComparison.holds, PredComparand.value, Instruction.compare,
      Predicate.B, Predicate.Z, Predicate.S, Predicate.P, Predicate.O, Predicate.NB,
      Predicate.NZ, Predicate.NS, Predicate.NP, Predicate.NO, Predicate.NL, Predicate.L,
      Predicate.BE, Predicate.LE, Predicate.NBE, Predicate.NLE, Predicate.single, RI, RR,
      bne, cf, zf, sf, pf, of]

section Invert

variable {b copy dst : ι} {front : List (BlockInstruction ι)}
  {branch jump inverted : BlockInstruction ι}

/-- A conditional branch to the copy and a jump behind it become a conditional branch with
the opposite condition to where the jump leads; the copy becomes the fallthrough block. -/
structure Inverts (cfg later : FunctionCfg ι) (b copy dst : ι)
    (front : List (BlockInstruction ι)) (branch jump inverted : BlockInstruction ι) : Prop where
  entry : later.entryBlock = cfg.entryBlock
  block : (cfg.block b).instrs = front ++ [branch, jump]
  replaced : (later.block b).instrs = front ++ [inverted]
  falls : (later.block b).next = some copy
  instrs : ∀ x, x ≠ b → (later.block x).instrs = (cfg.block x).instrs
  others : ∀ x, x ≠ b → (later.block x).next = (cfg.block x).next
  other : copy ≠ b
  away : dst ≠ b
  toCopy : branch.branchEdge = some copy
  jumps : JumpsTo jump dst
  target : inverted.branchEdge = some dst
  opposite : ∃ predicate opposite,
    branch.instruction.isBranch = true ∧ branch.instruction.getPredicate = some predicate ∧
      inverted.instruction.isBranch = true ∧ inverted.instruction.getPredicate = some opposite ∧
        ∀ condition : Condition, opposite.holds condition.read = !predicate.holds condition.read

/-- Where the branch goes on to the jump, the other one is taken, and the other way
around. -/
inductive InvertRelated (cfg later : FunctionCfg ι) (b copy dst : ι)
    (branch jump inverted : BlockInstruction ι) : Option (Point ι) → Option (Point ι) → Prop where
  | left : InvertRelated cfg later b copy dst branch jump inverted none none
  | other {x : ι} {rest : List (BlockInstruction ι)} (notBlock : x ≠ b) :
      InvertRelated cfg later b copy dst branch jump inverted (some { block := x, rest })
        (some { block := x, rest })
  | before {rest : List (BlockInstruction ι)} :
      InvertRelated cfg later b copy dst branch jump inverted
        (some { block := b, rest := rest ++ [branch, jump] })
        (some { block := b, rest := rest ++ [inverted] })
  | passed : InvertRelated cfg later b copy dst branch jump inverted
      (some { block := b, rest := [jump] }) (some (later.enter dst))
  | taken : InvertRelated cfg later b copy dst branch jump inverted
      (some (cfg.enter copy)) (some { block := b, rest := [] })

variable (inverts : Inverts cfg later b copy dst front branch jump inverted)

include inverts

theorem Inverts.enter_eq {x : ι} (notBlock : x ≠ b) : later.enter x = cfg.enter x := by
  unfold FunctionCfg.enter
  rw [inverts.instrs x notBlock]

theorem Inverts.enter (x : ι) : InvertRelated cfg later b copy dst branch jump inverted
    (some (cfg.enter x)) (some (later.enter x)) := by
  by_cases here : x = b
  · unfold FunctionCfg.enter
    rw [here, inverts.block, inverts.replaced]
    exact .before
  · rw [inverts.enter_eq here]
    exact .other here

theorem Inverts.place {x : ι} {rest rest' : List (BlockInstruction ι)}
    (behind : InvertRelated cfg later b copy dst branch jump inverted
      (some { block := x, rest }) (some { block := x, rest := rest' })) (goes : Goes ι) :
    InvertRelated cfg later b copy dst branch jump inverted (cfg.place x rest goes)
      (later.place x rest' goes) := by
  cases goes with
  | on => exact behind
  | block next => exact inverts.enter next
  | leave => exact .left

theorem Inverts.other_step {x : ι} (notBlock : x ≠ b) {rest : List (BlockInstruction ι)}
    {label : Option Event} {after : Option (Point ι)}
    (step : cfg.Step (some { block := x, rest }) label after) :
    ∃ matched, InvertRelated cfg later b copy dst branch jump inverted after matched ∧
      later.Step (some { block := x, rest }) label matched := by
  cases step with
  | @fall _ n falls => exact ⟨_, inverts.enter n, .fall ((inverts.others x notBlock).trans falls)⟩
  | @instr _ _ _ _ goes outcome =>
      exact ⟨_, inverts.place (.other notBlock) goes, .instr outcome⟩

theorem Inverts.other_stepped {x : ι} (notBlock : x ≠ b) {rest : List (BlockInstruction ι)}
    {label : Option Event} {after : Option (Point ι)}
    (step : later.Step (some { block := x, rest }) label after) :
    ∃ before, InvertRelated cfg later b copy dst branch jump inverted before after ∧
      cfg.Step (some { block := x, rest }) label before := by
  cases step with
  | @fall _ n falls =>
      exact ⟨_, inverts.enter n, .fall ((inverts.others x notBlock).symm.trans falls)⟩
  | @instr _ _ _ _ goes outcome =>
      exact ⟨_, inverts.place (.other notBlock) goes, .instr outcome⟩

theorem Inverts.simulates : Simulates cfg.Step later.Step
    (InvertRelated cfg later b copy dst branch jump inverted) := by
  intro before after next label related step
  cases related with
  | left => cases step
  | other notBlock =>
      obtain ⟨matched, related, second⟩ := inverts.other_step notBlock step
      exact ⟨matched, related, .single second⟩
  | @before rest =>
      cases rest with
      | cons instr rest =>
          cases step with
          | @instr _ _ _ _ goes outcome =>
              exact ⟨_, inverts.place .before goes, .single (.instr outcome)⟩
      | nil =>
          obtain ⟨predicate, opposite, isBranch, found, isOther, foundOther, negates⟩ :=
            inverts.opposite
          cases step with
          | instr outcome =>
              cases outcome with
              | jump _ always | away _ always =>
                  rw [found] at always
                  cases always
              | ret no | exec no =>
                  rw [isBranch] at no
                  cases no
              | taken _ sometimes condition holds =>
                  cases found.symm.trans sometimes
                  rw [inverts.toCopy]
                  refine ⟨_, .taken, .single (.instr (.passed isOther foundOther condition ?_))⟩
                  rw [negates, holds]
                  rfl
              | passed _ sometimes condition holds =>
                  cases found.symm.trans sometimes
                  have goes : Outcome inverted (some (.test condition)) (.block dst) := by
                    have taken := Outcome.taken isOther foundOther condition (by
                      rw [negates, holds]
                      rfl)
                    rw [inverts.target] at taken
                    exact taken
                  exact ⟨_, .passed, .single (.instr goes)⟩
  | passed =>
      cases step with
      | @instr _ _ _ label goes outcome =>
          obtain ⟨rfl, rfl⟩ := (inverts.jumps label goes).mp outcome
          exact ⟨_, inverts.enter dst, .stay _⟩
  | taken =>
      have first : later.Step (some { block := b, rest := [] }) none (some (later.enter copy)) :=
        .fall inverts.falls
      obtain ⟨matched, related, second⟩ := inverts.other_step inverts.other step
      refine ⟨matched, related, .silent first (.single ?_)⟩
      rw [inverts.enter_eq inverts.other]
      exact second

theorem Inverts.simulated : Simulates later.Step cfg.Step
    (fun after before => InvertRelated cfg later b copy dst branch jump inverted before after) := by
  intro after before next label related step
  cases related with
  | left => cases step
  | other notBlock =>
      obtain ⟨matched, related, second⟩ := inverts.other_stepped notBlock step
      exact ⟨matched, related, .single second⟩
  | @before rest =>
      cases rest with
      | cons instr rest =>
          cases step with
          | @instr _ _ _ _ goes outcome =>
              exact ⟨_, inverts.place .before goes, .single (.instr outcome)⟩
      | nil =>
          obtain ⟨predicate, opposite, isBranch, found, isOther, foundOther, negates⟩ :=
            inverts.opposite
          cases step with
          | instr outcome =>
              cases outcome with
              | jump _ always | away _ always =>
                  rw [foundOther] at always
                  cases always
              | ret no | exec no =>
                  rw [isOther] at no
                  cases no
              | taken _ sometimes condition holds =>
                  cases foundOther.symm.trans sometimes
                  rw [inverts.target]
                  refine ⟨_, .passed, .single (.instr (.passed isBranch found condition ?_))⟩
                  rw [negates] at holds
                  simpa using holds
              | passed _ sometimes condition holds =>
                  cases foundOther.symm.trans sometimes
                  have goes : Outcome branch (some (.test condition)) (.block copy) := by
                    have taken := Outcome.taken isBranch found condition (by
                      rw [negates] at holds
                      simpa using holds)
                    rw [inverts.toCopy] at taken
                    exact taken
                  exact ⟨_, .taken, .single (.instr goes)⟩
  | passed =>
      have first : cfg.Step (some { block := b, rest := [jump] }) none (some (cfg.enter dst)) :=
        .instr ((inverts.jumps none (.block dst)).mpr ⟨rfl, rfl⟩)
      obtain ⟨matched, related, second⟩ := inverts.other_stepped inverts.away step
      refine ⟨matched, related, .silent first (.single ?_)⟩
      rw [← inverts.enter_eq inverts.away]
      exact second
  | taken =>
      cases step with
      | @fall _ n falls =>
          cases Falls.unique falls inverts.falls
          exact ⟨_, inverts.enter _, .stay _⟩

theorem Inverts.sameRuns {inside : ι → Prop} (block : inside b) (fresh : inside copy) :
    SameRuns inside cfg later := by
  apply SameRuns.of_simulates inverts.simulates inverts.simulated
  · rw [inverts.entry]
    exact inverts.enter cfg.entryBlock
  · intro before after related outside
    cases related with
    | left => exact .stay _
    | other => exact .stay _
    | before | passed => exact absurd block (outside _ rfl)
    | taken => exact absurd fresh (outside _ rfl)
  · intro before after related outside
    cases related with
    | left => exact .stay _
    | other => exact .stay _
    | before | taken => exact absurd block (outside _ rfl)
    | passed =>
        rw [inverts.enter_eq inverts.away]
        exact .single (.instr ((inverts.jumps none (.block dst)).mpr ⟨rfl, rfl⟩))

end Invert

/-! ### Blocks that are not allocated yet -/

section Unused

variable {x b new copy dst : ι}

theorem Splits.unused_later {back : List (BlockInstruction ι)}
    (splits : Splits cfg later b new back) (unused : cfg.Unused x) (other : x ≠ new) :
    later.Unused x := by
  have whole := unused.avoids b
  rw [splits.block] at whole
  refine ⟨splits.entry ▸ unused.entry, ?_, ?_⟩
  · intro y
    by_cases here : y = b
    · rw [here, splits.falls]
      exact fun same => other (Option.some.inj same).symm
    · by_cases moved : y = new
      · rw [moved, splits.next]
        exact unused.next b
      · rw [splits.others y here moved]
        exact unused.next y
  · intro y
    by_cases here : y = b
    · rw [here]
      exact fun instr member => whole instr (List.mem_append_left _ member)
    · by_cases moved : y = new
      · rw [moved, splits.moved]
        exact fun instr member => whole instr (List.mem_append_right _ member)
      · rw [splits.instrs y here moved]
        exact unused.avoids y

theorem Chains.unused_before [DecidableEq ι] (chains : Chains later cfg b dst)
    (unused : cfg.Unused x) : later.Unused x := by
  have falls : cfg.Falls b dst := (chains.falls b dst).mpr (Or.inr ⟨rfl, rfl⟩)
  refine ⟨chains.entry ▸ unused.entry, ?_, ?_⟩
  · intro y next
    exact unused.next y ((chains.falls y x).mpr (Or.inl next))
  · intro y instr member
    have avoids := unused.avoids y
    rw [chains.instrs] at avoids
    by_cases here : y = b
    · rw [if_pos here] at avoids
      obtain ⟨before, jump, split, edge, _⟩ := chains.jump
      rw [here, split] at member avoids
      rw [List.dropLast_concat] at avoids
      rcases List.mem_append.mp member with old | new
      · exact avoids instr old
      · rw [List.mem_singleton.mp new, edge]
        rintro same
        cases Option.some.inj same
        exact unused.next b falls
    · rw [if_neg here] at avoids
      exact avoids instr member

theorem Avoids.mirrors [DecidableEq ι] {instrs others : List (BlockInstruction ι)}
    (avoids : Avoids x instrs) (other : x ≠ copy)
    (mirrors : List.Forall₂ (Mirrors b copy) instrs others) : Avoids x others := by
  induction mirrors with
  | nil => exact avoids
  | cons first _ ih =>
      intro instr member
      rcases List.mem_cons.mp member with rfl | later
      · intro edge
        rw [first.2] at edge
        obtain ⟨dst, before, redirected⟩ := Option.map_eq_some_iff.mp edge
        unfold redirect at redirected
        split at redirected
        · exact other redirected.symm
        · exact avoids _ List.mem_cons_self (redirected ▸ before)
      · exact ih avoids.tail instr later

theorem Copies.unused_later [DecidableEq ι] (copies : Copies cfg later b copy)
    (unused : cfg.Unused x) (other : x ≠ copy) : later.Unused x := by
  refine ⟨copies.entry ▸ unused.entry, ?_, ?_⟩
  · intro y
    by_cases here : y = b
    · rw [here, copies.stays]
      exact nofun
    · by_cases copied : y = copy
      · rw [copied, copies.stops]
        exact nofun
      · rw [copies.others y here copied]
        exact unused.next y
  · intro y
    by_cases here : y = b
    · rw [here]
      exact (unused.avoids b).mirrors other copies.block
    · by_cases copied : y = copy
      · rw [copied]
        exact (unused.avoids b).mirrors other copies.copied
      · rw [copies.instrs y here copied]
        exact unused.avoids y

theorem Inverts.unused_later {front : List (BlockInstruction ι)}
    {branch jump inverted : BlockInstruction ι}
    (inverts : Inverts cfg later b copy dst front branch jump inverted) (unused : cfg.Unused x)
    (other : x ≠ copy) : later.Unused x := by
  have whole := unused.avoids b
  rw [inverts.block] at whole
  refine ⟨inverts.entry ▸ unused.entry, ?_, ?_⟩
  · intro y
    by_cases here : y = b
    · rw [here, inverts.falls]
      exact fun same => other (Option.some.inj same).symm
    · rw [inverts.others y here]
      exact unused.next y
  · intro y
    by_cases here : y = b
    · rw [here, inverts.replaced]
      intro instr member
      rcases List.mem_append.mp member with old | new
      · exact whole instr (List.mem_append_left _ old)
      · rw [List.mem_singleton.mp new, inverts.target]
        have edge := branchEdge_of_outcome
          ((inverts.jumps none (.block dst)).mpr ⟨rfl, rfl⟩) rfl
        rw [← edge]
        exact whole jump (by simp)
    · rw [inverts.instrs y here]
      exact unused.avoids y

end Unused

end FunctionCfg

end Drob
