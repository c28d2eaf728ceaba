import Drob.Rewriter.Changes

/-!
The rewriter: the passes in their order, the analyses that run in front of a pass, and the
loop that repeats one. Passes that add blocks run before the first analysis, so edits that
take away too few flags do no harm here.
-/

namespace Drob

inductive Pass where
  | icfgReconstruction
  | dump
  | simpleLoopUnrolling
  | blockLayoutOptimization
  | deadCodeElimination
  | instructionSpecialization
  | memoryOperandOptimization
  | deadWriteElimination
  | codeGeneration
  | dumpGeneratedCode
  deriving DecidableEq

namespace Pass

def needsStackAnalysis : Pass → Bool
  | deadCodeElimination => true
  | instructionSpecialization => true
  | memoryOperandOptimization => true
  | _ => false

def needsLivenessAnalysis : Pass → Bool
  | instructionSpecialization => true
  | deadWriteElimination => true
  | _ => false

def needs (p : Pass) : Analysis → Bool
  | .stack => p.needsStackAnalysis
  | .liveness => p.needsLivenessAnalysis

/-- What `run` returns. Code generation only finds out the sizes on its first run. -/
def reruns (p : Pass) (write : Bool) : Bool :=
  decide (p = codeGeneration) && !write

/-- The list that the rewriter is built with; `debug` is the log level. -/
def list (simple_loop_unroll_count : ℕ) (debug : Bool) : List Pass :=
  let dumps := if debug then [dump] else []
  let unrolling :=
    if simple_loop_unroll_count ≠ 0 then [simpleLoopUnrolling, blockLayoutOptimization] ++ dumps
    else []
  [icfgReconstruction] ++ dumps ++ unrolling ++
    [deadCodeElimination, blockLayoutOptimization, instructionSpecialization,
      memoryOperandOptimization, deadWriteElimination, blockLayoutOptimization] ++ dumps ++
    [codeGeneration] ++ if debug then [dumpGeneratedCode] else []

/-- The kinds of changes that a pass makes. Which ones it makes, and how often, is left
open. -/
def Makes {ι : Type} : Pass → Change ι → Prop
  | icfgReconstruction, .edit (.decodeBlock _ _) => True
  | icfgReconstruction, .edit (.splitBlock _ _ _) => True
  | icfgReconstruction, .edit (.addBranchEdge _ _ _) => True
  | simpleLoopUnrolling, .unrollSingleBlockLoop _ _ _ => True
  | blockLayoutOptimization, .tryChain _ => True
  | blockLayoutOptimization, .edit (.mergeBlockIntoNext _) => True
  | deadCodeElimination, .eliminateDeadCode _ _ => True
  | instructionSpecialization, .setInstruction _ _ _ => True
  | instructionSpecialization, .edit (.removeInstruction _ _) => True
  | memoryOperandOptimization, .setInstruction _ _ _ => True
  | deadWriteElimination, .eliminateDeadWrites _ => True
  | _, _ => False

def addsBlocks : Pass → Bool
  | icfgReconstruction => true
  | simpleLoopUnrolling => true
  | _ => false

def needsAnalysis (p : Pass) : Bool :=
  p.needsStackAnalysis || p.needsLivenessAnalysis

theorem needsAnalysis_of_addsBlocks {p : Pass} (adds : p.addsBlocks = true) :
    p.needsAnalysis = false := by
  cases p with
  | icfgReconstruction => rfl
  | simpleLoopUnrolling => rfl
  | _ => cases adds

/-- No analysis runs in front of a pass that adds blocks. -/
def BlocksFirst (p q : Pass) : Prop :=
  q.addsBlocks = true → p.needsAnalysis = false

instance : DecidableRel BlocksFirst :=
  fun p q => inferInstanceAs (Decidable (q.addsBlocks = true → p.needsAnalysis = false))

theorem blocksFirst_list (simple_loop_unroll_count : ℕ) (debug : Bool) :
    (list simple_loop_unroll_count debug).Pairwise BlocksFirst := by
  dsimp only [list]
  by_cases unrolls : simple_loop_unroll_count ≠ 0
  · rw [if_pos unrolls]
    cases debug <;> decide
  · rw [if_neg unrolls]
    cases debug <;> decide

end Pass

/-! ### What the changes leave of the flags -/

/-- Merging is the one change after the first analysis that can leave a flag too much. -/
def Change.Clean {ι : Type} (nodes : Nodes ι) : Change ι → Prop
  | .edit (.mergeBlockIntoNext b) => nodes.MergesCleanly b
  | _ => True

section Changes

variable {ι : Type} [DecidableEq ι] {nodes later : Nodes ι} {change : Change ι} {p : Pass}

omit [DecidableEq ι] in
theorem Pass.edit_clean {edit : Edit ι} (makes : p.Makes (.edit edit))
    (analysed : p.addsBlocks = false) (clean : Change.Clean nodes (.edit edit)) :
    edit.Clean nodes := by
  cases edit with
  | mergeBlockIntoNext b => exact clean
  | removeInstruction b index => exact trivial
  | _ => cases p <;> first | exact False.elim makes | exact nomatch analysed

theorem Pass.harmless (makes : p.Makes change) (analysed : p.addsBlocks = false)
    (clean : change.Clean nodes) (allocates : change.Allocates nodes.toFunctionNode)
    (applied : change.apply nodes = .ok later) : nodes.Harmless later := by
  cases change with
  | edit single => exact Edit.harmless allocates (p.edit_clean makes analysed clean) applied
  | unrollSingleBlockLoop b count fresh =>
      cases p <;> first | exact False.elim makes | exact nomatch analysed
  | tryChain b => exact Nodes.harmless_tryChain applied
  | eliminateDeadCode blocks willExecute => exact Nodes.harmless_eliminateDeadCode applied
  | setInstruction b index instruction =>
      cases applied
      exact Nodes.harmless_setInstruction nodes b index instruction
  | eliminateDeadWrites blocks => exact Nodes.harmless_eliminateDeadWrites applied

end Changes

/-! ### Runs of the rewriter -/

variable {φ ι : Type} [DecidableEq φ] [DecidableEq ι]

namespace Icfg

/-- One change of one function, of those that `permits` lets through. -/
def Changes (permits : Nodes ι → Change ι → Prop) (p : Pass) (icfg later : Icfg φ ι) : Prop :=
  ∃ f change nodes, p.Makes change ∧ permits (icfg.nodes f) change ∧
    change.Allocates (icfg.function f) ∧ change.apply (icfg.nodes f) = .ok nodes ∧
      later = icfg.withNodes f nodes

/-- `Rewriter::runStackAnalysis`; `acts` is what an analysis makes of an ICFG. -/
inductive RunsStackAnalysis (acts : Icfg φ ι → Action φ ι → Icfg φ ι → Prop)
    (icfg : Icfg φ ι) : Icfg φ ι → Prop where
  | stillValid (valid : icfg.valid .stack = true) : RunsStackAnalysis acts icfg icfg
  | run {middle later : Icfg φ ι} (invalid : icfg.valid .stack = false)
      (liveness : acts icfg .livenessAnalysis middle) (stack : acts middle .stackAnalysis later) :
      RunsStackAnalysis acts icfg later

/-- What `Rewriter::runPass` does before each run of a pass. -/
def Prepares (acts : Icfg φ ι → Action φ ι → Icfg φ ι → Prop) (p : Pass)
    (icfg later : Icfg φ ι) : Prop :=
  ∃ middle, (if p.needsStackAnalysis then RunsStackAnalysis acts icfg middle else middle = icfg) ∧
    if p.needsLivenessAnalysis then acts middle .livenessAnalysis later else later = middle

end Icfg

structure Rewriter (φ ι : Type) where
  icfg : Icfg φ ι
  /-- The passes that are left, the current one first. -/
  passes : List Pass
  /-- The analyses that the current pass needs ran. -/
  ready : Bool
  /-- Code generation found out the sizes already. -/
  write : Bool

namespace Rewriter

def start (icfg : Icfg φ ι) (passes : List Pass) : Rewriter φ ι :=
  { icfg, passes, ready := false, write := false }

/-- `Rewriter::runPasses`, one round of the loop of `runPass` in two steps. -/
inductive Steps (acts : Icfg φ ι → Action φ ι → Icfg φ ι → Prop)
    (permits : Nodes ι → Change ι → Prop) : Rewriter φ ι → Rewriter φ ι → Prop where
  | analyse {icfg later : Icfg φ ι} {p : Pass} {rest : List Pass} {write : Bool}
      (prepares : icfg.Prepares acts p later) :
      Steps acts permits
        { icfg, passes := p :: rest, ready := false, write }
        { icfg := later, passes := p :: rest, ready := true, write }
  | run {icfg later : Icfg φ ι} {p : Pass} {rest : List Pass} {write : Bool}
      (runs : Relation.ReflTransGen (Icfg.Changes permits p) icfg later) :
      Steps acts permits
        { icfg, passes := p :: rest, ready := true, write }
        { icfg := later
          passes := if p.reruns write then p :: rest else rest
          ready := false
          write := write || decide (p = .codeGeneration) }

/-- No run of the rewriter goes on forever: code generation is the one pass that is
repeated, once. -/
theorem wellFounded_steps (acts : Icfg φ ι → Action φ ι → Icfg φ ι → Prop)
    (permits : Nodes ι → Change ι → Prop) :
    WellFounded (fun later rewriter => Steps acts permits rewriter later) := by
  apply Subrelation.wf ?_ (measure fun rewriter : Rewriter φ ι =>
    2 * rewriter.passes.length + (if rewriter.write then 0 else 2) +
      if rewriter.ready then 0 else 1).wf
  intro later rewriter steps
  cases steps with
  | @analyse _ _ p rest write _ =>
      change 2 * (p :: rest).length + _ + 0 < 2 * (p :: rest).length + _ + 1
      exact Nat.lt_succ_self _
  | @run _ _ p rest write _ =>
      change 2 * (if p.reruns write then p :: rest else rest).length +
        (if (write || decide (p = .codeGeneration)) = true then 0 else 2) + 1 <
          2 * (p :: rest).length + (if write = true then 0 else 2) + 0
      unfold Pass.reruns
      by_cases generates : p = .codeGeneration <;> cases write <;> simp [generates] <;> omega

end Rewriter

/-! ### What is flagged when a pass starts -/

namespace Icfg

/-- The analysis is flagged valid, unless there is nothing to analyse. -/
def Flagged (icfg : Icfg φ ι) (a : Analysis) : Prop :=
  ∀ f, icfg.entryFunction = some f → (icfg.function f).entryBlock ≠ none → icfg.valid a = true

/-- Nothing was analysed yet. -/
structure Fresh (icfg : Icfg φ ι) : Prop where
  graph : ∀ a, icfg.valid a = false
  function : ∀ f a, (icfg.function f).valid a = false

variable {icfg later : Icfg φ ι} {p : Pass} {permits : Nodes ι → Change ι → Prop}

omit [DecidableEq φ] [DecidableEq ι] in
theorem Fresh.sound (fresh : icfg.Fresh) (linked : ∀ f, Linked (icfg.function f).block) :
    icfg.Sound := by
  refine ⟨linked, ?_, ?_, ?_⟩
  · intro f a valid
    exact absurd ((fresh.function f a).symm.trans valid) Bool.false_ne_true
  · intro f valid
    exact absurd ((fresh.function f .stack).symm.trans valid) Bool.false_ne_true
  · intro f a _ valid
    exact absurd ((fresh.graph a).symm.trans valid) Bool.false_ne_true

omit [DecidableEq ι] in
theorem Fresh.withNodes (fresh : icfg.Fresh) {f : φ} {nodes : Nodes ι}
    (tame : (icfg.nodes f).Tame nodes) : (icfg.withNodes f nodes).Fresh := by
  constructor
  · intro a
    apply Bool.eq_false_iff.mpr
    intro valid
    exact Bool.false_ne_true ((fresh.graph a).symm.trans (tame.flags.icfg a valid).1)
  · intro g a
    apply Bool.eq_false_iff.mpr
    rw [function_withNodes]
    split
    · intro valid
      exact Bool.false_ne_true ((fresh.function f a).symm.trans (tame.flags.function a valid))
    · rw [fresh.function g a]
      exact Bool.false_ne_true

/-- A pass that adds blocks runs while nothing is flagged, so it cannot leave a flag that
lies. -/
theorem Fresh.changes (fresh : icfg.Fresh) (sound : icfg.Sound)
    (changes : Changes permits p icfg later) : later.Fresh ∧ later.Sound := by
  obtain ⟨f, change, nodes, _, _, allocates, applied, rfl⟩ := changes
  have tame := Change.tame (sound.linked f) allocates applied
  have freshLater := fresh.withNodes tame
  refine ⟨freshLater, freshLater.sound ?_⟩
  intro g
  rw [function_withNodes]
  split
  · exact tame.linked (sound.linked f)
  · exact sound.linked g

theorem Sound.changes (sound : icfg.Sound) (analysed : p.addsBlocks = false)
    (changes : Changes Change.Clean p icfg later) : later.Sound := by
  obtain ⟨f, change, nodes, makes, clean, allocates, applied, rfl⟩ := changes
  have harmless := Pass.harmless makes analysed clean allocates applied
  have trusted : (icfg.nodes f).Trusted :=
    ⟨sound.linked f, sound.honest f, sound.entered f⟩
  have trustedLater := harmless.trusted trusted
  apply sound.withNodes trustedLater.linked trustedLater.honest trustedLater.entered
  · intro a entry valid
    obtain ⟨before, kept⟩ := harmless.flags.icfg a valid
    exact kept (sound.parent f a entry before)
  · exact fun a _ valid => (harmless.flags.icfg a valid).1

theorem Fresh.run (fresh : icfg.Fresh) (sound : icfg.Sound)
    (runs : Relation.ReflTransGen (Changes permits p) icfg later) :
    later.Fresh ∧ later.Sound := by
  induction runs with
  | refl => exact ⟨fresh, sound⟩
  | tail _ changes ih => exact ih.1.changes ih.2 changes

theorem Sound.run (sound : icfg.Sound) (analysed : p.addsBlocks = false)
    (runs : Relation.ReflTransGen (Changes Change.Clean p) icfg later) : later.Sound := by
  induction runs with
  | refl => exact sound
  | tail _ changes ih => exact ih.changes analysed changes

/-! ### Analyses -/

variable {context : Context} {host : Host} {initial : ProgramState}

def RunsCleanly (context : Context) (host : Host) (initial : ProgramState) (icfg : Icfg φ ι)
    (action : Action φ ι) (later : Icfg φ ι) : Prop :=
  icfg.Clean action ∧ Runs context host initial icfg action later

theorem flagged_of_stackAnalysis (runs : Runs context host initial icfg .stackAnalysis later) :
    later.Flagged .stack := by
  cases runs with
  | stackAnalysis f nodes entry run =>
      intro g isEntry nonempty
      have same : g = f := Option.some.inj (isEntry.symm.trans entry)
      rw [same, function_withNodes, if_pos rfl] at nonempty
      cases run with
      | skip unneeded => exact unneeded.resolve_right nonempty
      | valid _ _ _ _ => rfl
      | run _ _ _ _ _ _ _ => rfl
  | nothing _ _ noEntry =>
      intro g isEntry
      rw [noEntry] at isEntry
      cases isEntry

theorem flagged_of_livenessAnalysis
    (runs : Runs context host initial icfg .livenessAnalysis later) :
    later.Flagged .liveness := by
  cases runs with
  | livenessAnalysis f nodes entry run =>
      intro g _ _
      cases run with
      | skip unneeded => exact unneeded
      | unspecified _ _ => rfl
      | run _ _ _ _ _ _ _ _ _ _ _ => rfl
  | nothing _ _ noEntry =>
      intro g isEntry
      rw [noEntry] at isEntry
      cases isEntry

theorem Flagged.livenessAnalysis (flagged : icfg.Flagged .stack)
    (runs : Runs context host initial icfg .livenessAnalysis later) :
    later.Flagged .stack := by
  cases runs with
  | livenessAnalysis f nodes entry run =>
      intro g isEntry nonempty
      have same : g = f := Option.some.inj (isEntry.symm.trans entry)
      rw [same, function_withNodes, if_pos rfl] at nonempty
      cases run with
      | skip _ => exact flagged f entry nonempty
      | unspecified _ _ => exact flagged f entry nonempty
      | run _ _ _ _ _ _ _ _ _ _ _ => exact flagged f entry nonempty
  | nothing _ _ _ => exact flagged

theorem RunsStackAnalysis.sound (sound : icfg.Sound)
    (runs : RunsStackAnalysis (RunsCleanly context host initial) icfg later) : later.Sound := by
  cases runs with
  | stillValid _ => exact sound
  | run _ liveness stack => exact (sound.step liveness.1 liveness.2).step stack.1 stack.2

theorem RunsStackAnalysis.flagged
    (runs : RunsStackAnalysis (RunsCleanly context host initial) icfg later) :
    later.Flagged .stack := by
  cases runs with
  | stillValid valid => exact fun _ _ _ => valid
  | run _ _ stack => exact flagged_of_stackAnalysis stack.2

omit [DecidableEq φ] [DecidableEq ι] in
theorem eq_of_prepares {acts : Icfg φ ι → Action φ ι → Icfg φ ι → Prop}
    (unneeded : p.needsAnalysis = false) (prepares : icfg.Prepares acts p later) :
    later = icfg := by
  obtain ⟨middle, stack, liveness⟩ := prepares
  obtain ⟨noStack, noLiveness⟩ := Bool.or_eq_false_iff.mp unneeded
  rw [noStack] at stack
  rw [noLiveness] at liveness
  exact liveness.trans stack

theorem Sound.prepares (sound : icfg.Sound)
    (prepares : icfg.Prepares (RunsCleanly context host initial) p later) : later.Sound := by
  obtain ⟨middle, stack, liveness⟩ := prepares
  have soundMiddle : middle.Sound := by
    split at stack
    · exact stack.sound sound
    · exact stack ▸ sound
  split at liveness
  · exact soundMiddle.step liveness.1 liveness.2
  · exact liveness ▸ soundMiddle

/-- The liveness analysis comes last and takes no flag of the stack analysis away. -/
theorem flagged_of_prepares {a : Analysis}
    (prepares : icfg.Prepares (RunsCleanly context host initial) p later)
    (needs : p.needs a = true) : later.Flagged a := by
  obtain ⟨middle, stack, liveness⟩ := prepares
  cases a with
  | stack =>
      change p.needsStackAnalysis = true at needs
      rw [if_pos needs] at stack
      split at liveness
      · exact stack.flagged.livenessAnalysis liveness.2
      · exact liveness ▸ stack.flagged
  | liveness =>
      change p.needsLivenessAnalysis = true at needs
      rw [if_pos needs] at liveness
      exact flagged_of_livenessAnalysis liveness.2

end Icfg

/-! ### Whole runs -/

namespace Rewriter

/-- What every clean run keeps. -/
structure Sound (rewriter : Rewriter φ ι) : Prop where
  icfg : rewriter.icfg.Sound
  ordered : rewriter.passes.Pairwise Pass.BlocksFirst
  fresh : ∀ p ∈ rewriter.passes, p.addsBlocks = true → rewriter.icfg.Fresh
  flagged : rewriter.ready = true → ∀ p, rewriter.passes.head? = some p →
    ∀ a, p.needs a = true → rewriter.icfg.Flagged a

variable {context : Context} {host : Host} {initial : ProgramState}
  {rewriter later : Rewriter φ ι}

theorem Sound.step (sound : rewriter.Sound)
    (steps : Steps (Icfg.RunsCleanly context host initial) Change.Clean rewriter later) :
    later.Sound := by
  cases steps with
  | @analyse icfg later p rest write prepares =>
      refine ⟨sound.icfg.prepares prepares, sound.ordered, ?_, ?_⟩
      · intro q member adds
        have unneeded : p.needsAnalysis = false := by
          rcases List.mem_cons.mp member with rfl | inRest
          · exact Pass.needsAnalysis_of_addsBlocks adds
          · exact (List.pairwise_cons.mp sound.ordered).1 q inRest adds
        rw [Icfg.eq_of_prepares unneeded prepares]
        exact sound.fresh q member adds
      · intro _ q current a needs
        cases current
        exact Icfg.flagged_of_prepares prepares needs
  | @run icfg later p rest write runs =>
      have remains : (if p.reruns write then p :: rest else rest).Sublist (p :: rest) := by
        split
        · exact List.Sublist.refl _
        · exact List.sublist_cons_self p rest
      have ordered := sound.ordered.sublist remains
      by_cases adding : ∃ q ∈ p :: rest, q.addsBlocks = true
      · -- the first analysis is still to come
        obtain ⟨q, member, adds⟩ := adding
        obtain ⟨fresh, soundLater⟩ := (sound.fresh q member adds).run sound.icfg runs
        exact ⟨soundLater, ordered, fun _ _ _ => fresh, nofun⟩
      · have analysed : p.addsBlocks = false := by
          apply Bool.eq_false_iff.mpr
          exact fun adds => adding ⟨p, List.mem_cons_self, adds⟩
        refine ⟨sound.icfg.run analysed runs, ordered, ?_, nofun⟩
        exact fun q member adds => absurd ⟨q, remains.mem member, adds⟩ adding

/-- What the rewriter can get to if the analyses run cleanly and blocks are merged cleanly. -/
def CleanlyReachable (context : Context) (host : Host) (initial : ProgramState)
    (start rewriter : Rewriter φ ι) : Prop :=
  Relation.ReflTransGen (Steps (Icfg.RunsCleanly context host initial) Change.Clean) start
    rewriter

theorem sound_of_cleanlyReachable {icfg : Icfg φ ι} (unanalysed : icfg.Unanalysed)
    {simple_loop_unroll_count : ℕ} {debug : Bool}
    (reachable : CleanlyReachable context host initial
      (start icfg (Pass.list simple_loop_unroll_count debug)) rewriter) : rewriter.Sound := by
  induction reachable with
  | refl =>
      have fresh : icfg.Fresh :=
        ⟨fun a => (unanalysed a).1, fun f a => ((unanalysed a).2 f).1⟩
      exact ⟨unanalysed.sound, Pass.blocksFirst_list _ _, fun _ _ _ => fresh, nofun⟩
  | tail _ steps ih => exact ih.step steps

/-- When a pass starts, the entry function is flagged valid for each analysis that the pass
needs, and so are all blocks of it that can be reached. -/
theorem analysed_of_ready {icfg : Icfg φ ι} (unanalysed : icfg.Unanalysed)
    (simple_loop_unroll_count : ℕ) (debug : Bool)
    (reachable : CleanlyReachable context host initial
      (start icfg (Pass.list simple_loop_unroll_count debug)) rewriter)
    (ready : rewriter.ready = true) {p : Pass} (current : rewriter.passes.head? = some p)
    {a : Analysis} (needs : p.needs a = true) {f : φ}
    (entry : rewriter.icfg.entryFunction = some f) {b : ι}
    (reaches : (rewriter.icfg.function f).Reachable b) :
    rewriter.icfg.valid a = true ∧ (rewriter.icfg.function f).valid a = true ∧
      (rewriter.icfg.function f).blockValid b a = true := by
  have sound := sound_of_cleanlyReachable unanalysed reachable
  have nonempty : (rewriter.icfg.function f).entryBlock ≠ none := by
    obtain ⟨start, isEntry, _⟩ := reaches
    rw [isEntry]
    exact Option.some_ne_none start
  have valid := sound.flagged ready p current a needs f entry nonempty
  have function := sound.icfg.parent f a entry valid
  exact ⟨valid, function, sound.icfg.honest f a function b reaches⟩

end Rewriter

/-! ### A function that returns -/

namespace StackAnalysis

/-- The loop of the stack analysis ends within so many steps. -/
def endsWithin (cfg : FunctionCfg ι) (context : Context) (host : Host) :
    ℕ → AnalysisState ι → Bool
  | 0, _ => false
  | count + 1, state =>
      match step cfg context host state with
      | .ok (some later) => endsWithin cfg context host count later
      | .ok none => true
      | .error _ => false

omit [DecidableEq φ] in
theorem exists_final {cfg : FunctionCfg ι} {context : Context} {host : Host} {count : ℕ}
    {state : AnalysisState ι} (ends : endsWithin cfg context host count state = true) :
    ∃ final, Relation.ReflTransGen (Steps cfg context host) state final ∧
      step cfg context host final = .ok none := by
  induction count generalizing state with
  | zero => cases ends
  | succ count ih =>
      unfold endsWithin at ends
      split at ends
      · rename_i later steps
        obtain ⟨final, ran, finished⟩ := ih ends
        exact ⟨final, .head steps ran, finished⟩
      · rename_i finished
        exact ⟨state, .refl, finished⟩
      · cases ends

end StackAnalysis

namespace Icfg

/-- The liveness analysis ran already; no walk marked a block yet. -/
theorem runsCleanly_stackAnalysis : ∃ later,
    RunsCleanly StackAnalysis.plainContext AluEmulation.clearHost .initial analysedReturn
      .stackAnalysis later ∧ later.entryFunction = some () := by
  obtain ⟨walk, walked⟩ : ∃ walk, (analysedReturn.function ()).bfs 0 5 = some walk := ⟨_, rfl⟩
  have handled : (analysedReturn.function ()).handled 0 walk = [0] := by
    cases walked
    decide
  have ends : StackAnalysis.endsWithin ((analysedReturn.function ()).cfg 0)
      StackAnalysis.plainContext AluEmulation.clearHost 5
      (StackAnalysis.resume (analysedReturn.function ()) 0 .initial [0]) = true := by
    decide +kernel
  obtain ⟨final, ran, finished⟩ := StackAnalysis.exists_final ends
  refine ⟨_, ⟨?_, .stackAnalysis () _ rfl (.run 0 walk final rfl rfl rfl ⟨⟨5, walked⟩, ?_,
    finished⟩)⟩, rfl⟩
  · exact fun _ _ _ _ _ _ => Or.inr rfl
  · rw [← handled] at ran
    exact ran

end Icfg

namespace Rewriter

/-- The rewriter gets to the dead code elimination. -/
theorem analysed_of_ready_decodedReturn :
    ∃ rewriter : Rewriter Unit (Fin 2), rewriter.passes.head? = some .deadCodeElimination ∧
      ∀ b, (rewriter.icfg.function ()).Reachable b →
        rewriter.icfg.valid .stack = true ∧ (rewriter.icfg.function ()).valid .stack = true ∧
          (rewriter.icfg.function ()).blockValid b .stack = true := by
  obtain ⟨later, stack, entry⟩ := Icfg.runsCleanly_stackAnalysis
  have liveness : Icfg.RunsCleanly StackAnalysis.plainContext AluEmulation.clearHost .initial
      Icfg.decodedReturn .livenessAnalysis Icfg.analysedReturn :=
    ⟨Icfg.analysesCleanly_decodedReturn, Icfg.runs_livenessAnalysis _ _ _⟩
  have reconstructs : Icfg.decodedReturn.Prepares (Icfg.RunsCleanly StackAnalysis.plainContext
      AluEmulation.clearHost .initial) .icfgReconstruction Icfg.decodedReturn :=
    ⟨Icfg.decodedReturn, rfl, rfl⟩
  have prepares : Icfg.decodedReturn.Prepares (Icfg.RunsCleanly StackAnalysis.plainContext
      AluEmulation.clearHost .initial) .deadCodeElimination later :=
    ⟨later, .run rfl liveness stack, rfl⟩
  refine ⟨_, ?_, fun b reaches => analysed_of_ready Icfg.unanalysed_decodedReturn 0 false
    (.tail (.tail (.single (.analyse reconstructs)) (.run .refl)) (.analyse prepares)) rfl rfl rfl
    entry reaches⟩
  rfl

end Rewriter

end Drob
