import Drob.StackAnalysis.Termination
import Drob.Validity.Blocks

/-!
Runs of edits and analyses. The validity flags never lie upwards: if a function or the
ICFG is flagged valid, then so is every block that is reachable from the entry block. A
split that moves no branch, an edge to a block that was just decoded, and a liveness
analysis of blocks that never return break this.
-/

namespace Drob

variable {φ ι : Type} [DecidableEq ι]

/-! ### Edits -/

/-- No function is flagged valid for the stack analysis before it has an entry block. -/
def FunctionNode.Entered (function : FunctionNode ι) : Prop :=
  function.valid .stack = true → function.entryBlock ≠ none

namespace Edit

def Clean (nodes : Nodes ι) : Edit ι → Prop
  | splitBlock b kept _ => nodes.SplitsCleanly b kept
  | splitBlockAfter b index _ => nodes.SplitsCleanly b (index + 1)
  | copyBlock _ _ => nodes.CopiesCleanly
  | mergeBlockIntoNext b => nodes.MergesCleanly b
  | addBranchEdge src _ dst => nodes.AddsCleanly src dst
  | _ => True

variable {nodes later : Nodes ι} {edit : Edit ι} {a : Analysis}

theorem linked (allocates : edit.Allocates nodes.toFunctionNode) (linked : Linked nodes.block)
    (applied : edit.apply nodes = .ok later) : Linked later.block := by
  cases edit with
  | decodeBlock fresh instrs =>
      cases applied
      have before : Linked (nodes.addBlock fresh).block := linked
      exact (Nodes.keeps_decodeBlock allocates instrs).linked before
  | splitBlock b kept fresh =>
      apply (Nodes.keeps_splitBlock applied).linked
      exact Nodes.linked_splitChain allocates.1 linked allocates.2 kept
  | splitBlockAfter b index fresh =>
      apply (Nodes.keeps_splitBlock applied).linked
      exact Nodes.linked_splitChain allocates.1 linked allocates.2 (index + 1)
  | copyBlock b fresh =>
      cases applied
      have before : Linked (nodes.addBlock fresh).block := linked
      exact (Nodes.keeps_copyBlock (.of_unallocated allocates.1) b).linked before
  | mergeBlockIntoNext b =>
      obtain ⟨n, next, _, removes⟩ := Nodes.mergeBlockIntoNext_cases applied
      have removed := Nodes.removed_removeBlock removes
      exact (Nodes.unlinked_mergeBlockIntoNext next removed).linked linked
  | removeBlock b => exact (Nodes.removed_removeBlock applied).unlinked.linked linked
  | removeInstruction b index =>
      have keeps : Nodes.Keeps (fun _ => False) _ _ := Nodes.keeps_removeInstruction applied
      exact keeps.linked linked
  | addBranchEdge src index dst =>
      cases applied
      exact (Nodes.keeps_addBranchEdge nodes src index dst).linked linked
  | removeBranchEdge src index =>
      have keeps : Nodes.Keeps (fun _ => False) _ _ := Nodes.keeps_removeBranchEdge applied
      exact keeps.linked linked
  | unchainNext b =>
      cases applied
      exact Nodes.linked_unchainNext linked b

theorem honest (allocates : edit.Allocates nodes.toFunctionNode) (linked : Linked nodes.block)
    (honest : nodes.Honest a) (entered : nodes.Entered) (clean : edit.Clean nodes)
    (applied : edit.apply nodes = .ok later) : later.Honest a := by
  cases edit with
  | decodeBlock fresh instrs =>
      cases applied
      have keeps := Nodes.keeps_decodeBlock allocates instrs
      refine Nodes.honest_created keeps (fun valid => ?_) linked allocates honest
      cases a with
      | stack => exact entered (keeps.flags.function .stack valid)
      | liveness =>
          have invalid := Nodes.invalid_decodeBlock nodes fresh instrs
          exact absurd (invalid.symm.trans valid) Bool.false_ne_true
  | splitBlock b kept fresh =>
      exact Nodes.honest_splitBlock linked allocates.1 allocates.2 honest entered clean applied
  | splitBlockAfter b index fresh =>
      exact Nodes.honest_splitBlock linked allocates.1 allocates.2 honest entered clean applied
  | copyBlock b fresh =>
      cases applied
      have keeps := Nodes.keeps_copyBlock (.of_unallocated allocates.1) b
      refine Nodes.honest_created keeps (fun valid => ?_) linked allocates.1 honest
      have before := keeps.flags.function a valid
      cases a with
      | stack => exact entered before
      | liveness => exact clean before
  | mergeBlockIntoNext b => exact Nodes.honest_mergeBlockIntoNext linked honest clean applied
  | removeBlock b => exact (Nodes.removed_removeBlock applied).honest linked honest
  | removeInstruction b index =>
      exact (Nodes.keeps_removeInstruction applied).honest honest (fun _ _ _ => id)
  | addBranchEdge src index dst =>
      cases applied
      exact Nodes.honest_addBranchEdge index honest clean
  | removeBranchEdge src index =>
      exact (Nodes.keeps_removeBranchEdge applied).honest honest (fun _ _ _ => id)
  | unchainNext b =>
      cases applied
      exact Nodes.honest_unchainNext honest b

theorem flags (allocates : edit.Allocates nodes.toFunctionNode)
    (applied : edit.apply nodes = .ok later) : ∃ exempt, Nodes.FlagsKept exempt nodes later := by
  cases edit with
  | decodeBlock fresh instrs =>
      cases applied
      have flags := (Nodes.keeps_decodeBlock allocates instrs).flags
      exact ⟨_, flags.function, flags.icfg, flags.block⟩
  | splitBlock b kept fresh =>
      have keeps := Nodes.keeps_splitBlock applied
      exact ⟨_, (Nodes.flags_splitChain nodes b kept fresh).trans keeps.flags⟩
  | splitBlockAfter b index fresh =>
      have keeps := Nodes.keeps_splitBlock applied
      exact ⟨_, (Nodes.flags_splitChain nodes b (index + 1) fresh).trans keeps.flags⟩
  | copyBlock b fresh =>
      cases applied
      have flags := (Nodes.keeps_copyBlock (.of_unallocated allocates.1) b).flags
      exact ⟨_, flags.function, flags.icfg, flags.block⟩
  | mergeBlockIntoNext b =>
      obtain ⟨n, _, _, removes⟩ := Nodes.mergeBlockIntoNext_cases applied
      have removed := Nodes.removed_removeBlock removes
      exact ⟨fun _ => True, removed.flags.function, removed.flags.icfg,
        fun _ _ _ exempt => absurd trivial exempt⟩
  | removeBlock b => exact ⟨_, (Nodes.removed_removeBlock applied).flags⟩
  | removeInstruction b index =>
      exact ⟨fun _ => False, (Nodes.keeps_removeInstruction applied).flags⟩
  | addBranchEdge src index dst =>
      cases applied
      exact ⟨_, (Nodes.keeps_addBranchEdge nodes src index dst).flags⟩
  | removeBranchEdge src index =>
      exact ⟨fun _ => False, (Nodes.keeps_removeBranchEdge applied).flags⟩
  | unchainNext b =>
      cases applied
      cases next : (nodes.block b).next with
      | none =>
          refine ⟨fun _ => False, ?_⟩
          unfold Nodes.unchainNext
          rw [next]
          exact .refl nodes
      | some n => exact ⟨_, (Nodes.unchainNext_spec next).1⟩

/-- The entry block of a function that is flagged valid is flagged too, so it is not
removed without telling the function. -/
theorem entered (allocates : edit.Allocates nodes.toFunctionNode) (honest : nodes.Honest .stack)
    (entered : nodes.Entered) (applied : edit.apply nodes = .ok later) : later.Entered := by
  intro valid
  have created {fresh : ι} (keeps : later.entryBlock = (nodes.addBlock fresh).entryBlock) :
      later.entryBlock ≠ none := by
    rw [keeps]
    unfold Nodes.addBlock
    cases nodes.entryBlock <;> exact nofun
  obtain ⟨_, flags⟩ := flags allocates applied
  have before := entered (flags.function .stack valid)
  cases edit with
  | decodeBlock fresh instrs =>
      cases applied
      exact created (Nodes.keeps_decodeBlock allocates instrs).entry
  | splitBlock b kept fresh => exact created (Nodes.keeps_splitBlock applied).entry
  | splitBlockAfter b index fresh => exact created (Nodes.keeps_splitBlock applied).entry
  | copyBlock b fresh =>
      cases applied
      exact created (Nodes.keeps_copyBlock (.of_unallocated allocates.1) b).entry
  | mergeBlockIntoNext b =>
      obtain ⟨n, _, other, removes⟩ := Nodes.mergeBlockIntoNext_cases applied
      obtain ⟨entry, isEntry⟩ := Option.ne_none_iff_exists'.mp before
      have moved : (nodes.moveIntoNext b n).entryBlock =
          some (FunctionCfg.redirect b n entry) := by
        unfold Nodes.moveIntoNext
        exact congrArg (Option.map (FunctionCfg.redirect b n)) isEntry
      have notMerged : some (FunctionCfg.redirect b n entry) ≠ some b := by
        unfold FunctionCfg.redirect
        intro same
        have isMerged := Option.some.inj same
        split at isMerged
        · exact other isMerged
        · rename_i differ
          exact differ isMerged
      rw [(Nodes.removed_removeBlock removes).entry, moved, if_neg notMerged]
      exact nofun
  | removeBlock b =>
      have removed := Nodes.removed_removeBlock applied
      have notEntry : nodes.entryBlock ≠ some b := by
        intro isEntry
        have flagged := honest (flags.function .stack valid) b
          (FunctionNode.reachable_entry isEntry)
        exact Bool.false_ne_true ((removed.cleared .stack valid).symm.trans flagged)
      rw [removed.entry, if_neg notEntry]
      exact before
  | removeInstruction b index =>
      have keeps : Nodes.Keeps (fun _ => False) _ _ := Nodes.keeps_removeInstruction applied
      rw [keeps.entry]
      exact before
  | addBranchEdge src index dst =>
      cases applied
      rw [(Nodes.keeps_addBranchEdge nodes src index dst).entry]
      exact before
  | removeBranchEdge src index =>
      have keeps : Nodes.Keeps (fun _ => False) _ _ := Nodes.keeps_removeBranchEdge applied
      rw [keeps.entry]
      exact before
  | unchainNext b =>
      cases applied
      cases next : (nodes.block b).next with
      | none =>
          unfold Nodes.unchainNext
          rw [next]
          exact before
      | some n =>
          rw [(Nodes.unchainNext_spec next).2.1]
          exact before

end Edit

/-! ### Analyses -/

namespace Nodes

variable {nodes later : Nodes ι} {a : Analysis}

omit [DecidableEq ι] in
theorem honest_of_same {before after : FunctionNode ι} (honest : before.Honest a)
    (valid : after.valid a = true → before.valid a = true)
    (entry : after.entryBlock = before.entryBlock)
    (leads : ∀ x y, FunctionNode.Leads after.block x y → FunctionNode.Leads before.block x y)
    (flags : ∀ b, after.blockValid b a = before.blockValid b a) : after.Honest a := by
  intro isValid b reachable
  rw [flags]
  apply honest (valid isValid)
  apply FunctionNode.Reachable.induct ?_ ?_ reachable
  · exact fun b isEntry => FunctionNode.reachable_entry (entry.symm.trans isEntry)
  · exact fun x y old step => old.step (leads x y step)

def AnalysesStackCleanly (nodes : Nodes ι) : Prop :=
  nodes.icfgValid .stack = false → nodes.valid .stack = false →
    ∀ entry, nodes.entryBlock = some entry → entry ∈ nodes.visited ∨ nodes.visited = []

/-- A liveness analysis that runs has a specification to start from, and gets to all
blocks from the ones that return. -/
def AnalysesLivenessCleanly (nodes : Nodes ι) : Prop :=
  nodes.icfgValid .liveness = false → nodes.valid .liveness = false →
    nodes.hasInfo = true ∧ WellFounded (fun n b => (nodes.block b).next = some n) ∧
      ∀ b, nodes.Reachable b → FoundFromReturn nodes.block b

theorem staleMarks_of_clean {function : FunctionNode ι} {entry : ι}
    (clean : entry ∈ function.visited ∨ function.visited = []) :
    function.staleMarks entry = [] := by
  unfold FunctionNode.staleMarks
  split
  · rfl
  · rename_i unmarked
    exact clean.resolve_left unmarked

theorem StackRun.honest {context : Context} {host : Host} {initial : ProgramState}
    (run : StackRun context host initial nodes later) (clean : nodes.AnalysesStackCleanly)
    (honest : nodes.Honest a) : later.Honest a := by
  cases run with
  | skip _ => exact honest
  | valid entry needed start done =>
      refine honest_of_same honest ?_ rfl (fun _ _ => id) (fun _ => rfl)
      intro valid
      cases a with
      | stack => exact done
      | liveness => exact valid
  | run entry walk final needed start invalid completes =>
      cases a with
      | liveness => exact honest_of_same honest id rfl (fun _ _ => id) (fun _ => rfl)
      | stack =>
          intro _ b reachable
          obtain ⟨fuel, walked⟩ := completes.walked
          have unmarked := staleMarks_of_clean (clean needed invalid entry start)
          exact completes.valid
            (FunctionNode.handled_of_reachable start unmarked walked reachable)

omit [DecidableEq ι] in
theorem leads_of_relabelled {before after : ι → SuperBlock ι}
    (relabelled : ∀ b, Relabelled (before b) (after b)) {x y : ι}
    (leads : FunctionNode.Leads after x y) : FunctionNode.Leads before x y := by
  obtain ⟨attach, same⟩ := relabelled x
  unfold FunctionNode.Leads at leads
  rw [same] at leads
  exact leads

theorem LivenessRun.honest (run : LivenessRun nodes later)
    (clean : nodes.AnalysesLivenessCleanly) (linked : Linked nodes.block)
    (honest : nodes.Honest a) : later.Honest a := by
  cases run with
  | skip _ => exact honest
  | unspecified _ _ => exact honest_of_same honest id rfl (fun _ _ => id) (fun _ => rfl)
  | run returning final block needed invalid specified returns some ran finished relabelled =>
      have leads (x y : ι) : FunctionNode.Leads block x y → FunctionNode.Leads nodes.block x y :=
        leads_of_relabelled relabelled
      cases a with
      | stack => exact honest_of_same honest id rfl leads (fun _ => rfl)
      | liveness =>
          intro _ b reachable
          obtain ⟨_, chains, returning⟩ := clean needed invalid
          apply LivenessState.valid_of_foundFromReturn linked chains returns ran finished
          apply returning
          apply FunctionNode.Reachable.induct ?_ ?_ reachable
          · exact fun b isEntry => FunctionNode.reachable_entry isEntry
          · exact fun x y old step => old.step (leads x y step)

theorem LivenessRun.linked (run : LivenessRun nodes later) (linked : Linked nodes.block) :
    Linked later.block := by
  cases run with
  | skip _ => exact linked
  | unspecified _ _ => exact linked
  | run returning final block needed invalid specified returns some ran finished relabelled =>
      intro x y
      obtain ⟨_, sameX⟩ := relabelled x
      obtain ⟨_, sameY⟩ := relabelled y
      change (block x).next = _ ↔ (block y).prev = _
      rw [sameX, sameY]
      exact linked x y

theorem StackRun.entered {context : Context} {host : Host} {initial : ProgramState}
    (run : StackRun context host initial nodes later) (entered : nodes.Entered) :
    later.Entered := by
  cases run with
  | skip _ => exact entered
  | valid entry _ start _ => exact fun _ => (start ▸ nofun : nodes.entryBlock ≠ none)
  | run entry _ _ _ start _ _ => exact fun _ => (start ▸ nofun : nodes.entryBlock ≠ none)

theorem LivenessRun.entered (run : LivenessRun nodes later) (entered : nodes.Entered) :
    later.Entered := by
  cases run with
  | skip _ => exact entered
  | unspecified _ _ => exact entered
  | run _ _ _ _ _ _ _ _ _ _ _ => exact entered

theorem StackRun.linked {context : Context} {host : Host} {initial : ProgramState}
    (run : StackRun context host initial nodes later) (linked : Linked nodes.block) :
    Linked later.block := by
  cases run with
  | skip _ => exact linked
  | valid _ _ _ _ => exact linked
  | run _ _ _ _ _ _ _ => exact linked

theorem StackRun.parent {context : Context} {host : Host} {initial : ProgramState}
    (run : StackRun context host initial nodes later)
    (parent : nodes.icfgValid a = true → nodes.valid a = true) :
    later.icfgValid a = true → later.valid a = true := by
  cases run with
  | skip _ => exact parent
  | valid _ _ _ _ =>
      cases a with
      | stack => exact fun _ => rfl
      | liveness => exact parent
  | run _ _ _ _ _ _ _ =>
      cases a with
      | stack => exact fun _ => rfl
      | liveness => exact parent

theorem LivenessRun.parent (run : LivenessRun nodes later) (clean : nodes.AnalysesLivenessCleanly)
    (parent : nodes.icfgValid a = true → nodes.valid a = true) :
    later.icfgValid a = true → later.valid a = true := by
  cases run with
  | skip _ => exact parent
  | unspecified needed skipped =>
      cases a with
      | stack => exact parent
      | liveness =>
          intro _
          change nodes.valid .liveness = true
          cases flagged : nodes.valid .liveness with
          | true => rfl
          | false =>
              rcases skipped with valid | noInfo
              · exact flagged.symm.trans valid
              · exact absurd (noInfo.symm.trans (clean needed flagged).1) Bool.false_ne_true
  | run _ _ _ _ _ _ _ _ _ _ _ =>
      cases a with
      | stack => exact parent
      | liveness => exact fun _ => rfl

end Nodes

/-! ### Runs -/

inductive Action (φ ι : Type) where
  | edit (f : φ) (edit : Edit ι)
  | stackAnalysis
  | livenessAnalysis

namespace Icfg

variable [DecidableEq φ]

/-- What one action does; only the entry function is analysed. -/
inductive Runs (context : Context) (host : Host) (initial : ProgramState) (icfg : Icfg φ ι) :
    Action φ ι → Icfg φ ι → Prop where
  | edit (f : φ) (edit : Edit ι) (later : Nodes ι) (allocates : edit.Allocates (icfg.function f))
      (applied : edit.apply (icfg.nodes f) = .ok later) :
      Runs context host initial icfg (.edit f edit) (icfg.withNodes f later)
  | stackAnalysis (f : φ) (later : Nodes ι) (entry : icfg.entryFunction = some f)
      (run : Nodes.StackRun context host initial (icfg.nodes f) later) :
      Runs context host initial icfg .stackAnalysis (icfg.withNodes f later)
  | livenessAnalysis (f : φ) (later : Nodes ι) (entry : icfg.entryFunction = some f)
      (run : Nodes.LivenessRun (icfg.nodes f) later) :
      Runs context host initial icfg .livenessAnalysis (icfg.withNodes f later)
  | nothing (action : Action φ ι) (analysis : action = .stackAnalysis ∨ action = .livenessAnalysis)
      (noEntry : icfg.entryFunction = none) : Runs context host initial icfg action icfg

def Clean (icfg : Icfg φ ι) : Action φ ι → Prop
  | .edit f edit => edit.Clean (icfg.nodes f)
  | .stackAnalysis =>
      ∀ f, icfg.entryFunction = some f → (icfg.nodes f).AnalysesStackCleanly
  | .livenessAnalysis =>
      ∀ f, icfg.entryFunction = some f → (icfg.nodes f).AnalysesLivenessCleanly

def Reachable (context : Context) (host : Host) (initial : ProgramState) :
    Icfg φ ι → Icfg φ ι → Prop :=
  Relation.ReflTransGen (fun icfg later => ∃ action, Runs context host initial icfg action later)

def CleanlyReachable (context : Context) (host : Host) (initial : ProgramState) :
    Icfg φ ι → Icfg φ ι → Prop :=
  Relation.ReflTransGen
    (fun icfg later => ∃ action, icfg.Clean action ∧ Runs context host initial icfg action later)

/-- No analysis ran yet; the fallthrough chains agree in both directions. -/
def Unanalysed (icfg : Icfg φ ι) : Prop :=
  ∀ a, icfg.valid a = false ∧
    ∀ f, (icfg.function f).valid a = false ∧ Linked (icfg.function f).block

/-- What every clean run keeps. -/
structure Sound (icfg : Icfg φ ι) : Prop where
  linked : ∀ f, Linked (icfg.function f).block
  honest : ∀ f a, (icfg.function f).Honest a
  entered : ∀ f, (icfg.function f).Entered
  parent : ∀ f a, icfg.entryFunction = some f → icfg.valid a = true →
    (icfg.function f).valid a = true

variable {icfg later start : Icfg φ ι} {context : Context} {host : Host} {initial : ProgramState}

omit [DecidableEq ι] in
theorem function_withNodes (icfg : Icfg φ ι) (f g : φ) (nodes : Nodes ι) :
    (icfg.withNodes f nodes).function g =
      if g = f then nodes.toFunctionNode else icfg.function g :=
  Function.update_apply icfg.function f nodes.toFunctionNode g

omit [DecidableEq ι] in
theorem Sound.withNodes (sound : icfg.Sound) {f : φ} {nodes : Nodes ι}
    (linked : Linked nodes.block) (honest : ∀ a, nodes.Honest a) (entered : nodes.Entered)
    (parent : ∀ a, icfg.entryFunction = some f → nodes.icfgValid a = true → nodes.valid a = true)
    (others : ∀ a, icfg.entryFunction ≠ some f → nodes.icfgValid a = true → icfg.valid a = true) :
    (icfg.withNodes f nodes).Sound := by
  refine ⟨?_, ?_, ?_, ?_⟩
  · intro g
    rw [function_withNodes]
    split
    · exact linked
    · exact sound.linked g
  · intro g a
    rw [function_withNodes]
    split
    · exact honest a
    · exact sound.honest g a
  · intro g
    rw [function_withNodes]
    split
    · exact entered
    · exact sound.entered g
  · intro g a entry valid
    rw [function_withNodes]
    split
    · rename_i here
      exact parent a (here ▸ entry) valid
    · rename_i here
      have elsewhere : icfg.entryFunction ≠ some f := by
        intro same
        exact here (Option.some.inj (entry.symm.trans same))
      exact sound.parent g a entry (others a elsewhere valid)

theorem Sound.step (sound : icfg.Sound) {action : Action φ ι} (clean : icfg.Clean action)
    (runs : Runs context host initial icfg action later) : later.Sound := by
  cases runs with
  | edit f edit nodes allocates applied =>
      obtain ⟨exempt, flags⟩ := Edit.flags allocates applied
      apply sound.withNodes
      · exact Edit.linked allocates (sound.linked f) applied
      · exact fun a => Edit.honest allocates (sound.linked f) (sound.honest f a)
          (sound.entered f) clean applied
      · exact Edit.entered allocates (sound.honest f .stack) (sound.entered f) applied
      · intro a entry valid
        obtain ⟨before, kept⟩ := flags.icfg a valid
        exact kept (sound.parent f a entry before)
      · exact fun a _ valid => (flags.icfg a valid).1
  | stackAnalysis f nodes entry run =>
      apply sound.withNodes
      · exact run.linked (sound.linked f)
      · exact fun a => run.honest (clean f entry) (sound.honest f a)
      · exact run.entered (sound.entered f)
      · exact fun a _ => run.parent (sound.parent f a entry)
      · exact fun a elsewhere => absurd entry elsewhere
  | livenessAnalysis f nodes entry run =>
      apply sound.withNodes
      · exact run.linked (sound.linked f)
      · exact fun a => run.honest (clean f entry) (sound.linked f) (sound.honest f a)
      · exact run.entered (sound.entered f)
      · exact fun a _ => run.parent (clean f entry) (sound.parent f a entry)
      · exact fun a elsewhere => absurd entry elsewhere
  | nothing _ _ _ => exact sound

omit [DecidableEq φ] [DecidableEq ι] in
theorem Unanalysed.sound (unanalysed : icfg.Unanalysed) : icfg.Sound := by
  refine ⟨fun f => ((unanalysed .stack).2 f).2, ?_, ?_, ?_⟩
  · intro f a valid
    rw [((unanalysed a).2 f).1] at valid
    cases valid
  · intro f valid
    rw [((unanalysed .stack).2 f).1] at valid
    cases valid
  · intro f a _ valid
    rw [(unanalysed a).1] at valid
    cases valid

def returningBlock (attached : Option LivenessData) : SuperBlock (Fin 2) :=
  { FunctionCfg.removedBlock with
    instrs :=
      [⟨⟨.ADD64rr, [.reg (.gprs64 .A), .reg (.gprs64 .B)]⟩, none, none⟩,
        ⟨⟨.RET, []⟩, attached, none⟩] }

def decodedReturn : Icfg Unit (Fin 2) where
  valid := fun _ => false
  entryFunction := some ()
  function := fun _ =>
    { valid := fun _ => false
      hasInfo := true
      entryBlock := some 0
      block := fun b => if b = 0 then returningBlock none else FunctionCfg.removedBlock
      blockValid := fun _ _ => false
      entryState := fun _ => none
      visited := [] }

/-- The live registers of the return; the addition is dead. -/
def returnLiveness (instr : BlockInstruction (Fin 2)) : Option LivenessData :=
  if instr.instruction.isRet then some { live_out := ∅, live_in := ∅ } else none

def analysedBlock (b : Fin 2) : SuperBlock (Fin 2) :=
  { (decodedReturn.function ()).block b with
    instrs := ((decodedReturn.function ()).block b).instrs.map (fun instr =>
      { instr with livenessData := returnLiveness instr }) }

def processedReturn : LivenessState (Fin 2) where
  livenessAnalysisValid := Function.update (fun _ => false) 0 true
  hasData := Function.update (fun _ => false) 0 true
  queued := Function.update (fun b => decide (b ∈ [0])) 0 false
  blocksToProcess := []

def analysedReturn : Icfg Unit (Fin 2) :=
  decodedReturn.withNodes ()
    (Nodes.flag
      { (decodedReturn.nodes ()).setBlockValid .liveness processedReturn.livenessAnalysisValid with
        block := analysedBlock } .liveness)

theorem unanalysed_decodedReturn : decodedReturn.Unanalysed := by
  intro a
  refine ⟨rfl, fun _ => ⟨rfl, ?_⟩⟩
  have alone : ∀ b n : Fin 2, ((decodedReturn.function ()).block b).next = some n ↔
      ((decodedReturn.function ()).block n).prev = some b := by decide
  exact alone

theorem runs_livenessAnalysis (context : Context) (host : Host) (initial : ProgramState) :
    Runs context host initial decodedReturn .livenessAnalysis analysedReturn := by
  have returns : ReturnBlocks (decodedReturn.function ()).block [0] := by
    unfold ReturnBlocks
    decide
  have stepped : LivenessState.Steps (decodedReturn.function ()).block (LivenessState.start [0])
      processedReturn := ⟨false, rfl⟩
  refine .livenessAnalysis () _ rfl ?_
  exact .run [0] processedReturn analysedBlock rfl rfl rfl returns (by decide) (.single stepped) rfl
    (fun b => ⟨returnLiveness, rfl⟩)

theorem reachable_decodedReturn {b : Fin 2} (reachable : (decodedReturn.function ()).Reachable b) :
    b = 0 := by
  apply FunctionNode.Reachable.induct ?_ ?_ reachable
  · exact fun b isEntry => (Option.some.inj isEntry).symm
  · rintro b n rfl (next | edge)
    · cases next
    · cases edge

theorem analysesCleanly_decodedReturn : decodedReturn.Clean .livenessAnalysis := by
  intro f _ _ _
  cases f
  refine ⟨rfl, ⟨fun b => ⟨b, ?_⟩⟩, ?_⟩
  · have noNext : ∀ x : Fin 2, ((decodedReturn.function ()).block x).next = none := by decide
    intro n next
    exact absurd ((noNext b).symm.trans next) nofun
  · intro b reachable
    refine ⟨0, by decide, ?_⟩
    rw [reachable_decodedReturn reachable]

end Icfg

end Drob
