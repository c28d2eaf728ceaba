import Drob.Cfg.Runs
import Drob.Passes.Linear

/-!
What chaining and merging blocks does to the runs of a function.
-/

namespace Drob

namespace FunctionCfg

open Traces

variable {ι : Type} [DecidableEq ι]

def Edged (cfg : FunctionCfg ι) : Prop :=
  ∀ b n, ∀ instr ∈ (cfg.block b).instrs, instr.branchEdge = some n →
    b ∈ (cfg.block n).incomingEdges

/-! ### Merging -/

def redirectInstr (b n : ι) (instr : BlockInstruction ι) : BlockInstruction ι :=
  { instr with branchEdge := instr.branchEdge.map (redirect b n) }

def redirectGoes (b n : ι) : Goes ι → Goes ι
  | .on => .on
  | .block dst => .block (redirect b n dst)
  | .leave => .leave

theorem destination_redirect (b n : ι) (edge : Option ι) :
    destination (edge.map (redirect b n)) = redirectGoes b n (destination edge) := by
  cases edge <;> rfl

theorem Outcome.redirect {b n : ι} {instr : BlockInstruction ι} {label : Option Event}
    {goes : Goes ι} (outcome : Outcome instr label goes) :
    Outcome (redirectInstr b n instr) label (redirectGoes b n goes) := by
  cases outcome with
  | jump branch always edge =>
      exact .jump branch always (congrArg (Option.map (FunctionCfg.redirect b n)) edge)
  | away branch always edge =>
      exact .away branch always (congrArg (Option.map (FunctionCfg.redirect b n)) edge)
  | taken branch sometimes condition holds =>
      rw [← destination_redirect]
      exact @Outcome.taken _ (redirectInstr b n instr) _ branch sometimes condition holds
  | passed branch sometimes condition holds =>
      exact @Outcome.passed _ (redirectInstr b n instr) _ branch sometimes condition holds
  | ret branch ret => exact .ret branch ret
  | exec branch ret => exact .exec branch ret

theorem outcome_of_redirectInstr {b n : ι} {instr : BlockInstruction ι} {label : Option Event}
    {goes : Goes ι} (outcome : Outcome (redirectInstr b n instr) label goes) :
    ∃ before, Outcome instr label before ∧ goes = redirectGoes b n before := by
  cases outcome with
  | jump branch always edge =>
      obtain ⟨dst, before, rfl⟩ := Option.map_eq_some_iff.mp edge
      exact ⟨.block dst, .jump branch always before, rfl⟩
  | away branch always edge =>
      exact ⟨.leave, .away branch always (Option.map_eq_none_iff.mp edge), rfl⟩
  | taken branch sometimes condition holds =>
      exact ⟨destination instr.branchEdge,
        @Outcome.taken _ instr _ branch sometimes condition holds,
        destination_redirect b n instr.branchEdge⟩
  | passed branch sometimes condition holds =>
      exact ⟨.on, @Outcome.passed _ instr _ branch sometimes condition holds, rfl⟩
  | ret branch ret => exact ⟨.leave, .ret branch ret, rfl⟩
  | exec branch ret => exact ⟨.on, .exec branch ret, rfl⟩

omit [DecidableEq ι] in
theorem branchEdge_of_outcome {instr : BlockInstruction ι} {label : Option Event} {goes : Goes ι}
    (outcome : Outcome instr label goes) {dst : ι} (leads : goes = .block dst) :
    instr.branchEdge = some dst := by
  cases outcome with
  | jump branch always edge =>
      cases leads
      exact edge
  | taken branch sometimes condition holds =>
      cases edge : instr.branchEdge with
      | none =>
          rw [edge] at leads
          cases leads
      | some other =>
          rw [edge] at leads
          cases leads
          rfl
  | away | passed | ret | exec => cases leads

section Merge

variable {cfg merged : FunctionCfg ι} {b n : ι}

structure MergesInstrs (cfg merged : FunctionCfg ι) (b n : ι) : Prop extends
    Merges cfg merged b n where
  instrs : ∀ x, x ≠ b → (merged.block x).instrs =
    ((if x = n then (cfg.block b).instrs else []) ++ (cfg.block x).instrs).map (redirectInstr b n)
  edges : ∀ x y, x ≠ b → y ∈ (cfg.block x).incomingEdges →
    redirect b n y ∈ (merged.block x).incomingEdges
  moved : ∀ y, y ∈ (cfg.block b).incomingEdges → redirect b n y ∈ (merged.block n).incomingEdges
  gone : (merged.block b).instrs = []

theorem mergeBlockIntoNext_instrs (consistent : cfg.Consistent)
    (returned : cfg.mergeBlockIntoNext b = .ok merged) : ∃ n, MergesInstrs cfg merged b n := by
  obtain ⟨n, merges⟩ := mergeBlockIntoNext_merges consistent returned
  unfold mergeBlockIntoNext at returned
  rw [show (cfg.block b).next = some n from merges.falls] at returned
  dsimp only at returned
  obtain ⟨_, returned⟩ := ite_error returned
  obtain ⟨_, returned⟩ := ite_error returned
  cases Except.ok.inj returned
  refine ⟨n, merges, ?_, ?_, ?_, by dsimp only; rw [if_pos rfl]; rfl⟩
  · intro x kept
    dsimp only
    rw [if_neg kept]
    change (if x = n then mergedBlock (cfg.block b) (cfg.block n)
      else cfg.block x).instrs.map (redirectInstr b n) = _
    by_cases here : x = n
    · rw [if_pos here, if_pos here, here]
      rfl
    · rw [if_neg here, if_neg here]
      rfl
  · intro x y kept member
    dsimp only
    rw [if_neg kept]
    change _ ∈ (if x = n then mergedBlock (cfg.block b) (cfg.block n)
      else cfg.block x).incomingEdges.map (redirect b n)
    apply List.mem_map_of_mem
    by_cases here : x = n
    · rw [if_pos here]
      rw [here] at member
      exact List.mem_append_left _ member
    · rw [if_neg here]
      exact member
  · intro y member
    dsimp only
    rw [if_neg merges.other]
    change _ ∈ (if n = n then mergedBlock (cfg.block b) (cfg.block n)
      else cfg.block n).incomingEdges.map (redirect b n)
    apply List.mem_map_of_mem
    rw [if_pos rfl]
    exact List.mem_append_right _ member

theorem MergesInstrs.edged (merges : MergesInstrs cfg merged b n) (edged : cfg.Edged) :
    merged.Edged := by
  intro x y instr member edge
  by_cases removed : x = b
  · rw [removed, merges.gone] at member
    cases member
  · rw [merges.instrs x removed] at member
    obtain ⟨before, inside, rfl⟩ := List.mem_map.mp member
    obtain ⟨dst, target, redirected⟩ := Option.map_eq_some_iff.mp edge
    -- the block that held the instruction before is now this one
    obtain ⟨source, listed, same⟩ : ∃ source, source ∈ (cfg.block dst).incomingEdges ∧
        redirect b n source = x := by
      rcases List.mem_append.mp inside with first | second
      · by_cases here : x = n
        · rw [if_pos here] at first
          exact ⟨b, edged b dst before first target, by rw [here]; exact if_pos rfl⟩
        · rw [if_neg here] at first
          cases first
      · exact ⟨x, edged x dst before second target, if_neg removed⟩
    rw [← redirected, ← same]
    unfold redirect
    by_cases toRemoved : dst = b
    · rw [if_pos toRemoved]
      rw [toRemoved] at listed
      exact merges.moved source listed
    · rw [if_neg toRemoved]
      exact merges.edges dst source toRemoved listed

def mergedPlace (cfg : FunctionCfg ι) (b n : ι) (place : Point ι) : Point ι :=
  { block := redirect b n place.block
    rest := (place.rest ++ if place.block = b then (cfg.block n).instrs else []).map
      (redirectInstr b n) }

def MergeRelated (cfg : FunctionCfg ι) (b n : ι) (before after : Option (Point ι)) : Prop :=
  (∀ place ∈ before, place.rest <:+ (cfg.block place.block).instrs) ∧
    after = before.map (mergedPlace cfg b n)

theorem MergesInstrs.enter (merges : MergesInstrs cfg merged b n) {x : ι} (other : x ≠ n) :
    MergeRelated cfg b n (some (cfg.enter x)) (some (merged.enter (redirect b n x))) := by
  refine ⟨?_, ?_⟩
  · intro place same
    cases same
    exact List.suffix_rfl
  · refine congrArg some ?_
    unfold mergedPlace FunctionCfg.enter redirect
    by_cases removed : x = b
    · rw [if_pos removed, if_pos removed, merges.instrs n merges.other, if_pos rfl, removed]
    · rw [if_neg removed, if_neg removed, merges.instrs x removed, if_neg other,
        List.append_nil, List.nil_append]

theorem MergesInstrs.place (merges : MergesInstrs cfg merged b n) (edged : cfg.Edged) {x : ι}
    {instr : BlockInstruction ι} {rest : List (BlockInstruction ι)} {label : Option Event}
    {goes : Goes ι} (suffix : instr :: rest <:+ (cfg.block x).instrs)
    (outcome : Outcome instr label goes) :
    MergeRelated cfg b n (cfg.place x rest goes)
      (merged.place (redirect b n x) ((rest ++ if x = b then (cfg.block n).instrs else []).map
        (redirectInstr b n)) (redirectGoes b n goes)) := by
  cases goes with
  | on =>
      refine ⟨?_, rfl⟩
      intro place same
      cases same
      exact (List.suffix_cons instr rest).trans suffix
  | block dst =>
      refine merges.enter ?_
      rintro rfl
      have listed := edged x dst instr (suffix.mem List.mem_cons_self)
        (branchEdge_of_outcome outcome rfl)
      rw [merges.unshared] at listed
      cases listed
  | leave => exact ⟨fun place same => (by cases same), rfl⟩

theorem MergesInstrs.simulates (merges : MergesInstrs cfg merged b n) (edged : cfg.Edged)
    (consistent : cfg.Consistent) :
    Simulates cfg.Step merged.Step (MergeRelated cfg b n) := by
  rintro s t s' label ⟨inside, rfl⟩ step
  cases step with
  | @fall x y falls =>
      by_cases removed : x = b
      · -- the merged block goes on with the instructions of the next one
        subst removed
        have same : y = n := Falls.unique falls merges.falls
        subst same
        refine ⟨_, ⟨?_, rfl⟩, ?_⟩
        · intro place same
          cases same
          exact List.suffix_rfl
        · have stays : mergedPlace cfg x y (cfg.enter y) =
              mergedPlace cfg x y { block := x, rest := [] } := by
            unfold mergedPlace FunctionCfg.enter redirect
            dsimp only
            rw [if_neg merges.other, if_neg merges.other, if_pos rfl, if_pos rfl,
              List.append_nil, List.nil_append]
          rw [Option.map_some, Option.map_some, stays]
          exact .stay _
      · have other : y ≠ n := by
          rintro rfl
          exact removed (consistent.unique falls merges.falls)
        refine ⟨_, merges.enter other, .single ?_⟩
        have here : mergedPlace cfg b n { block := x, rest := [] } = { block := x, rest := [] } := by
          unfold mergedPlace redirect
          dsimp only
          rw [if_neg removed, if_neg removed]
          rfl
        rw [Option.map_some, here]
        refine .fall ((merges.next x _).mpr ⟨removed, ?_, ?_⟩)
        · unfold redirect
          split
          · exact merges.other
          · assumption
        · unfold redirect
          by_cases through : y = b
          · rw [if_pos through]
            exact Or.inr ⟨through ▸ falls, merges.falls⟩
          · rw [if_neg through]
            exact Or.inl falls
  | @instr x instr rest label goes outcome =>
      have suffix := inside _ rfl
      refine ⟨_, merges.place edged suffix outcome, .single ?_⟩
      exact .instr (Outcome.redirect outcome)

theorem MergesInstrs.simulated_instr (merges : MergesInstrs cfg merged b n) (edged : cfg.Edged)
    {x : ι} {instr : BlockInstruction ι} {rest : List (BlockInstruction ι)}
    {label : Option Event} {after : Option (Point ι)}
    (suffix : instr :: rest <:+ (cfg.block x).instrs)
    (step : merged.Step (some (mergedPlace cfg b n { block := x, rest := instr :: rest })) label
      after) :
    ∃ before, MergeRelated cfg b n before after ∧
      cfg.Step (some { block := x, rest := instr :: rest }) label before := by
  unfold mergedPlace at step
  rw [List.cons_append, List.map_cons] at step
  cases step with
  | @instr _ _ _ _ goes' outcome =>
      obtain ⟨goes, matched, rfl⟩ := outcome_of_redirectInstr outcome
      exact ⟨_, merges.place edged suffix matched, .instr matched⟩

theorem MergesInstrs.simulated_fall (merges : MergesInstrs cfg merged b n)
    (consistent : cfg.Consistent) {x : ι} (kept : x ≠ b) {label : Option Event}
    {after : Option (Point ι)}
    (step : merged.Step (some { block := x, rest := [] }) label after) :
    ∃ before, MergeRelated cfg b n before after ∧
      cfg.Step (some { block := x, rest := [] }) label before := by
  cases step with
  | @fall _ y falls =>
      obtain ⟨_, outside, direct | ⟨first, second⟩⟩ := (merges.next x y).mp falls
      · have other : y ≠ n := by
          rintro rfl
          exact kept (consistent.unique direct merges.falls)
        have entered := merges.enter other
        rw [show redirect b n y = y from if_neg outside] at entered
        exact ⟨_, entered, .fall direct⟩
      · have same : y = n := Falls.unique second merges.falls
        have entered := merges.enter (x := b) (fun equal => merges.other equal.symm)
        rw [show redirect b n b = n from if_pos rfl] at entered
        rw [same]
        exact ⟨_, entered, .fall first⟩

theorem MergesInstrs.simulated (merges : MergesInstrs cfg merged b n) (edged : cfg.Edged)
    (consistent : cfg.Consistent) :
    Simulates merged.Step cfg.Step (fun after before => MergeRelated cfg b n before after) := by
  rintro _ before after' label ⟨inside, rfl⟩ step
  cases before with
  | none => cases step
  | some place =>
      obtain ⟨x, rest⟩ := place
      rw [Option.map_some] at step
      have suffix := inside _ rfl
      cases rest with
      | cons instr rest =>
          obtain ⟨before, related, matched⟩ := merges.simulated_instr edged suffix step
          exact ⟨before, related, .single matched⟩
      | nil =>
          by_cases removed : x = b
          · -- the end of the merged block is the start of the next one
            subst removed
            have entered : mergedPlace cfg x n { block := x, rest := [] } =
                mergedPlace cfg x n (cfg.enter n) := by
              unfold mergedPlace FunctionCfg.enter redirect
              dsimp only
              rw [if_neg merges.other, if_neg merges.other, if_pos rfl, if_pos rfl,
                List.append_nil, List.nil_append]
            rw [entered] at step
            have first : cfg.Step (some { block := x, rest := [] }) none (some (cfg.enter n)) :=
              .fall merges.falls
            unfold FunctionCfg.enter at step
            cases instrs : (cfg.block n).instrs with
            | cons instr rest =>
                rw [instrs] at step
                obtain ⟨before, related, matched⟩ := merges.simulated_instr edged
                  (by rw [instrs]) step
                refine ⟨before, related, .silent first (.single ?_)⟩
                unfold FunctionCfg.enter
                rw [instrs]
                exact matched
            | nil =>
                rw [instrs] at step
                have here : mergedPlace cfg x n { block := n, rest := [] } =
                    { block := n, rest := [] } := by
                  unfold mergedPlace redirect
                  dsimp only
                  rw [if_neg merges.other, if_neg merges.other]
                  rfl
                rw [here] at step
                obtain ⟨before, related, matched⟩ :=
                  merges.simulated_fall consistent merges.other step
                refine ⟨before, related, .silent first (.single ?_)⟩
                unfold FunctionCfg.enter
                rw [instrs]
                exact matched
          · have here : mergedPlace cfg b n { block := x, rest := [] } =
                { block := x, rest := [] } := by
              unfold mergedPlace redirect
              dsimp only
              rw [if_neg removed, if_neg removed]
              rfl
            rw [here] at step
            obtain ⟨before, related, matched⟩ := merges.simulated_fall consistent removed step
            exact ⟨before, related, .single matched⟩

theorem MergesInstrs.shows_iff (merges : MergesInstrs cfg merged b n) (edged : cfg.Edged)
    (consistent : cfg.Consistent)
    (entry : cfg.entryBlock = n → (cfg.block b).instrs = []) (events : List Event) :
    merged.Shows events ↔ cfg.Shows events := by
  refine trace_iff (merges.simulates edged consistent) (merges.simulated edged consistent) ?_ events
  by_cases atNext : cfg.entryBlock = n
  · have kept : cfg.entryBlock ≠ b := by
      rw [atNext]
      exact merges.other
    refine ⟨?_, ?_⟩
    · intro place same
      cases same
      exact List.suffix_rfl
    · rw [merges.entry, if_neg kept]
      refine congrArg some ?_
      unfold mergedPlace FunctionCfg.enter redirect
      dsimp only
      rw [if_neg kept, if_neg kept, atNext, merges.instrs n merges.other, if_pos rfl,
        entry atNext, List.append_nil, List.nil_append]
  · have start := merges.enter atNext
    rw [merges.entry]
    exact start

end Merge

/-! ### Chaining -/

/-- Every edge is listed once for each instruction it belongs to. -/
def Counted (cfg : FunctionCfg ι) : Prop :=
  ∀ b n, (cfg.block n).incomingEdges.count b =
    (cfg.block b).instrs.countP (fun instr => decide (instr.branchEdge = some n))

theorem Counted.edged {cfg : FunctionCfg ι} (counted : cfg.Counted) : cfg.Edged := by
  intro b n instr member edge
  rw [← List.count_pos_iff, counted b n, List.countP_pos_iff]
  exact ⟨instr, member, decide_eq_true edge⟩

def JumpsTo (instr : BlockInstruction ι) (dst : ι) : Prop :=
  ∀ label goes, Outcome instr label goes ↔ label = none ∧ goes = .block dst

omit [DecidableEq ι] in
theorem JumpsTo.of_branch {instr : BlockInstruction ι} {dst : ι}
    (branch : instr.instruction.isBranch = true)
    (always : instr.instruction.getPredicate = none) (edge : instr.branchEdge = some dst) :
    JumpsTo instr dst := by
  intro label goes
  constructor
  · intro outcome
    cases outcome with
    | jump _ _ other => exact ⟨rfl, congrArg Goes.block (Option.some.inj (other.symm.trans edge))⟩
    | away _ _ other => exact absurd (other.symm.trans edge) (Option.some_ne_none dst).symm
    | taken _ sometimes | passed _ sometimes =>
        rw [always] at sometimes
        cases sometimes
    | ret other | exec other =>
        rw [branch] at other
        cases other
  · rintro ⟨rfl, rfl⟩
    exact .jump branch always edge

section Chain

variable {cfg chained : FunctionCfg ι} {b dst : ι}

structure Chains (cfg chained : FunctionCfg ι) (b dst : ι) : Prop where
  entry : chained.entryBlock = cfg.entryBlock
  ends : (cfg.block b).next = none
  falls : ∀ x y, chained.Falls x y ↔ cfg.Falls x y ∨ x = b ∧ y = dst
  instrs : ∀ x, (chained.block x).instrs =
    if x = b then (cfg.block x).instrs.dropLast else (cfg.block x).instrs
  jump : ∃ before jump, (cfg.block b).instrs = before ++ [jump] ∧
    jump.branchEdge = some dst ∧ JumpsTo jump dst

omit [DecidableEq ι] in
theorem jumpsTo_of_jumpTarget {instr : BlockInstruction ι}
    (target : (if instr.instruction.isBranch &&
      instr.instruction.getPredicate.isNone then instr.branchEdge else none) = some dst) :
    instr.branchEdge = some dst ∧ JumpsTo instr dst := by
  split at target
  · rename_i jumps
    obtain ⟨branch, always⟩ := Bool.and_eq_true_iff.mp jumps
    exact ⟨target, JumpsTo.of_branch branch (Option.isNone_iff_eq_none.mp always) target⟩
  · cases target

theorem chain_chains (ends : (cfg.block b).next = none)
    (target : BlockLayout.jumpTarget (cfg.block b) = some dst)
    (returned : BlockLayout.chain cfg b dst = .ok chained) : Chains cfg chained b dst := by
  unfold BlockLayout.chain at returned
  obtain ⟨_, returned⟩ := ite_ok returned
  cases Except.ok.inj returned
  obtain ⟨jump, isLast, jumps⟩ := Option.bind_eq_some_iff.mp target
  obtain ⟨before, split⟩ := List.getLast?_eq_some_iff.mp isLast
  refine ⟨rfl, ends, ?_, fun _ => rfl, before, jump, split, jumpsTo_of_jumpTarget jumps⟩
  intro x y
  unfold Falls
  dsimp only
  by_cases here : x = b
  · rw [if_pos here, here, ends]
    constructor
    · intro same
      exact Or.inr ⟨rfl, (Option.some.inj same).symm⟩
    · rintro (impossible | ⟨_, rfl⟩)
      · cases impossible
      · rfl
  · rw [if_neg here]
    exact ⟨Or.inl, fun either => either.resolve_right (fun both => here both.1)⟩

/-- Places in front of an instruction of a block, or at the end of one that falls on. -/
def ChainRelated (cfg : FunctionCfg ι) (b : ι) (before after : Option (Point ι)) : Prop :=
  (∀ place ∈ before, place.rest <:+ (cfg.block place.block).instrs ∧
    (place.block = b → place.rest ≠ [])) ∧
    after = before.map (fun place =>
      { block := place.block
        rest := if place.block = b then place.rest.dropLast else place.rest })

theorem Chains.enter (chains : Chains cfg chained b dst) (x : ι) :
    ChainRelated cfg b (some (cfg.enter x)) (some (chained.enter x)) := by
  obtain ⟨before, jump, split, _⟩ := chains.jump
  refine ⟨?_, ?_⟩
  · intro place same
    cases same
    refine ⟨List.suffix_rfl, ?_⟩
    intro here
    change (cfg.block x).instrs ≠ []
    rw [show x = b from here, split]
    exact List.append_ne_nil_of_right_ne_nil before (List.cons_ne_nil jump [])
  · refine congrArg some ?_
    unfold FunctionCfg.enter
    rw [chains.instrs]

theorem Chains.place (chains : Chains cfg chained b dst) {x : ι} {instr : BlockInstruction ι}
    {rest : List (BlockInstruction ι)} (suffix : instr :: rest <:+ (cfg.block x).instrs)
    (more : x = b → rest ≠ []) (goes : Goes ι) :
    ChainRelated cfg b (cfg.place x rest goes)
      (chained.place x (if x = b then rest.dropLast else rest) goes) := by
  cases goes with
  | on =>
      refine ⟨?_, rfl⟩
      intro place same
      cases same
      exact ⟨(List.suffix_cons instr rest).trans suffix, more⟩
  | block next => exact chains.enter next
  | leave => exact ⟨fun place same => (by cases same), rfl⟩

theorem Chains.last (chains : Chains cfg chained b dst) {instr : BlockInstruction ι}
    (suffix : [instr] <:+ (cfg.block b).instrs) : JumpsTo instr dst := by
  obtain ⟨before, jump, split, _, jumps⟩ := chains.jump
  rw [split] at suffix
  have same : instr = jump := by
    have ends := List.suffix_iff_eq_drop.mp suffix
    simpa using ends
  rw [same]
  exact jumps

theorem dropLast_cons {α : Type} {first : α} {rest : List α} (more : rest ≠ []) :
    (first :: rest).dropLast = first :: rest.dropLast :=
  List.dropLast_cons_of_ne_nil more

theorem Chains.simulates (chains : Chains cfg chained b dst) :
    Simulates cfg.Step chained.Step (ChainRelated cfg b) := by
  rintro s t s' label ⟨inside, rfl⟩ step
  cases step with
  | @fall x y falls =>
      have other : x ≠ b := fun same => (inside _ rfl).2 same rfl
      refine ⟨_, chains.enter y, .single ?_⟩
      rw [Option.map_some, if_neg other]
      exact .fall ((chains.falls x y).mpr (Or.inl falls))
  | @instr x instr rest label goes outcome =>
      obtain ⟨suffix, _⟩ := inside _ rfl
      by_cases atEnd : x = b ∧ rest = []
      · obtain ⟨rfl, rfl⟩ := atEnd
        obtain ⟨rfl, rfl⟩ := (chains.last suffix label goes).mp outcome
        refine ⟨_, chains.enter dst, .single ?_⟩
        rw [Option.map_some, if_pos rfl]
        exact .fall ((chains.falls x dst).mpr (Or.inr ⟨rfl, rfl⟩))
      · have more : x = b → rest ≠ [] := fun here empty => atEnd ⟨here, empty⟩
        refine ⟨_, chains.place suffix more goes, .single ?_⟩
        rw [Option.map_some]
        by_cases here : x = b
        · rw [if_pos here, if_pos here, dropLast_cons (more here)]
          exact .instr outcome
        · rw [if_neg here, if_neg here]
          exact .instr outcome

theorem Chains.simulated (chains : Chains cfg chained b dst) :
    Simulates chained.Step cfg.Step (fun after before => ChainRelated cfg b before after) := by
  rintro _ before after' label ⟨inside, rfl⟩ step
  cases before with
  | none => cases step
  | some place =>
      obtain ⟨x, rest⟩ := place
      obtain ⟨suffix, nonempty⟩ := inside _ rfl
      rw [Option.map_some] at step
      cases rest with
      | nil =>
          have other : x ≠ b := fun same => nonempty same rfl
          rw [if_neg other] at step
          cases step with
          | @fall _ y falls =>
              have before := ((chains.falls x y).mp falls).resolve_right (fun both => other both.1)
              exact ⟨_, chains.enter y, .single (.fall before)⟩
      | cons instr rest =>
          by_cases atEnd : x = b ∧ rest = []
          · obtain ⟨rfl, rfl⟩ := atEnd
            rw [if_pos rfl] at step
            cases step with
            | @fall _ y falls =>
                have same : y = dst := by
                  rcases (chains.falls x y).mp falls with old | ⟨_, same⟩
                  · have none := chains.ends
                    rw [show (cfg.block x).next = some y from old] at none
                    cases none
                  · exact same
                have jumps := (chains.last suffix none (.block dst)).mpr ⟨rfl, rfl⟩
                rw [same]
                exact ⟨_, chains.enter dst, .single (.instr jumps)⟩
          · have more : x = b → rest ≠ [] := fun here empty => atEnd ⟨here, empty⟩
            have shape : (if x = b then (instr :: rest).dropLast else instr :: rest) =
                instr :: (if x = b then rest.dropLast else rest) := by
              by_cases here : x = b
              · rw [if_pos here, if_pos here, dropLast_cons (more here)]
              · rw [if_neg here, if_neg here]
            rw [shape] at step
            cases step with
            | instr outcome =>
                exact ⟨_, chains.place suffix more _, .single (.instr outcome)⟩

theorem Chains.shows_iff (chains : Chains cfg chained b dst) (events : List Event) :
    chained.Shows events ↔ cfg.Shows events := by
  refine trace_iff chains.simulates chains.simulated ?_ events
  rw [chains.entry]
  exact chains.enter cfg.entryBlock

end Chain

end FunctionCfg

end Drob
