import Drob.Cfg.Machine
import Drob.Passes.LivenessPaths
import Drob.Reconstruction.Graph

/-!
The graph that is reconstructed runs like the code it was decoded from: on any machine the runs
that fetch one instruction after the other show the same as the runs through the blocks, where
nothing goes on behind an instruction that ends a block.
-/

namespace Drob

open FunctionNode

namespace Reconstruction

/-! ### Runs of the code -/

/-- In front of some of the instructions that the last one of the code was converted to. -/
structure CodePlace (α μ : Type) where
  rest : List DecodedInstruction
  next : BitVec 64
  store : SubRegister → α
  memory : μ

section Runs

variable {α μ ω : Type}
variable (fetch : BitVec 64 → Option Fetched) (context : Context) (machine : AbstractMachine α μ ω)
variable (live_ret : SubRegisterMask)

/-- `none` is outside of the function. -/
inductive CodeStep : Option (CodePlace α μ) → Option (Seen α μ ω) → Option (CodePlace α μ) →
    Prop where
  | fetch {itext : BitVec 64} {fetched : Fetched} {store : SubRegister → α} {memory : μ}
      (found : fetch itext = some fetched) :
      CodeStep (some { rest := [], next := itext, store, memory }) none
        (some { rest := fetched.instrs, next := fetched.next, store, memory })
  | ret {own : DecodedInstruction} {rest : List DecodedInstruction} {next : BitVec 64}
      {store : SubRegister → α} {memory : μ} (returns : own.instruction.isRet = true) :
      CodeStep (some { rest := own :: rest, next, store, memory })
        (some (.returned (returnedValues live_ret store) memory)) none
  | taken {own : DecodedInstruction} {rest : List DecodedInstruction} {next dst : BitVec 64}
      {store : SubRegister → α} {memory : μ} (stays : own.instruction.isRet = false)
      (branch : own.instruction.isBranch = true) (goes : target context own = some dst)
      (takes : (machine own.instruction store memory).taken = true) :
      CodeStep (some { rest := own :: rest, next, store, memory })
        ((machine own.instruction store memory).output.map .output)
        (some
          { rest := []
            next := dst
            store := (machine own.instruction store memory).store
            memory := (machine own.instruction store memory).memory })
  | away {own : DecodedInstruction} {rest : List DecodedInstruction} {next : BitVec 64}
      {store : SubRegister → α} {memory : μ} (stays : own.instruction.isRet = false)
      (branch : own.instruction.isBranch = true) (unknown : target context own = none)
      (takes : (machine own.instruction store memory).taken = true) :
      CodeStep (some { rest := own :: rest, next, store, memory })
        (some (.left (machine own.instruction store memory).store
          (machine own.instruction store memory).memory)) none
  | on {own : DecodedInstruction} {rest : List DecodedInstruction} {next : BitVec 64}
      {store : SubRegister → α} {memory : μ} (stays : own.instruction.isRet = false)
      (passes : own.instruction.isBranch = true →
        (machine own.instruction store memory).taken = false) :
      CodeStep (some { rest := own :: rest, next, store, memory })
        ((machine own.instruction store memory).output.map .output)
        (some
          { rest
            next
            store := (machine own.instruction store memory).store
            memory := (machine own.instruction store memory).memory })

def CodeShows (itext : BitVec 64) (store : SubRegister → α) (memory : μ)
    (seen : List (Seen α μ ω)) : Prop :=
  Traces.Trace (CodeStep fetch context machine live_ret)
    (some { rest := [], next := itext, store, memory }) seen

/-- Behind an instruction that ends a block, as a jump or a return and other than a call, nothing
is executed. -/
def Leaves (a : BitVec 64) : Prop :=
  ∀ fetched, fetch a = some fetched → fetched.ends = true → ∀ own ∈ fetched.instrs.getLast?,
    own.instruction.isRet = true ∨ (own.instruction.isBranch = true ∧
      ∀ store memory, (machine own.instruction store memory).taken = true)

end Runs

/-! ### Addresses of blocks -/

variable {α μ ω : Type} {fetch : BitVec 64 → Option Fetched} {context : Context}
variable {machine : AbstractMachine α μ ω} {live_ret : SubRegisterMask} {entry next b : BitVec 64}
variable {state : Reconstruction} {code rest : List DecodedInstruction}
variable {stop : Option (BitVec 64)} {store : SubRegister → α} {memory : μ}

theorem Wired.edge {instr : BlockInstruction (BitVec 64)} {own : DecodedInstruction}
    (wired : Wired context instr own) (branch : own.instruction.isBranch = true) :
    instr.branchEdge = target context own := by
  obtain ⟨itext, known, edge⟩ := wired.branch (wired.same ▸ branch)
  rw [edge, target_eq known]

/-! ### Places that correspond -/

/-- The rest of a block: what is left of the instruction that was fetched last, and what the code
spells behind it. -/
inductive Behind (fetch : BitVec 64 → Option Fetched) (context : Context) (entry : BitVec 64) :
    List DecodedInstruction → BitVec 64 → List DecodedInstruction → Option (BitVec 64) → Prop where
  | on {rest more : List DecodedInstruction} {next : BitVec 64} {stop : Option (BitVec 64)}
      (reaches : Reaches fetch context entry next) (later : Spells fetch next more stop) :
      Behind fetch context entry rest next (rest ++ more) stop
  | ends {a next : BitVec 64} {fetched : Fetched} {front rest : List DecodedInstruction}
      (reaches : Reaches fetch context entry a) (found : fetch a = some fetched)
      (ends : fetched.ends = true) (whole : fetched.instrs = front ++ rest) (nonempty : rest ≠ []) :
      Behind fetch context entry rest next rest none

inductive Related (fetch : BitVec 64 → Option Fetched) (context : Context) (entry : BitVec 64)
    (state : Reconstruction) :
    Option (CodePlace α μ) → Option (MachinePlace (BitVec 64) α μ) → Prop where
  | gone : Related fetch context entry state none none
  | inside {b next : BitVec 64} {index : ℕ} {rest : List DecodedInstruction}
      {left : List (BlockInstruction (BitVec 64))} {store : SubRegister → α} {memory : μ}
      (inMap : b ∈ state.blockMap) (here : (state.nodes.block b).instrs.drop index = left)
      (behind : Behind fetch context entry rest next ((state.code b).drop index)
        (state.nodes.block b).next) :
      Related fetch context entry state (some { rest, next, store, memory })
        (some { block := b, rest := left, store, memory })

theorem fetch_first (machine : AbstractMachine α μ ω) (live_ret : SubRegisterMask)
    {own : DecodedInstruction} (spells : Spells fetch next (own :: code) stop)
    (reaches : Reaches fetch context entry next) (store : SubRegister → α) (memory : μ) :
    ∃ rest later,
      Traces.Run (CodeStep fetch context machine live_ret)
        (some { rest := [], next, store, memory }) []
        (some { rest := own :: rest, next := later, store, memory }) ∧
      Behind fetch context entry (own :: rest) later (own :: code) stop := by
  generalize whole : own :: code = list at spells
  induction spells with
  | here a => cases whole
  | @on a fetched more stop found goesOn later ih =>
      cases instrs : fetched.instrs with
      | nil =>
          rw [instrs, List.nil_append] at whole
          obtain ⟨rest, last, run, behind⟩ := ih (reaches.next found goesOn) whole
          have first : CodeStep fetch context machine live_ret
              (some { rest := [], next := a, store, memory }) none
              (some { rest := [], next := fetched.next, store, memory }) := by
            have step : CodeStep fetch context machine live_ret
                (some { rest := [], next := a, store, memory }) _ _ := .fetch found
            rw [instrs] at step
            exact step
          rw [List.nil_append]
          exact ⟨rest, last, .silent first run, behind⟩
      | cons first others =>
          rw [instrs, List.cons_append] at whole
          obtain ⟨rfl, rfl⟩ := List.cons.inj whole
          refine ⟨others, fetched.next, ?_, ?_⟩
          · rw [← instrs]
            exact .silent (.fetch found) (.nil _)
          · exact .on (reaches.next found goesOn) later
  | @ends a fetched found ends =>
      rw [← whole]
      refine ⟨code, fetched.next, ?_, ?_⟩
      · rw [whole]
        exact .silent (.fetch found) (.nil _)
      · have all : fetched.instrs = [] ++ (own :: code) := whole.symm
        exact .ends reaches found ends all (List.cons_ne_nil own code)

theorem fetch_end {n : BitVec 64}
    (spells : Spells fetch next [] (some n)) (store : SubRegister → α) (memory : μ) :
    Traces.Run (CodeStep fetch context machine live_ret)
      (some { rest := [], next, store, memory }) []
      (some { rest := [], next := n, store, memory }) := by
  obtain ⟨list, nothing⟩ : ∃ list : List DecodedInstruction, list = [] := ⟨[], rfl⟩
  rw [← nothing] at spells
  generalize stops : some n = stop at spells
  induction spells with
  | here a =>
      cases stops
      exact .nil _
  | @on a fetched more stop found goesOn later ih =>
      obtain ⟨instrs, empty⟩ := List.append_eq_nil_iff.mp nothing
      have first : CodeStep fetch context machine live_ret
          (some { rest := [], next := a, store, memory }) none
          (some { rest := [], next := fetched.next, store, memory }) := by
        have step : CodeStep fetch context machine live_ret
            (some { rest := [], next := a, store, memory }) _ _ := .fetch found
        rw [instrs] at step
        exact step
      exact .silent first (ih empty stops)
  | ends _ _ => cases stops

theorem Related.enter (graph : Reconstructed fetch context entry state)
    (inMap : b ∈ state.blockMap) :
    Related fetch context entry state (some { rest := [], next := b, store, memory })
      (some ((state.nodes.cfg entry).enterWith b store memory)) := by
  have start : (state.nodes.block b).instrs.drop 0 = (state.nodes.block b).instrs := rfl
  refine .inside inMap start ?_
  exact .on (graph.reaches b inMap) (graph.spells b inMap)

theorem Reconstructed.mem_next (graph : Reconstructed fetch context entry state) {n : BitVec 64}
    (inMap : b ∈ state.blockMap) (next : (state.nodes.block b).next = some n) :
    n ∈ state.blockMap := by
  rw [graph.blocks] at inMap ⊢
  exact inMap.tail (List.mem_append_left _ (Option.mem_toList.mpr next))

theorem Reconstructed.mem_edge (graph : Reconstructed fetch context entry state) {n : BitVec 64}
    {instr : BlockInstruction (BitVec 64)} (inMap : b ∈ state.blockMap)
    (member : instr ∈ (state.nodes.block b).instrs) (edge : instr.branchEdge = some n) :
    n ∈ state.blockMap := by
  rw [graph.blocks] at inMap ⊢
  exact inMap.tail ((mem_successors graph.balanced b n).mpr (Or.inr ⟨instr, member, edge⟩))

theorem Behind.tail (leaves : ∀ a, Reaches fetch context entry a → Leaves fetch machine a)
    {own : DecodedInstruction} {all : List DecodedInstruction}
    (behind : Behind fetch context entry (own :: rest) next all stop)
    (stays : own.instruction.isRet = false)
    (passes : own.instruction.isBranch = true →
      (machine own.instruction store memory).taken = false) :
    ∃ more, all = own :: more ∧ Behind fetch context entry rest next more stop := by
  cases behind with
  | @on _ more _ _ reaches later => exact ⟨rest ++ more, rfl, .on reaches later⟩
  | @ends a _ fetched front _ reaches found ends whole nonempty =>
      refine ⟨rest, rfl, ?_⟩
      have shifted : fetched.instrs = (front ++ [own]) ++ rest := by
        rw [whole, List.append_assoc, List.singleton_append]
      refine .ends reaches found ends shifted ?_
      rintro rfl
      rw [List.append_nil] at shifted
      have last : own ∈ fetched.instrs.getLast? := by
        rw [shifted, List.getLast?_concat]
        rfl
      rcases leaves a reaches fetched found ends own last with returns | ⟨branch, takes⟩
      · rw [stays] at returns
        cases returns
      · have taken := takes store memory
        rw [passes branch] at taken
        cases taken

theorem Related.lockstep (graph : Reconstructed fetch context entry state)
    (leaves : ∀ a, Reaches fetch context entry a → Leaves fetch machine a)
    {own : DecodedInstruction} {t : Option (MachinePlace (BitVec 64) α μ)}
    (related : Related fetch context entry state
      (some { rest := own :: rest, next, store, memory }) t) :
    Traces.Lockstep (CodeStep fetch context machine live_ret)
      ((state.nodes.cfg entry).MachineStep machine live_ret) (Related fetch context entry state)
      (some { rest := own :: rest, next, store, memory }) t := by
  cases related with
  | @inside b _ index _ left _ _ inMap here behind =>
      have wiredAll := List.forall₂_drop index (graph.wired b)
      rw [here] at wiredAll
      have shape : ∃ more, (state.code b).drop index = own :: more := by
        generalize (state.code b).drop index = all at behind
        generalize (state.nodes.block b).next = stop at behind
        cases behind with
        | @on _ more _ _ _ _ => exact ⟨rest ++ more, rfl⟩
        | ends _ _ _ _ _ => exact ⟨rest, rfl⟩
      obtain ⟨more, codeHere⟩ := shape
      rw [codeHere] at wiredAll
      cases wiredAll with
      | @cons instr _ others _ wired rest' =>
          have found := (LivenessAnalysis.drop_cons here).1
          have hereLater := (LivenessAnalysis.drop_cons here).2
          have codeLater := congrArg List.tail codeHere
          rw [List.tail_drop] at codeLater
          have same := wired.same
          have goesOn (stays : own.instruction.isRet = false)
              (passes : own.instruction.isBranch = true →
                (machine own.instruction store memory).taken = false) :
              Related fetch context entry state
                (some
                  { rest
                    next
                    store := (machine own.instruction store memory).store
                    memory := (machine own.instruction store memory).memory })
                (some
                  { block := b
                    rest := others
                    store := (machine own.instruction store memory).store
                    memory := (machine own.instruction store memory).memory }) := by
            obtain ⟨later, split, behindLater⟩ := behind.tail leaves stays passes
            rw [codeHere] at split
            cases split
            refine .inside inMap hereLater ?_
            rw [codeLater]
            exact behindLater
          have goes {dst : BitVec 64} (edge : instr.branchEdge = some dst) :
              Related fetch context entry state
                (some
                  { rest := []
                    next := dst
                    store := (machine own.instruction store memory).store
                    memory := (machine own.instruction store memory).memory })
                (some ((state.nodes.cfg entry).enterWith dst
                  (machine own.instruction store memory).store
                  (machine own.instruction store memory).memory)) :=
            .enter graph (graph.mem_edge inMap (List.mem_of_getElem? found) edge)
          constructor
          · intro label s' step
            cases step with
            | ret returns =>
                refine ⟨none, .gone, .ret ?_⟩
                rw [same]
                exact returns
            | taken stays branch known takes =>
                have edge := (wired.edge branch).trans known
                refine ⟨_, goes edge, ?_⟩
                rw [← same] at stays branch takes ⊢
                exact .taken stays branch edge takes
            | away stays branch unknown takes =>
                have edge := (wired.edge branch).trans unknown
                refine ⟨none, .gone, ?_⟩
                rw [← same] at stays branch takes ⊢
                exact .away stays branch edge takes
            | on stays passes =>
                refine ⟨_, goesOn stays passes, ?_⟩
                rw [← same] at stays passes ⊢
                exact .on stays passes
          · intro label t' step
            cases step with
            | ret returns =>
                refine ⟨none, .gone, .ret ?_⟩
                rw [← same]
                exact returns
            | taken stays branch edge takes =>
                rw [same] at stays branch takes ⊢
                have known := (wired.edge branch).symm.trans edge
                exact ⟨_, goes edge, .taken stays branch known takes⟩
            | away stays branch edge takes =>
                rw [same] at stays branch takes ⊢
                have unknown := (wired.edge branch).symm.trans edge
                exact ⟨none, .gone, .away stays branch unknown takes⟩
            | on stays passes =>
                rw [same] at stays passes ⊢
                exact ⟨_, goesOn stays passes, .on stays passes⟩

theorem behind_of_fetch {fetched : Fetched} {a : BitVec 64} (well : FetchesWell fetch)
    (spells : Spells fetch a code stop) (found : fetch a = some fetched)
    (reaches : Reaches fetch context entry a) :
    (code = [] ∧ stop = some a) ∨
      Behind fetch context entry fetched.instrs fetched.next code stop := by
  cases spells with
  | here _ => exact Or.inl ⟨rfl, rfl⟩
  | on same goesOn later =>
      rw [found] at same
      cases same
      exact Or.inr (.on (reaches.next found goesOn) later)
  | ends same ends =>
      rw [found] at same
      cases same
      have whole : fetched.instrs = [] ++ fetched.instrs := rfl
      exact Or.inr (.ends reaches found ends whole (well.nonempty a fetched found ends))

theorem Reconstructed.length_eq (graph : Reconstructed fetch context entry state) {index : ℕ}
    (b : BitVec 64) : (state.code b).drop index = [] ↔
      (state.nodes.block b).instrs.drop index = [] := by
  rw [List.drop_eq_nil_iff, List.drop_eq_nil_iff, (graph.wired b).length_eq]

theorem simulates_code (well : FetchesWell fetch)
    (graph : Reconstructed fetch context entry state)
    (leaves : ∀ a, Reaches fetch context entry a → Leaves fetch machine a) :
    Traces.Simulates (CodeStep fetch context machine live_ret)
      ((state.nodes.cfg entry).MachineStep machine live_ret)
      (Related fetch context entry state) := by
  intro s t s' label related step
  cases related with
  | gone => cases step
  | @inside b next index rest left store memory inMap here behind =>
      cases rest with
      | cons own rest =>
          obtain ⟨t', relatedLater, matched⟩ :=
            (Related.lockstep graph leaves (.inside inMap here behind)).forth label s' step
          exact ⟨t', relatedLater, .single matched⟩
      | nil =>
          cases step with
          | @fetch _ fetched _ _ found =>
              generalize whole : (state.code b).drop index = all at behind
              generalize stops : (state.nodes.block b).next = stop at behind
              cases behind with
              | ends _ _ _ _ nonempty => exact absurd rfl nonempty
              | on reaches later =>
                  rw [List.nil_append] at whole
                  rcases behind_of_fetch well later found reaches with ⟨ended, falls⟩ | stays
                  · rw [ended, graph.length_eq] at whole
                    rw [whole] at here
                    subst here
                    rw [falls] at stops
                    have inMapNext := graph.mem_next inMap stops
                    refine ⟨_, ?_, .single (.fall stops)⟩
                    have start : (state.nodes.block next).instrs.drop 0 =
                        (state.nodes.block next).instrs := rfl
                    refine .inside inMapNext start ?_
                    rcases behind_of_fetch well (graph.spells next inMapNext) found reaches with
                      ⟨_, loops⟩ | behind
                    · exact absurd (.single loops) (graph.wellFormed.acyclic next)
                    · exact behind
                  · refine ⟨_, .inside inMap here ?_, .stay _⟩
                    rw [whole, stops]
                    exact stays

theorem simulates_graph (graph : Reconstructed fetch context entry state)
    (leaves : ∀ a, Reaches fetch context entry a → Leaves fetch machine a) :
    Traces.Simulates ((state.nodes.cfg entry).MachineStep machine live_ret)
      (CodeStep fetch context machine live_ret)
      (fun t s => Related fetch context entry state s t) := by
  intro t s t' label related step
  cases related with
  | gone => cases step
  | @inside b next index rest left store memory inMap here behind =>
      cases rest with
      | cons own rest =>
          obtain ⟨s', relatedLater, matched⟩ :=
            (Related.lockstep graph leaves (.inside inMap here behind)).back label t' step
          exact ⟨s', relatedLater, .single matched⟩
      | nil =>
          generalize whole : (state.code b).drop index = all at behind
          generalize stops : (state.nodes.block b).next = stop at behind
          cases behind with
          | ends _ _ _ _ nonempty => exact absurd rfl nonempty
          | @on _ more _ _ reaches later =>
              rw [List.nil_append] at whole
              cases more with
              | nil =>
                  rw [graph.length_eq] at whole
                  rw [whole] at here
                  subst here
                  cases step with
                  | @fall _ n _ _ falls =>
                      have same : (state.nodes.block b).next = some n := falls
                      rw [stops] at same
                      subst same
                      refine ⟨_, .enter graph (graph.mem_next inMap stops), ?_⟩
                      exact Traces.weak_of_silent (fetch_end later store memory)
              | cons own more =>
                  obtain ⟨rest, later, run, behindLater⟩ :=
                    fetch_first machine live_ret later reaches store memory
                  rw [← whole, ← stops] at behindLater
                  obtain ⟨s', relatedLater, matched⟩ :=
                    (Related.lockstep graph leaves (.inside inMap here behindLater)).back label t' step
                  exact ⟨s', relatedLater, Traces.weak_of_run run matched⟩

theorem machineShows_iff_codeShows (well : FetchesWell fetch)
    (graph : Reconstructed fetch context entry state)
    (leaves : ∀ a, Reaches fetch context entry a → Leaves fetch machine a)
    (store : SubRegister → α) (memory : μ) (seen : List (Seen α μ ω)) :
    (state.nodes.cfg entry).MachineShows machine live_ret store memory seen ↔
      CodeShows fetch context machine live_ret entry store memory seen := by
  have start : Related fetch context entry state (some { rest := [], next := entry, store, memory })
      (some ((state.nodes.cfg entry).enterWith entry store memory)) :=
    .enter graph ((graph.blocks entry).mpr .refl)
  exact Traces.trace_iff (simulates_code well graph leaves) (simulates_graph graph leaves) start seen

end Reconstruction

end Drob
