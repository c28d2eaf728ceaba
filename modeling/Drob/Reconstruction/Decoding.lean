import Drob.Passes.DeadWriteRuns
import Drob.Reconstruction.CodeRuns
import Drob.Reconstruction.Converting

/-!
`decodeFunction` on the memory of a process: the graph that it returns holds the code that the
function may get to, it runs like that code, and so does what dead write elimination leaves of it.
-/

namespace Drob

/-- A process with the decoder of its platform and the configuration of the rewriter. -/
structure Process where
  context : Context
  fail_on_unmodelled : Bool
  xed_decode : List (BitVec 8) → Option XedInst
  complete : (xedDecoder fail_on_unmodelled xed_decode).Complete
  /-- The order in which a hash map goes through its entries. -/
  order : List (BitVec 64) → List (BitVec 64)
  permutes : ∀ blocks, (order blocks).Perm blocks

namespace Process

variable (process : Process)

def decoder : Decoder XedInst DecodedInstruction :=
  xedDecoder process.fail_on_unmodelled process.xed_decode

def fetch : BitVec 64 → Option Fetched :=
  Drob.fetch process.decoder process.context.host

def decodeBlock (limit : ℕ) (itext : BitVec 64) :
    Option (Except Failure (List DecodedInstruction)) :=
  Drob.decodeBlock process.decoder process.context.host limit itext

/-- The code from an address on gets to the end of a block, or to where it cannot be decoded. -/
def BlockEnds (itext : BitVec 64) : Prop :=
  ∃ limit, process.decodeBlock limit itext ≠ none

def decodeFunction (limit : ℕ) (itext : BitVec 64) (fuel : ℕ) :
    Except Failure (Option Reconstruction) :=
  Reconstruction.decodeFunction (process.decodeBlock limit) process.context process.order itext
    fuel

end Process

namespace Reconstruction

open DeadWrites LivenessAnalysis

/-! ### The code in the blocks -/

section Coverage

variable {fetch : BitVec 64 → Option Fetched} {context : Context} {entry a : BitVec 64}
variable {state : Reconstruction}

/-- A block spells the code from an address on. -/
def Covered (fetch : BitVec 64 → Option Fetched) (state : Reconstruction) (a : BitVec 64) :
    Prop :=
  ∃ b ∈ state.blockMap, ∃ index,
    Spells fetch a ((state.code b).drop index) (state.nodes.block b).next

theorem Reconstructed.covered_start (graph : Reconstructed fetch context entry state)
    {b : BitVec 64} (inMap : b ∈ state.blockMap) : Covered fetch state b :=
  ⟨b, inMap, 0, graph.spells b inMap⟩

theorem Reconstructed.fetched (graph : Reconstructed fetch context entry state)
    (covered : Covered fetch state a) :
    ∃ b ∈ state.blockMap, ∃ index fetched more, fetch a = some fetched ∧
      (state.code b).drop index = fetched.instrs ++ more ∧
        (fetched.ends = false → Spells fetch fetched.next more (state.nodes.block b).next) := by
  have inside (b : BitVec 64) (inMap : b ∈ state.blockMap) (index : ℕ)
      (spells : Spells fetch a ((state.code b).drop index) (state.nodes.block b).next)
      (stays : (state.nodes.block b).next ≠ some a) :
      ∃ b ∈ state.blockMap, ∃ index fetched more, fetch a = some fetched ∧
        (state.code b).drop index = fetched.instrs ++ more ∧
          (fetched.ends = false →
            Spells fetch fetched.next more (state.nodes.block b).next) := by
    generalize whole : (state.code b).drop index = code at spells
    generalize stops : (state.nodes.block b).next = stop at spells stays
    cases spells with
    | here _ => exact absurd rfl stays
    | @on _ fetched more _ found goesOn later =>
        refine ⟨b, inMap, index, fetched, more, found, whole, fun _ => ?_⟩
        rw [stops]
        exact later
    | @ends _ fetched found ends =>
        refine ⟨b, inMap, index, fetched, [], found, ?_, fun goesOn => ?_⟩
        · rw [List.append_nil]
          exact whole
        · rw [ends] at goesOn
          cases goesOn
  obtain ⟨b, inMap, index, spells⟩ := covered
  by_cases falls : (state.nodes.block b).next = some a
  · -- The block ends here, and the next one has the instruction: it does not follow itself.
    have inMapNext := graph.mem_next inMap falls
    have start : (state.code a).drop 0 = state.code a := rfl
    refine inside a inMapNext 0 (start ▸ graph.spells a inMapNext) ?_
    intro loops
    exact graph.wellFormed.acyclic a (.single loops)
  · exact inside b inMap index spells falls

theorem Reconstructed.covered (graph : Reconstructed fetch context entry state)
    (reaches : Reaches fetch context entry a) : Covered fetch state a := by
  induction reaches with
  | entry => exact graph.covered_start ((graph.blocks entry).mpr .refl)
  | @next a fetched _ found goesOn ih =>
      obtain ⟨b, inMap, index, other, more, same, here, later⟩ := graph.fetched ih
      rw [found] at same
      cases same
      refine ⟨b, inMap, index + fetched.instrs.length, ?_⟩
      rw [← List.drop_drop, here, List.drop_left]
      exact later goesOn
  | @branch a dst fetched own _ found member branch goes ih =>
      obtain ⟨b, inMap, index, other, more, same, here, _⟩ := graph.fetched ih
      rw [found] at same
      cases same
      have inCode : own ∈ state.code b := by
        apply List.mem_of_mem_drop (i := index)
        rw [here]
        exact List.mem_append_left more member
      obtain ⟨i, foundCode⟩ := List.mem_iff_getElem?.mp inCode
      obtain ⟨insideCode, rfl⟩ := List.getElem?_eq_some_iff.mp foundCode
      have inside : i < (state.nodes.block b).instrs.length :=
        (graph.wired b).length_eq ▸ insideCode
      have wired := (graph.wired b).get inside insideCode
      exact graph.covered_start
        (graph.mem_edge inMap (List.getElem_mem inside) ((wired.edge branch).trans goes))

end Coverage

/-! ### The pass -/

section Pass

variable (process : Process) (limit : ℕ) {entry : BitVec 64} {fuel : ℕ} {state : Reconstruction}

theorem fetch_well : FetchesWell process.fetch :=
  fetchesWell (xedDecoder_converts _ _) process.context.host

theorem spells_block (itext : BitVec 64) (instrs : List DecodedInstruction)
    (decoded : process.decodeBlock limit itext = some (.ok instrs)) :
    Spells process.fetch itext instrs none :=
  spells_decodeBlock process.complete decoded

theorem exists_limit : ∃ limit, ∀ itext, process.BlockEnds itext →
    process.decodeBlock limit itext ≠ none := by
  classical
  have own (itext : BitVec 64) :
      ∃ limit, process.BlockEnds itext → process.decodeBlock limit itext ≠ none := by
    by_cases ends : process.BlockEnds itext
    · obtain ⟨limit, ended⟩ := ends
      exact ⟨limit, fun _ => ended⟩
    · exact ⟨0, fun impossible => absurd impossible ends⟩
  choose limits ended using own
  obtain ⟨limit, bound⟩ := Set.finite_range limits |>.bddAbove
  refine ⟨limit, fun itext ends longer => ?_⟩
  obtain ⟨result, returned⟩ := Option.ne_none_iff_exists'.mp (ended itext ends)
  have same := decodeLoop_mono (bound (Set.mem_range_self itext)) returned
  exact Option.some_ne_none result (same.symm.trans longer)

theorem reconstructed_of_decodeFunction
    (returned : process.decodeFunction limit entry fuel = .ok (some state)) :
    Reconstructed process.fetch process.context entry state :=
  ((decodeFunction_spec (fetch_well process) (spells_block process limit) process.permutes
    entry).2 fuel).1 state returned

/-- Nothing comes behind a return or a call. -/
structure ClosedBlocks (state : Reconstruction) : Prop where
  last : ∀ b, ∀ instr ∈ (state.nodes.block b).instrs.dropLast, ¬ Closes instr.instruction
  leaves : ∀ b, ∀ instr ∈ (state.nodes.block b).instrs, Closes instr.instruction →
    (state.nodes.block b).next = none

theorem map_instruction_of_wired {context : Context}
    {instrs : List (BlockInstruction (BitVec 64))} {code : List DecodedInstruction}
    (wired : List.Forall₂ (Wired context) instrs code) :
    instrs.map BlockInstruction.instruction = code.map DecodedInstruction.instruction := by
  induction wired with
  | nil => rfl
  | cons first _ ih => rw [List.map_cons, List.map_cons, first.same, ih]

theorem Reconstructed.closedBlocks {fetch : BitVec 64 → Option Fetched} {context : Context}
    (well : FetchesWell fetch) (graph : Reconstructed fetch context entry state) :
    ClosedBlocks state := by
  have inMap {b : BitVec 64} {instr : BlockInstruction (BitVec 64)}
      (member : instr ∈ (state.nodes.block b).instrs) : b ∈ state.blockMap := by
    by_contra outside
    rw [(graph.unallocated b outside).empty] at member
    cases member
  have same (b : BitVec 64) := map_instruction_of_wired (graph.wired b)
  constructor
  · intro b instr member closes
    have last := ((graph.spells b (inMap (List.mem_of_mem_dropLast member))).closes well).1
    have there : instr.instruction ∈
        ((state.nodes.block b).instrs.map BlockInstruction.instruction).dropLast := by
      rw [← List.map_dropLast]
      exact List.mem_map_of_mem member
    rw [same, ← List.map_dropLast] at there
    obtain ⟨own, inCode, isOwn⟩ := List.mem_map.mp there
    exact last own inCode (isOwn ▸ closes)
  · intro b instr member closes
    have leaves := ((graph.spells b (inMap member)).closes well).2
    have there : instr.instruction ∈
        (state.nodes.block b).instrs.map BlockInstruction.instruction :=
      List.mem_map_of_mem member
    rw [same] at there
    obtain ⟨own, inCode, isOwn⟩ := List.mem_map.mp there
    exact leaves own inCode (isOwn ▸ closes)

theorem Reconstructed.returnEdges_nonempty {fetch : BitVec 64 → Option Fetched}
    {context : Context} (graph : Reconstructed fetch context entry state) {b : BitVec 64}
    (returns : ∃ instr ∈ (state.nodes.block b).instrs, instr.instruction.isRet = true) :
    state.returnEdges ≠ [] := by
  intro none
  have counts := graph.returnEdges.count b
  rw [none, List.count_nil] at counts
  obtain ⟨instr, member, isRet⟩ := returns
  exact absurd isRet (List.countP_eq_zero.mp counts.symm instr member)

/-- The pass ends if all blocks that the code gets to end. The graph that it returns is well
formed, and its branches lead to the blocks of their targets. It fails only where the code that it
gets to cannot be decoded or the target of a branch cannot be read. -/
theorem decodeFunction_graph (entry : BitVec 64) :
    ((∀ a, Reaches process.fetch process.context entry a → process.BlockEnds a) →
        ∃ limit fuel, process.decodeFunction limit entry fuel ≠ .ok none) ∧
      ∀ limit fuel,
        (∀ state, process.decodeFunction limit entry fuel = .ok (some state) →
          Reconstructed process.fetch process.context entry state ∧ ClosedBlocks state) ∧
        ∀ failure, process.decodeFunction limit entry fuel = .error failure →
          FailsThere process.fetch (process.decodeBlock limit) process.context entry failure := by
  have spec (limit : ℕ) := @decodeFunction_spec _ process.context _ _ (fetch_well process)
    (spells_block process limit) process.permutes entry
  constructor
  · intro ends
    obtain ⟨limit, ended⟩ := exists_limit process
    exact ⟨limit, (spec limit).1 (fun a reaches => ended a (ends a reaches))⟩
  · intro limit fuel
    refine ⟨?_, ((spec limit).2 fuel).2⟩
    intro state returned
    have graph := ((spec limit).2 fuel).1 state returned
    exact ⟨graph, graph.closedBlocks (fetch_well process)⟩

/-- The blocks hold the instructions that the code may get to and no others, and each one that is
fetched stands in one piece. -/
theorem decodeFunction_covers
    (returned : process.decodeFunction limit entry fuel = .ok (some state)) :
    (∀ a, Reaches process.fetch process.context entry a →
      ∃ fetched, process.fetch a = some fetched ∧
        ∃ b ∈ state.blockMap, fetched.instrs <:+: state.code b) ∧
      ∀ b ∈ state.blockMap, ∀ own ∈ state.code b,
        Reaches process.fetch process.context entry own.itext ∧
          ∃ fetched, process.fetch own.itext = some fetched ∧ own ∈ fetched.instrs := by
  have graph := reconstructed_of_decodeFunction process limit returned
  constructor
  · intro a reaches
    obtain ⟨b, inMap, index, fetched, more, found, here, _⟩ :=
      graph.fetched (graph.covered reaches)
    refine ⟨fetched, found, b, inMap, (state.code b).take index, more, ?_⟩
    rw [List.append_assoc, ← here, List.take_append_drop]
  · intro b inMap own member
    obtain ⟨a, fetched, reaches, found, inGroup⟩ :=
      (reaches_of_spells (graph.spells b inMap) (graph.reaches b inMap)).1 own member
    have isStart : own.itext = a := (fetch_well process).itext a fetched found own inGroup
    rw [isStart]
    exact ⟨reaches, fetched, found, inGroup⟩

/-- Where nothing is executed behind the instructions that end blocks, so where the function calls
nothing that comes back, the graph runs like the code. -/
theorem decodeFunction_runs
    (returned : process.decodeFunction limit entry fuel = .ok (some state)) {α μ ω : Type}
    (machine : AbstractMachine α μ ω) (live_ret : SubRegisterMask)
    (leaves : ∀ a, Reaches process.fetch process.context entry a →
      Leaves process.fetch machine a)
    (store : SubRegister → α) (memory : μ) (seen : List (Seen α μ ω)) :
    (state.nodes.cfg entry).MachineShows machine live_ret store memory seen ↔
      CodeShows process.fetch process.context machine live_ret entry store memory seen :=
  machineShows_iff_codeShows (fetch_well process)
    (reconstructed_of_decodeFunction process limit returned) leaves store memory seen

/-- Dead code elimination ends on the graph of a process, whatever blocks of it the stack analysis
got to, and shows what is left of each run that agrees with what the analysis found. -/
theorem eliminateDeadCode_decoded
    (returned : process.decodeFunction limit entry fuel = .ok (some state))
    (entryState : BitVec 64 → Option ProgramState)
    (attached : ∀ b, (entryState b).isSome = true → b ∈ state.blockMap)
    (willExecute : BitVec 64 → ℕ → Option TriState) :
    ∃ later, Nodes.eliminateDeadCode state.blockMap willExecute
        { state.nodes with entryState } = .ok later ∧ later.entryBlock = some entry ∧
      ((entryState entry).isSome = true → ∀ events place,
        Traces.Run (Nodes.AgreedStep { state.nodes with entryState } willExecute entry)
          (some ((state.nodes.cfg entry).enter entry)) events place →
        ∃ last, (later.cfg entry).Reaches events last ∧
          last.map Point.block = place.map Point.block) := by
  have graph := reconstructed_of_decodeFunction process limit returned
  let nodes : Nodes (BitVec 64) := { state.nodes with entryState }
  have entryBlock : nodes.entryBlock = some entry := graph.entryBlock
  have balanced : nodes.Balanced := ⟨graph.balanced.outgoing, graph.balanced.incoming⟩
  obtain ⟨later, ran, entryLater, eliminated⟩ := Nodes.exists_eliminated willExecute entryBlock
    balanced graph.wellFormed.next_prev graph.once attached
  refine ⟨later, ran, entryLater, ?_⟩
  exact fun analysed _ _ run => (eliminated analysed).reaches analysed run

/-- From the code of a process to what dead write elimination leaves of its graph: the result
runs like the code. -/
theorem eliminateDeadWrites_decoded {dynInfo : BitVec 64 → ℕ → Option DynamicInstructionInfo}
    {effects : BitVec 64 → ℕ → RegisterEffects} {spec : RegisterSpecification}
    {fuelAnalysis : ℕ} {analysis : LivenessAnalysis (BitVec 64)}
    (returned : process.decodeFunction limit entry fuel = .ok (some state))
    (returns : ∀ b ∈ state.blockMap, FoundFromReturn state.nodes.block b)
    (known : LivenessAnalysis.EffectsOf (state.nodes.cfg entry) dynInfo effects)
    (ran : LivenessAnalysis.handleFunction state.nodes.block dynInfo false (some spec)
      state.returnEdges fuelAnalysis = .ok (some (.analysed analysis))) :
    ∃ later, Nodes.eliminateDeadWrites state.blockMap
        { state.nodes with block := labelled analysis state.nodes.block } = .ok later ∧
      later.Balanced ∧
        ∀ {α μ ω : Type} (machine : AbstractMachine α μ ω) (store : SubRegister → α) (memory : μ),
          (∀ a, Reaches process.fetch process.context entry a →
            Leaves process.fetch machine a) →
          TrueOnRuns (state.nodes.cfg entry) effects machine (spec.out ∪ spec.preserved) store
            memory →
          ∀ seen, (later.cfg entry).MachineShows machine (spec.out ∪ spec.preserved) store memory
              seen ↔
            CodeShows process.fetch process.context machine (spec.out ∪ spec.preserved) entry
              store memory seen := by
  have graph := reconstructed_of_decodeFunction process limit returned
  have nonempty : state.returnEdges ≠ [] := by
    obtain ⟨last, returnsThere, _⟩ := returns entry ((graph.blocks entry).mpr .refl)
    exact graph.returnEdges_nonempty returnsThere
  have exact_ : LivenessAnalysis.Exact (state.nodes.cfg entry) effects
      (spec.out ∪ spec.preserved) analysis :=
    LivenessAnalysis.exact_of_handleFunction graph.wellFormed graph.returnEdges nonempty known ran
  obtain ⟨later, removed, balanced, _, shows⟩ := eliminateDeadWrites_of_exact graph.entryBlock
    graph.balanced graph.once graph.wellFormed
    (fun b reachable => ⟨(graph.blocks b).mpr reachable,
      returns b ((graph.blocks b).mpr reachable)⟩) exact_
  refine ⟨later, removed, balanced, ?_⟩
  intro α μ ω machine store memory leaves holds seen
  exact (shows machine store memory holds seen).trans
    (machineShows_iff_codeShows (fetch_well process) graph leaves store memory seen)

end Pass

end Reconstruction

/-! ### A loop into the entry block -/

structure XedTable where
  entries : List (List (BitVec 8) × XedInst)
  fits : ∀ entry ∈ entries, entry.2.length = entry.1.length ∧ 0 < entry.1.length ∧
    entry.1.length ≤ ARCH_MAX_ILEN
  apart : entries.Pairwise (fun entry other => ¬ entry.1 <+: other.1 ∧ ¬ other.1 <+: entry.1)

def XedTable.xed_decode (table : XedTable) (bytes : List (BitVec 8)) : Option XedInst :=
  (table.entries.find? (fun entry => entry.1.isPrefixOf bytes)).map Prod.snd

theorem XedTable.xed_decode_some {table : XedTable} {bytes : List (BitVec 8)} {xedd : XedInst}
    (decoded : table.xed_decode bytes = some xedd) :
    ∃ entry ∈ table.entries, entry.1 <+: bytes ∧ entry.2 = xedd := by
  obtain ⟨entry, found, same⟩ := Option.map_eq_some_iff.mp decoded
  have starts := List.find?_some found
  exact ⟨entry, List.mem_of_find?_eq_some found, List.isPrefixOf_iff_prefix.mp starts, same⟩

theorem XedTable.complete (table : XedTable) (fail_on_unmodelled : Bool) :
    (xedDecoder fail_on_unmodelled table.xed_decode).Complete := by
  constructor
  · intro bytes xedd decoded
    obtain ⟨entry, member, starts, rfl⟩ := XedTable.xed_decode_some decoded
    obtain ⟨length, positive, short⟩ := table.fits entry member
    change 0 < entry.2.length ∧ entry.2.length ≤ ARCH_MAX_ILEN ∧ entry.2.length ≤ bytes.length
    rw [length]
    exact ⟨positive, short, starts.length_le⟩
  · intro bytes xedd decoded other same enough
    obtain ⟨entry, member, starts, rfl⟩ := XedTable.xed_decode_some decoded
    obtain ⟨length, _, _⟩ := table.fits entry member
    change bytes.take entry.2.length = other.take entry.2.length at same
    rw [length, List.prefix_iff_eq_take.mp starts |>.symm] at same
    have startsOther : entry.1 <+: other := same ▸ List.take_prefix _ other
    change table.xed_decode other = some entry.2
    unfold XedTable.xed_decode
    cases found : table.entries.find? (fun entry => entry.1.isPrefixOf other) with
    | none =>
        have noEntry := List.find?_eq_none.mp found entry member
        exact absurd (List.isPrefixOf_iff_prefix.mpr startsOther) noEntry
    | some first =>
        have starts := List.find?_some found
        have startsFirst : first.1 <+: other := List.isPrefixOf_iff_prefix.mp starts
        by_contra differs
        have differ : entry ≠ first := by
          rintro rfl
          exact differs rfl
        have symmetric : Std.Symm (fun entry other : List (BitVec 8) × XedInst =>
            ¬ entry.1 <+: other.1 ∧ ¬ other.1 <+: entry.1) := ⟨fun _ _ apart => apart.symm⟩
        have apart := table.apart.forall member (List.mem_of_find?_eq_some found) differ
        rcases List.prefix_or_prefix_of_prefix startsOther startsFirst with before | behind
        · exact apart.1 before
        · exact apart.2 behind

def plainInst (length : ℕ) (category : XedCategory) (simple : BitVec 64 → Instruction)
    (classified : ∀ itext, ((simple itext).isRet = true → category = .RET) ∧
      ((simple itext).isCall = true → category = .CALL)) : XedInst where
  length
  category
  segmentOverride := false
  ripRelative := false
  loop := none
  simple := fun itext => .ok (some (simple itext))
  classified := by
    intro itext instruction same
    cases same
    exact classified itext

/-- `add rcx, rbx`, `add rax, rbx`, a JNZ to the second of them, and `ret`. -/
def sumTable : XedTable where
  entries :=
    [([0x48, 0x01, 0xd9], plainInst 3 .OTHER
        (fun _ => ⟨.ADD64rr, [.reg (.gprs64 .C), .reg (.gprs64 .B)]⟩)
        (fun _ => ⟨nofun, nofun⟩)),
      ([0x48, 0x01, 0xd8], plainInst 3 .OTHER
        (fun _ => ⟨.ADD64rr, [.reg (.gprs64 .A), .reg (.gprs64 .B)]⟩)
        (fun _ => ⟨nofun, nofun⟩)),
      ([0x75, 0xfb], plainInst 2 .COND_BR
        (fun itext => ⟨.JNZa, [.mem (.direct (.plain (itext - 3)))]⟩)
        (fun _ => ⟨nofun, nofun⟩)),
      ([0xc3], plainInst 1 .RET (fun _ => ⟨.RET, []⟩)
        (fun _ => ⟨fun _ => rfl, nofun⟩))]
  fits := by decide
  apart := by decide

def sumBytes : List (BitVec 8) :=
  [0x48, 0x01, 0xd9, 0x48, 0x01, 0xd8, 0x75, 0xfb, 0xc3]

def sumLoop : Process where
  context :=
    { usrPtrCfg := []
      memProtCache := { memoryRanges := [], ranges := [] }
      host := fun addr => sumBytes.getD (addr - 0x400000).toNat 0 }
  fail_on_unmodelled := false
  xed_decode := sumTable.xed_decode
  complete := sumTable.complete false
  order := id
  permutes := fun blocks => List.Perm.refl blocks

namespace Reconstruction

open DeadWrites LivenessAnalysis

theorem sumLoop_decoded :
    ∃ state, sumLoop.decodeFunction 8 0x400000 16 = .ok (some state) ∧
      state.blockMap = [0x400000, 0x400003] ∧
      (state.nodes.block 0x400000).next = some 0x400003 ∧
      (state.nodes.block 0x400003).instrs.map (fun instr => instr.instruction.opcode) =
        [.ADD64rr, .JNZa, .RET] :=
  ⟨_, rfl, rfl, rfl, rfl⟩

theorem sumLoop_fetch {a : BitVec 64} {fetched : Fetched}
    (found : sumLoop.fetch a = some fetched) :
    ∀ own ∈ fetched.instrs, (∃ effects, registerEffects none own.instruction = .ok effects) ∧
      (fetched.ends = true → own.instruction.isRet = true) := by
  obtain ⟨ret, decoded, kind⟩ := fetch_cases found
  rcases arch_decode_one_cases decoded with ⟨none, _⟩ | ⟨xedd, inTable, converted⟩
  · rw [none]
    nofun
  · obtain ⟨entry, member, _, rfl⟩ := XedTable.xed_decode_some inTable
    have goesOn (ok : ret = .Ok) : ¬ fetched.ends = true := by
      intro ends
      rcases kind with ⟨_, eob⟩ | ⟨stays, _⟩
      · rw [ok] at eob
        cases eob
      · rw [ends] at stays
        cases stays
    have single {ret' : DecodeRet} {instr : DecodedInstruction}
        (same : (.ok (ret', [instr]) : Except Failure _) = .ok (ret, fetched.instrs)) :
        ret' = ret ∧ ∀ own ∈ fetched.instrs, own = instr := by
      obtain ⟨isRet, isInstr⟩ := Prod.mk.inj (Except.ok.inj same)
      refine ⟨isRet, fun own member => ?_⟩
      rw [← isInstr] at member
      exact List.mem_singleton.mp member
    intro own inGroup
    rcases List.mem_cons.mp member with rfl | member
    · obtain ⟨isRet, instrs⟩ := single converted
      rw [instrs own inGroup]
      exact ⟨⟨_, rfl⟩, fun ends => absurd ends (goesOn isRet.symm)⟩
    rcases List.mem_cons.mp member with rfl | member
    · obtain ⟨isRet, instrs⟩ := single converted
      rw [instrs own inGroup]
      exact ⟨⟨_, rfl⟩, fun ends => absurd ends (goesOn isRet.symm)⟩
    rcases List.mem_cons.mp member with rfl | member
    · obtain ⟨isRet, instrs⟩ := single converted
      rw [instrs own inGroup]
      exact ⟨⟨_, rfl⟩, fun ends => absurd ends (goesOn isRet.symm)⟩
    rw [List.mem_singleton.mp member] at converted
    obtain ⟨_, instrs⟩ := single converted
    rw [instrs own inGroup]
    exact ⟨⟨_, rfl⟩, fun _ => rfl⟩

theorem sumLoop_leaves (a : BitVec 64) : Leaves sumLoop.fetch clearing a := by
  intro fetched found ends own last
  exact Or.inl ((sumLoop_fetch found own (List.mem_of_getLast? last)).2 ends)

theorem sumLoop_reaches {a : BitVec 64}
    (reaches : Reaches sumLoop.fetch sumLoop.context 0x400000 a) :
    a ∈ [(0x400000 : BitVec 64), 0x400003, 0x400006, 0x400008] := by
  induction reaches with
  | entry => exact List.mem_cons_self
  | next _ found goesOn ih =>
      simp only [List.mem_cons, List.not_mem_nil, or_false] at ih
      rcases ih with rfl | rfl | rfl | rfl
      · cases found
        decide
      · cases found
        decide
      · cases found
        decide
      · cases found
        cases goesOn
  | branch _ found member branch goes ih =>
      simp only [List.mem_cons, List.not_mem_nil, or_false] at ih
      rcases ih with rfl | rfl | rfl | rfl
      · cases found
        cases List.mem_singleton.mp member
        cases branch
      · cases found
        cases List.mem_singleton.mp member
        cases branch
      · cases found
        cases List.mem_singleton.mp member
        cases goes
        decide
      · cases found
        cases List.mem_singleton.mp member
        cases branch

theorem decodeFunction_graph_sumLoop :
    (∃ limit fuel, sumLoop.decodeFunction limit 0x400000 fuel ≠ .ok none) ∧
      ∃ state, sumLoop.decodeFunction 8 0x400000 16 = .ok (some state) ∧
        Reconstructed sumLoop.fetch sumLoop.context 0x400000 state ∧ ClosedBlocks state := by
  obtain ⟨ends, spec⟩ := decodeFunction_graph sumLoop 0x400000
  obtain ⟨state, returned, _⟩ := sumLoop_decoded
  refine ⟨ends fun a reaches => ⟨8, ?_⟩, state, returned, (spec 8 16).1 state returned⟩
  have member := sumLoop_reaches reaches
  simp only [List.mem_cons, List.not_mem_nil, or_false] at member
  rcases member with rfl | rfl | rfl | rfl <;> exact Option.some_ne_none _
theorem decodeFunction_covers_sumLoop :
    ∃ state, sumLoop.decodeFunction 8 0x400000 16 = .ok (some state) ∧
      (∀ a, Reaches sumLoop.fetch sumLoop.context 0x400000 a →
        ∃ fetched, sumLoop.fetch a = some fetched ∧
          ∃ b ∈ state.blockMap, fetched.instrs <:+: state.code b) ∧
        ∀ b ∈ state.blockMap, ∀ own ∈ state.code b,
          Reaches sumLoop.fetch sumLoop.context 0x400000 own.itext ∧
            ∃ fetched, sumLoop.fetch own.itext = some fetched ∧ own ∈ fetched.instrs := by
  obtain ⟨state, returned, _⟩ := sumLoop_decoded
  exact ⟨state, returned, decodeFunction_covers sumLoop 8 returned⟩

theorem decodeFunction_runs_sumLoop :
    ∃ state, sumLoop.decodeFunction 8 0x400000 16 = .ok (some state) ∧ ∀ store seen,
      (state.nodes.cfg 0x400000).MachineShows clearing (fullSubRegisterMask (.gprs64 .A)) store ()
          seen ↔
        CodeShows sumLoop.fetch sumLoop.context clearing (fullSubRegisterMask (.gprs64 .A))
          0x400000 store () seen := by
  obtain ⟨state, returned, _⟩ := sumLoop_decoded
  exact ⟨state, returned, fun store seen => decodeFunction_runs sumLoop 8 returned clearing _
    (fun a _ => sumLoop_leaves a) store () seen⟩

/-- RCX does not live, so the addition to it is removed. -/
theorem eliminateDeadWrites_decoded_sumLoop :
    ∃ state, sumLoop.decodeFunction 8 0x400000 16 = .ok (some state) ∧
      ∃ fuel analysis,
        LivenessAnalysis.handleFunction state.nodes.block (fun _ _ => none) false
            (some { out := fullSubRegisterMask (.gprs64 .A), preserved := ∅ }) state.returnEdges
            fuel = .ok (some (.analysed analysis)) ∧
          ∃ later, Nodes.eliminateDeadWrites state.blockMap
              { state.nodes with block := labelled analysis state.nodes.block } = .ok later ∧
            ∀ store seen, (later.cfg 0x400000).MachineShows clearing
                (fullSubRegisterMask (.gprs64 .A) ∪ ∅) store () seen ↔
              CodeShows sumLoop.fetch sumLoop.context clearing
                (fullSubRegisterMask (.gprs64 .A) ∪ ∅) 0x400000 store () seen := by
  obtain ⟨state, returned, blocks, next, opcodes⟩ := sumLoop_decoded
  have graph := reconstructed_of_decodeFunction sumLoop 8 returned
  have returnsThere : ∃ instr ∈ (state.nodes.block 0x400003).instrs,
      instr.instruction.isRet = true := by
    have there : Opcode.RET ∈ (state.nodes.block 0x400003).instrs.map
        (fun instr => instr.instruction.opcode) := by
      rw [opcodes]
      decide
    obtain ⟨instr, member, isOpcode⟩ := List.mem_map.mp there
    refine ⟨instr, member, ?_⟩
    unfold Instruction.isRet Instruction.opcodeInfo
    rw [isOpcode]
    rfl
  have returns (b : BitVec 64) (inMap : b ∈ state.blockMap) :
      FoundFromReturn state.nodes.block b := by
    refine ⟨0x400003, returnsThere, ?_⟩
    rw [blocks] at inMap
    rcases List.mem_cons.mp inMap with rfl | inMap
    · have prev := (graph.wellFormed.next_prev _ _).mp next
      refine .single (Or.inl ?_)
      exact List.mem_append_right _ (Option.mem_toList.mpr prev)
    · rw [List.mem_singleton.mp inMap]
  have inMap (b : BitVec 64) {instr : BlockInstruction (BitVec 64)}
      (member : instr ∈ (state.nodes.block b).instrs) : b ∈ state.blockMap := by
    by_contra outside
    rw [(graph.unallocated b outside).empty] at member
    cases member
  have readable : ∀ b, ∀ instr ∈ ((state.nodes.cfg 0x400000).block b).instrs,
      ∃ effects, registerEffects none instr.instruction = .ok effects := by
    intro b instr member
    have there : instr.instruction ∈
        (state.nodes.block b).instrs.map BlockInstruction.instruction :=
      List.mem_map_of_mem member
    rw [map_instruction_of_wired (graph.wired b)] at there
    obtain ⟨own, inCode, isOwn⟩ := List.mem_map.mp there
    obtain ⟨a, fetched, _, found, inGroup⟩ :=
      (reaches_of_spells (graph.spells b (inMap b member)) (graph.reaches b (inMap b member))).1
        own inCode
    rw [← isOwn]
    exact (sumLoop_fetch found own inGroup).1
  have known := effectsOf_static readable
  obtain ⟨fuel, analysis, ran⟩ := LivenessAnalysis.handleFunction_ends graph.wellFormed
    graph.returnEdges (graph.returnEdges_nonempty returnsThere) known
    { out := fullSubRegisterMask (.gprs64 .A), preserved := ∅ }
  obtain ⟨later, removed, _, shows⟩ := eliminateDeadWrites_decoded sumLoop 8 returned returns known
    ran
  refine ⟨state, returned, fuel, analysis, ran, later, removed, fun store =>
    shows clearing store () (fun a _ => sumLoop_leaves a) ?_⟩
  intro b index instr now nowMemory there _
  have read : registerEffects none instr.instruction =
      .ok (staticEffects (state.nodes.cfg 0x400000) b index) :=
    known b (returns b (inMap b (List.mem_of_getElem? there))) index instr there
  exact clearing_true read now nowMemory

end Reconstruction

end Drob
