import Drob.Reconstruction.Steps

/-!
The graph that `decodeFunction` returns: it is well formed, its blocks are exactly the ones that
are reached from the entry, and each branch leads to the block of its target if that is known.
-/

namespace Drob

open FunctionNode

namespace Reconstruction

/-- The edge of an instruction leads to its target, null is no target. -/
structure Wired (context : Context) (instr : BlockInstruction (BitVec 64))
    (own : DecodedInstruction) : Prop where
  same : instr.instruction = own.instruction
  branch : instr.instruction.isBranch = true → ∃ itext,
    own.getRawTarget context = .ok itext ∧ instr.branchEdge = if itext = 0 then none else some itext
  other : instr.instruction.isBranch = false → instr.branchEdge = none

/-- What `decodeFunction` returns. -/
structure Reconstructed (fetch : BitVec 64 → Option Fetched) (context : Context)
    (entry : BitVec 64) (state : Reconstruction) : Prop where
  entryBlock : state.nodes.entryBlock = some entry
  once : state.blockMap.Nodup
  wellFormed : (state.nodes.cfg entry).WellFormed
  balanced : state.nodes.Balanced
  returnEdges : LivenessAnalysis.ReturnEdges state.nodes.block state.returnEdges
  unallocated : ∀ b, b ∉ state.blockMap → state.nodes.Unallocated b
  blocks : ∀ b, b ∈ state.blockMap ↔
    Relation.ReflTransGen (fun b n => n ∈ (state.nodes.cfg entry).successors b) entry b
  reaches : ∀ b ∈ state.blockMap, Reaches fetch context entry b
  spells : ∀ b ∈ state.blockMap, Spells fetch b (state.code b) (state.nodes.block b).next
  wired : ∀ b, List.Forall₂ (Wired context) (state.nodes.block b).instrs (state.code b)

variable {fetch : BitVec 64 → Option Fetched} {context : Context} {entry itext : BitVec 64}
variable {state : Reconstruction}

/-! ### The entry block -/

theorem newFunction_unallocated (x : BitVec 64) : newFunction.Unallocated x :=
  ⟨rfl, nofun, nofun⟩

theorem newFunction_balanced : newFunction.Balanced :=
  ⟨fun _ _ => rfl, fun _ _ => rfl⟩

theorem Sound.start {instrs : List DecodedInstruction}
    (spells : Spells fetch entry instrs none) :
    Sound fetch context entry (Reconstruction.start entry instrs) := by
  have unallocated := newFunction_unallocated entry
  have keeps := Nodes.keeps_decodeBlock unallocated (instrs.map DecodedInstruction.instruction)
  have balanced := newFunction_balanced.decodeBlock unallocated
    (instrs.map DecodedInstruction.instruction)
  have blocks := Nodes.block_decodeBlock newFunction entry
  have linked : Linked newFunction.block := fun _ _ => ⟨nofun, nofun⟩
  have acyclic : Acyclic newFunction.block := by
    intro b cycle
    obtain ⟨_, next, _⟩ := Relation.TransGen.head'_iff.mp cycle
    cases next
  have only {x : BitVec 64} (member : x ∈ [entry]) : x = entry := List.mem_singleton.mp member
  have codeHere : Function.update (fun _ => []) entry instrs entry = instrs :=
    Function.update_self entry instrs fun _ => []
  refine ⟨⟨List.nodup_singleton entry, rfl, List.mem_singleton_self entry, ?_,
    ⟨balanced.outgoing, balanced.incoming⟩, keeps.linked linked, keeps.acyclic acyclic, ?_, ?_, ?_⟩,
    ⟨fun _ member => member, List.nodup_nil, nofun, ?_, List.nodup_nil,
      nofun, ?_⟩, ?_⟩
  · intro x outside
    have notEntry : x ≠ entry := fun same => outside (List.mem_singleton.mpr same)
    change ((newFunction.decodeBlock entry _).block x).instrs = [] ∧
      ((newFunction.decodeBlock entry _).block x).next = none
    rw [blocks, if_neg notEntry]
    exact ⟨rfl, rfl⟩
  · intro x
    change List.Forall₂ _ ((newFunction.decodeBlock entry _).block x).instrs
      (Function.update (fun _ => []) entry instrs x)
    rw [blocks, Function.update_apply]
    split
    · dsimp only
      rw [List.map_map, List.forall₂_map_left_iff, List.forall₂_same]
      intro own _
      exact ⟨rfl, fun dst impossible => by cases impossible⟩
    · exact .nil
  · intro x member
    rw [only member]
    change Spells fetch entry (Function.update (fun _ => []) entry instrs entry)
      ((newFunction.decodeBlock entry _).block entry).next
    rw [keeps.next, codeHere]
    exact spells
  · intro x n next
    change ((newFunction.decodeBlock entry _).block x).next = some n at next
    rw [keeps.next] at next
    cases next
  · intro x member offStack
    exact absurd member offStack
  · intro x member offStack
    exact absurd member offStack
  · intro x member
    rw [only member]

/-! ### The end of the loop -/

section Pass

variable {decodeBlock : BitVec 64 → Option (Except Failure (List DecodedInstruction))}
variable {order : List (BitVec 64) → List (BitVec 64)}

theorem finished_of_step (ended : step decodeBlock context order state = .ok none) :
    state.edges = [] ∧ state.resolveStack = [] := by
  unfold step at ended
  split at ended
  · split at ended
    · cases ended
    · obtain ⟨_, _, goesOn⟩ := bind_ok ended
      obtain ⟨_, _, impossible⟩ := bind_ok goesOn
      cases impossible
  · rename_i finished
    split at ended
    · rename_i empty
      exact ⟨finished, empty⟩
    · cases ended

theorem mem_successors {nodes : Nodes (BitVec 64)} (balanced : nodes.Balanced)
    (b n : BitVec 64) : n ∈ (nodes.cfg entry).successors b ↔ Leads nodes b n := by
  have edges : n ∈ (nodes.block b).outgoingEdges ↔
      ∃ instr ∈ (nodes.block b).instrs, instr.branchEdge = some n := by
    rw [← List.count_pos_iff, balanced.outgoing, List.countP_pos_iff]
    constructor
    · rintro ⟨instr, member, leads⟩
      exact ⟨instr, member, of_decide_eq_true leads⟩
    · rintro ⟨instr, member, leads⟩
      exact ⟨instr, member, decide_eq_true leads⟩
  unfold FunctionCfg.successors Leads
  rw [List.mem_append, Option.mem_toList]
  exact or_congr Iff.rfl edges

theorem returnEdges_of_pending (well : FetchesWell fetch) (sound : Sound fetch context entry state)
    (empty : state.resolveStack = []) :
    LivenessAnalysis.ReturnEdges state.nodes.block state.returnEdges := by
  obtain ⟨_, _, _, _, returnsOnce, returns, wired⟩ := sound.pending
  have exactly (b : BitVec 64) : b ∈ state.returnEdges ↔
      endsInReturn (state.nodes.block b).instrs = true := by
    constructor
    · exact returns b
    · intro ends
      refine wired b (mem_of_endsInReturn sound.built ends) ?_ ends
      rw [empty]
      exact List.not_mem_nil
  have only := sound.built.returns well
  constructor
  · intro b
    rcases List.eq_nil_or_concat (state.nodes.block b).instrs with none | ⟨front, last, whole⟩
    · rw [none, List.countP_nil, List.count_eq_zero]
      intro member
      have ends := (exactly b).mp member
      rw [none] at ends
      cases ends
    · rw [List.concat_eq_append] at whole
      have stay : front.countP (fun instr => instr.instruction.isRet) = 0 := by
        rw [List.countP_eq_zero]
        intro instr member isRet
        have onlyHere := only b
        rw [whole, List.dropLast_concat] at onlyHere
        rw [onlyHere instr member] at isRet
        cases isRet
      have ends : endsInReturn (state.nodes.block b).instrs = last.instruction.isRet := by
        unfold endsInReturn
        rw [whole, List.getLast?_concat]
        rfl
      rw [whole, List.countP_append, stay, Nat.zero_add, List.countP_singleton]
      split
      · rename_i isRet
        exact List.count_eq_one_of_mem returnsOnce ((exactly b).mpr (ends.trans isRet))
      · rename_i stays
        rw [List.count_eq_zero]
        intro member
        exact stays (ends.symm.trans ((exactly b).mp member))
  · exact only

theorem wired_of_pending (sound : Sound fetch context entry state)
    (finished : state.edges = []) (empty : state.resolveStack = []) (b : BitVec 64) :
    List.Forall₂ (Wired context) (state.nodes.block b).instrs (state.code b) := by
  have labels := sound.built.labels b
  rw [List.forall₂_iff_get] at labels ⊢
  refine ⟨labels.1, ?_⟩
  intro index inside insideCode
  have own := labels.2 index inside insideCode
  have found := List.getElem?_eq_getElem inside
  have foundCode := List.getElem?_eq_getElem insideCode
  refine ⟨own.same, ?_, ?_⟩
  · intro branch
    cases edge : ((state.nodes.block b).instrs.get ⟨index, inside⟩).branchEdge with
    | some dst =>
        obtain ⟨_, known, _, target⟩ := own.edge dst edge
        exact ⟨dst, target, (if_neg known).symm⟩
    | none =>
        have isOpen : isOpenBranch ((state.nodes.block b).instrs.get ⟨index, inside⟩) = true := by
          unfold isOpenBranch
          rw [branch, edge]
          rfl
        rcases sound.pending.resolved b (mem_of_instr sound.built found)
          (by rw [empty]; exact List.not_mem_nil) index _ _ found foundCode isOpen with
          ⟨_, impossible⟩ | unknown
        · rw [finished] at impossible
          cases impossible
        · exact ⟨0, unknown, rfl⟩
  · intro noBranch
    cases edge : ((state.nodes.block b).instrs.get ⟨index, inside⟩).branchEdge with
    | none => rfl
    | some dst =>
        have branch := (own.edge dst edge).2.2.1
        rw [noBranch] at branch
        cases branch

theorem Sound.reconstructed (well : FetchesWell fetch) (sound : Sound fetch context entry state)
    (finished : state.edges = []) (empty : state.resolveStack = []) :
    Reconstructed fetch context entry state := by
  have built := sound.built
  have successors (b n : BitVec 64) : n ∈ (state.nodes.cfg entry).successors b ↔
      Leads state.nodes b n := mem_successors built.balanced b n
  refine ⟨built.entryBlock, built.once, ⟨built.linked, built.acyclic, ?_, ?_⟩, built.balanced,
    returnEdges_of_pending well sound empty, fun b => built.unallocated, ?_,
    fun b => sound.reaches, built.spells, wired_of_pending sound finished empty⟩
  · intro b n
    change n ∈ (state.nodes.block b).outgoingEdges ↔ _
    rw [← List.count_pos_iff, built.balanced.outgoing, List.countP_pos_iff]
    constructor
    · rintro ⟨instr, member, leads⟩
      exact ⟨instr, member, of_decide_eq_true leads⟩
    · rintro ⟨instr, member, leads⟩
      exact ⟨instr, member, decide_eq_true leads⟩
  · intro b n
    change b ∈ (state.nodes.block n).incomingEdges ↔ n ∈ (state.nodes.block b).outgoingEdges
    rw [← List.count_pos_iff, ← List.count_pos_iff, built.balanced.incoming,
      built.balanced.outgoing]
  · intro b
    constructor
    · intro member
      exact Relation.ReflTransGen.mono (fun x y leads => (successors x y).mpr leads) _ _
        (sound.reached b member)
    · intro path
      induction path with
      | refl => exact built.entryMember
      | @tail x y _ step _ =>
          rcases (successors x y).mp step with next | ⟨instr, member, edge⟩
          · exact built.next x y next
          · obtain ⟨index, found⟩ := List.mem_iff_getElem?.mp member
            obtain ⟨own, _, labels⟩ := built.code_of_instr found
            exact (labels.edge y edge).1

/-- Somewhere in the code that the function may get to, a block cannot be decoded or the target
of a branch cannot be read. -/
inductive FailsThere (fetch : BitVec 64 → Option Fetched)
    (decodeBlock : BitVec 64 → Option (Except Failure (List DecodedInstruction)))
    (context : Context) (entry : BitVec 64) (failure : Failure) : Prop where
  | block {itext : BitVec 64} (reaches : Reaches fetch context entry itext)
      (failed : decodeBlock itext = some (.error failure))
  | target {a : BitVec 64} {fetched : Fetched} {own : DecodedInstruction}
      (reaches : Reaches fetch context entry a) (found : fetch a = some fetched)
      (member : own ∈ fetched.instrs) (branch : own.instruction.isBranch = true)
      (failed : own.getRawTarget context = .error failure)

theorem Sound.step_error (well : FetchesWell fetch) (sound : Sound fetch context entry state)
    (permutes : ∀ blocks, (order blocks).Perm blocks) {failure : Failure}
    (failed : Reconstruction.step decodeBlock context order state = .error failure) :
    FailsThere fetch decodeBlock context entry failure := by
  unfold Reconstruction.step at failed
  split at failed
  · rename_i index rest collected
    obtain ⟨instr, found, _⟩ := sound.pending.collected index (collected ▸ List.mem_cons_self)
    obtain ⟨own, foundCode, _⟩ := sound.built.code_of_instr found
    obtain ⟨branch, a, fetched, reaches, fetches, inGroup⟩ :=
      sound.fetched_branch collected foundCode
    rw [foundCode] at failed
    dsimp only at failed
    cases target : own.getRawTarget context with
    | error other =>
        rw [target] at failed
        cases failed
        exact .target reaches fetches inGroup branch target
    | ok itext =>
        rw [target] at failed
        change (Reconstruction.resolveTo decodeBlock order state index rest itext).bind _ = _
          at failed
        unfold Reconstruction.resolveTo at failed
        split at failed
        · cases failed
        · rename_i known
          split at failed
          · cases failed
          · rename_i fresh
            have freshOrder : itext ∉ order state.blockMap :=
              fun member => fresh ((permutes state.blockMap).mem_iff.mp member)
            obtain ⟨covered, covers⟩ := iTextCovered_ok state.code freshOrder
            rw [covers] at failed
            cases covered with
            | some place =>
                obtain ⟨member, starts⟩ := iTextCovered_some covers
                obtain ⟨split, splits, _⟩ := sound.splitBlock well
                  ((permutes state.blockMap).mem_iff.mp member) fresh starts
                change ((state.splitBlock place.1 place.2 itext).bind _).bind _ = _ at failed
                rw [splits] at failed
                cases failed
            | none =>
                have there := sound.reaches_target collected foundCode target known
                cases block : decodeBlock itext with
                | none =>
                    rw [block] at failed
                    cases failed
                | some decoded =>
                    rw [block] at failed
                    cases decoded with
                    | error other =>
                        cases failed
                        exact .block there block
                    | ok instrs => cases failed
  · split at failed
    · cases failed
    · cases failed

/-- From what decodes blocks: the pass ends if all blocks end, it returns a well formed graph of
the code, and it fails only if a block cannot be decoded or a target cannot be read. -/
theorem decodeFunction_spec (well : FetchesWell fetch)
    (decodes : ∀ itext instrs, decodeBlock itext = some (.ok instrs) →
      Spells fetch itext instrs none)
    (permutes : ∀ blocks, (order blocks).Perm blocks) (entry : BitVec 64) :
    ((∀ a, Reaches fetch context entry a → decodeBlock a ≠ none) →
        ∃ fuel, decodeFunction decodeBlock context order entry fuel ≠ .ok none) ∧
      ∀ fuel, (∀ state, decodeFunction decodeBlock context order entry fuel = .ok (some state) →
          Reconstructed fetch context entry state) ∧
        ∀ failure, decodeFunction decodeBlock context order entry fuel = .error failure →
          FailsThere fetch decodeBlock context entry failure := by
  have keeps (state later : Reconstruction) (sound : Sound fetch context entry state)
      (stepped : step decodeBlock context order state = .ok (some later)) :=
    sound.step well decodes permutes stepped
  unfold decodeFunction
  cases block : decodeBlock entry with
  | none => exact ⟨fun ends => absurd block (ends entry .entry), fun fuel => ⟨nofun, nofun⟩⟩
  | some decoded =>
      cases decoded with
      | error failure =>
          refine ⟨fun _ => ⟨0, nofun⟩, fun fuel => ⟨nofun, ?_⟩⟩
          rintro other same
          cases same
          exact .block .entry block
      | ok instrs =>
          have begins : Sound fetch context entry (Reconstruction.start entry instrs) :=
            Sound.start (decodes entry instrs block)
          refine ⟨fun ends => ?_, fun fuel => ⟨?_, ?_⟩⟩
          · obtain ⟨fuel, ended⟩ := FixedPoints.run_ends potential
              (fun state later sound stepped =>
                ⟨(keeps state later sound stepped).1, (keeps state later sound stepped).2 ends⟩)
              _ begins
            refine ⟨fuel, fun outOfFuel => ?_⟩
            change FixedPoints.run _ _ _ = _ at outOfFuel
            rcases ended with ⟨state, returned⟩ | ⟨failure, failed⟩
            · cases outOfFuel.symm.trans returned
            · cases outOfFuel.symm.trans failed
          · intro state ran
            obtain ⟨sound, ended⟩ := FixedPoints.run_keeps
              (fun state later sound stepped => (keeps state later sound stepped).1) begins ran
            obtain ⟨finished, empty⟩ := finished_of_step ended
            exact sound.reconstructed well finished empty
          · intro failure ran
            obtain ⟨last, sound, failed⟩ := FixedPoints.run_error
              (fun state later sound stepped => (keeps state later sound stepped).1) begins ran
            exact sound.step_error well permutes failed

end Pass

end Reconstruction

end Drob
