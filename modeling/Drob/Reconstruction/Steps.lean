import Drob.Reconstruction.Building
import Drob.Passes.LivenessSolution

/-!
The steps of the reconstruction: what is left to do is on the stack or among the collected
branches, everything else is wired, and less is left after every step.
-/

namespace Drob

open FunctionNode

namespace Reconstruction

/-! ### What is left to do -/

/-- Branches without an edge go to unknown code, or they are collected or in a block on the
stack. -/
structure Pending (context : Context) (state : Reconstruction) : Prop where
  stack : ∀ b ∈ state.resolveStack, b ∈ state.blockMap
  once : state.edges.Nodup
  collected : ∀ index ∈ state.edges, ∃ instr,
    (state.nodes.block state.srcBlock).instrs[index]? = some instr ∧ isOpenBranch instr = true
  resolved : ∀ b ∈ state.blockMap, b ∉ state.resolveStack → ∀ index instr own,
    (state.nodes.block b).instrs[index]? = some instr → (state.code b)[index]? = some own →
      isOpenBranch instr = true →
        (b = state.srcBlock ∧ index ∈ state.edges) ∨ own.getRawTarget context = .ok 0
  returnsOnce : state.returnEdges.Nodup
  returns : ∀ b ∈ state.returnEdges, endsInReturn (state.nodes.block b).instrs = true
  wired : ∀ b ∈ state.blockMap, b ∉ state.resolveStack →
    endsInReturn (state.nodes.block b).instrs = true → b ∈ state.returnEdges

def Leads (nodes : Nodes (BitVec 64)) (b n : BitVec 64) : Prop :=
  (nodes.block b).next = some n ∨ ∃ instr ∈ (nodes.block b).instrs, instr.branchEdge = some n

structure Sound (fetch : BitVec 64 → Option Fetched) (context : Context) (entry : BitVec 64)
    (state : Reconstruction) : Prop where
  built : Built fetch context entry state.nodes state.code state.blockMap
  pending : Pending context state
  reached : ∀ b ∈ state.blockMap, Relation.ReflTransGen (Leads state.nodes) entry b

variable {fetch : BitVec 64 → Option Fetched} {context : Context} {entry : BitVec 64}
variable {state later : Reconstruction} {b itext : BitVec 64} {index : ℕ} {rest : List ℕ}
variable {instr : BlockInstruction (BitVec 64)} {own : DecodedInstruction}

theorem mem_collectBranchEdges {ι : Type} {instrs : List (BlockInstruction ι)} {index : ℕ} :
    index ∈ collectBranchEdges instrs ↔
      ∃ instr, instrs[index]? = some instr ∧ isOpenBranch instr = true := by
  unfold collectBranchEdges
  rw [List.mem_filter, List.mem_range]
  constructor
  · rintro ⟨_, isOpen⟩
    exact (Option.any_eq_true _ _).mp isOpen
  · rintro ⟨instr, found, isOpen⟩
    refine ⟨(List.getElem?_eq_some_iff.mp found).1, ?_⟩
    rw [found]
    exact isOpen

theorem nodup_collectBranchEdges {ι : Type} (instrs : List (BlockInstruction ι)) :
    (collectBranchEdges instrs).Nodup :=
  List.nodup_range.filter _

/-! ### A branch that goes to unknown code -/

theorem Sound.skip (sound : Sound fetch context entry state)
    (collected : state.edges = index :: rest)
    (foundCode : (state.code state.srcBlock)[index]? = some own)
    (unknown : own.getRawTarget context = .ok 0) :
    Sound fetch context entry { state with edges := rest } := by
  obtain ⟨stack, once, inBlock, resolved, returnsOnce, returns, wired⟩ := sound.pending
  rw [collected] at once inBlock resolved
  refine ⟨sound.built, ?_, sound.reached⟩
  refine ⟨stack, once.of_cons, fun i member => inBlock i (List.mem_cons_of_mem index member), ?_,
    returnsOnce, returns, wired⟩
  intro b inMap offStack i instr code found foundHere isOpen
  rcases resolved b inMap offStack i instr code found foundHere isOpen with ⟨rfl, member⟩ | known
  · rcases List.mem_cons.mp member with rfl | isRest
    · rw [foundCode] at foundHere
      cases foundHere
      exact Or.inr unknown
    · exact Or.inl ⟨rfl, isRest⟩
  · exact Or.inr known

/-! ### A branch to a block that is there -/

theorem getElem?_modify_ite {α : Type} (change : α → α) (values : List α) (index i : ℕ) :
    (values.modify index change)[i]? =
      if index = i then values[i]?.map change else values[i]? := by
  rw [List.getElem?_modify]
  split
  · rfl
  · exact Option.map_id'

theorem endsInReturn_modify {ι : Type} (instrs : List (BlockInstruction ι)) (index : ℕ)
    (edge : Option ι) :
    endsInReturn (instrs.modify index (fun instr => { instr with branchEdge := edge })) =
      endsInReturn instrs := by
  have last : (instrs.modify index (fun instr =>
      { instr with branchEdge := edge })).getLast?.map BlockInstruction.instruction =
        instrs.getLast?.map BlockInstruction.instruction := by
    rw [List.getLast?_eq_getElem?, List.getLast?_eq_getElem?, List.length_modify,
      getElem?_modify_ite]
    split
    · rw [Option.map_map]
      rfl
    · rfl
  have read (instrs : List (BlockInstruction ι)) : endsInReturn instrs =
      (instrs.getLast?.map BlockInstruction.instruction).any Instruction.isRet := by
    unfold endsInReturn
    cases instrs.getLast? <;> rfl
  rw [read, read, last]

theorem leads_install {dst x y : BitVec 64} (leads : Leads state.nodes x y)
    (found : (state.nodes.block state.srcBlock).instrs[index]? = some instr)
    (isOpen : isOpenBranch instr = true) : Leads (state.install index dst).nodes x y := by
  have keeps := Nodes.keeps_addBranchEdge state.nodes state.srcBlock index dst
  rcases leads with next | ⟨other, member, edge⟩
  · exact Or.inl ((keeps.next x).trans next)
  · refine Or.inr ⟨other, ?_, edge⟩
    obtain ⟨i, foundOther⟩ := List.mem_iff_getElem?.mp member
    apply List.mem_iff_getElem?.mpr
    refine ⟨i, ?_⟩
    unfold install
    rw [Nodes.instrs_addBranchEdge]
    split
    · rename_i here
      rw [here] at foundOther
      rw [getElem?_modify_ite, foundOther]
      split
      · rename_i same
        rw [same, foundOther] at found
        cases found
        have noEdge := (Bool.and_eq_true_iff.mp isOpen).2
        rw [edge] at noEdge
        cases noEdge
      · rfl
    · exact foundOther

theorem leads_installed {dst : BitVec 64}
    (found : (state.nodes.block state.srcBlock).instrs[index]? = some instr) :
    Leads (state.install index dst).nodes state.srcBlock dst := by
  refine Or.inr ⟨{ instr with branchEdge := some dst }, ?_, rfl⟩
  apply List.mem_iff_getElem?.mpr
  refine ⟨index, ?_⟩
  unfold install
  rw [Nodes.instrs_addBranchEdge, if_pos rfl, getElem?_modify_ite, if_pos rfl, found]
  rfl

theorem Pending.install (pending : Pending context state) {dst : BitVec 64}
    (collected : state.edges = index :: rest) :
    Pending context { state.install index dst with edges := rest } := by
  obtain ⟨stack, once, inBlock, resolved, returnsOnce, returns, wired⟩ := pending
  rw [collected] at once inBlock resolved
  have notRest : index ∉ rest := (List.nodup_cons.mp once).1
  have instrs := fun x => Nodes.instrs_addBranchEdge state.nodes state.srcBlock dst x index
  have returning (x : BitVec 64) :
      endsInReturn ((state.nodes.addBranchEdge state.srcBlock index dst).block x).instrs =
        endsInReturn (state.nodes.block x).instrs := by
    rw [instrs]
    split
    · rename_i here
      rw [endsInReturn_modify, here]
    · rfl
  -- only the instruction at the index changes, and it is no longer open
  have before {x : BitVec 64} {i : ℕ} {other : BlockInstruction (BitVec 64)}
      (found : ((state.nodes.addBranchEdge state.srcBlock index dst).block x).instrs[i]? = some other)
      (isOpen : isOpenBranch other = true) :
      (state.nodes.block x).instrs[i]? = some other ∧ ¬ (x = state.srcBlock ∧ i = index) := by
    rw [instrs] at found
    split at found
    · rename_i here
      rw [getElem?_modify_ite] at found
      split at found
      · obtain ⟨old, _, rfl⟩ := Option.map_eq_some_iff.mp found
        have noEdge := (Bool.and_eq_true_iff.mp isOpen).2
        cases noEdge
      · rename_i apart
        rw [here]
        exact ⟨found, fun both => apart both.2.symm⟩
    · rename_i elsewhere
      exact ⟨found, fun both => elsewhere both.1⟩
  refine ⟨stack, once.of_cons, ?_, ?_, returnsOnce, ?_, ?_⟩
  · intro i member
    obtain ⟨other, found, isOpen⟩ := inBlock i (List.mem_cons_of_mem index member)
    refine ⟨other, ?_, isOpen⟩
    change ((state.nodes.addBranchEdge state.srcBlock index dst).block
      state.srcBlock).instrs[i]? = some other
    have apart : index ≠ i := by
      rintro rfl
      exact notRest member
    rw [instrs, if_pos rfl, getElem?_modify_ite, if_neg apart]
    exact found
  · intro x inMap offStack i other code found foundCode isOpen
    obtain ⟨foundBefore, apart⟩ := before found isOpen
    rcases resolved x inMap offStack i other code foundBefore foundCode isOpen with
      ⟨here, member⟩ | unknown
    · rcases List.mem_cons.mp member with same | isRest
      · exact absurd ⟨here, same⟩ apart
      · exact Or.inl ⟨here, isRest⟩
    · exact Or.inr unknown
  · intro x member
    exact (returning x).trans (returns x member)
  · intro x inMap offStack ends
    exact wired x inMap offStack ((returning x).symm.trans ends)

theorem Sound.install (sound : Sound fetch context entry state)
    (collected : state.edges = index :: rest)
    (foundCode : (state.code state.srcBlock)[index]? = some own)
    (target : own.getRawTarget context = .ok itext) (known : itext ≠ 0)
    (member : itext ∈ state.blockMap) :
    Sound fetch context entry { state.install index itext with edges := rest } := by
  obtain ⟨instr, found, isOpen⟩ := sound.pending.collected index
    (collected ▸ List.mem_cons_self)
  refine ⟨sound.built.addBranchEdge found isOpen foundCode target known member,
    sound.pending.install collected, ?_⟩
  intro b inMap
  exact Relation.ReflTransGen.mono (fun _ _ leads => leads_install leads found isOpen) _ _
    (sound.reached b inMap)

/-! ### A branch into a block -/

theorem getElem?_of_take {α : Type} {values : List α} {kept index : ℕ} {value : α}
    (found : (values.take kept)[index]? = some value) : values[index]? = some value := by
  rw [List.getElem?_take] at found
  split at found
  · exact found
  · cases found

theorem lt_of_findIdx? {α : Type} {values : List α} {property : α → Bool} {kept : ℕ}
    (found : values.findIdx? property = some kept) : kept < values.length :=
  (List.findIdx?_eq_some_iff_getElem.mp found).1

theorem Built.map_instruction {nodes : Nodes (BitVec 64)}
    {code : BitVec 64 → List DecodedInstruction} {blockMap : List (BitVec 64)}
    (built : Built fetch context entry nodes code blockMap) (b : BitVec 64) :
    (nodes.block b).instrs.map BlockInstruction.instruction =
      (code b).map DecodedInstruction.instruction := by
  apply List.forall₂_eq_eq_eq ▸ (List.forall₂_map_left_iff.mpr (List.forall₂_map_right_iff.mpr _))
  exact (built.labels b).imp (fun _ _ labels => labels.same)

theorem Built.closes {nodes : Nodes (BitVec 64)}
    {code : BitVec 64 → List DecodedInstruction} {blockMap : List (BitVec 64)}
    (well : FetchesWell fetch) (built : Built fetch context entry nodes code blockMap)
    (b : BitVec 64) :
    ∀ instr ∈ (nodes.block b).instrs.dropLast, ¬ Closes instr.instruction := by
  intro instr member
  have inMap : b ∈ blockMap := by
    obtain ⟨i, found⟩ := List.mem_iff_getElem?.mp (List.mem_of_mem_dropLast member)
    exact mem_of_instr built found
  have onlyLast := ((built.spells b inMap).closes well).1
  have same : (nodes.block b).instrs.dropLast.map BlockInstruction.instruction =
      (code b).dropLast.map DecodedInstruction.instruction := by
    rw [List.map_dropLast, List.map_dropLast, built.map_instruction]
  have listed : instr.instruction ∈ (code b).dropLast.map DecodedInstruction.instruction :=
    same ▸ List.mem_map_of_mem member
  obtain ⟨own, isOwn, equal⟩ := List.mem_map.mp listed
  rw [← equal]
  exact onlyLast own isOwn

theorem Built.returns {nodes : Nodes (BitVec 64)}
    {code : BitVec 64 → List DecodedInstruction} {blockMap : List (BitVec 64)}
    (well : FetchesWell fetch) (built : Built fetch context entry nodes code blockMap)
    (b : BitVec 64) :
    ∀ instr ∈ (nodes.block b).instrs.dropLast, instr.instruction.isRet = false := by
  intro instr member
  rw [Bool.eq_false_iff]
  exact fun isRet => built.closes well b instr member (Or.inl isRet)

theorem endsInReturn_drop {ι : Type} {instrs : List (BlockInstruction ι)} {kept : ℕ}
    (inside : kept < instrs.length) : endsInReturn (instrs.drop kept) = endsInReturn instrs := by
  unfold endsInReturn
  rw [List.getLast?_drop, if_neg (Nat.not_le.mpr inside)]

theorem endsInReturn_take {ι : Type} {instrs : List (BlockInstruction ι)} {kept : ℕ}
    (only : ∀ instr ∈ instrs.dropLast, instr.instruction.isRet = false)
    (inside : kept < instrs.length) : endsInReturn (instrs.take kept) = false := by
  unfold endsInReturn
  cases last : (instrs.take kept).getLast? with
  | none => rfl
  | some instr =>
      apply only instr
      have member := List.mem_of_getLast? last
      rw [List.dropLast_eq_take]
      exact List.take_subset_take_left instrs (by omega) member

theorem mem_of_endsInReturn {nodes : Nodes (BitVec 64)}
    {code : BitVec 64 → List DecodedInstruction} {blockMap : List (BitVec 64)}
    (built : Built fetch context entry nodes code blockMap)
    (ends : endsInReturn (nodes.block b).instrs = true) : b ∈ blockMap := by
  by_contra outside
  rw [(built.empty b outside).1] at ends
  cases ends

theorem reached_split {nodes laterNodes : Nodes (BitVec 64)} {kept : ℕ}
    (into : Nodes.SplitInto b kept itext nodes laterNodes)
    (noInstrs : (nodes.block itext).instrs = []) (noNext : (nodes.block itext).next = none)
    (other : b ≠ itext) {x : BitVec 64}
    (path : Relation.ReflTransGen (Leads nodes) entry x) :
    Relation.ReflTransGen (Leads laterNodes) entry x := by
  have toNew : Leads laterNodes b itext := by
    left
    rw [into.next, if_neg other, if_pos rfl]
  induction path with
  | refl => exact .refl
  | @tail x y _ leads ih =>
      refine ih.trans ?_
      have notNew : x ≠ itext := by
        rintro rfl
        rcases leads with next | ⟨instr, member, _⟩
        · rw [noNext] at next
          cases next
        · rw [noInstrs] at member
          cases member
      by_cases here : x = b
      · subst here
        rcases leads with next | ⟨instr, member, edge⟩
        · refine .tail (.single toNew) (Or.inl ?_)
          rw [into.next, if_pos rfl]
          exact next
        · rw [← List.take_append_drop kept (nodes.block x).instrs] at member
          rcases List.mem_append.mp member with stays | moves
          · refine .single (Or.inr ⟨instr, ?_, edge⟩)
            rw [into.instrs, if_neg notNew, if_pos rfl]
            exact stays
          · refine .tail (.single toNew) (Or.inr ⟨instr, ?_, edge⟩)
            rw [into.instrs, if_pos rfl]
            exact moves
      · rcases leads with next | ⟨instr, member, edge⟩
        · refine .single (Or.inl ?_)
          rw [into.next, if_neg notNew, if_neg here]
          exact next
        · refine .single (Or.inr ⟨instr, ?_, edge⟩)
          rw [into.instrs, if_neg notNew, if_neg here]
          exact member

/-- The return of a block is at its end, if there is one. -/
theorem any_isRet_drop {ι : Type} {instrs : List (BlockInstruction ι)} {kept : ℕ}
    (only : ∀ instr ∈ instrs.dropLast, instr.instruction.isRet = false)
    (inside : kept < instrs.length) :
    (instrs.drop kept).any (fun instr => instr.instruction.isRet) = endsInReturn instrs := by
  rw [← endsInReturn_drop inside]
  unfold endsInReturn
  rw [Bool.eq_iff_iff, List.any_eq_true, Option.any_eq_true]
  constructor
  · rintro ⟨instr, member, isRet⟩
    have nonempty := List.ne_nil_of_mem member
    have onlyDropped : ∀ other ∈ (instrs.drop kept).dropLast,
        other.instruction.isRet = false := by
      intro other isOther
      apply only other
      rw [← List.take_append_drop kept instrs, List.dropLast_append_of_ne_nil nonempty]
      exact List.mem_append_right _ isOther
    rw [← List.dropLast_append_getLast nonempty] at member
    rcases List.mem_append.mp member with before | last
    · rw [onlyDropped instr before] at isRet
      cases isRet
    · refine ⟨instr, ?_, isRet⟩
      rw [List.mem_singleton.mp last]
      exact List.getLast?_eq_getLast_of_ne_nil nonempty
  · rintro ⟨instr, last, isRet⟩
    exact ⟨instr, List.mem_of_getLast? last, isRet⟩

theorem nodup_map_redirect {edges : List (BitVec 64)} (once : edges.Nodup)
    (apart : itext ∉ edges) : (edges.map (FunctionCfg.redirect b itext)).Nodup := by
  apply once.map_on
  intro x isX y isY same
  unfold FunctionCfg.redirect at same
  split at same
  · rename_i left
    split at same
    · rename_i right
      rw [left, right]
    · rw [← same] at isY
      exact absurd isY apart
  · split at same
    · rw [same] at isX
      exact absurd isX apart
    · exact same

section Split

variable {laterNodes : Nodes (BitVec 64)} {kept : ℕ}

/-- What stands in an old block after a split stood there before. -/
theorem found_of_split (into : Nodes.SplitInto b kept itext state.nodes laterNodes)
    {x : BitVec 64} (notNew : x ≠ itext)
    (found : (laterNodes.block x).instrs[index]? = some instr)
    (foundCode : (if x = itext then (state.code b).drop kept
      else if x = b then (state.code b).take kept else state.code x)[index]? = some own) :
    (state.nodes.block x).instrs[index]? = some instr ∧ (state.code x)[index]? = some own := by
  rw [into.instrs, if_neg notNew] at found
  rw [if_neg notNew] at foundCode
  split at found
  · rename_i here
    rw [if_pos here] at foundCode
    rw [here]
    exact ⟨getElem?_of_take found, getElem?_of_take foundCode⟩
  · rename_i elsewhere
    rw [if_neg elsewhere] at foundCode
    exact ⟨found, foundCode⟩

/-- The return edge of a block moves with its return. -/
theorem endsInReturn_of_split (into : Nodes.SplitInto b kept itext state.nodes laterNodes)
    (inside : kept < (state.nodes.block b).instrs.length)
    (returns : ∀ x ∈ state.returnEdges, endsInReturn (state.nodes.block x).instrs = true)
    (apart : itext ∉ state.returnEdges) {x : BitVec 64}
    (member : x ∈ if endsInReturn (state.nodes.block b).instrs = true then
      state.returnEdges.map (FunctionCfg.redirect b itext) else state.returnEdges) :
    endsInReturn (laterNodes.block x).instrs = true := by
  rw [into.instrs]
  split at member
  · rename_i ends
    obtain ⟨old, isOld, rfl⟩ := List.mem_map.mp member
    unfold FunctionCfg.redirect
    split
    · rw [if_pos rfl, endsInReturn_drop inside]
      exact ends
    · rename_i elsewhere
      rw [if_neg (ne_of_mem_of_not_mem isOld apart)]
      exact returns old isOld
  · rename_i stays
    have elsewhere : x ≠ b := by
      rintro rfl
      exact stays (returns x member)
    rw [if_neg (ne_of_mem_of_not_mem member apart), if_neg elsewhere]
    exact returns x member

theorem mem_returnEdges_of_split (into : Nodes.SplitInto b kept itext state.nodes laterNodes)
    (only : ∀ instr ∈ (state.nodes.block b).instrs.dropLast, instr.instruction.isRet = false)
    (inside : kept < (state.nodes.block b).instrs.length) {x : BitVec 64} (notNew : x ≠ itext)
    (ends : endsInReturn (laterNodes.block x).instrs = true)
    (wired : endsInReturn (state.nodes.block x).instrs = true → x ∈ state.returnEdges) :
    x ∈ if endsInReturn (state.nodes.block b).instrs = true then
      state.returnEdges.map (FunctionCfg.redirect b itext) else state.returnEdges := by
  rw [into.instrs, if_neg notNew] at ends
  split at ends
  · rw [endsInReturn_take only inside] at ends
    cases ends
  · rename_i elsewhere
    have old := wired ends
    split
    · refine List.mem_map.mpr ⟨x, old, ?_⟩
      unfold FunctionCfg.redirect
      rw [if_neg elsewhere]
    · exact old

end Split

theorem Sound.splitBlock (well : FetchesWell fetch) (sound : Sound fetch context entry state)
    (inMap : b ∈ state.blockMap) (fresh : itext ∉ state.blockMap) {kept : ℕ}
    (starts : (state.code b).findIdx? (fun instr => decide (instr.itext = itext)) = some kept) :
    ∃ later, state.splitBlock b kept itext = .ok later ∧
      Sound fetch context entry later.collect ∧
      later.blockMap = state.blockMap ++ [itext] := by
  obtain ⟨nodes, returned, into, built⟩ := sound.built.splitBlock well inMap fresh starts
  obtain ⟨stack, once, inBlock, resolved, returnsOnce, returns, wired⟩ := sound.pending
  have other : b ≠ itext := fun same => fresh (same ▸ inMap)
  have inside : kept < (state.nodes.block b).instrs.length := by
    rw [(sound.built.labels b).length_eq]
    exact lt_of_findIdx? starts
  have only := sound.built.returns well b
  have apart : itext ∉ state.returnEdges :=
    fun member => fresh (mem_of_endsInReturn sound.built (returns itext member))
  have splits : state.splitBlock b kept itext = .ok
      { state with
        nodes
        code := fun x =>
          if x = itext then (state.code b).drop kept
          else if x = b then (state.code b).take kept else state.code x
        returnEdges :=
          if endsInReturn (state.nodes.block b).instrs = true then
            state.returnEdges.map (FunctionCfg.redirect b itext)
          else state.returnEdges
        blockMap := state.blockMap ++ [itext]
        resolveStack := itext :: state.resolveStack } := by
    unfold Reconstruction.splitBlock
    rw [returned, any_isRet_drop only inside]
    rfl
  have old {x : BitVec 64} (member : x ∈ state.blockMap ++ [itext])
      (offStack : x ∉ itext :: state.resolveStack) :
      x ≠ itext ∧ x ∈ state.blockMap ∧ x ∉ state.resolveStack := by
    have notNew : x ≠ itext := fun same => offStack (same ▸ List.mem_cons_self)
    exact ⟨notNew, (List.mem_append.mp member).resolve_right
      (fun isNew => notNew (List.mem_singleton.mp isNew)),
      fun onStack => offStack (List.mem_cons_of_mem itext onStack)⟩
  refine ⟨_, splits, ⟨built, ⟨?_, ?_, ?_, ?_, ?_, ?_, ?_⟩, ?_⟩, rfl⟩
  · intro x member
    rcases List.mem_cons.mp member with rfl | old
    · exact List.mem_append_right _ (List.mem_singleton_self x)
    · exact List.mem_append_left _ (stack x old)
  · exact nodup_collectBranchEdges _
  · intro index member
    exact mem_collectBranchEdges.mp member
  · intro x member offStack index instr own found foundCode isOpen
    by_cases isSrc : x = state.srcBlock
    · left
      refine ⟨isSrc, mem_collectBranchEdges.mpr ⟨instr, ?_, isOpen⟩⟩
      rw [← isSrc]
      exact found
    · right
      obtain ⟨notNew, inOld, offOld⟩ := old member offStack
      obtain ⟨before, beforeCode⟩ := found_of_split into notNew found foundCode
      rcases resolved x inOld offOld index instr own before beforeCode isOpen with
        ⟨same, _⟩ | unknown
      · exact absurd same isSrc
      · exact unknown
  · change (if endsInReturn (state.nodes.block b).instrs = true then
      state.returnEdges.map (FunctionCfg.redirect b itext) else state.returnEdges).Nodup
    split
    · exact nodup_map_redirect returnsOnce apart
    · exact returnsOnce
  · intro x member
    exact endsInReturn_of_split into inside returns apart member
  · intro x member offStack ends
    obtain ⟨notNew, inOld, offOld⟩ := old member offStack
    exact mem_returnEdges_of_split into only inside notNew ends (wired x inOld offOld)
  · intro x member
    obtain ⟨noInstrs, noNext⟩ := sound.built.empty itext fresh
    have through {y : BitVec 64} (path : Relation.ReflTransGen (Leads state.nodes) entry y) :
        Relation.ReflTransGen (Leads nodes) entry y :=
      reached_split into noInstrs noNext other path
    rcases List.mem_append.mp member with old | new
    · exact through (sound.reached x old)
    · rw [List.mem_singleton.mp new]
      refine (through (sound.reached b inMap)).tail (Or.inl ?_)
      rw [into.next, if_neg other, if_pos rfl]

/-! ### A branch to code that is not decoded yet -/

theorem Pending.addDecoded (sound : Sound fetch context entry state)
    (fresh : itext ∉ state.blockMap) (instrs : List DecodedInstruction) :
    Pending context (state.addDecoded itext instrs) := by
  obtain ⟨stack, once, inBlock, resolved, returnsOnce, returns, wired⟩ := sound.pending
  have blocks {x : BitVec 64} (notNew : x ≠ itext) :
      ((state.addDecoded itext instrs).nodes.block x) = state.nodes.block x :=
    (Nodes.block_decodeBlock state.nodes itext x _).trans (if_neg notNew)
  have codes {x : BitVec 64} (notNew : x ≠ itext) :
      (state.addDecoded itext instrs).code x = state.code x := by
    change Function.update state.code itext instrs x = state.code x
    exact Function.update_of_ne notNew instrs state.code
  refine ⟨?_, once, ?_, ?_, returnsOnce, ?_, ?_⟩
  · intro x member
    rcases List.mem_cons.mp member with rfl | old
    · exact List.mem_append_right _ (List.mem_singleton_self x)
    · exact List.mem_append_left _ (stack x old)
  · intro index member
    obtain ⟨instr, found, isOpen⟩ := inBlock index member
    have notNew : state.srcBlock ≠ itext := by
      intro same
      exact fresh (same ▸ mem_of_instr sound.built found)
    refine ⟨instr, ?_, isOpen⟩
    change ((state.addDecoded itext instrs).nodes.block state.srcBlock).instrs[index]? = some instr
    rw [blocks notNew]
    exact found
  · intro x member offStack index instr own found foundCode isOpen
    have notNew : x ≠ itext := fun same => offStack (same ▸ List.mem_cons_self)
    have inOld : x ∈ state.blockMap := (List.mem_append.mp member).resolve_right
      (fun isNew => notNew (List.mem_singleton.mp isNew))
    rw [blocks notNew] at found
    rw [codes notNew] at foundCode
    exact resolved x inOld (fun onStack => offStack (List.mem_cons_of_mem itext onStack)) index
      instr own found foundCode isOpen
  · intro x member
    have notNew : x ≠ itext := by
      rintro rfl
      exact fresh (mem_of_endsInReturn sound.built (returns x member))
    rw [blocks notNew]
    exact returns x member
  · intro x member offStack ends
    have notNew : x ≠ itext := fun same => offStack (same ▸ List.mem_cons_self)
    have inOld : x ∈ state.blockMap := (List.mem_append.mp member).resolve_right
      (fun isNew => notNew (List.mem_singleton.mp isNew))
    rw [blocks notNew] at ends
    exact wired x inOld (fun onStack => offStack (List.mem_cons_of_mem itext onStack)) ends

theorem leads_addDecoded (sound : Sound fetch context entry state)
    (fresh : itext ∉ state.blockMap) (instrs : List DecodedInstruction) {x y : BitVec 64}
    (leads : Leads state.nodes x y) : Leads (state.addDecoded itext instrs).nodes x y := by
  have notNew : x ≠ itext := by
    rintro rfl
    obtain ⟨noInstrs, noNext⟩ := sound.built.empty x fresh
    rcases leads with next | ⟨instr, member, _⟩
    · rw [noNext] at next
      cases next
    · rw [noInstrs] at member
      cases member
  have blocks : ((state.addDecoded itext instrs).nodes.block x) = state.nodes.block x :=
    (Nodes.block_decodeBlock state.nodes itext x _).trans (if_neg notNew)
  unfold Leads
  rw [blocks]
  exact leads

theorem Sound.decode (sound : Sound fetch context entry state)
    (collected : state.edges = index :: rest)
    (foundCode : (state.code state.srcBlock)[index]? = some own)
    (target : own.getRawTarget context = .ok itext) (known : itext ≠ 0)
    (fresh : itext ∉ state.blockMap) {instrs : List DecodedInstruction}
    (spells : Spells fetch itext instrs none) :
    Sound fetch context entry
      { (state.addDecoded itext instrs).install index itext with edges := rest } := by
  have built := sound.built.decodeBlock fresh spells
  have pending := Pending.addDecoded sound fresh instrs
  obtain ⟨instr, found, isOpen⟩ := pending.collected index (collected ▸ List.mem_cons_self)
  have member : itext ∈ (state.addDecoded itext instrs).blockMap :=
    List.mem_append_right _ (List.mem_singleton_self itext)
  have inOld : state.srcBlock ∈ state.blockMap := by
    obtain ⟨instr, found, _⟩ := sound.pending.collected index (collected ▸ List.mem_cons_self)
    exact mem_of_instr sound.built found
  have notNew : state.srcBlock ≠ itext := fun same => fresh (same ▸ inOld)
  have foundNow : ((state.addDecoded itext instrs).code state.srcBlock)[index]? = some own := by
    change (Function.update state.code itext instrs state.srcBlock)[index]? = some own
    rw [Function.update_of_ne notNew]
    exact foundCode
  refine ⟨built.addBranchEdge found isOpen foundNow target known member,
    pending.install collected, ?_⟩
  have through {x : BitVec 64} (path : Relation.ReflTransGen (Leads state.nodes) entry x) :
      Relation.ReflTransGen
        (Leads ((state.addDecoded itext instrs).install index itext).nodes) entry x :=
    Relation.ReflTransGen.mono (fun _ _ leads =>
      leads_install (leads_addDecoded sound fresh instrs leads) found isOpen) _ _ path
  intro x isBlock
  rcases List.mem_append.mp isBlock with old | new
  · exact through (sound.reached x old)
  · rw [List.mem_singleton.mp new]
    exact (through (sound.reached state.srcBlock inOld)).tail (leads_installed found)

/-! ### The next block -/

theorem Sound.pop (sound : Sound fetch context entry state) {src : BitVec 64}
    {stack : List (BitVec 64)} (finished : state.edges = [])
    (onStack : state.resolveStack = src :: stack) :
    Sound fetch context entry (state.pop src stack) := by
  obtain ⟨inMap, _, _, resolved, returnsOnce, returns, wired⟩ := sound.pending
  rw [onStack] at inMap resolved wired
  rw [finished] at resolved
  have offOld {x : BitVec 64} (other : x ≠ src) (offStack : x ∉ stack) : x ∉ src :: stack :=
    fun member => (List.mem_cons.mp member).elim other offStack
  refine ⟨sound.built, ⟨?_, ?_, ?_, ?_, ?_, ?_, ?_⟩, sound.reached⟩
  · intro x member
    exact inMap x (List.mem_cons_of_mem src member)
  · exact nodup_collectBranchEdges _
  · intro index member
    exact mem_collectBranchEdges.mp member
  · intro x member offStack index instr own found foundCode isOpen
    by_cases here : x = src
    · left
      refine ⟨here, mem_collectBranchEdges.mpr ⟨instr, ?_, isOpen⟩⟩
      rw [← here]
      exact found
    · right
      rcases resolved x member (offOld here offStack) index instr own found foundCode isOpen with
        ⟨_, impossible⟩ | unknown
      · cases impossible
      · exact unknown
  · change (if endsInReturn (state.nodes.block src).instrs = true ∧ src ∉ state.returnEdges then
      state.returnEdges ++ [src] else state.returnEdges).Nodup
    split
    · rename_i new
      exact List.nodup_append.mpr ⟨returnsOnce, List.nodup_singleton src,
        fun x member y isNew same => new.2 (List.mem_singleton.mp isNew ▸ same ▸ member)⟩
    · exact returnsOnce
  · intro x member
    change x ∈ (if endsInReturn (state.nodes.block src).instrs = true ∧
      src ∉ state.returnEdges then state.returnEdges ++ [src] else state.returnEdges) at member
    split at member
    · rename_i new
      rcases List.mem_append.mp member with old | isNew
      · exact returns x old
      · rw [List.mem_singleton.mp isNew]
        exact new.1
    · exact returns x member
  · intro x member offStack ends
    change x ∈ if endsInReturn (state.nodes.block src).instrs = true ∧
      src ∉ state.returnEdges then state.returnEdges ++ [src] else state.returnEdges
    by_cases here : x = src
    · subst here
      split
      · exact List.mem_append_right _ (List.mem_singleton_self x)
      · rename_i notNew
        by_contra missing
        exact notNew ⟨ends, missing⟩
    · have old := wired x member (offOld here offStack) ends
      split
      · exact List.mem_append_left _ old
      · exact old

/-! ### A step -/

theorem iTextCovered_some {code : BitVec 64 → List DecodedInstruction} {blocks : List (BitVec 64)}
    {place : BitVec 64 × ℕ} (covered : iTextCovered code itext blocks = .ok (some place)) :
    place.1 ∈ blocks ∧
      (code place.1).findIdx? (fun instr => decide (instr.itext = itext)) = some place.2 := by
  induction blocks with
  | nil => cases covered
  | cons start rest ih =>
      unfold iTextCovered at covered
      split at covered
      · cases covered
      · dsimp only at covered
        split at covered
        · obtain ⟨member, found⟩ := ih covered
          exact ⟨List.mem_cons_of_mem start member, found⟩
        · split at covered
          · rename_i index found
            cases covered
            exact ⟨List.mem_cons_self, found⟩
          · obtain ⟨member, found⟩ := ih covered
            exact ⟨List.mem_cons_of_mem start member, found⟩

theorem iTextCovered_ok (code : BitVec 64 → List DecodedInstruction) {blocks : List (BitVec 64)}
    (fresh : itext ∉ blocks) : ∃ covered, iTextCovered code itext blocks = .ok covered := by
  induction blocks with
  | nil => exact ⟨none, rfl⟩
  | cons start rest ih =>
      obtain ⟨covered, returned⟩ := ih (fun member => fresh (List.mem_cons_of_mem start member))
      unfold iTextCovered
      have apart : start ≠ itext := by
        rintro rfl
        exact fresh List.mem_cons_self
      rw [if_neg apart]
      dsimp only
      split
      · exact ⟨covered, returned⟩
      · split
        · exact ⟨_, rfl⟩
        · exact ⟨covered, returned⟩

/-- New blocks, then the stack, then the collected branches. -/
def potential (state : Reconstruction) : ℕ ×ₗ ℕ ×ₗ ℕ :=
  toLex (2 ^ 64 - state.blockMap.length, toLex (state.resolveStack.length, state.edges.length))

theorem length_blockMap_lt {blockMap : List (BitVec 64)} (once : blockMap.Nodup)
    (fresh : itext ∉ blockMap) : blockMap.length < 2 ^ 64 := by
  have all := (List.nodup_cons.mpr ⟨fresh, once⟩).length_le_card
  rw [List.length_cons] at all
  have card : Fintype.card (BitVec 64) = 2 ^ 64 := by
    rw [Fintype.card_congr BitVec.equivFin.toEquiv]
    exact Fintype.card_fin (2 ^ 64)
  omega

theorem potential_lt_of_new (once : state.blockMap.Nodup) (fresh : itext ∉ state.blockMap)
    (grown : later.blockMap = state.blockMap ++ [itext]) : potential later < potential state := by
  have room := length_blockMap_lt once fresh
  apply Prod.Lex.toLex_lt_toLex.mpr
  left
  dsimp only
  rw [grown, List.length_append, List.length_singleton]
  omega

theorem potential_lt_of_edges (same : later.blockMap = state.blockMap)
    (stack : later.resolveStack = state.resolveStack)
    (fewer : later.edges.length < state.edges.length) : potential later < potential state := by
  apply Prod.Lex.toLex_lt_toLex.mpr
  right
  refine ⟨by rw [same], Prod.Lex.toLex_lt_toLex.mpr (Or.inr ⟨by rw [stack], fewer⟩)⟩

/-! ### Reached code -/

theorem Sound.reaches (sound : Sound fetch context entry state) {b : BitVec 64}
    (inMap : b ∈ state.blockMap) : Reaches fetch context entry b := by
  have inside (x : BitVec 64) (path : Relation.ReflTransGen (Leads state.nodes) entry x) :
      x ∈ state.blockMap := by
    induction path with
    | refl => exact sound.built.entryMember
    | @tail x y _ step _ =>
        rcases step with next | ⟨instr, member, edge⟩
        · exact sound.built.next x y next
        · obtain ⟨index, found⟩ := List.mem_iff_getElem?.mp member
          obtain ⟨own, _, labels⟩ := sound.built.code_of_instr found
          exact (labels.edge y edge).1
  have path := sound.reached b inMap
  induction path with
  | refl => exact .entry
  | @tail x y before step ih =>
      have inMapX := inside x before
      obtain ⟨inCode, stops⟩ := reaches_of_spells (sound.built.spells x inMapX) (ih inMapX)
      rcases step with next | ⟨instr, member, edge⟩
      · exact stops y next
      · obtain ⟨index, found⟩ := List.mem_iff_getElem?.mp member
        obtain ⟨own, foundCode, labels⟩ := sound.built.code_of_instr found
        obtain ⟨_, known, isBranch, goes⟩ := labels.edge y edge
        obtain ⟨a, fetched, reaches, fetches, inGroup⟩ :=
          inCode own (List.mem_of_getElem? foundCode)
        refine .branch reaches fetches inGroup (labels.same ▸ isBranch) ?_
        rw [target_eq goes, if_neg known]

theorem Sound.fetched_branch (sound : Sound fetch context entry state)
    (collected : state.edges = index :: rest)
    (foundCode : (state.code state.srcBlock)[index]? = some own) :
    own.instruction.isBranch = true ∧ ∃ a fetched, Reaches fetch context entry a ∧
      fetch a = some fetched ∧ own ∈ fetched.instrs := by
  obtain ⟨instr, found, isOpen⟩ := sound.pending.collected index (collected ▸ List.mem_cons_self)
  obtain ⟨other, foundOther, labels⟩ := sound.built.code_of_instr found
  cases foundOther.symm.trans foundCode
  have inMap := mem_of_instr sound.built found
  obtain ⟨a, fetched, reaches, fetches, inGroup⟩ :=
    (reaches_of_spells (sound.built.spells _ inMap) (sound.reaches inMap)).1 own
      (List.mem_of_getElem? foundCode)
  exact ⟨labels.same ▸ (Bool.and_eq_true_iff.mp isOpen).1, a, fetched, reaches, fetches, inGroup⟩

theorem Sound.reaches_target (sound : Sound fetch context entry state)
    (collected : state.edges = index :: rest)
    (foundCode : (state.code state.srcBlock)[index]? = some own)
    (target : own.getRawTarget context = .ok itext) (known : itext ≠ 0) :
    Reaches fetch context entry itext := by
  obtain ⟨branch, a, fetched, reaches, fetches, inGroup⟩ :=
    sound.fetched_branch collected foundCode
  refine .branch reaches fetches inGroup branch ?_
  rw [target_eq target, if_neg known]

/-! ### All steps -/

section Pass

variable {decodeBlock : BitVec 64 → Option (Except Failure (List DecodedInstruction))}
variable {order : List (BitVec 64) → List (BitVec 64)}

theorem Sound.resolveTo (well : FetchesWell fetch) (sound : Sound fetch context entry state)
    (decodes : ∀ itext instrs, decodeBlock itext = some (.ok instrs) →
      Spells fetch itext instrs none)
    (permutes : ∀ blocks, (order blocks).Perm blocks)
    (collected : state.edges = index :: rest)
    (foundCode : (state.code state.srcBlock)[index]? = some own)
    (target : own.getRawTarget context = .ok itext)
    (returned : Reconstruction.resolveTo decodeBlock order state index rest itext = .ok later) :
    Sound fetch context entry later ∧
      ((∀ a, Reaches fetch context entry a → decodeBlock a ≠ none) →
        potential later < potential state) := by
  have fewer : rest.length < state.edges.length := by
    rw [collected]
    exact Nat.lt_succ_self rest.length
  unfold Reconstruction.resolveTo at returned
  split at returned
  · rename_i unknown
    cases returned
    exact ⟨sound.skip collected foundCode (unknown ▸ target),
      fun _ => potential_lt_of_edges rfl rfl fewer⟩
  · rename_i known
    split at returned
    · rename_i member
      cases returned
      exact ⟨sound.install collected foundCode target known member,
        fun _ => potential_lt_of_edges rfl rfl fewer⟩
    · rename_i fresh
      obtain ⟨covered, covers, goesOn⟩ := bind_ok returned
      cases covered with
      | some place =>
          obtain ⟨split, splits, same⟩ := bind_ok goesOn
          cases same
          obtain ⟨member, starts⟩ := iTextCovered_some covers
          have inMap : place.1 ∈ state.blockMap := (permutes state.blockMap).mem_iff.mp member
          obtain ⟨after, splitsToo, soundLater, grown⟩ := sound.splitBlock well inMap fresh starts
          rw [splits] at splitsToo
          cases splitsToo
          exact ⟨soundLater, fun _ => potential_lt_of_new sound.built.once fresh grown⟩
      | none =>
          cases block : decodeBlock itext with
          | none =>
              rw [block] at goesOn
              cases goesOn
              exact ⟨sound, fun ends => absurd block
                (ends itext (sound.reaches_target collected foundCode target known))⟩
          | some decoded =>
              rw [block] at goesOn
              obtain ⟨instrs, returns, same⟩ := bind_ok goesOn
              cases same
              have spells := decodes itext instrs (block.trans (congrArg some returns))
              exact ⟨sound.decode collected foundCode target known fresh spells,
                fun _ => potential_lt_of_new sound.built.once fresh rfl⟩

theorem Sound.step (well : FetchesWell fetch) (sound : Sound fetch context entry state)
    (decodes : ∀ itext instrs, decodeBlock itext = some (.ok instrs) →
      Spells fetch itext instrs none)
    (permutes : ∀ blocks, (order blocks).Perm blocks)
    (stepped : Reconstruction.step decodeBlock context order state = .ok (some later)) :
    Sound fetch context entry later ∧
      ((∀ a, Reaches fetch context entry a → decodeBlock a ≠ none) →
        potential later < potential state) := by
  unfold Reconstruction.step at stepped
  split at stepped
  · rename_i index rest collected
    split at stepped
    · cases stepped
    · rename_i own foundCode
      obtain ⟨itext, target, goesOn⟩ := bind_ok stepped
      obtain ⟨after, resolves, same⟩ := bind_ok goesOn
      cases same
      exact sound.resolveTo well decodes permutes collected foundCode target resolves
  · rename_i finished
    split at stepped
    · cases stepped
    · rename_i src stack onStack
      cases stepped
      refine ⟨sound.pop finished onStack, fun _ => ?_⟩
      apply Prod.Lex.toLex_lt_toLex.mpr
      right
      refine ⟨rfl, Prod.Lex.toLex_lt_toLex.mpr (Or.inl ?_)⟩
      change stack.length < state.resolveStack.length
      rw [onStack]
      exact Nat.lt_succ_self stack.length

end Pass

end Reconstruction

end Drob
