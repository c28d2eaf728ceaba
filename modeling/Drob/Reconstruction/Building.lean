import Drob.Reconstruction.BalancedEdits
import Drob.Reconstruction.Spelling

/-!
The graph under construction: its blocks are spelled by the code, its edges lead to the targets
of the branches, and decoding a block, splitting a block and resolving a branch keep this.
-/

namespace Drob

open FunctionNode

namespace Reconstruction

/-- An instruction of a block is one of the code, and its edge leads to the target. -/
structure Labels (context : Context) (blockMap : List (BitVec 64))
    (instr : BlockInstruction (BitVec 64)) (code : DecodedInstruction) : Prop where
  same : instr.instruction = code.instruction
  edge : ∀ dst, instr.branchEdge = some dst → dst ∈ blockMap ∧ dst ≠ 0 ∧
    instr.instruction.isBranch = true ∧ code.getRawTarget context = .ok dst

structure Built (fetch : BitVec 64 → Option Fetched) (context : Context) (entry : BitVec 64)
    (nodes : Nodes (BitVec 64)) (code : BitVec 64 → List DecodedInstruction)
    (blockMap : List (BitVec 64)) : Prop where
  once : blockMap.Nodup
  entryBlock : nodes.entryBlock = some entry
  entryMember : entry ∈ blockMap
  empty : ∀ x, x ∉ blockMap → (nodes.block x).instrs = [] ∧ (nodes.block x).next = none
  balanced : nodes.Balanced
  linked : Linked nodes.block
  acyclic : Acyclic nodes.block
  labels : ∀ b, List.Forall₂ (Labels context blockMap) (nodes.block b).instrs (code b)
  spells : ∀ b ∈ blockMap, Spells fetch b (code b) (nodes.block b).next
  next : ∀ b n, (nodes.block b).next = some n → n ∈ blockMap

variable {fetch : BitVec 64 → Option Fetched} {context : Context} {entry : BitVec 64}
variable {nodes : Nodes (BitVec 64)} {code : BitVec 64 → List DecodedInstruction}
variable {blockMap : List (BitVec 64)} {b x itext : BitVec 64} {index : ℕ}
variable {instr : BlockInstruction (BitVec 64)} {own : DecodedInstruction}

theorem Labels.mono {more : List (BitVec 64)} (labels : Labels context blockMap instr own)
    (sub : blockMap ⊆ more) : Labels context more instr own := by
  refine ⟨labels.same, fun dst edge => ?_⟩
  obtain ⟨member, rest⟩ := labels.edge dst edge
  exact ⟨sub member, rest⟩

theorem mem_of_instr (built : Built fetch context entry nodes code blockMap)
    (found : (nodes.block b).instrs[index]? = some instr) : b ∈ blockMap := by
  by_contra outside
  rw [(built.empty b outside).1] at found
  cases found

theorem Built.code_of_instr (built : Built fetch context entry nodes code blockMap)
    (found : (nodes.block b).instrs[index]? = some instr) :
    ∃ own, (code b)[index]? = some own ∧ Labels context blockMap instr own := by
  obtain ⟨inside, rfl⟩ := List.getElem?_eq_some_iff.mp found
  have other : index < (code b).length := (built.labels b).length_eq ▸ inside
  exact ⟨_, List.getElem?_eq_getElem other, (built.labels b).get inside other⟩

theorem Built.countP_leadsTo (built : Built fetch context entry nodes code blockMap)
    (outside : x ∉ blockMap) (b : BitVec 64) :
    (nodes.block b).instrs.countP (Nodes.leadsTo x) = 0 := by
  rw [List.countP_eq_zero]
  intro instr member leads
  obtain ⟨index, found⟩ := List.mem_iff_getElem?.mp member
  obtain ⟨own, _, labels⟩ := built.code_of_instr found
  exact outside (labels.edge x (of_decide_eq_true leads)).1

theorem Built.unallocated (built : Built fetch context entry nodes code blockMap)
    (outside : x ∉ blockMap) : nodes.Unallocated x := by
  obtain ⟨noInstrs, noNext⟩ := built.empty x outside
  have noPrev : (nodes.block x).prev = none := by
    cases prev : (nodes.block x).prev with
    | none => rfl
    | some y => exact absurd (built.next y x ((built.linked y x).mpr prev)) outside
  have noOutgoing : (nodes.block x).outgoingEdges = [] := by
    rw [List.eq_nil_iff_forall_not_mem]
    intro n member
    have counted := List.count_pos_iff.mpr member
    rw [built.balanced.outgoing, noInstrs] at counted
    exact absurd counted (lt_irrefl 0)
  have noIncoming : (nodes.block x).incomingEdges = [] := by
    rw [List.eq_nil_iff_forall_not_mem]
    intro y member
    have counted := List.count_pos_iff.mpr member
    rw [built.balanced.incoming, built.countP_leadsTo outside] at counted
    exact absurd counted (lt_irrefl 0)
  refine ⟨?_, ?_, ?_⟩
  · cases record : nodes.block x with
    | mk instrs next prev incomingEdges outgoingEdges =>
        rw [record] at noInstrs noNext noPrev noOutgoing noIncoming
        dsimp only at noInstrs noNext noPrev noOutgoing noIncoming
        rw [noInstrs, noNext, noPrev, noOutgoing, noIncoming]
        rfl
  · rw [built.entryBlock]
    intro same
    exact outside (Option.some.inj same ▸ built.entryMember)
  · intro y member
    have counted := List.count_pos_iff.mpr member
    rw [built.balanced.outgoing, built.countP_leadsTo outside] at counted
    exact absurd counted (lt_irrefl 0)

/-! ### Resolving a branch -/

theorem forall₂_modify {α β : Type} {related : α → β → Prop} {first : List α} {second : List β}
    (all : List.Forall₂ related first second) {change : α → α}
    (changed : ∀ left right, first[index]? = some left → second[index]? = some right →
      related left right → related (change left) right) :
    List.Forall₂ related (first.modify index change) second := by
  induction all generalizing index with
  | nil =>
      rw [List.modify_nil]
      exact .nil
  | @cons left right _ _ here rest ih =>
      cases index with
      | zero =>
          rw [List.modify_zero_cons]
          exact .cons (changed left right rfl rfl here) rest
      | succ index =>
          rw [List.modify_succ_cons]
          exact .cons here (ih changed)

theorem Built.addBranchEdge (built : Built fetch context entry nodes code blockMap)
    {src dst : BitVec 64} (found : (nodes.block src).instrs[index]? = some instr)
    (open_ : isOpenBranch instr = true) (foundCode : (code src)[index]? = some own)
    (target : own.getRawTarget context = .ok dst) (known : dst ≠ 0) (member : dst ∈ blockMap) :
    Built fetch context entry (nodes.addBranchEdge src index dst) code blockMap := by
  have keeps := Nodes.keeps_addBranchEdge nodes src index dst
  obtain ⟨branch, noEdge⟩ := Bool.and_eq_true_iff.mp open_
  refine ⟨built.once, keeps.entry.trans built.entryBlock, built.entryMember, ?_, ?_,
    keeps.linked built.linked, keeps.acyclic built.acyclic, ?_, ?_, ?_⟩
  · intro x outside
    obtain ⟨noInstrs, noNext⟩ := built.empty x outside
    rw [keeps.next, Nodes.instrs_addBranchEdge, if_neg]
    · exact ⟨noInstrs, noNext⟩
    · rintro rfl
      exact outside (mem_of_instr built found)
  · exact built.balanced.addBranchEdge found (Option.isNone_iff_eq_none.mp noEdge) dst
  · intro b
    rw [Nodes.instrs_addBranchEdge]
    split
    · rename_i here
      rw [here]
      apply forall₂_modify (built.labels src)
      intro left right isLeft isRight labels
      rw [found] at isLeft
      cases isLeft
      rw [foundCode] at isRight
      cases isRight
      refine ⟨labels.same, ?_⟩
      intro n same
      cases same
      exact ⟨member, known, branch, target⟩
    · exact built.labels b
  · intro b inMap
    rw [keeps.next]
    exact built.spells b inMap
  · intro b n next
    rw [keeps.next] at next
    exact built.next b n next

/-! ### Splitting a block -/

theorem Built.splitBlock (well : FetchesWell fetch)
    (built : Built fetch context entry nodes code blockMap) (inMap : b ∈ blockMap)
    (fresh : itext ∉ blockMap) {kept : ℕ}
    (starts : (code b).findIdx? (fun instr => decide (instr.itext = itext)) = some kept) :
    ∃ later, nodes.splitBlock b kept itext = .ok later ∧
      Nodes.SplitInto b kept itext nodes later ∧
      Built fetch context entry later
        (fun x =>
          if x = itext then (code b).drop kept
          else if x = b then (code b).take kept else code x) (blockMap ++ [itext]) := by
  have other : b ≠ itext := fun same => fresh (same ▸ inMap)
  have unallocated := built.unallocated fresh
  obtain ⟨later, returned, balanced, into⟩ := built.balanced.splitBlock unallocated other kept
  have keeps := Nodes.keeps_splitBlock returned
  obtain ⟨front, back⟩ := (built.spells b inMap).split well starts
  have sub : blockMap ⊆ blockMap ++ [itext] := List.subset_append_left _ _
  have labels (x : BitVec 64) : List.Forall₂ (Labels context (blockMap ++ [itext]))
      (nodes.block x).instrs (code x) :=
    (built.labels x).imp (fun _ _ labels => labels.mono sub)
  have entry : later.entryBlock = some entry := by
    rw [into.entry, built.entryBlock]
    rfl
  refine ⟨later, returned, into, ?_, entry, sub built.entryMember, ?_, balanced, ?_, ?_, ?_, ?_,
    ?_⟩
  · exact List.nodup_append.mpr ⟨built.once, List.nodup_singleton itext,
      fun x member y isNew same => fresh (List.mem_singleton.mp isNew ▸ same ▸ member)⟩
  · intro x outside
    have notNew : x ≠ itext := by
      rintro rfl
      exact outside (List.mem_append_right _ (List.mem_singleton_self x))
    have notOld : x ∉ blockMap := fun member => outside (sub member)
    have notSplit : x ≠ b := fun same => notOld (same ▸ inMap)
    rw [into.instrs, into.next, if_neg notNew, if_neg notSplit, if_neg notNew, if_neg notSplit]
    exact built.empty x notOld
  · exact keeps.linked (Nodes.linked_splitChain unallocated built.linked other kept)
  · exact keeps.acyclic (Nodes.acyclic_splitChain unallocated built.linked other kept built.acyclic)
  · intro x
    rw [into.instrs]
    split
    · exact List.forall₂_drop kept (labels b)
    · split
      · exact List.forall₂_take kept (labels b)
      · exact labels x
  · intro x member
    rw [into.next]
    split
    · rename_i new
      rw [new]
      exact back
    · rename_i old
      split
      · rename_i here
        rw [here]
        exact front
      · have inOld : x ∈ blockMap := (List.mem_append.mp member).resolve_right
          (fun isNew => old (List.mem_singleton.mp isNew))
        exact built.spells x inOld
  · intro x n next
    rw [into.next] at next
    split at next
    · exact sub (built.next b n next)
    · split at next
      · cases next
        exact List.mem_append_right _ (List.mem_singleton_self itext)
      · exact sub (built.next x n next)

/-! ### Decoding a block -/

theorem Built.decodeBlock (built : Built fetch context entry nodes code blockMap)
    (fresh : itext ∉ blockMap) {instrs : List DecodedInstruction}
    (spells : Spells fetch itext instrs none) :
    Built fetch context entry
      (nodes.decodeBlock itext (instrs.map DecodedInstruction.instruction))
      (Function.update code itext instrs) (blockMap ++ [itext]) := by
  have unallocated := built.unallocated fresh
  have blocks := Nodes.block_decodeBlock nodes itext
  have entered : nodes.entryBlock ≠ none := by
    rw [built.entryBlock]
    exact Option.some_ne_none entry
  have keeps := Nodes.keeps_decodeBlock unallocated (instrs.map DecodedInstruction.instruction)
  rw [Nodes.addBlock_of_entry entered] at keeps
  have balanced := built.balanced.decodeBlock unallocated
    (instrs.map DecodedInstruction.instruction)
  have sub : blockMap ⊆ blockMap ++ [itext] := List.subset_append_left _ _
  refine ⟨?_, keeps.entry.trans built.entryBlock, sub built.entryMember, ?_, balanced,
    keeps.linked built.linked, keeps.acyclic built.acyclic, ?_, ?_, ?_⟩
  · exact List.nodup_append.mpr ⟨built.once, List.nodup_singleton itext,
      fun x member y isNew same => fresh (List.mem_singleton.mp isNew ▸ same ▸ member)⟩
  · intro x outside
    have notNew : x ≠ itext := by
      rintro rfl
      exact outside (List.mem_append_right _ (List.mem_singleton_self x))
    rw [blocks, if_neg notNew]
    exact built.empty x (fun member => outside (sub member))
  · intro x
    rw [blocks, Function.update_apply]
    split
    · rw [List.map_map, List.forall₂_map_left_iff, List.forall₂_same]
      intro own _
      exact ⟨rfl, fun dst impossible => by cases impossible⟩
    · exact (built.labels x).imp (fun _ _ labels => labels.mono sub)
  · intro x member
    rw [keeps.next, Function.update_apply]
    split
    · rename_i new
      rw [new, (built.empty itext fresh).2]
      exact spells
    · rename_i old
      have inOld : x ∈ blockMap := (List.mem_append.mp member).resolve_right
        (fun isNew => old (List.mem_singleton.mp isNew))
      exact built.spells x inOld
  · intro x n next
    rw [keeps.next] at next
    exact sub (built.next x n next)

end Reconstruction

end Drob
