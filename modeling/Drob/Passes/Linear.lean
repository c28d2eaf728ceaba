import Drob.Library.Contraction
import Drob.Library.Result
import Drob.Passes.BlockLayoutOptimization

/-!
When the block layout keeps the fallthrough chains linear: chaining follows no cycle of
jumps, and whatever is chained in front of the entry block is merged into it.
-/

namespace Drob

namespace FunctionCfg

open Contraction

variable {ι : Type}

def Falls (cfg : FunctionCfg ι) (b n : ι) : Prop :=
  (cfg.block b).next = some n

def Acyclic (cfg : FunctionCfg ι) : Prop :=
  ∀ b, ¬ Relation.TransGen cfg.Falls b b

def Consistent (cfg : FunctionCfg ι) : Prop :=
  ∀ b n, cfg.Falls b n ↔ (cfg.block n).prev = some b

/-- No walk along `next` comes back, and the entry block begins its chain. -/
structure Linear (cfg : FunctionCfg ι) : Prop where
  acyclic : cfg.Acyclic
  entry : (cfg.block cfg.entryBlock).prev = none

/-- The fallthrough block of a block has no other way in. -/
def Mergeable (cfg : FunctionCfg ι) (b : ι) : Prop :=
  ∃ n, cfg.Falls b n ∧ (cfg.block n).incomingEdges = []

theorem Consistent.unique {cfg : FunctionCfg ι} (consistent : cfg.Consistent) {a b n : ι}
    (left : cfg.Falls a n) (right : cfg.Falls b n) : a = b := by
  have prevA := (consistent a n).mp left
  have prevB := (consistent b n).mp right
  exact Option.some.inj (prevA.symm.trans prevB)

theorem Falls.unique {cfg : FunctionCfg ι} {b m n : ι} (left : cfg.Falls b m)
    (right : cfg.Falls b n) : m = n :=
  Option.some.inj (left.symm.trans right)

theorem Acyclic.ne {cfg : FunctionCfg ι} (acyclic : cfg.Acyclic) {b n : ι}
    (falls : cfg.Falls b n) : n ≠ b := by
  rintro rfl
  exact acyclic n (.single falls)

variable [DecidableEq ι] {cfg merged : FunctionCfg ι} {b n : ι}

/-! ### Merging one block -/

structure Merges (cfg merged : FunctionCfg ι) (b n : ι) : Prop where
  falls : cfg.Falls b n
  unshared : (cfg.block n).incomingEdges = []
  other : n ≠ b
  entry : merged.entryBlock = if cfg.entryBlock = b then n else cfg.entryBlock
  next : ∀ x y, merged.Falls x y ↔ Contracted cfg.Falls b x y
  removed : (merged.block b).prev = none
  prev : ∀ x, x ≠ b → (merged.block x).prev =
    if x = n then (cfg.block b).prev else (cfg.block x).prev
  incoming : ∀ x, x ≠ b → ((merged.block x).incomingEdges = [] ↔
    (cfg.block x).incomingEdges = [] ∧ (x = n → (cfg.block b).incomingEdges = []))

theorem mergeBlockIntoNext_merges (consistent : cfg.Consistent)
    (returned : cfg.mergeBlockIntoNext b = .ok merged) : ∃ n, Merges cfg merged b n := by
  unfold mergeBlockIntoNext at returned
  cases next : (cfg.block b).next with
  | none =>
      rw [next] at returned
      cases returned
  | some n =>
      rw [next] at returned
      dsimp only at returned
      obtain ⟨shared, returned⟩ := ite_error returned
      obtain ⟨other, returned⟩ := ite_error returned
      cases Except.ok.inj returned
      have unshared := not_not.mp shared
      refine ⟨n, next, unshared, other, rfl, ?_, by dsimp only; rw [if_pos rfl]; rfl, ?_, ?_⟩
      · intro x y
        unfold Falls Contracted
        dsimp only
        by_cases removed : x = b
        · rw [if_pos removed]
          exact iff_of_false nofun (fun step => step.1 removed)
        · rw [if_neg removed]
          change (if (cfg.block b).prev = some x then some n else
            (if x = n then mergedBlock (cfg.block b) (cfg.block n) else cfg.block x).next) = some y ↔ _
          have nextEq : (if x = n then mergedBlock (cfg.block b) (cfg.block n) else cfg.block x).next =
              (cfg.block x).next := by
            split
            · rename_i same
              rw [same]
              rfl
            · rfl
          rw [nextEq]
          by_cases before : (cfg.block b).prev = some x
          · have step : cfg.Falls x b := (consistent x b).mpr before
            rw [if_pos before]
            constructor
            · intro same
              cases Option.some.inj same
              exact ⟨removed, other, Or.inr ⟨step, next⟩⟩
            · rintro ⟨_, outside, direct | ⟨_, through⟩⟩
              · exact absurd (Falls.unique direct step) outside
              · exact congrArg some (Falls.unique next through)
          · rw [if_neg before]
            constructor
            · intro direct
              refine ⟨removed, ?_, Or.inl direct⟩
              rintro rfl
              exact before ((consistent x y).mp direct)
            · rintro ⟨_, _, direct | ⟨first, _⟩⟩
              · exact direct
              · exact absurd ((consistent x b).mp first) before
      · intro x kept
        dsimp only
        rw [if_neg kept]
        change (if x = n then mergedBlock (cfg.block b) (cfg.block n) else cfg.block x).prev = _
        split <;> rfl
      · intro x kept
        dsimp only
        rw [if_neg kept]
        change (if x = n then mergedBlock (cfg.block b) (cfg.block n)
          else cfg.block x).incomingEdges.map (redirect b n) = [] ↔ _
        rw [List.map_eq_nil_iff]
        by_cases here : x = n
        · rw [if_pos here, here]
          change (cfg.block n).incomingEdges ++ (cfg.block b).incomingEdges = [] ↔ _
          rw [List.append_eq_nil_iff]
          exact and_congr_right (fun _ => ⟨fun empty _ => empty, fun empty => empty rfl⟩)
        · rw [if_neg here]
          exact ⟨fun empty => ⟨empty, fun same => absurd same here⟩, And.left⟩

theorem mergeBlockIntoNext_ok (falls : cfg.Falls b n)
    (unshared : (cfg.block n).incomingEdges = []) (other : n ≠ b) :
    ∃ merged, cfg.mergeBlockIntoNext b = .ok merged := by
  unfold mergeBlockIntoNext
  rw [show (cfg.block b).next = some n from falls]
  dsimp only
  rw [if_neg (not_not.mpr unshared), if_neg other]
  exact ⟨_, rfl⟩

namespace Merges

theorem consistent (merges : Merges cfg merged b n) (before : cfg.Consistent) :
    merged.Consistent := by
  intro x y
  rw [merges.next]
  by_cases removed : y = b
  · subst removed
    rw [merges.removed]
    exact iff_of_false (fun step => step.2.1 rfl) nofun
  · rw [merges.prev y removed]
    by_cases here : y = n
    · subst here
      rw [if_pos rfl]
      refine Iff.trans ?_ (before x b)
      constructor
      · rintro ⟨outside, _, direct | ⟨first, _⟩⟩
        · exact absurd (before.unique direct merges.falls) outside
        · exact first
      · intro first
        refine ⟨?_, removed, Or.inr ⟨first, merges.falls⟩⟩
        rintro rfl
        exact merges.other (Falls.unique merges.falls first)
    · rw [if_neg here]
      refine Iff.trans ?_ (before x y)
      constructor
      · rintro ⟨_, _, direct | ⟨_, second⟩⟩
        · exact direct
        · exact absurd (Falls.unique second merges.falls) here
      · intro direct
        refine ⟨?_, removed, Or.inl direct⟩
        rintro rfl
        exact here (Falls.unique direct merges.falls)

theorem acyclic_iff (merges : Merges cfg merged b n) : merged.Acyclic ↔ cfg.Acyclic := by
  have same : merged.Falls = Contracted cfg.Falls b := by
    funext x y
    exact propext (merges.next x y)
  unfold Acyclic
  rw [same]
  exact acyclic_contracted_iff merges.falls merges.other
    (fun y falls => Falls.unique falls merges.falls)

theorem mergeable_iff (merges : Merges cfg merged b n) (before : cfg.Consistent) {x : ι}
    (kept : x ≠ b) : merged.Mergeable x ↔ cfg.Mergeable x := by
  constructor
  · rintro ⟨m, falls, empty⟩
    obtain ⟨_, outside, step⟩ := (merges.next x m).mp falls
    obtain ⟨empty, moved⟩ := (merges.incoming m outside).mp empty
    rcases step with direct | ⟨first, second⟩
    · exact ⟨m, direct, empty⟩
    · exact ⟨b, first, moved (Falls.unique second merges.falls)⟩
  · rintro ⟨m, falls, empty⟩
    by_cases removed : m = b
    · subst removed
      refine ⟨n, (merges.next x n).mpr ⟨kept, merges.other, Or.inr ⟨falls, merges.falls⟩⟩, ?_⟩
      exact (merges.incoming n merges.other).mpr ⟨merges.unshared, fun _ => empty⟩
    · refine ⟨m, (merges.next x m).mpr ⟨kept, removed, Or.inl falls⟩, ?_⟩
      refine (merges.incoming m removed).mpr ⟨empty, ?_⟩
      rintro rfl
      exact absurd (before.unique falls merges.falls) kept

theorem entry_iff (merges : Merges cfg merged b n) (before : cfg.Consistent)
    (acyclic : cfg.Acyclic) {rest : List ι} :
    (∀ x, Relation.TransGen merged.Falls x merged.entryBlock → x ∈ rest) ↔
      ∀ x, Relation.TransGen cfg.Falls x cfg.entryBlock → x ∈ b :: rest := by
  have same : merged.Falls = Contracted cfg.Falls b := by
    funext x y
    exact propext (merges.next x y)
  rw [same, merges.entry]
  by_cases atEntry : cfg.entryBlock = b
  · -- the entry moves to the fallthrough block, which only the merged block precedes
    rw [if_pos atEntry, atEntry]
    constructor
    · intro all x path
      have kept : x ≠ b := by
        rintro rfl
        exact acyclic x path
      exact List.mem_cons_of_mem b
        (all x ((transGen_contracted_iff kept merges.other).mpr (path.tail merges.falls)))
    · intro all x path
      obtain ⟨kept, _⟩ := ne_of_transGen_contracted path
      have reaches := (transGen_contracted_iff kept merges.other).mp path
      rcases Relation.TransGen.tail'_iff.mp reaches with ⟨y, toLast, last⟩
      have lastEq := before.unique last merges.falls
      subst lastEq
      rcases Relation.reflTransGen_iff_eq_or_transGen.mp toLast with equal | path
      · exact absurd equal.symm kept
      · exact (List.mem_cons.mp (all x path)).resolve_left kept
  · rw [if_neg atEntry]
    constructor
    · intro all x path
      by_cases removed : x = b
      · rw [removed]
        exact List.mem_cons_self
      · exact List.mem_cons_of_mem b (all x ((transGen_contracted_iff removed atEntry).mpr path))
    · intro all x path
      obtain ⟨kept, _⟩ := ne_of_transGen_contracted path
      exact (List.mem_cons.mp (all x ((transGen_contracted_iff kept atEntry).mp path))).resolve_left
        kept

end Merges

/-! ### Merging all of them -/

omit [DecidableEq ι] in
theorem entry_of_nil (consistent : cfg.Consistent) :
    (cfg.block cfg.entryBlock).prev = none ↔
      ∀ x, Relation.TransGen cfg.Falls x cfg.entryBlock → x ∈ ([] : List ι) := by
  constructor
  · intro first x path
    obtain ⟨y, _, last⟩ := Relation.TransGen.tail'_iff.mp path
    have prev := (consistent y cfg.entryBlock).mp last
    rw [first] at prev
    cases prev
  · intro none
    cases prev : (cfg.block cfg.entryBlock).prev with
    | none => rfl
    | some y =>
        have falls := (consistent y cfg.entryBlock).mpr prev
        cases none y (.single falls)

theorem mergeAll_spec (consistent : cfg.Consistent) {blocksToMerge : List ι}
    (returned : BlockLayout.mergeAll cfg blocksToMerge = .ok merged) :
    (merged.Acyclic ↔ cfg.Acyclic) ∧
      (cfg.Acyclic → ((merged.block merged.entryBlock).prev = none ↔
        ∀ x, Relation.TransGen cfg.Falls x cfg.entryBlock → x ∈ blocksToMerge)) := by
  induction blocksToMerge generalizing cfg with
  | nil =>
      cases Except.ok.inj returned
      exact ⟨Iff.rfl, fun _ => entry_of_nil consistent⟩
  | cons b rest ih =>
      obtain ⟨next, first, later⟩ := bind_ok returned
      obtain ⟨n, merges⟩ := mergeBlockIntoNext_merges consistent first
      obtain ⟨cycles, entry⟩ := ih (merges.consistent consistent) later
      refine ⟨cycles.trans merges.acyclic_iff, ?_⟩
      intro acyclic
      exact (entry (merges.acyclic_iff.mpr acyclic)).trans (merges.entry_iff consistent acyclic)

theorem mergeAll_ok_iff (consistent : cfg.Consistent) (acyclic : cfg.Acyclic)
    {blocksToMerge : List ι} (once : blocksToMerge.Nodup) :
    (∃ merged, BlockLayout.mergeAll cfg blocksToMerge = .ok merged) ↔
      ∀ b ∈ blocksToMerge, cfg.Mergeable b := by
  induction blocksToMerge generalizing cfg with
  | nil => exact ⟨fun _ _ impossible => (by cases impossible), fun _ => ⟨cfg, rfl⟩⟩
  | cons b rest ih =>
      obtain ⟨notIn, onceRest⟩ := List.nodup_cons.mp once
      constructor
      · rintro ⟨merged, returned⟩
        obtain ⟨next, first, later⟩ := bind_ok returned
        obtain ⟨n, merges⟩ := mergeBlockIntoNext_merges consistent first
        have others := (ih (merges.consistent consistent) (merges.acyclic_iff.mpr acyclic)
          onceRest).mp ⟨merged, later⟩
        intro x member
        rcases List.mem_cons.mp member with rfl | inRest
        · exact ⟨n, merges.falls, merges.unshared⟩
        · exact (merges.mergeable_iff consistent (fun same => notIn (same ▸ inRest))).mp
            (others x inRest)
      · intro all
        obtain ⟨n, falls, unshared⟩ := all b List.mem_cons_self
        obtain ⟨next, first⟩ := mergeBlockIntoNext_ok falls unshared (acyclic.ne falls)
        obtain ⟨m, merges⟩ := mergeBlockIntoNext_merges consistent first
        obtain ⟨merged, later⟩ := (ih (merges.consistent consistent)
          (merges.acyclic_iff.mpr acyclic) onceRest).mpr (by
            intro x inRest
            exact (merges.mergeable_iff consistent (fun same => notIn (same ▸ inRest))).mpr
              (all x (List.mem_cons_of_mem b inRest)))
        refine ⟨merged, ?_⟩
        unfold BlockLayout.mergeAll
        rw [first]
        exact later

end FunctionCfg

namespace BlockLayout

variable {ι : Type}

/-! ### Which blocks are chained and merged -/

def Jumps (cfg : FunctionCfg ι) (b dst : ι) : Prop :=
  (cfg.block b).next = none ∧ jumpTarget (cfg.block b) = some dst

def Chosen (blocks : List ι) (cfg : FunctionCfg ι) (b dst : ι) : Prop :=
  Jumps cfg b dst ∧ (cfg.block dst).prev = none ∧
    ∃ before after, blocks = before ++ b :: after ∧ ∀ x ∈ before, ¬ Jumps cfg x dst

def Linked (blocks : List ι) (cfg : FunctionCfg ι) (b n : ι) : Prop :=
  cfg.Falls b n ∨ Chosen blocks cfg b n

def Absorbed [DecidableEq ι] (blocks : List ι) (cfg : FunctionCfg ι) (b : ι) : Prop :=
  ∃ n, cfg.Falls b n ∧ ((cfg.block b).instrs = [] ∨ (cfg.block n).incomingEdges = []) ∨
    Chosen blocks cfg b n ∧ eraseLast (cfg.block n).incomingEdges b = []

section Chosen

variable {blocks done rest : List ι} {cfg : FunctionCfg ι} {b dst x : ι}

theorem Jumps.instrs (jumps : Jumps cfg b dst) : (cfg.block b).instrs ≠ [] := by
  intro empty
  have target := jumps.2
  unfold jumpTarget at target
  rw [empty] at target
  cases target

theorem Chosen.target_unique {other : ι} (left : Chosen blocks cfg b dst)
    (right : Chosen blocks cfg b other) : dst = other :=
  Option.some.inj (left.1.2.symm.trans right.1.2)

theorem before_of_split (once : blocks.Nodup) (split : blocks = done ++ b :: rest)
    {before after : List ι} (other : blocks = before ++ b :: after) : before = done := by
  rw [split] at other once
  obtain ⟨_, onceRest, apart⟩ := List.nodup_append.mp once
  have notDone : b ∉ done := fun member => apart b member b List.mem_cons_self rfl
  exact ((List.append_cons_inj_of_notMem notDone (List.nodup_cons.mp onceRest).1).mp other).1.symm

theorem Chosen.unique (once : blocks.Nodup) (left : Chosen blocks cfg b dst)
    (right : Chosen blocks cfg x dst) : b = x := by
  obtain ⟨jumps, _, before, after, split, first⟩ := left
  obtain ⟨jumps', _, before', after', split', first'⟩ := right
  have member : b ∈ before' ++ x :: after' := by
    rw [← split', split]
    exact List.mem_append_right _ List.mem_cons_self
  rcases List.mem_append.mp member with early | late
  · exact absurd jumps (first' b early)
  · rcases List.mem_cons.mp late with same | late
    · exact same
    · obtain ⟨between, last, rfl⟩ := List.append_of_mem late
      have whole : blocks = (before' ++ x :: between) ++ b :: last := by
        rw [split', List.append_assoc, List.cons_append]
      have same := before_of_split once split whole
      refine absurd jumps' (first x ?_)
      rw [← same]
      exact List.mem_append_right _ List.mem_cons_self

theorem exists_chosen (split : blocks = done ++ rest) (prev : (cfg.block dst).prev = none)
    (jumping : ∃ x ∈ done, Jumps cfg x dst) : ∃ x ∈ done, Chosen blocks cfg x dst := by
  classical
  cases found : done.find? (fun x => decide (Jumps cfg x dst)) with
  | none =>
      obtain ⟨x, member, jumps⟩ := jumping
      have never := List.find?_eq_none.mp found x member
      exact absurd (decide_eq_true jumps) never
  | some x =>
      obtain ⟨jumps, before, after, doneEq, first⟩ := List.find?_eq_some_iff_append.mp found
      refine ⟨x, by rw [doneEq]; simp, of_decide_eq_true jumps, prev, before, after ++ rest, ?_, ?_⟩
      · rw [split, doneEq, List.append_assoc, List.cons_append]
      · intro y member jumpsY
        have never := first y member
        rw [decide_eq_true jumpsY] at never
        cases never

end Chosen

/-! ### Going over the blocks -/

variable [DecidableEq ι]

structure Chaining (blocks : List ι) (cfg : FunctionCfg ι) (done : List ι) (now : FunctionCfg ι) :
    Prop where
  entry : now.entryBlock = cfg.entryBlock
  next : ∀ b n, now.Falls b n ↔ cfg.Falls b n ∨ b ∈ done ∧ Chosen blocks cfg b n
  consistent : now.Consistent
  instrs : ∀ b, b ∉ done → (now.block b).instrs = (cfg.block b).instrs
  outgoing : ∀ b, b ∉ done → (now.block b).outgoingEdges = (cfg.block b).outgoingEdges
  chained : ∀ b ∈ done, ∀ n, Chosen blocks cfg b n →
    (now.block n).incomingEdges = eraseLast (cfg.block n).incomingEdges b
  others : ∀ n, (∀ b ∈ done, ¬ Chosen blocks cfg b n) →
    (now.block n).incomingEdges = (cfg.block n).incomingEdges

section Step

variable {blocks done rest : List ι} {cfg now : FunctionCfg ι} {b : ι}

theorem Chaining.start (wellFormed : cfg.WellFormed) : Chaining blocks cfg [] cfg where
  entry := rfl
  next := fun b n => ⟨Or.inl, fun falls => falls.resolve_right (fun chosen => by cases chosen.1)⟩
  consistent := wellFormed.next_prev
  instrs := fun _ _ => rfl
  outgoing := fun _ _ => rfl
  chained := fun _ member => by cases member
  others := fun _ _ => rfl

theorem Chaining.skip (chaining : Chaining blocks cfg done now)
    (never : ∀ n, ¬ Chosen blocks cfg b n) : Chaining blocks cfg (done ++ [b]) now where
  entry := chaining.entry
  next := by
    intro x n
    rw [chaining.next]
    refine or_congr_right ⟨fun both => ⟨List.mem_append_left _ both.1, both.2⟩, ?_⟩
    rintro ⟨member, chosen⟩
    rcases List.mem_append.mp member with old | new
    · exact ⟨old, chosen⟩
    · rw [List.mem_singleton.mp new] at chosen
      exact absurd chosen (never n)
  consistent := chaining.consistent
  instrs := fun x outside => chaining.instrs x (fun member => outside (List.mem_append_left _ member))
  outgoing := fun x outside =>
    chaining.outgoing x (fun member => outside (List.mem_append_left _ member))
  chained := by
    intro x member n chosen
    rcases List.mem_append.mp member with old | new
    · exact chaining.chained x old n chosen
    · rw [List.mem_singleton.mp new] at chosen
      exact absurd chosen (never n)
  others := fun n none => chaining.others n (fun x member => none x (List.mem_append_left _ member))

omit [DecidableEq ι] in
theorem not_mem_of_split (once : blocks.Nodup) (split : blocks = done ++ b :: rest) :
    b ∉ done := by
  intro member
  rw [split] at once
  exact (List.nodup_append.mp once).2.2 b member b List.mem_cons_self rfl

theorem Chaining.chain (wellFormed : cfg.WellFormed) (once : blocks.Nodup)
    (split : blocks = done ++ b :: rest) (chaining : Chaining blocks cfg done now) {dst : ι}
    (chosen : Chosen blocks cfg b dst) :
    ∃ later, BlockLayout.chain now b dst = .ok later ∧
      Chaining blocks cfg (done ++ [b]) later := by
  have notDone := not_mem_of_split once split
  have others (x : ι) (member : x ∈ done) : ¬ Chosen blocks cfg x dst := by
    intro other
    rw [Chosen.unique once other chosen] at member
    exact notDone member
  have incoming := chaining.others dst others
  have outgoing := chaining.outgoing b notDone
  have edge : dst ∈ (cfg.block b).outgoingEdges := by
    rw [wellFormed.edges]
    obtain ⟨last, isLast, target⟩ := Option.bind_eq_some_iff.mp chosen.1.2
    refine ⟨last, List.mem_of_getLast? isLast, ?_⟩
    split at target
    · exact target
    · cases target
  have notFalls (n : ι) : ¬ now.Falls b n := by
    intro falls
    rcases (chaining.next b n).mp falls with old | ⟨member, _⟩
    · have none := chosen.1.1
      rw [show (cfg.block b).next = some n from old] at none
      cases none
    · exact notDone member
  have notBefore (x : ι) : ¬ now.Falls x dst := by
    intro falls
    rcases (chaining.next x dst).mp falls with old | ⟨member, other⟩
    · have none := chosen.2.1
      rw [(wellFormed.next_prev x dst).mp old] at none
      cases none
    · exact others x member other
  refine ⟨_, if_pos ⟨by rw [outgoing]; exact edge,
    by rw [incoming, wellFormed.incoming]; exact edge⟩, ?_⟩
  have nextEq (x n : ι) : (if x = b then some dst else (now.block x).next) = some n ↔
      now.Falls x n ∨ x = b ∧ n = dst := by
    by_cases here : x = b
    · rw [if_pos here, here]
      constructor
      · intro same
        exact Or.inr ⟨rfl, (Option.some.inj same).symm⟩
      · rintro (falls | ⟨_, rfl⟩)
        · exact absurd falls (notFalls n)
        · rfl
    · rw [if_neg here]
      exact ⟨Or.inl, fun either => either.resolve_right (fun same => here same.1)⟩
  refine
    { entry := chaining.entry
      next := ?_
      consistent := ?_
      instrs := ?_
      outgoing := ?_
      chained := ?_
      others := ?_ }
  · intro x n
    refine (nextEq x n).trans ?_
    rw [chaining.next, or_assoc]
    refine or_congr_right ?_
    constructor
    · rintro (⟨member, old⟩ | ⟨rfl, rfl⟩)
      · exact ⟨List.mem_append_left _ member, old⟩
      · exact ⟨List.mem_append_right _ (List.mem_singleton_self _), chosen⟩
    · rintro ⟨member, either⟩
      rcases List.mem_append.mp member with old | new
      · exact Or.inl ⟨old, either⟩
      · have same := List.mem_singleton.mp new
        subst same
        exact Or.inr ⟨rfl, either.target_unique chosen⟩
  · intro x n
    refine (nextEq x n).trans ?_
    change _ ↔ (if n = dst then some b else (now.block n).prev) = some x
    by_cases here : n = dst
    · rw [if_pos here, here]
      constructor
      · rintro (falls | ⟨rfl, _⟩)
        · exact absurd falls (notBefore x)
        · rfl
      · intro same
        exact Or.inr ⟨(Option.some.inj same).symm, rfl⟩
    · rw [if_neg here]
      refine Iff.trans ?_ (chaining.consistent x n)
      exact ⟨fun either => either.resolve_right (fun same => here same.2), Or.inl⟩
  · intro x outside
    have differ : x ≠ b := by
      rintro rfl
      exact outside (List.mem_append_right _ (List.mem_singleton_self x))
    exact (if_neg differ).trans
      (chaining.instrs x (fun member => outside (List.mem_append_left _ member)))
  · intro x outside
    have differ : x ≠ b := by
      rintro rfl
      exact outside (List.mem_append_right _ (List.mem_singleton_self x))
    exact (if_neg differ).trans
      (chaining.outgoing x (fun member => outside (List.mem_append_left _ member)))
  · intro x member n other
    change (if n = dst then eraseLast (now.block n).incomingEdges b
      else (now.block n).incomingEdges) = _
    by_cases here : n = dst
    · subst here
      rw [if_pos rfl, incoming, Chosen.unique once other chosen]
    · rw [if_neg here]
      rcases List.mem_append.mp member with old | new
      · exact chaining.chained x old n other
      · rw [List.mem_singleton.mp new] at other
        exact absurd (other.target_unique chosen) here
  · intro n none
    have here : n ≠ dst := by
      rintro rfl
      exact none b (List.mem_append_right _ (List.mem_singleton_self b)) chosen
    exact (if_neg here).trans
      (chaining.others n (fun x member => none x (List.mem_append_left _ member)))

omit [DecidableEq ι] in
theorem not_chosen_of_falls (wellFormed : cfg.WellFormed) {n : ι} (falls : cfg.Falls b n) :
    (∀ x, ¬ Chosen blocks cfg x n) ∧ ∀ m, ¬ Chosen blocks cfg b m := by
  constructor
  · intro x chosen
    have none := chosen.2.1
    rw [(wellFormed.next_prev b n).mp falls] at none
    cases none
  · intro m chosen
    have none := chosen.1.1
    rw [show (cfg.block b).next = some n from falls] at none
    cases none

theorem Chaining.falls_iff (chaining : Chaining blocks cfg done now) (notDone : b ∉ done) (n : ι) :
    now.Falls b n ↔ cfg.Falls b n :=
  (chaining.next b n).trans (or_iff_left (fun both => notDone both.1))

theorem Chaining.tryChain_falls (wellFormed : cfg.WellFormed)
    (chaining : Chaining blocks cfg done now) (notDone : b ∉ done) {n : ι}
    (nextNow : (now.block b).next = some n) (nonempty : (cfg.block b).instrs ≠ []) :
    tryChain now b = .ok now ∧ Chaining blocks cfg (done ++ [b]) now ∧
      (nextUnshared now b = true ↔ Absorbed blocks cfg b) := by
  have leadsTo : cfg.Falls b n := (chaining.falls_iff notDone n).mp nextNow
  obtain ⟨alone, never⟩ : (∀ x, ¬ Chosen blocks cfg x n) ∧ ∀ m, ¬ Chosen blocks cfg b m :=
    not_chosen_of_falls wellFormed leadsTo
  refine ⟨?_, chaining.skip never, ?_⟩
  · unfold tryChain
    rw [nextNow]
  · unfold nextUnshared
    rw [nextNow]
    dsimp only
    rw [chaining.others n (fun x _ => alone x), List.isEmpty_iff]
    constructor
    · intro unshared
      exact ⟨n, Or.inl ⟨leadsTo, Or.inr unshared⟩⟩
    · rintro ⟨m, ⟨other, either⟩ | ⟨chosen, _⟩⟩
      · rw [FunctionCfg.Falls.unique leadsTo other]
        exact either.resolve_left nonempty
      · exact absurd chosen (never m)

theorem Chaining.not_absorbed (chaining : Chaining blocks cfg done now) (notDone : b ∉ done)
    (nextNow : (now.block b).next = none) (never : ∀ n, ¬ Chosen blocks cfg b n) :
    nextUnshared now b = true ↔ Absorbed blocks cfg b := by
  unfold nextUnshared
  rw [nextNow]
  refine iff_of_false Bool.false_ne_true ?_
  rintro ⟨m, ⟨other, _⟩ | ⟨chosen, _⟩⟩
  · have same : (now.block b).next = some m := (chaining.falls_iff notDone m).mpr other
    rw [nextNow] at same
    cases same
  · exact never m chosen

/-- A block that has a predecessor by now is not chained to another one. -/
theorem Chaining.not_chosen_of_prev (wellFormed : cfg.WellFormed) (once : blocks.Nodup)
    (chaining : Chaining blocks cfg done now) (notDone : b ∉ done) {dst x : ι}
    (prevNow : (now.block dst).prev = some x) : ¬ Chosen blocks cfg b dst := by
  intro chosen
  rcases (chaining.next x dst).mp ((chaining.consistent x dst).mpr prevNow) with
    old | ⟨member, other⟩
  · have none := chosen.2.1
    rw [(wellFormed.next_prev x dst).mp old] at none
    cases none
  · rw [Chosen.unique once other chosen] at member
    exact notDone member

theorem Chaining.chosen_of_prev (wellFormed : cfg.WellFormed)
    (split : blocks = done ++ b :: rest) (chaining : Chaining blocks cfg done now) {dst : ι}
    (jumps : Jumps cfg b dst) (prevNow : (now.block dst).prev = none) :
    Chosen blocks cfg b dst := by
  have notBefore (x : ι) : ¬ now.Falls x dst := by
    intro falls
    have same := (chaining.consistent x dst).mp falls
    rw [prevNow] at same
    cases same
  have prev : (cfg.block dst).prev = none := by
    cases before : (cfg.block dst).prev with
    | none => rfl
    | some x =>
        have old : cfg.Falls x dst := (wellFormed.next_prev x dst).mpr before
        exact absurd ((chaining.next x dst).mpr (Or.inl old)) (notBefore x)
  refine ⟨jumps, prev, done, rest, split, ?_⟩
  intro x member other
  obtain ⟨y, inDone, chosen⟩ := exists_chosen split prev ⟨x, member, other⟩
  exact notBefore y ((chaining.next y dst).mpr (Or.inr ⟨inDone, chosen⟩))

theorem Chaining.absorbed_iff {later : FunctionCfg ι}
    (chaining : Chaining blocks cfg (done ++ [b]) later) {dst : ι}
    (chosen : Chosen blocks cfg b dst) :
    nextUnshared later b = true ↔ Absorbed blocks cfg b := by
  have own : b ∈ done ++ [b] := List.mem_append_right _ (List.mem_singleton_self b)
  have nextLater : (later.block b).next = some dst :=
    (chaining.next b dst).mpr (Or.inr ⟨own, chosen⟩)
  unfold nextUnshared
  rw [nextLater]
  dsimp only
  rw [chaining.chained b own dst chosen, List.isEmpty_iff]
  constructor
  · intro unshared
    exact ⟨dst, Or.inr ⟨chosen, unshared⟩⟩
  · rintro ⟨m, ⟨falls, _⟩ | ⟨other, unshared⟩⟩
    · have next : (cfg.block b).next = some m := falls
      rw [chosen.1.1] at next
      cases next
    · rw [chosen.target_unique other]
      exact unshared

/-- A block without fallthrough is chained if it is the one that is chosen. -/
theorem Chaining.tryChain_ends (wellFormed : cfg.WellFormed) (once : blocks.Nodup)
    (split : blocks = done ++ b :: rest) (chaining : Chaining blocks cfg done now)
    (nextNow : (now.block b).next = none) :
    ∃ later, tryChain now b = .ok later ∧ Chaining blocks cfg (done ++ [b]) later ∧
      (nextUnshared later b = true ↔ Absorbed blocks cfg b) := by
  have notDone := not_mem_of_split once split
  have skipped (never : ∀ n, ¬ Chosen blocks cfg b n) (ran : tryChain now b = .ok now) :
      ∃ later, tryChain now b = .ok later ∧ Chaining blocks cfg (done ++ [b]) later ∧
        (nextUnshared later b = true ↔ Absorbed blocks cfg b) :=
    ⟨now, ran, chaining.skip never, chaining.not_absorbed notDone nextNow never⟩
  have sameTarget : jumpTarget (now.block b) = jumpTarget (cfg.block b) := by
    unfold jumpTarget
    rw [chaining.instrs b notDone]
  have noNext : (cfg.block b).next = none := by
    cases next : (cfg.block b).next with
    | none => rfl
    | some n =>
        have same : (now.block b).next = some n := (chaining.falls_iff notDone n).mpr next
        rw [nextNow] at same
        cases same
  cases target : jumpTarget (cfg.block b) with
  | none =>
      refine skipped ?_ ?_
      · intro n chosen
        rw [chosen.1.2] at target
        cases target
      · unfold tryChain
        rw [nextNow, sameTarget, target]
  | some dst =>
      have tried : tryChain now b = if (now.block dst).prev.isSome then .ok now
          else BlockLayout.chain now b dst := by
        unfold tryChain
        rw [nextNow, sameTarget, target]
      cases prevNow : (now.block dst).prev with
      | some x =>
          refine skipped ?_ (tried.trans ?_)
          · intro n chosen
            cases Option.some.inj (target.symm.trans chosen.1.2)
            exact chaining.not_chosen_of_prev wellFormed once notDone prevNow chosen
          · rw [prevNow]
            rfl
      | none =>
          have chosen := chaining.chosen_of_prev wellFormed split ⟨noNext, target⟩ prevNow
          obtain ⟨later, ran, stepped⟩ := chaining.chain wellFormed once split chosen
          refine ⟨later, tried.trans ?_, stepped, stepped.absorbed_iff chosen⟩
          rw [prevNow]
          exact ran

theorem Chaining.handleBlock (wellFormed : cfg.WellFormed) (once : blocks.Nodup)
    (split : blocks = done ++ b :: rest) (chaining : Chaining blocks cfg done now)
    (leads : (cfg.block b).instrs = [] → ∃ n, cfg.Falls b n) :
    ∃ later merge, BlockLayout.handleBlock now b = .ok (later, merge) ∧
      Chaining blocks cfg (done ++ [b]) later ∧ (merge = true ↔ Absorbed blocks cfg b) := by
  have notDone := not_mem_of_split once split
  unfold BlockLayout.handleBlock
  rw [chaining.instrs b notDone]
  by_cases empty : (cfg.block b).instrs = []
  · obtain ⟨n, leadsTo⟩ := leads empty
    have nextNow : (now.block b).next = some n := (chaining.falls_iff notDone n).mpr leadsTo
    rw [if_pos empty, nextNow, Option.isSome_some, if_pos rfl]
    refine ⟨now, true, rfl, chaining.skip (not_chosen_of_falls wellFormed leadsTo).2, ?_⟩
    exact iff_of_true rfl ⟨n, Or.inl ⟨leadsTo, Or.inl empty⟩⟩
  · rw [if_neg empty]
    obtain ⟨later, ran, stepped, merges⟩ : ∃ later, tryChain now b = .ok later ∧
        Chaining blocks cfg (done ++ [b]) later ∧
          (nextUnshared later b = true ↔ Absorbed blocks cfg b) := by
      cases nextNow : (now.block b).next with
      | some n => exact ⟨now, chaining.tryChain_falls wellFormed notDone nextNow empty⟩
      | none => exact chaining.tryChain_ends wellFormed once split nextNow
    rw [ran]
    exact ⟨later, nextUnshared later b, rfl, stepped, merges⟩

theorem Chaining.leads (split : blocks = done ++ b :: rest) (once : blocks.Nodup)
    (chaining : Chaining blocks cfg done now) {later : FunctionCfg ι} {merge : Bool}
    (returned : BlockLayout.handleBlock now b = .ok (later, merge)) :
    (cfg.block b).instrs = [] → ∃ n, cfg.Falls b n := by
  have notDone : b ∉ done := by
    intro member
    rw [split] at once
    exact (List.nodup_append.mp once).2.2 b member b List.mem_cons_self rfl
  intro empty
  unfold BlockLayout.handleBlock at returned
  rw [chaining.instrs b notDone, if_pos empty] at returned
  obtain ⟨isSome, _⟩ := ite_ok returned
  obtain ⟨n, next⟩ := Option.isSome_iff_exists.mp isSome
  exact ⟨n, ((chaining.next b n).mp next).resolve_right (fun both => notDone both.1)⟩

theorem handleBlocks_spec (wellFormed : cfg.WellFormed) (once : blocks.Nodup)
    (split : blocks = done ++ rest) (chaining : Chaining blocks cfg done now) :
    ((∃ final blocksToMerge, handleBlocks now rest = .ok (final, blocksToMerge)) ↔
        ∀ b ∈ rest, (cfg.block b).instrs = [] → ∃ n, cfg.Falls b n) ∧
      ∀ final blocksToMerge, handleBlocks now rest = .ok (final, blocksToMerge) →
        Chaining blocks cfg blocks final ∧ blocksToMerge.Nodup ∧
          ∀ b, b ∈ blocksToMerge ↔ b ∈ rest ∧ Absorbed blocks cfg b := by
  induction rest generalizing done now with
  | nil =>
      rw [List.append_nil] at split
      refine ⟨⟨fun _ b member => (by cases member), fun _ => ⟨now, [], rfl⟩⟩, ?_⟩
      intro final blocksToMerge returned
      cases Except.ok.inj returned
      refine ⟨split ▸ chaining, List.nodup_nil, ?_⟩
      intro b
      exact ⟨fun member => (by cases member), fun both => (by cases both.1)⟩
  | cons b rest ih =>
      have shifted : blocks = (done ++ [b]) ++ rest := by rw [split]; simp
      have notRest : b ∉ rest := by
        rw [split] at once
        exact (List.nodup_cons.mp (List.nodup_append.mp once).2.1).1
      constructor
      · constructor
        · rintro ⟨final, blocksToMerge, returned⟩
          obtain ⟨⟨later, merge⟩, handled, tail⟩ := bind_ok returned
          obtain ⟨⟨final', merges⟩, others, _⟩ := bind_ok tail
          have leads := chaining.leads split once handled
          obtain ⟨later', merge', handled', stepped, _⟩ :=
            chaining.handleBlock wellFormed once split leads
          cases Except.ok.inj (handled.symm.trans handled')
          have remaining := ((ih shifted stepped).1).mp ⟨final', merges, others⟩
          intro x member
          rcases List.mem_cons.mp member with rfl | later
          · exact leads
          · exact remaining x later
        · intro leads
          obtain ⟨later, merge, handled, stepped, _⟩ :=
            chaining.handleBlock wellFormed once split (leads b List.mem_cons_self)
          obtain ⟨final, merges, others⟩ := ((ih shifted stepped).1).mpr
            (fun x member => leads x (List.mem_cons_of_mem b member))
          refine ⟨final, if merge then b :: merges else merges, ?_⟩
          unfold handleBlocks
          rw [handled]
          change (handleBlocks later rest).bind _ = _
          rw [others]
          rfl
      · intro final blocksToMerge returned
        obtain ⟨⟨later, merge⟩, handled, tail⟩ := bind_ok returned
        obtain ⟨⟨final', merges⟩, others, same⟩ := bind_ok tail
        cases Except.ok.inj same
        obtain ⟨later', merge', handled', stepped, decides⟩ :=
          chaining.handleBlock wellFormed once split (chaining.leads split once handled)
        cases Except.ok.inj (handled.symm.trans handled')
        obtain ⟨finished, nodup, members⟩ := (ih shifted stepped).2 final merges others
        have notMerged : b ∉ merges := fun member => notRest ((members b).mp member).1
        refine ⟨finished, ?_, ?_⟩
        · split
          · exact List.nodup_cons.mpr ⟨notMerged, nodup⟩
          · exact nodup
        · intro x
          by_cases absorbed : merge = true
          · rw [if_pos absorbed, List.mem_cons, List.mem_cons, members, or_and_right]
            refine or_congr_left ⟨?_, And.left⟩
            rintro rfl
            exact ⟨rfl, decides.mp absorbed⟩
          · rw [if_neg absorbed, List.mem_cons, members, or_and_right]
            refine ⟨Or.inr, fun either => either.resolve_left ?_⟩
            rintro ⟨rfl, holds⟩
            exact absorbed (decides.mpr holds)

end Step

/-! ### The pass -/

variable {blocks : List ι} {cfg : FunctionCfg ι}

/-- Following jumps along the chains leads to no cycle, whatever comes before the entry
block is merged into it, and the fallthrough block of an empty block has no other way
in. -/
structure Chainable (blocks : List ι) (cfg : FunctionCfg ι) : Prop where
  acyclic : ∀ b, ¬ Relation.TransGen (Linked blocks cfg) b b
  entry : ∀ b, Relation.TransGen (Linked blocks cfg) b cfg.entryBlock → Absorbed blocks cfg b
  empty : ∀ b, (cfg.block b).instrs = [] → cfg.Mergeable b

theorem Chaining.linked {chained : FunctionCfg ι} (chaining : Chaining blocks cfg blocks chained)
    (all : ∀ b, b ∈ blocks) : chained.Falls = Linked blocks cfg := by
  funext b n
  refine propext ((chaining.next b n).trans ?_)
  exact or_congr_right (and_iff_right (all b))

theorem Chaining.incoming_of_falls {chained : FunctionCfg ι} (wellFormed : cfg.WellFormed)
    (chaining : Chaining blocks cfg blocks chained) {b n : ι} (falls : cfg.Falls b n) :
    (chained.block n).incomingEdges = (cfg.block n).incomingEdges :=
  chaining.others n (fun x _ => (not_chosen_of_falls wellFormed falls).1 x)

theorem Chaining.mergeable_iff {chained : FunctionCfg ι} (wellFormed : cfg.WellFormed)
    (chaining : Chaining blocks cfg blocks chained) (all : ∀ b, b ∈ blocks)
    (leads : ∀ b, (cfg.block b).instrs = [] → ∃ n, cfg.Falls b n) :
    (∀ b, Absorbed blocks cfg b → chained.Mergeable b) ↔
      ∀ b, (cfg.block b).instrs = [] → cfg.Mergeable b := by
  constructor
  · intro mergeable b empty
    obtain ⟨n, falls⟩ := leads b empty
    obtain ⟨m, fallsNow, unshared⟩ := mergeable b ⟨n, Or.inl ⟨falls, Or.inl empty⟩⟩
    rcases (chaining.next b m).mp fallsNow with old | ⟨_, chosen⟩
    · exact ⟨m, old, (chaining.incoming_of_falls wellFormed old).symm.trans unshared⟩
    · exact absurd empty chosen.1.instrs
  · rintro mergeable b ⟨n, ⟨falls, either⟩ | ⟨chosen, unshared⟩⟩
    · rcases either with empty | unshared
      · obtain ⟨m, fallsTo, unshared⟩ := mergeable b empty
        exact ⟨m, (chaining.next b m).mpr (Or.inl fallsTo),
          (chaining.incoming_of_falls wellFormed fallsTo).trans unshared⟩
      · exact ⟨n, (chaining.next b n).mpr (Or.inl falls),
          (chaining.incoming_of_falls wellFormed falls).trans unshared⟩
    · exact ⟨n, (chaining.next b n).mpr (Or.inr ⟨all b, chosen⟩),
        (chaining.chained b (all b) n chosen).trans unshared⟩

/-- The pass keeps the chains linear exactly for chainable graphs. -/
theorem linear_iff_chainable (blocks : List ι) (cfg : FunctionCfg ι)
    (wellFormed : cfg.WellFormed) (once : blocks.Nodup) (all : ∀ b, b ∈ blocks) :
    (∃ final, run blocks cfg = .ok final ∧ final.Linear) ↔ Chainable blocks cfg := by
  have spec := handleBlocks_spec wellFormed once rfl (@Chaining.start _ _ blocks cfg wellFormed)
  constructor
  · rintro ⟨final, returned, linear⟩
    obtain ⟨⟨chained, blocksToMerge⟩, handled, merged⟩ := bind_ok returned
    obtain ⟨chaining, nodup, members⟩ := spec.2 chained blocksToMerge handled
    have leads := spec.1.mp ⟨chained, blocksToMerge, handled⟩
    obtain ⟨cycles, entryIff⟩ := FunctionCfg.mergeAll_spec chaining.consistent merged
    have acyclic := cycles.mp linear.acyclic
    refine ⟨?_, ?_, ?_⟩
    · rw [← chaining.linked all]
      exact acyclic
    · intro b path
      rw [← chaining.linked all, ← chaining.entry] at path
      exact ((members b).mp ((entryIff acyclic).mp linear.entry b path)).2
    · apply (chaining.mergeable_iff wellFormed all (fun b => leads b (all b))).mp
      intro b absorbed
      exact (FunctionCfg.mergeAll_ok_iff chaining.consistent acyclic nodup).mp ⟨final, merged⟩ b
        ((members b).mpr ⟨all b, absorbed⟩)
  · intro chainable
    have leads (b : ι) (empty : (cfg.block b).instrs = []) : ∃ n, cfg.Falls b n := by
      obtain ⟨n, falls, _⟩ := chainable.empty b empty
      exact ⟨n, falls⟩
    obtain ⟨chained, blocksToMerge, handled⟩ := spec.1.mpr (fun b _ => leads b)
    obtain ⟨chaining, nodup, members⟩ := spec.2 chained blocksToMerge handled
    have acyclic : chained.Acyclic := by
      unfold FunctionCfg.Acyclic
      rw [chaining.linked all]
      exact chainable.acyclic
    have mergeable := (chaining.mergeable_iff wellFormed all leads).mpr chainable.empty
    obtain ⟨final, merged⟩ :=
      (FunctionCfg.mergeAll_ok_iff chaining.consistent acyclic nodup).mpr
        (fun b member => mergeable b ((members b).mp member).2)
    obtain ⟨cycles, entryIff⟩ := FunctionCfg.mergeAll_spec chaining.consistent merged
    refine ⟨final, ?_, cycles.mpr acyclic, (entryIff acyclic).mpr ?_⟩
    · unfold run
      rw [handled]
      exact merged
    · intro b path
      rw [chaining.linked all, chaining.entry] at path
      exact (members b).mpr ⟨all b, chainable.entry b path⟩

def forwardJump : FunctionCfg (Fin 2) where
  entryBlock := 0
  block
    | 0 =>
        { instrs := [⟨⟨.JMPa, [.mem (.direct (.plain 0))]⟩, none, some 1⟩]
          next := none
          prev := none
          incomingEdges := []
          outgoingEdges := [1] }
    | 1 =>
        { instrs := [⟨⟨.RET, []⟩, none, none⟩]
          next := none
          prev := none
          incomingEdges := [0]
          outgoingEdges := [] }

theorem forwardJump_wellFormed : forwardJump.WellFormed := by
  refine ⟨by decide, ?_, by decide, by decide⟩
  intro b cycle
  have noNext : ∀ b : Fin 2, (forwardJump.block b).next = none := by decide
  obtain ⟨n, step, _⟩ := Relation.TransGen.head'_iff.mp cycle
  rw [noNext b] at step
  cases step

theorem forwardJump_ahead {b n : Fin 2}
    (path : Relation.TransGen (Linked [0, 1] forwardJump) b n) : b < n := by
  have noNext : ∀ b : Fin 2, (forwardJump.block b).next = none := by decide
  have ahead {b n : Fin 2} (linked : Linked [0, 1] forwardJump b n) : b < n := by
    rcases linked with falls | chosen
    · have next : (forwardJump.block b).next = some n := falls
      rw [noNext b] at next
      cases next
    · have jumps : ∀ b n : Fin 2, jumpTarget (forwardJump.block b) = some n → b < n := by decide
      exact jumps b n chosen.1.2
  induction path with
  | single linked => exact ahead linked
  | tail _ linked ih => exact lt_trans ih (ahead linked)

theorem linear_iff_chainable_forwardJump :
    ∃ final, run [0, 1] forwardJump = .ok final ∧ final.Linear := by
  refine (linear_iff_chainable [0, 1] forwardJump forwardJump_wellFormed (by decide)
    (by decide)).mpr ⟨?_, ?_, ?_⟩
  · intro b cycle
    exact lt_irrefl b (forwardJump_ahead cycle)
  · intro b path
    exact absurd (forwardJump_ahead path) (Fin.not_lt_zero b)
  · intro b empty
    have nonempty : ∀ b : Fin 2, (forwardJump.block b).instrs ≠ [] := by decide
    exact absurd empty (nonempty b)

def selfLoop : FunctionCfg (Fin 2) where
  entryBlock := 0
  block
    | 0 =>
        { instrs := [⟨⟨.JNZa, [.mem (.direct (.plain 0))]⟩, none, some 1⟩, ⟨⟨.RET, []⟩, none, none⟩]
          next := none
          prev := none
          incomingEdges := []
          outgoingEdges := [1] }
    | 1 =>
        { instrs :=
            [⟨⟨.ADD64rr, [.reg (.gprs64 .A), .reg (.gprs64 .B)]⟩, none, none⟩,
              ⟨⟨.JMPa, [.mem (.direct (.plain 0))]⟩, none, some 1⟩]
          next := none
          prev := none
          incomingEdges := [0, 1]
          outgoingEdges := [1] }

/-- The loop becomes its own fallthrough block. -/
theorem not_linear_of_wellFormed :
    ¬ ∀ (blocks : List (Fin 2)) (cfg : FunctionCfg (Fin 2)), cfg.WellFormed →
      (cfg.block cfg.entryBlock).prev = none → blocks.Nodup → (∀ b, b ∈ blocks) →
        ∃ final, run blocks cfg = .ok final ∧ final.Linear := by
  intro always
  have wellFormed : selfLoop.WellFormed := by
    refine ⟨by decide, ?_, by decide, by decide⟩
    intro b cycle
    have noNext : ∀ b : Fin 2, (selfLoop.block b).next = none := by decide
    obtain ⟨n, step, _⟩ := Relation.TransGen.head'_iff.mp cycle
    rw [noNext b] at step
    cases step
  obtain ⟨final, returned, linear⟩ :=
    always [0, 1] selfLoop wellFormed rfl (by decide) (by decide)
  have ran : (run [0, 1] selfLoop).map (fun last => (last.block 1).next) = .ok (some 1) := by
    rfl
  rw [returned] at ran
  exact linear.acyclic 1 (.single (Except.ok.inj ran))

end BlockLayout

end Drob
