import Drob.Passes.LayoutRuns

/-!
When the block layout pass completes: the blocks that were collected can still be merged
when it is their turn, no empty block is left, and the runs are kept.
-/

namespace Drob

namespace FunctionCfg

open Contraction

variable {ι : Type} [DecidableEq ι] {cfg merged : FunctionCfg ι} {b n : ι}

/-! ### Merging the collected blocks -/

def Within (blocksToMerge : List ι) (cfg : FunctionCfg ι) (x y : ι) : Prop :=
  cfg.Falls x y ∧ x ∈ blocksToMerge

theorem Merges.within (merges : Merges cfg merged b n) (rest : List ι) :
    Within rest merged = Contracted (Within (b :: rest) cfg) b := by
  funext x y
  refine propext ?_
  unfold Within
  rw [merges.next]
  constructor
  · rintro ⟨⟨left, right, either⟩, member⟩
    have later := List.mem_cons_of_mem b member
    refine ⟨left, right, ?_⟩
    rcases either with direct | ⟨first, second⟩
    · exact Or.inl ⟨direct, later⟩
    · exact Or.inr ⟨⟨first, later⟩, second, List.mem_cons_self⟩
  · rintro ⟨left, right, ⟨direct, member⟩ | ⟨⟨first, member⟩, second, _⟩⟩
    · exact ⟨⟨left, right, Or.inl direct⟩, (List.mem_cons.mp member).resolve_left left⟩
    · exact ⟨⟨left, right, Or.inr ⟨first, second⟩⟩, (List.mem_cons.mp member).resolve_left left⟩

theorem Merges.within_acyclic_iff (merges : Merges cfg merged b n) (rest : List ι) :
    (∀ x, ¬ Relation.TransGen (Within rest merged) x x) ↔
      ∀ x, ¬ Relation.TransGen (Within (b :: rest) cfg) x x := by
  rw [merges.within]
  exact acyclic_contracted_iff ⟨merges.falls, List.mem_cons_self⟩ merges.other
    (fun y falls => Falls.unique falls.1 merges.falls)

theorem mergeAll_ok_iff_within (consistent : cfg.Consistent) {blocksToMerge : List ι}
    (once : blocksToMerge.Nodup) :
    (∃ merged, BlockLayout.mergeAll cfg blocksToMerge = .ok merged) ↔
      (∀ b ∈ blocksToMerge, cfg.Mergeable b) ∧
        ∀ x, ¬ Relation.TransGen (Within blocksToMerge cfg) x x := by
  induction blocksToMerge generalizing cfg with
  | nil =>
      refine ⟨fun _ => ⟨fun _ impossible => (by cases impossible), ?_⟩, fun _ => ⟨cfg, rfl⟩⟩
      intro x cycle
      obtain ⟨_, step, _⟩ := Relation.TransGen.head'_iff.mp cycle
      cases step.2
  | cons b rest ih =>
      obtain ⟨notIn, onceRest⟩ := List.nodup_cons.mp once
      have differ {x : ι} (inRest : x ∈ rest) : x ≠ b := by
        rintro rfl
        exact notIn inRest
      constructor
      · rintro ⟨merged, returned⟩
        obtain ⟨next, first, later⟩ := bind_ok returned
        obtain ⟨n, merges⟩ := mergeBlockIntoNext_merges consistent first
        obtain ⟨others, acyclic⟩ := (ih (merges.consistent consistent) onceRest).mp ⟨merged, later⟩
        refine ⟨?_, (merges.within_acyclic_iff rest).mp acyclic⟩
        intro x member
        rcases List.mem_cons.mp member with rfl | inRest
        · exact ⟨n, merges.falls, merges.unshared⟩
        · exact (merges.mergeable_iff consistent (differ inRest)).mp (others x inRest)
      · rintro ⟨all, acyclic⟩
        obtain ⟨n, falls, unshared⟩ := all b List.mem_cons_self
        have other : n ≠ b := by
          rintro rfl
          exact acyclic n (.single ⟨falls, List.mem_cons_self⟩)
        obtain ⟨next, first⟩ := mergeBlockIntoNext_ok falls unshared other
        obtain ⟨m, merges⟩ := mergeBlockIntoNext_merges consistent first
        have others (x : ι) (inRest : x ∈ rest) : next.Mergeable x :=
          (merges.mergeable_iff consistent (differ inRest)).mpr
            (all x (List.mem_cons_of_mem b inRest))
        obtain ⟨merged, later⟩ := (ih (merges.consistent consistent) onceRest).mpr
          ⟨others, (merges.within_acyclic_iff rest).mpr acyclic⟩
        refine ⟨merged, ?_⟩
        unfold BlockLayout.mergeAll
        rw [first]
        exact later

/-! ### Where the instructions go -/

theorem MergesInstrs.instrs_ne_nil (merges : MergesInstrs cfg merged b n) {x : ι}
    (kept : x ≠ b) : (merged.block x).instrs ≠ [] ↔
      x = n ∧ (cfg.block b).instrs ≠ [] ∨ (cfg.block x).instrs ≠ [] := by
  rw [merges.instrs x kept, Ne, List.map_eq_nil_iff, List.append_eq_nil_iff, not_and_or]
  refine or_congr_left ?_
  by_cases here : x = n
  · rw [if_pos here]
    exact (and_iff_right here).symm
  · rw [if_neg here]
    exact iff_of_false (fun no => no rfl) (fun both => here both.1)

theorem mergeAll_instrs (consistent : cfg.Consistent) {blocksToMerge : List ι}
    (returned : BlockLayout.mergeAll cfg blocksToMerge = .ok merged) {x : ι}
    (kept : x ∉ blocksToMerge) :
    (merged.block x).instrs ≠ [] ↔
      ∃ y, Relation.ReflTransGen (Within blocksToMerge cfg) y x ∧ (cfg.block y).instrs ≠ [] := by
  induction blocksToMerge generalizing cfg with
  | nil =>
      cases Except.ok.inj returned
      refine ⟨fun nonempty => ⟨x, .refl, nonempty⟩, ?_⟩
      rintro ⟨y, path, nonempty⟩
      cases path with
      | refl => exact nonempty
      | tail _ step => cases step.2
  | cons b rest ih =>
      obtain ⟨next, first, later⟩ := bind_ok returned
      obtain ⟨n, merges⟩ := mergeBlockIntoNext_instrs consistent first
      have other : x ≠ b := fun same => kept (same ▸ List.mem_cons_self)
      have step : Within (b :: rest) cfg b n := ⟨merges.falls, List.mem_cons_self⟩
      rw [ih (merges.consistent consistent) later
        (fun member => kept (List.mem_cons_of_mem b member)), merges.within]
      constructor
      · rintro ⟨y, path, nonempty⟩
        have outside : y ≠ b := by
          rcases Relation.reflTransGen_iff_eq_or_transGen.mp path with same | steps
          · rw [← same]
            exact other
          · exact (ne_of_transGen_contracted steps).1
        have before := (reflTransGen_contracted_iff outside other).mp path
        rcases (merges.instrs_ne_nil outside).mp nonempty with ⟨rfl, first⟩ | own
        · exact ⟨b, .head step before, first⟩
        · exact ⟨y, before, own⟩
      · rintro ⟨y, path, nonempty⟩
        by_cases removed : y = b
        · subst removed
          rcases Relation.ReflTransGen.cases_head path with same | ⟨m, toNext, onwards⟩
          · exact absurd same.symm other
          · cases Falls.unique toNext.1 merges.falls
            exact ⟨n, (reflTransGen_contracted_iff merges.other other).mpr onwards,
              (merges.instrs_ne_nil merges.other).mpr (Or.inl ⟨rfl, nonempty⟩)⟩
        · exact ⟨y, (reflTransGen_contracted_iff removed other).mpr path,
            (merges.instrs_ne_nil removed).mpr (Or.inr nonempty)⟩

/-! ### Runs -/

theorem MergesInstrs.entry_empty (merges : MergesInstrs cfg merged b n)
    (consistent : cfg.Consistent) {rest : List ι}
    (before : ∀ y, Relation.TransGen (Within (b :: rest) cfg) y cfg.entryBlock →
      (cfg.block y).instrs = []) {y : ι}
    (path : Relation.TransGen (Within rest merged) y merged.entryBlock) :
    (merged.block y).instrs = [] := by
  have step : Within (b :: rest) cfg b n := ⟨merges.falls, List.mem_cons_self⟩
  rw [merges.within] at path
  obtain ⟨outside, _⟩ := ne_of_transGen_contracted path
  have reaches := transGen_of_contracted path
  have toEntry : Relation.TransGen (Within (b :: rest) cfg) y cfg.entryBlock := by
    rw [merges.entry] at reaches
    by_cases atEntry : cfg.entryBlock = b
    · -- only the merged block leads to its fallthrough block
      rw [if_pos atEntry] at reaches
      obtain ⟨z, toLast, last⟩ := Relation.TransGen.tail'_iff.mp reaches
      rw [consistent.unique last.1 merges.falls] at toLast
      rw [atEntry]
      exact (Relation.reflTransGen_iff_eq_or_transGen.mp toLast).resolve_left
        (fun same => outside same.symm)
    · rw [if_neg atEntry] at reaches
      exact reaches
  by_contra nonempty
  rcases (merges.instrs_ne_nil outside).mp nonempty with ⟨rfl, first⟩ | own
  · exact first (before b (.head step toEntry))
  · exact own (before y toEntry)

theorem mergeAll_shows (consistent : cfg.Consistent) (edged : cfg.Edged) {blocksToMerge : List ι}
    (returned : BlockLayout.mergeAll cfg blocksToMerge = .ok merged)
    (entry : ∀ y, Relation.TransGen (Within blocksToMerge cfg) y cfg.entryBlock →
      (cfg.block y).instrs = []) (events : List Event) :
    merged.Shows events ↔ cfg.Shows events := by
  induction blocksToMerge generalizing cfg with
  | nil =>
      cases Except.ok.inj returned
      rfl
  | cons b rest ih =>
      obtain ⟨next, first, later⟩ := bind_ok returned
      obtain ⟨n, merges⟩ := mergeBlockIntoNext_instrs consistent first
      have afterwards := ih (merges.consistent consistent) (merges.edged edged) later
        (fun y path => merges.entry_empty consistent entry path)
      have now := merges.shows_iff edged consistent
        (by
          intro atNext
          apply entry b
          rw [atNext]
          exact .single ⟨merges.falls, List.mem_cons_self⟩) events
      exact afterwards.trans now

/-! ### Chaining all blocks -/

omit [DecidableEq ι] in
theorem countP_dropLast (accepts : BlockInstruction ι → Bool)
    (before : List (BlockInstruction ι)) (last : BlockInstruction ι) :
    (before ++ [last]).dropLast.countP accepts =
      (before ++ [last]).countP accepts - if accepts last then 1 else 0 := by
  rw [List.dropLast_concat, List.countP_append, List.countP_singleton]
  exact (Nat.add_sub_cancel _ _).symm

theorem count_eraseLast (ends : List ι) (b x : ι) :
    (eraseLast ends b).count x = ends.count x - if b = x then 1 else 0 := by
  unfold eraseLast
  rw [List.count_reverse, List.count_erase, List.count_reverse]
  simp only [beq_iff_eq]

/-- What chaining does to the graph; the runs stay the same. -/
structure Chained (cfg chained : FunctionCfg ι) : Prop where
  shows : ∀ events, chained.Shows events ↔ cfg.Shows events
  counted : chained.Counted
  kept : ∀ b n, cfg.Falls b n → chained.Falls b n
  instrs : ∀ b, (chained.block b).instrs =
    if (cfg.block b).next = none ∧ (chained.block b).next ≠ none then
      (cfg.block b).instrs.dropLast
    else (cfg.block b).instrs

theorem Chained.refl (counted : cfg.Counted) : Chained cfg cfg where
  shows := fun _ => Iff.rfl
  counted := counted
  kept := fun _ _ => id
  instrs := fun _ => (if_neg (fun both => both.2 both.1)).symm

theorem Chained.trans {later : FunctionCfg ι} (first : Chained cfg merged)
    (second : Chained merged later) : Chained cfg later where
  shows := fun events => (second.shows events).trans (first.shows events)
  counted := second.counted
  kept := fun b n falls => second.kept b n (first.kept b n falls)
  instrs := by
    intro b
    rw [second.instrs, first.instrs]
    cases before : (cfg.block b).next with
    | some n =>
        have middle : (merged.block b).next = some n := first.kept b n before
        rw [middle]
        simp
    | none =>
        cases middle : (merged.block b).next with
        | none => simp
        | some n =>
            have last : (later.block b).next = some n := second.kept b n middle
            rw [last]
            simp

theorem chain_chained {dst : ι} (counted : cfg.Counted) (ends : (cfg.block b).next = none)
    (target : BlockLayout.jumpTarget (cfg.block b) = some dst)
    (returned : BlockLayout.chain cfg b dst = .ok merged) : Chained cfg merged := by
  have chains := chain_chains ends target returned
  have incoming (n : ι) : (merged.block n).incomingEdges =
      if n = dst then eraseLast (cfg.block n).incomingEdges b else (cfg.block n).incomingEdges := by
    unfold BlockLayout.chain at returned
    obtain ⟨_, returned⟩ := ite_ok returned
    cases Except.ok.inj returned
    rfl
  obtain ⟨before, jump, split, edge, _⟩ := chains.jump
  refine ⟨chains.shows_iff, ?_, fun x n falls => (chains.falls x n).mpr (Or.inl falls), ?_⟩
  · intro x n
    have one : ((if n = dst then eraseLast (cfg.block n).incomingEdges b
        else (cfg.block n).incomingEdges).count x) =
          (cfg.block n).incomingEdges.count x - if x = b ∧ dst = n then 1 else 0 := by
      by_cases there : n = dst
      · rw [if_pos there, count_eraseLast]
        simp only [there, and_true, eq_comm]
      · rw [if_neg there, if_neg (fun both => there both.2.symm), Nat.sub_zero]
    rw [incoming, chains.instrs, one, counted x n]
    by_cases here : x = b
    · rw [if_pos here, here, split, countP_dropLast, edge]
      simp only [true_and, Option.some.injEq, decide_eq_true_eq]
    · rw [if_neg here, if_neg (fun both => here both.1), Nat.sub_zero]
  · intro x
    rw [chains.instrs]
    by_cases here : x = b
    · have now : (merged.block x).next = some dst :=
        (chains.falls x dst).mpr (Or.inr ⟨here, rfl⟩)
      rw [if_pos here, if_pos]
      rw [now, here]
      exact ⟨ends, Option.some_ne_none dst⟩
    · rw [if_neg here, if_neg]
      rintro ⟨none, some⟩
      obtain ⟨n, next⟩ := Option.ne_none_iff_exists'.mp some
      have old := ((chains.falls x n).mp next).resolve_right (fun both => here both.1)
      rw [show (cfg.block x).next = Option.some n from old] at none
      cases none

theorem handleBlock_chained {merge : Bool} (counted : cfg.Counted)
    (returned : BlockLayout.handleBlock cfg b = .ok (merged, merge)) : Chained cfg merged := by
  unfold BlockLayout.handleBlock at returned
  split at returned
  · obtain ⟨_, returned⟩ := ite_ok returned
    cases Except.ok.inj returned
    exact Chained.refl counted
  · obtain ⟨chained, tried, returned⟩ := bind_ok returned
    cases Except.ok.inj returned
    unfold BlockLayout.tryChain at tried
    split at tried
    · rename_i dst ends target
      split at tried
      · cases Except.ok.inj tried
        exact Chained.refl counted
      · exact chain_chained counted ends target tried
    · cases Except.ok.inj tried
      exact Chained.refl counted

theorem handleBlocks_chained {blocks blocksToMerge : List ι} (counted : cfg.Counted)
    (returned : BlockLayout.handleBlocks cfg blocks = .ok (merged, blocksToMerge)) :
    Chained cfg merged := by
  induction blocks generalizing cfg blocksToMerge with
  | nil =>
      cases Except.ok.inj returned
      exact Chained.refl counted
  | cons b rest ih =>
      obtain ⟨⟨later, merge⟩, handled, tail⟩ := bind_ok returned
      obtain ⟨⟨final, merges⟩, others, same⟩ := bind_ok tail
      cases Except.ok.inj same
      have first := handleBlock_chained counted handled
      exact first.trans (ih first.counted others)

end FunctionCfg

namespace BlockLayout

variable {ι : Type} [DecidableEq ι]

/-! ### The pass -/

/-- The block has no instructions once its jump was replaced by the fallthrough. -/
def Emptied (blocks : List ι) (cfg : FunctionCfg ι) (b : ι) : Prop :=
  (cfg.block b).instrs = [] ∨ (∃ n, Chosen blocks cfg b n) ∧ (cfg.block b).instrs.length = 1

def Swallows (blocks : List ι) (cfg : FunctionCfg ι) (x y : ι) : Prop :=
  Linked blocks cfg x y ∧ Absorbed blocks cfg x

/-- Nothing else leads to the fallthrough block of an empty block, the merged blocks do
not go around in a circle, and instructions end up in every block that is left. -/
structure Completable (blocks : List ι) (cfg : FunctionCfg ι) : Prop where
  empty : ∀ b, (cfg.block b).instrs = [] → cfg.Mergeable b
  acyclic : ∀ b, ¬ Relation.TransGen (Swallows blocks cfg) b b
  nonempty : ∀ b, ¬ Absorbed blocks cfg b →
    ∃ x, Relation.ReflTransGen (Swallows blocks cfg) x b ∧ ¬ Emptied blocks cfg x

/-- The pass returned a graph, and the blocks that were not removed have instructions. -/
def LeavesNoEmpty (blocks : List ι) (cfg final : FunctionCfg ι) : Prop :=
  ∃ chained blocksToMerge, handleBlocks cfg blocks = .ok (chained, blocksToMerge) ∧
    mergeAll chained blocksToMerge = .ok final ∧
      ∀ b ∉ blocksToMerge, (final.block b).instrs ≠ []

variable {blocks : List ι} {cfg chained : FunctionCfg ι}

theorem Chaining.instrs_ne_nil (chaining : Chaining blocks cfg blocks chained)
    (all : ∀ b, b ∈ blocks) (runs : cfg.Chained chained) (b : ι) :
    (chained.block b).instrs ≠ [] ↔ ¬ Emptied blocks cfg b := by
  have replaced : ((cfg.block b).next = none ∧ (chained.block b).next ≠ none) ↔
      ∃ n, Chosen blocks cfg b n := by
    constructor
    · rintro ⟨ends, leads⟩
      obtain ⟨n, next⟩ := Option.ne_none_iff_exists'.mp leads
      rcases (chaining.next b n).mp next with old | ⟨_, chosen⟩
      · rw [show (cfg.block b).next = some n from old] at ends
        cases ends
      · exact ⟨n, chosen⟩
    · rintro ⟨n, chosen⟩
      have next : (chained.block b).next = some n :=
        (chaining.next b n).mpr (Or.inr ⟨all b, chosen⟩)
      rw [next]
      exact ⟨chosen.1.1, Option.some_ne_none n⟩
  refine not_congr ?_
  rw [runs.instrs b]
  unfold Emptied
  rw [← replaced]
  split
  · rename_i chosen
    rw [and_iff_right chosen, ← List.length_eq_zero_iff, List.length_dropLast,
      ← List.length_eq_zero_iff]
    omega
  · rename_i kept
    exact (or_iff_left (fun both => kept both.1)).symm

/-- The pass completes without leaving an empty block exactly for completable graphs, and
it keeps the runs if the blocks that are merged into the entry block are empty by then. -/
theorem completes_iff_completable (blocks : List ι) (cfg : FunctionCfg ι)
    (wellFormed : cfg.WellFormed) (counted : cfg.Counted) (once : blocks.Nodup)
    (all : ∀ b, b ∈ blocks) :
    ((∃ final, LeavesNoEmpty blocks cfg final) ↔ Completable blocks cfg) ∧
      (Completable blocks cfg →
        (∀ b, Relation.TransGen (Swallows blocks cfg) b cfg.entryBlock → Emptied blocks cfg b) →
          ∃ final, run blocks cfg = .ok final ∧ LeavesNoEmpty blocks cfg final ∧
            ∀ events, final.Shows events ↔ cfg.Shows events) := by
  have spec := handleBlocks_spec wellFormed once rfl (@Chaining.start _ _ blocks cfg wellFormed)
  have swallows {chained : FunctionCfg ι} {blocksToMerge : List ι}
      (handled : handleBlocks cfg blocks = .ok (chained, blocksToMerge)) :
      FunctionCfg.Within blocksToMerge chained = Swallows blocks cfg := by
    obtain ⟨chaining, _, members⟩ := spec.2 chained blocksToMerge handled
    funext x y
    unfold FunctionCfg.Within Swallows
    rw [chaining.linked all, members, and_iff_right (all x)]
  have completes (completable : Completable blocks cfg) :
      ∃ chained blocksToMerge final, handleBlocks cfg blocks = .ok (chained, blocksToMerge) ∧
        mergeAll chained blocksToMerge = .ok final ∧
          ∀ b ∉ blocksToMerge, (final.block b).instrs ≠ [] := by
    have leads (b : ι) (empty : (cfg.block b).instrs = []) : ∃ n, cfg.Falls b n := by
      obtain ⟨n, falls, _⟩ := completable.empty b empty
      exact ⟨n, falls⟩
    obtain ⟨chained, blocksToMerge, handled⟩ := spec.1.mpr (fun b _ => leads b)
    obtain ⟨chaining, nodup, members⟩ := spec.2 chained blocksToMerge handled
    have mergeable := (chaining.mergeable_iff wellFormed all leads).mpr completable.empty
    obtain ⟨final, merged⟩ :=
      (FunctionCfg.mergeAll_ok_iff_within chaining.consistent nodup).mpr
        ⟨fun b member => mergeable b ((members b).mp member).2,
          by rw [swallows handled]; exact completable.acyclic⟩
    refine ⟨chained, blocksToMerge, final, handled, merged, ?_⟩
    intro b kept
    obtain ⟨x, path, nonempty⟩ := completable.nonempty b
      (fun absorbed => kept ((members b).mpr ⟨all b, absorbed⟩))
    apply (FunctionCfg.mergeAll_instrs chaining.consistent merged kept).mpr
    rw [swallows handled]
    exact ⟨x, path, (chaining.instrs_ne_nil all
      (FunctionCfg.handleBlocks_chained counted handled) x).mpr nonempty⟩
  refine ⟨⟨?_, ?_⟩, ?_⟩
  · rintro ⟨final, chained, blocksToMerge, handled, merged, nonempty⟩
    obtain ⟨chaining, nodup, members⟩ := spec.2 chained blocksToMerge handled
    have leads := spec.1.mp ⟨chained, blocksToMerge, handled⟩
    obtain ⟨mergeable, acyclic⟩ :=
      (FunctionCfg.mergeAll_ok_iff_within chaining.consistent nodup).mp ⟨final, merged⟩
    rw [swallows handled] at acyclic
    refine ⟨?_, acyclic, ?_⟩
    · apply (chaining.mergeable_iff wellFormed all (fun b => leads b (all b))).mp
      intro b absorbed
      exact mergeable b ((members b).mpr ⟨all b, absorbed⟩)
    · intro b kept
      have left : b ∉ blocksToMerge := fun member => kept ((members b).mp member).2
      obtain ⟨x, path, holds⟩ :=
        (FunctionCfg.mergeAll_instrs chaining.consistent merged left).mp (nonempty b left)
      rw [swallows handled] at path
      exact ⟨x, path, (chaining.instrs_ne_nil all
        (FunctionCfg.handleBlocks_chained counted handled) x).mp holds⟩
  · intro completable
    obtain ⟨chained, blocksToMerge, final, rest⟩ := completes completable
    exact ⟨final, chained, blocksToMerge, rest⟩
  · intro completable entry
    obtain ⟨chained, blocksToMerge, final, handled, merged, nonempty⟩ := completes completable
    obtain ⟨chaining, _, _⟩ := spec.2 chained blocksToMerge handled
    have runs := FunctionCfg.handleBlocks_chained counted handled
    refine ⟨final, ?_, ⟨chained, blocksToMerge, handled, merged, nonempty⟩, ?_⟩
    · unfold run
      rw [handled]
      exact merged
    · intro events
      have kept := FunctionCfg.mergeAll_shows chaining.consistent runs.counted.edged merged
        (by
          rw [swallows handled, chaining.entry]
          intro b path
          by_contra instrs
          exact (chaining.instrs_ne_nil all runs b).mp instrs (entry b path)) events
      exact kept.trans (runs.shows events)

theorem completes_iff_completable_forwardJump :
    ∃ final, run [0, 1] forwardJump = .ok final ∧ LeavesNoEmpty [0, 1] forwardJump final ∧
      ∀ events, final.Shows events ↔ forwardJump.Shows events := by
  have ahead {b n : Fin 2} (path : Relation.TransGen (Swallows [0, 1] forwardJump) b n) : b < n :=
    forwardJump_ahead (Relation.TransGen.mono (fun _ _ step => step.1) b n path)
  refine (completes_iff_completable [0, 1] forwardJump forwardJump_wellFormed
    (by unfold FunctionCfg.Counted; decide) (by decide) (by decide)).2 ⟨?_, ?_, ?_⟩ ?_
  · intro b empty
    have nonempty : ∀ b : Fin 2, (forwardJump.block b).instrs ≠ [] := by decide
    exact absurd empty (nonempty b)
  · intro b cycle
    exact lt_irrefl b (ahead cycle)
  · intro b kept
    have chosen : Chosen [0, 1] forwardJump 0 1 := by
      refine ⟨⟨rfl, rfl⟩, rfl, [], [1], rfl, ?_⟩
      intro x impossible
      cases impossible
    match b with
    | 0 => exact absurd ⟨1, Or.inr ⟨chosen, rfl⟩⟩ kept
    | 1 =>
        refine ⟨1, .refl, ?_⟩
        rintro (empty | ⟨⟨n, other⟩, _⟩)
        · cases empty
        · have stays : ∀ n : Fin 2, jumpTarget (forwardJump.block 1) ≠ some n := by decide
          exact stays n other.1.2
  · intro b path
    exact absurd (ahead path) (Fin.not_lt_zero b)

def loopHeader : FunctionCfg (Fin 2) where
  entryBlock := 0
  block
    | 0 =>
        { instrs := []
          next := some 1
          prev := none
          incomingEdges := []
          outgoingEdges := [] }
    | 1 =>
        { instrs :=
            [⟨⟨.ADD64rr, [.reg (.gprs64 .A), .reg (.gprs64 .B)]⟩, none, none⟩,
              ⟨⟨.JNZa, [.mem (.direct (.plain 0))]⟩, none, some 1⟩, ⟨⟨.RET, []⟩, none, none⟩]
          next := none
          prev := some 0
          incomingEdges := [1]
          outgoingEdges := [1] }

/-- The empty block is merged into the loop header, which is asserted to have no edges. -/
theorem not_completes_of_wellFormed :
    ¬ ∀ (blocks : List (Fin 2)) (cfg : FunctionCfg (Fin 2)), cfg.WellFormed → cfg.Counted →
      blocks.Nodup → (∀ b, b ∈ blocks) →
        (∀ b, (cfg.block b).instrs = [] → ∃ n, (cfg.block b).next = some n) →
          ∃ final, run blocks cfg = .ok final ∧ LeavesNoEmpty blocks cfg final ∧
            ∀ events, final.Shows events ↔ cfg.Shows events := by
  intro always
  have wellFormed : loopHeader.WellFormed := by
    refine ⟨by decide, ?_, by decide, by decide⟩
    have ahead : ∀ b n : Fin 2, (loopHeader.block b).next = some n → b < n := by decide
    intro b cycle
    have less {b n : Fin 2}
        (path : Relation.TransGen (fun b n => (loopHeader.block b).next = some n) b n) : b < n := by
      induction path with
      | single step => exact ahead _ _ step
      | tail _ step ih => exact lt_trans ih (ahead _ _ step)
    exact lt_irrefl b (less cycle)
  obtain ⟨final, returned, _⟩ := always [0, 1] loopHeader wellFormed
    (by unfold FunctionCfg.Counted; decide) (by decide) (by decide) (by decide)
  have failed : run [0, 1] loopHeader =
      .error (.assertion "block->next->getIncomingEdges().empty()") := by rfl
  rw [returned] at failed
  cases failed

end BlockLayout

end Drob
