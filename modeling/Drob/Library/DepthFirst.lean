import Mathlib

/-!
Depth-first search visits the nodes of a graph in the order of their first simple
paths. A path is the list of the positions at which it leaves a node; paths are
compared lexicographically.
-/

namespace Drob

namespace DepthFirst

/-! ### The order of paths -/

theorem lt_append_singleton (p : List ℕ) (k : ℕ) : p < p ++ [k] := by
  induction p with
  | nil => exact List.nil_lt_cons k []
  | cons head tail ih => exact List.cons_lt_cons_iff.mpr (Or.inr ⟨rfl, ih⟩)

theorem append_singleton_lt (p : List ℕ) {k l : ℕ} (less : k < l) : p ++ [k] < p ++ [l] := by
  induction p with
  | nil => exact List.cons_lt_cons_iff.mpr (Or.inl less)
  | cons head tail ih => exact List.cons_lt_cons_iff.mpr (Or.inr ⟨rfl, ih⟩)

theorem append_singleton_le (p : List ℕ) (k : ℕ) (rest : List ℕ) :
    p ++ [k] ≤ p ++ k :: rest := by
  cases rest with
  | nil => exact le_refl _
  | cons next rest =>
      apply le_of_lt
      induction p with
      | nil => exact List.cons_lt_cons_iff.mpr (Or.inr ⟨rfl, List.nil_lt_cons _ _⟩)
      | cons head tail ih => exact List.cons_lt_cons_iff.mpr (Or.inr ⟨rfl, ih⟩)

theorem append_lt_append {p q : List ℕ} (less : p < q) (parts : ¬ p <+: q) (r s : List ℕ) :
    p ++ r < q ++ s := by
  induction p generalizing q with
  | nil => exact absurd (List.nil_prefix) parts
  | cons head tail ih =>
      cases q with
      | nil => exact absurd less (List.not_lt_nil _)
      | cons first rest =>
          rcases List.cons_lt_cons_iff.mp less with differ | ⟨rfl, later⟩
          · exact List.cons_lt_cons_iff.mpr (Or.inl differ)
          · have parted : ¬ tail <+: rest :=
              fun isPrefix => parts ((List.cons_prefix_cons).mpr ⟨rfl, isPrefix⟩)
            exact List.cons_lt_cons_iff.mpr (Or.inr ⟨rfl, ih later parted⟩)

theorem not_lt_of_prefix {p q : List ℕ} (isPrefix : p <+: q) : ¬ q < p := by
  obtain ⟨rest, rfl⟩ := isPrefix
  induction p with
  | nil => exact List.not_lt_nil _
  | cons head tail ih =>
      intro less
      rcases List.cons_lt_cons_iff.mp less with differ | ⟨_, later⟩
      · exact lt_irrefl _ differ
      · exact ih later

/-! ### Paths of a graph -/

section Graph

variable {ν : Type*} (succ : ν → List ν)

def follow : ν → List ℕ → Option ν
  | x, [] => some x
  | x, k :: rest => (succ x)[k]?.bind (fun y => follow y rest)

theorem follow_append (x : ν) (p q : List ℕ) :
    follow succ x (p ++ q) = (follow succ x p).bind (fun y => follow succ y q) := by
  induction p generalizing x with
  | nil => rfl
  | cons k rest ih =>
      change (succ x)[k]?.bind (fun y => follow succ y (rest ++ q)) =
        ((succ x)[k]?.bind (fun y => follow succ y rest)).bind _
      cases (succ x)[k]? with
      | none => rfl
      | some y => exact ih y

theorem follow_snoc {x y z : ν} {p : List ℕ} {k : ℕ} (leads : follow succ x p = some y)
    (edge : (succ y)[k]? = some z) : follow succ x (p ++ [k]) = some z := by
  rw [follow_append, leads]
  change (succ y)[k]?.bind _ = _
  rw [edge]
  rfl

structure SimplePath (root : ν) (p : List ℕ) (x : ν) : Prop where
  ends : follow succ root p = some x
  simple : ∀ q r, q <+: p → r <+: p → follow succ root q = follow succ root r → q = r

variable {succ}

theorem SimplePath.of_prefix {root x : ν} {p q : List ℕ} (path : SimplePath succ root p x)
    (isPrefix : q <+: p) {y : ν} (leads : follow succ root q = some y) :
    SimplePath succ root q y where
  ends := leads
  simple := fun _ _ left right same =>
    path.simple _ _ (left.trans isPrefix) (right.trans isPrefix) same

/-! ### The search -/

/-- The unvisited successors of a node, with their paths. -/
def children [DecidableEq ν] (succ : ν → List ν) (visited : List ν) (x : ν) (p : List ℕ) :
    List (ν × List ℕ) :=
  ((succ x).zipIdx.filter (fun entry => decide (entry.1 ∉ visited))).map
    (fun entry => (entry.1, p ++ [entry.2]))

theorem mem_children [DecidableEq ν] {visited : List ν} {x : ν} {p : List ℕ}
    {entry : ν × List ℕ} :
    entry ∈ children succ visited x p ↔
      ∃ k, (succ x)[k]? = some entry.1 ∧ entry.1 ∉ visited ∧ entry.2 = p ++ [k] := by
  unfold children
  rw [List.mem_map]
  constructor
  · rintro ⟨⟨y, k⟩, member, rfl⟩
    obtain ⟨inside, unvisited⟩ := List.mem_filter.mp member
    exact ⟨k, List.mem_zipIdx_iff_getElem?.mp inside, of_decide_eq_true unvisited, rfl⟩
  · rintro ⟨k, edge, unvisited, path⟩
    refine ⟨(entry.1, k), List.mem_filter.mpr ⟨List.mem_zipIdx_iff_getElem?.mpr edge,
      decide_eq_true unvisited⟩, ?_⟩
    rw [← path]

theorem zipIdx_pairwise (items : List ν) (start : ℕ) :
    (items.zipIdx start).Pairwise (fun left right => left.2 < right.2) := by
  induction items generalizing start with
  | nil => exact List.Pairwise.nil
  | cons head tail ih =>
      rw [List.zipIdx_cons]
      refine List.Pairwise.cons ?_ (ih (start + 1))
      intro entry member
      have later := List.le_snd_of_mem_zipIdx member
      exact later

theorem children_sorted [DecidableEq ν] (visited : List ν) (x : ν) (p : List ℕ) :
    (children succ visited x p).Pairwise (fun left right => left.2 < right.2) := by
  unfold children
  rw [List.pairwise_map]
  exact ((zipIdx_pairwise (succ x) 0).filter _).imp
    (fun less => append_singleton_lt p less)

/-- What holds while the frontier is searched from its front: `pathTo` has the first
simple path of each visited node. -/
structure Search (succ : ν → List ν) (root : ν) (visited : List ν)
    (frontier : List (ν × List ℕ)) (pathTo : ν → List ℕ) : Prop where
  path : ∀ x ∈ visited, SimplePath succ root (pathTo x) x
  onPath : ∀ x ∈ visited, ∀ q, q <+: pathTo x →
    ∃ y ∈ visited, follow succ root q = some y ∧ pathTo y = q
  ordered : visited.Pairwise (fun later earlier => pathTo earlier < pathTo later)
  above : ∀ x ∈ visited, ∀ entry ∈ frontier, pathTo x < entry.2
  sorted : frontier.Pairwise (fun left right => left.2 < right.2)
  form : ∀ entry ∈ frontier, (entry = (root, []) ∧ visited = []) ∨
    ∃ x ∈ visited, ∃ k, (succ x)[k]? = some entry.1 ∧ entry.2 = pathTo x ++ [k]
  complete : ∀ x ∈ visited, ∀ k y, (succ x)[k]? = some y →
    y ∈ visited ∨ (y, pathTo x ++ [k]) ∈ frontier
  rooted : root ∈ visited ∨ (root, []) ∈ frontier
  least : ∀ x ∈ visited, ∀ q, SimplePath succ root q x → pathTo x ≤ q

theorem Search.start (succ : ν → List ν) (root : ν) :
    Search succ root [] [(root, [])] (fun _ => []) where
  path := fun _ impossible => absurd impossible List.not_mem_nil
  onPath := fun _ impossible => absurd impossible List.not_mem_nil
  ordered := List.Pairwise.nil
  above := fun _ impossible => absurd impossible List.not_mem_nil
  sorted := List.pairwise_singleton _ _
  form := fun _ member => Or.inl ⟨List.mem_singleton.mp member, rfl⟩
  complete := fun _ impossible => absurd impossible List.not_mem_nil
  rooted := Or.inr (List.mem_singleton.mpr rfl)
  least := fun _ impossible => absurd impossible List.not_mem_nil

variable {root : ν} {visited : List ν} {frontier : List (ν × List ℕ)} {pathTo : ν → List ℕ}

theorem Search.drop {entry : ν × List ℕ}
    (search : Search succ root visited (entry :: frontier) pathTo)
    (seen : entry.1 ∈ visited) : Search succ root visited frontier pathTo where
  path := search.path
  onPath := search.onPath
  ordered := search.ordered
  above := fun x member other inside =>
    search.above x member other (List.mem_cons_of_mem _ inside)
  sorted := (List.pairwise_cons.mp search.sorted).2
  form := fun other inside => search.form other (List.mem_cons_of_mem _ inside)
  complete := by
    intro x member k y edge
    rcases search.complete x member k y edge with found | waiting
    · exact Or.inl found
    · rcases List.mem_cons.mp waiting with rfl | later
      · exact Or.inl seen
      · exact Or.inr later
  rooted := by
    rcases search.rooted with found | waiting
    · exact Or.inl found
    · rcases List.mem_cons.mp waiting with rfl | later
      · exact Or.inl seen
      · exact Or.inr later
  least := search.least

/-- A simple path to an unvisited node runs over an entry of the frontier. -/
theorem Search.frontier_le (search : Search succ root visited frontier pathTo) {x : ν}
    {q : List ℕ} (path : SimplePath succ root q x) (q' : List ℕ) (isPrefix : q' <+: q) :
    (∃ y ∈ visited, follow succ root q' = some y) ∨ ∃ entry ∈ frontier, entry.2 ≤ q := by
  induction q' using List.reverseRecOn with
  | nil =>
      rcases search.rooted with found | waiting
      · exact Or.inl ⟨root, found, rfl⟩
      · exact Or.inr ⟨_, waiting, le_of_not_gt (List.not_lt_nil q)⟩
  | append_singleton q'' k ih =>
      rcases ih ((List.prefix_append _ _).trans isPrefix) with ⟨y, seen, leads⟩ | found
      · obtain ⟨rest, whole⟩ := isPrefix
        have onward : (follow succ y [k]).isSome = true := by
          have ends := path.ends
          rw [← whole, follow_append, follow_append, leads] at ends
          cases reached : follow succ y [k] with
          | some z => rfl
          | none =>
              change ((follow succ y [k]).bind _) = _ at ends
              rw [reached] at ends
              cases ends
        obtain ⟨z, edge⟩ := Option.isSome_iff_exists.mp onward
        have edge' : (succ y)[k]? = some z := by
          change (succ y)[k]?.bind (fun z => some z) = some z at edge
          rwa [Option.bind_fun_some] at edge
        rcases search.complete y seen k z edge' with visitedZ | waiting
        · exact Or.inl ⟨z, visitedZ, follow_snoc succ leads edge'⟩
        · right
          refine ⟨_, waiting, ?_⟩
          have whole' : q'' ++ k :: rest = q := by
            rw [← whole, List.append_assoc]
            rfl
          have before : q'' <+: q := ⟨k :: rest, whole'⟩
          have le := search.least y seen q'' (path.of_prefix before leads)
          rcases eq_or_lt_of_le le with same | less
          · rw [same, ← whole']
            exact append_singleton_le q'' k rest
          · by_cases nested : pathTo y <+: q''
            · -- the path would meet the node a second time
              have same := path.simple _ _ (nested.trans before) before
                ((search.path y seen).ends.trans leads.symm)
              rw [same] at less
              exact absurd less (lt_irrefl _)
            · rw [← whole']
              exact le_of_lt (append_lt_append less nested _ _)
      · exact Or.inr found

/-- The first entry has the first simple path to its node if the node is new. -/
theorem Search.head_least {x : ν} {p : List ℕ}
    (search : Search succ root visited ((x, p) :: frontier) pathTo) (unvisited : x ∉ visited)
    {q : List ℕ} (path : SimplePath succ root q x) : p ≤ q := by
  rcases search.frontier_le path q (List.prefix_rfl) with ⟨y, seen, leads⟩ | found
  · rw [path.ends] at leads
    cases leads
    exact absurd seen unvisited
  · obtain ⟨entry, member, le⟩ := found
    rcases List.mem_cons.mp member with rfl | later
    · exact le
    · exact le_of_lt (lt_of_lt_of_le ((List.pairwise_cons.mp search.sorted).1 _ later) le)

section Head

variable {x : ν} {p : List ℕ} (search : Search succ root visited ((x, p) :: frontier) pathTo)

include search

theorem Search.follow_head : follow succ root p = some x := by
  rcases search.form (x, p) List.mem_cons_self with ⟨atRoot, _⟩ | ⟨y, seen, k, edge, path⟩
  · cases atRoot
    rfl
  · cases path
    exact follow_snoc succ (search.path y seen).ends edge

/-- The way to the first entry is the one to its parent and one step more. -/
theorem Search.prefix_head {q : List ℕ} (isPrefix : q <+: p) :
    q = p ∨ ∃ y ∈ visited, follow succ root q = some y ∧ pathTo y = q := by
  rcases search.form (x, p) List.mem_cons_self with ⟨atRoot, _⟩ | ⟨y, seen, k, _edge, path⟩
  · cases atRoot
    exact Or.inl (List.prefix_nil.mp isPrefix)
  · have path' : p = pathTo y ++ [k] := path
    rw [path'] at isPrefix
    rcases List.prefix_concat_iff.mp isPrefix with whole | before
    · exact Or.inl (whole.trans path'.symm)
    · exact Or.inr (search.onPath y seen q before)

theorem Search.simplePath_head (unvisited : x ∉ visited) : SimplePath succ root p x := by
  have leads := search.follow_head
  refine ⟨leads, ?_⟩
  intro q r left right same
  rcases search.prefix_head left with rfl | ⟨y, seenY, leadsY, pathY⟩
  · rcases search.prefix_head right with rfl | ⟨z, seenZ, leadsZ, _⟩
    · rfl
    · rw [leads, leadsZ] at same
      cases same
      exact absurd seenZ unvisited
  · rcases search.prefix_head right with rfl | ⟨z, _, leadsZ, pathZ⟩
    · rw [leads, leadsY] at same
      cases same
      exact absurd seenY unvisited
    · rw [leadsY, leadsZ] at same
      cases same
      exact pathY.symm.trans pathZ

/-- No other entry lies behind the first one. -/
theorem Search.not_prefix_of_mem {entry : ν × List ℕ} (member : entry ∈ frontier) :
    ¬ p <+: entry.2 := by
  intro nested
  have less : p < entry.2 := (List.pairwise_cons.mp search.sorted).1 entry member
  rcases search.form entry (List.mem_cons_of_mem _ member) with
    ⟨atRoot, _⟩ | ⟨y, seen, k, _edge, path⟩
  · rw [atRoot] at less
    exact List.not_lt_nil _ less
  · rw [path] at nested less
    rcases List.prefix_concat_iff.mp nested with whole | before
    · rw [whole] at less
      exact lt_irrefl _ less
    · exact not_lt_of_prefix before (search.above y seen (x, p) List.mem_cons_self)

theorem Search.sorted_children [DecidableEq ν] (seen : List ν) :
    (children succ seen x p ++ frontier).Pairwise (fun left right => left.2 < right.2) := by
  have ahead := List.pairwise_cons.mp search.sorted
  refine List.pairwise_append.mpr ⟨children_sorted seen x p, ahead.2, ?_⟩
  intro child isChild entry member
  obtain ⟨k, _edge, _new, path⟩ := mem_children.mp isChild
  rw [path]
  have found := append_lt_append (ahead.1 entry member) (search.not_prefix_of_mem member) [k] []
  rwa [List.append_nil] at found

/-- A successor of a visited node is visited, the first entry or still in the frontier. -/
theorem Search.waiting_successor {y z : ν} {k : ℕ} (seen : y ∈ visited)
    (edge : (succ y)[k]? = some z) (new : z ∉ x :: visited) : (z, pathTo y ++ [k]) ∈ frontier := by
  rcases search.complete y seen k z edge with found | waiting
  · exact absurd (List.mem_cons_of_mem _ found) new
  · rcases List.mem_cons.mp waiting with same | inside
    · cases same
      exact absurd List.mem_cons_self new
    · exact inside

end Head

theorem Search.visit [DecidableEq ν] {x : ν} {p : List ℕ}
    (search : Search succ root visited ((x, p) :: frontier) pathTo) (unvisited : x ∉ visited) :
    Search succ root (x :: visited) (children succ (x :: visited) x p ++ frontier)
      (Function.update pathTo x p) := by
  have own : Function.update pathTo x p x = p := Function.update_self x p pathTo
  have other (y : ν) (seen : y ∈ visited) : Function.update pathTo x p y = pathTo y :=
    Function.update_of_ne (ne_of_mem_of_not_mem seen unvisited) p pathTo
  have later (y : ν) (seen : y ∈ visited) : pathTo y < p :=
    search.above y seen (x, p) List.mem_cons_self
  have ahead := (List.pairwise_cons.mp search.sorted).1
  refine
    { path := ?_
      onPath := ?_
      ordered := ?_
      above := ?_
      sorted := ?_
      form := ?_
      complete := ?_
      rooted := ?_
      least := ?_ }
  · intro y seen
    rcases List.mem_cons.mp seen with rfl | before
    · rw [own]
      exact search.simplePath_head unvisited
    · rw [other y before]
      exact search.path y before
  · intro y seen q isPrefix
    rcases List.mem_cons.mp seen with rfl | before
    · rw [own] at isPrefix
      rcases search.prefix_head isPrefix with rfl | ⟨z, seenZ, leadsZ, pathZ⟩
      · exact ⟨y, List.mem_cons_self, search.follow_head, own⟩
      · exact ⟨z, List.mem_cons_of_mem _ seenZ, leadsZ, (other z seenZ).trans pathZ⟩
    · rw [other y before] at isPrefix
      obtain ⟨z, seenZ, leadsZ, pathZ⟩ := search.onPath y before q isPrefix
      exact ⟨z, List.mem_cons_of_mem _ seenZ, leadsZ, (other z seenZ).trans pathZ⟩
  · refine List.Pairwise.cons ?_ ?_
    · intro y before
      rw [own, other y before]
      exact later y before
    · refine search.ordered.imp_of_mem ?_
      intro y z seenY seenZ less
      rw [other y seenY, other z seenZ]
      exact less
  · intro y seen entry member
    have least : Function.update pathTo x p y ≤ p := by
      rcases List.mem_cons.mp seen with rfl | before
      · exact le_of_eq own
      · rw [other y before]
        exact le_of_lt (later y before)
    refine lt_of_le_of_lt least ?_
    rcases List.mem_append.mp member with child | old
    · obtain ⟨k, _edge, _new, path⟩ := mem_children.mp child
      rw [path]
      exact lt_append_singleton p k
    · exact ahead entry old
  · exact search.sorted_children (x :: visited)
  · intro entry member
    right
    rcases List.mem_append.mp member with child | old
    · obtain ⟨k, edge, _new, path⟩ := mem_children.mp child
      refine ⟨x, List.mem_cons_self, k, edge, ?_⟩
      rw [own]
      exact path
    · rcases search.form entry (List.mem_cons_of_mem _ old) with
        ⟨atRoot, _⟩ | ⟨y, seen, k, edge, path⟩
      · have less := ahead entry old
        rw [atRoot] at less
        exact absurd less (List.not_lt_nil _)
      · refine ⟨y, List.mem_cons_of_mem _ seen, k, edge, ?_⟩
        rw [other y seen]
        exact path
  · intro y seen k z edge
    by_cases seenZ : z ∈ x :: visited
    · exact Or.inl seenZ
    · right
      rcases List.mem_cons.mp seen with rfl | before
      · rw [own]
        exact List.mem_append_left _ (mem_children.mpr ⟨k, edge, seenZ, rfl⟩)
      · rw [other y before]
        exact List.mem_append_right _ (search.waiting_successor before edge seenZ)
  · rcases search.rooted with found | waiting
    · exact Or.inl (List.mem_cons_of_mem _ found)
    · rcases List.mem_cons.mp waiting with same | inside
      · cases same
        exact Or.inl List.mem_cons_self
      · exact Or.inr (List.mem_append_right _ inside)
  · intro y seen q path
    rcases List.mem_cons.mp seen with rfl | before
    · rw [own]
      exact search.head_least unvisited path
    · rw [other y before]
      exact search.least y before q path

/-- A finished search has visited every node that a path leads to. -/
theorem Search.visited_of_follow (search : Search succ root visited [] pathTo)
    {p : List ℕ} {x : ν} (leads : follow succ root p = some x) : x ∈ visited := by
  induction p using List.reverseRecOn generalizing x with
  | nil =>
      cases leads
      exact search.rooted.resolve_right List.not_mem_nil
  | append_singleton q k ih =>
      rw [follow_append] at leads
      obtain ⟨y, before, edge⟩ := Option.bind_eq_some_iff.mp leads
      have edge' : (succ y)[k]? = some x := by
        change (succ y)[k]?.bind (fun z => some z) = some x at edge
        rwa [Option.bind_fun_some] at edge
      exact (search.complete y (ih before) k x edge').resolve_right List.not_mem_nil

/-- Of two visited nodes the one with the first simple path was visited first. -/
theorem Search.before_iff (search : Search succ root visited [] pathTo) {x y : ν}
    (seenX : x ∈ visited) (seenY : y ∈ visited) :
    pathTo x < pathTo y ↔
      ∃ p, SimplePath succ root p x ∧ ∀ q, SimplePath succ root q y → p < q := by
  constructor
  · intro less
    refine ⟨pathTo x, search.path x seenX, ?_⟩
    intro q path
    exact lt_of_lt_of_le less (search.least y seenY q path)
  · rintro ⟨p, path, first⟩
    exact lt_of_le_of_lt (search.least x seenX p path) (first _ (search.path y seenY))

end Graph

end DepthFirst

end Drob
