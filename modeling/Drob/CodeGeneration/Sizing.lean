import Drob.CodeGeneration.Reach

/-!
When the two runs of the code generation agree: no mark is in the way of the walks, branches
ahead have room for what the branches before them gain, and no address crosses an end of the
reach.
-/

namespace Drob

namespace CodeGeneration

section Order

variable {ι : Type} [DecidableEq ι] {code : ι → List (BlockInstruction ι)}
  {encoder : Encoder ι} {order : List ι}

theorem emitted_iff (once : order.Nodup) {write : Bool} {marks last : Marks ι}
    {emitted : List (EmittedInstr ι)}
    (returned : handleBranches code encoder order write marks = .ok (last, emitted)) :
    (∀ b ∈ order, code b ≠ []) ∧ ∀ b nr, (∃ e ∈ emitted, e.block = b ∧ e.nr = nr) ↔
      b ∈ order ∧ nr < (code b).length := by
  obtain ⟨⟨pool, blockMap, all⟩, emits, fixed⟩ := bind_ok returned
  obtain ⟨_, _, same⟩ := bind_ok fixed
  cases same
  refine ⟨fun b member => ((emits_iff once).mp ⟨_, emits⟩ b member).1, ?_⟩
  obtain ⟨_, members⟩ := emit_spec once emits
  intro b nr
  constructor
  · rintro ⟨e, member, rfl, rfl⟩
    obtain ⟨inOrder, found, _⟩ := (members e).mp member
    exact ⟨inOrder, (List.getElem?_eq_some_iff.mp found).1⟩
  · rintro ⟨inOrder, inside⟩
    let place := placeOf code encoder marks order b nr
    exact ⟨⟨b, nr, (code b)[nr], place, lengthOf encoder marks b nr place (code b)[nr]⟩,
      (members _).mpr ⟨inOrder, List.getElem?_eq_getElem inside, rfl, rfl⟩, rfl, rfl⟩

/-- Both runs over the same blocks succeed, with the same lengths but for the branches. -/
def Agree (code : ι → List (BlockInstruction ι)) (encoder : Encoder ι) (order : List ι)
    (marks : Marks ι) (first : List (EmittedInstr ι)) (last : Marks ι)
    (second : List (EmittedInstr ι)) : Prop :=
  handleBranches code encoder order false noMarks = .ok (marks, first) ∧
    handleBranches code encoder order true marks = .ok (last, second) ∧
    ∀ e ∈ first, ∀ e' ∈ second, e.block = e'.block → e.nr = e'.nr →
      destination e.instr = none → e.ilen = e'.ilen

variable {lengths : ι → ℕ → CodeLength} {region : BitVec 64}

theorem settled_of_agree (once : order.Nodup) (inside : LeadsInside code order)
    {marks last : Marks ι} {first second : List (EmittedInstr ι)}
    (agree : Agree code (encoderAt lengths region) order marks first last second) :
    Settled code lengths region order := by
  obtain ⟨ranFirst, ranSecond, sameLengths⟩ := agree
  obtain ⟨⟨longPool, longMap, long⟩, longEmits, _⟩ := bind_ok ranFirst
  have firstRun := run_first once inside longEmits
  cases firstRun.symm.trans ranFirst
  obtain ⟨⟨shortPool, shortMap, short⟩, shortEmits, checked⟩ := bind_ok ranSecond
  obtain ⟨final, fixed, isFinal⟩ := bind_ok checked
  cases isFinal
  obtain ⟨_, longMembers⟩ := emit_spec once longEmits
  obtain ⟨starts, shortMembers⟩ := emit_spec once shortEmits
  have reaches := (fixups_second inside starts (fun e member => (shortMembers e).mp member)).mp
    ⟨_, fixed⟩
  have inPage := fun b member => ((emits_iff once).mp ⟨_, longEmits⟩ b member).2
  have same : ∀ b ∈ order, ∀ k, SameAt code (encoderAt lengths region) order b k := by
    intro b member nr instr found plain
    let place := placeOf code (encoderAt lengths region) noMarks order b nr
    let moved := placeOf code (encoderAt lengths region)
      (shortMarks code (encoderAt lengths region) order) order b nr
    have equal := sameLengths ⟨b, nr, instr, place, lengthOf _ noMarks b nr place instr⟩
      ((longMembers _).mpr ⟨member, found, rfl, rfl⟩)
      ⟨b, nr, instr, moved, lengthOf _ (shortMarks code _ order) b nr moved instr⟩
      ((shortMembers _).mpr ⟨member, found, rfl, rfl⟩) rfl rfl plain
    dsimp only [lengthOf] at equal
    rw [plain] at equal
    exact equal
  refine ⟨?_, (same_iff once inPage).mp same⟩
  intro b member nr instr dst short long found leads branch other notBefore close
  obtain ⟨short', long', branch', le⟩ := branchLengths_isSome leads
  cases branch.symm.trans branch'
  have dstMember := inside b member instr (List.mem_of_getElem? found) dst leads
  obtain ⟨near_iff, room_iff⟩ := reaches_ahead_iff once same member dstMember other notBefore found
    leads branch le
  have near := near_iff.mpr close
  apply (room_iff near).mp
  have marked := (shortMarks_eq found leads branch member).trans near
  let moved := placeOf code (encoderAt lengths region)
    (shortMarks code (encoderAt lengths region) order) order b nr
  exact reaches ⟨b, nr, instr, moved, lengthOf _ (shortMarks code _ order) b nr moved instr⟩
    ((shortMembers _).mpr ⟨member, found, rfl, rfl⟩) dst short long leads branch marked

theorem agree_of_settled (once : order.Nodup) (inside : LeadsInside code order)
    (fits : ∃ out, emitBlocks code (encoderAt lengths region) noMarks order .resetCodePool =
      .ok out)
    (settled : Settled code lengths region order) :
    ∃ marks first last second,
      Agree code (encoderAt lengths region) order marks first last second := by
  have inPage := fun b member => ((emits_iff once).mp fits b member).2
  have same := (same_iff once inPage).mpr settled.direct
  obtain ⟨⟨shortPool, shortMap, short⟩, shortEmits⟩ := emits_short once same fits
  obtain ⟨⟨longPool, longMap, long⟩, longEmits⟩ := fits
  obtain ⟨_, longMembers⟩ := emit_spec once longEmits
  obtain ⟨starts, shortMembers⟩ := emit_spec once shortEmits
  have reaches : ∀ e ∈ short, Reaches code (encoderAt lengths region) order
      (shortMarks code (encoderAt lengths region) order) e := by
    intro e inShort dst short long leads branch marked
    obtain ⟨member, found, itext, _⟩ := (shortMembers e).mp inShort
    obtain ⟨short', long', branch', le⟩ := branchLengths_isSome leads
    cases branch.symm.trans branch'
    have near := (shortMarks_eq found leads branch member).symm.trans marked
    have dstMember := inside e.block member e.instr (List.mem_of_getElem? found) dst leads
    rw [itext]
    by_cases back : dst = e.block ∨ dst ∈ before order e.block
    · exact reaches_back once same member back e.nr short near
    · obtain ⟨other, notBefore⟩ := not_or.mp back
      obtain ⟨near_iff, room_iff⟩ := reaches_ahead_iff once same member dstMember other notBefore
        found leads branch le
      exact (room_iff near).mpr (settled.ahead e.block member e.nr e.instr dst short long found
        leads branch other notBefore (near_iff.mp near))
  obtain ⟨last, fixed⟩ := (fixups_second inside starts
    (fun e member => (shortMembers e).mp member)).mpr reaches
  refine ⟨_, long, last, short, run_first once inside longEmits, ?_, ?_⟩
  · unfold handleBranches
    rw [shortEmits]
    change (do
      let later ← short.foldlM (arch_fixup_branch true shortMap)
        (shortMarks code (encoderAt lengths region) order)
      Except.ok (later, short)) = _
    rw [fixed]
    rfl
  · intro e member e' member' sameBlock sameNr plain
    obtain ⟨inOrder, found, itext, ilen⟩ := (longMembers e).mp member
    obtain ⟨_, found', itext', ilen'⟩ := (shortMembers e').mp member'
    have sameInstr : e'.instr = e.instr := by
      rw [← sameBlock, ← sameNr] at found'
      exact Option.some.inj (found'.symm.trans found)
    rw [ilen, ilen', itext, itext', sameInstr, ← sameBlock, ← sameNr]
    unfold lengthOf
    rw [plain]
    exact same e.block inOrder e.nr e.instr found plain

end Order

/-! ### Both runs over an ICFG -/

section Icfg

variable {φ ι : Type} [DecidableEq φ] [DecidableEq ι] {icfg later : MarkedIcfg φ ι}
  {walked : List (φ × List ι)}

/-- Every branch edge is listed at its block. -/
def Listed (icfg : MarkedIcfg φ ι) : Prop :=
  ∀ f b, ∀ instr ∈ ((icfg.function f).block b).instrs, ∀ dst, instr.branchEdge = some dst →
    dst ∈ ((icfg.function f).block b).outgoingEdges

theorem run_iff (encoder : Encoder (φ × ι)) (fuel : ℕ) (write : Bool) (marks : Marks (φ × ι))
    (out : Marks (φ × ι) × List (EmittedInstr (φ × ι))) :
    run encoder fuel write icfg marks = some (.ok (later, out)) ↔
      ∃ walked, icfg.walk fuel = some (later, walked) ∧
        (∀ f ∈ walked.map Prod.fst, (icfg.function f).entryBlock ≠ none) ∧
        handleBranches (instrsOf icfg) encoder (MarkedIcfg.order walked) write marks = .ok out := by
  have entered_iff (walked : List (φ × List ι)) :
      (walked.any (fun blocks => (icfg.function blocks.1).entryBlock.isNone)) = true ↔
        ¬ ∀ f ∈ walked.map Prod.fst, (icfg.function f).entryBlock ≠ none := by
    rw [List.any_eq_true]
    push Not
    constructor
    · rintro ⟨blocks, member, none⟩
      exact ⟨blocks.1, List.mem_map_of_mem member, Option.isNone_iff_eq_none.mp none⟩
    · rintro ⟨f, member, none⟩
      obtain ⟨blocks, inWalked, rfl⟩ := List.mem_map.mp member
      exact ⟨blocks, inWalked, Option.isNone_iff_eq_none.mpr none⟩
  unfold run
  rw [Option.map_eq_some_iff]
  constructor
  · rintro ⟨⟨after, walked⟩, ended, result⟩
    obtain ⟨entered, result⟩ := ite_error result
    rw [entered_iff, not_not] at entered
    obtain ⟨emitted, handled, same⟩ := map_ok result
    cases same
    exact ⟨walked, ended, entered, handled⟩
  · rintro ⟨walked, ended, entered, handled⟩
    refine ⟨(later, walked), ended, ?_⟩
    dsimp only
    rw [if_neg (fun none => (entered_iff walked).mp none entered), handled]
    rfl

theorem instrsOf_later (first : icfg.Walked later walked) : instrsOf later = instrsOf icfg := by
  funext place
  unfold instrsOf
  by_cases inNames : place.1 ∈ walked.map Prod.fst
  · obtain ⟨blocks, member, same⟩ := List.mem_map.mp inNames
    have block := (first.blocks blocks.1 blocks.2 member).block
    rw [same] at block
    rw [block]
  · rw [first.others place.1 inNames]

theorem entryBlock_later (first : icfg.Walked later walked) (f : φ) :
    (later.function f).entryBlock = (icfg.function f).entryBlock := by
  by_cases inNames : f ∈ walked.map Prod.fst
  · obtain ⟨blocks, member, same⟩ := List.mem_map.mp inNames
    have entry := (first.blocks blocks.1 blocks.2 member).entryBlock
    rw [same] at entry
    exact entry
  · rw [first.others f inNames]

theorem leadsInside_order (listed : Listed icfg) (first : icfg.Walked later walked)
    (free : icfg.WalksFreely) : LeadsInside (instrsOf icfg) (MarkedIcfg.order walked) := by
  rintro ⟨f, b⟩ member instr inBlock dst leads
  obtain ⟨own, inOwn, rfl⟩ := List.mem_map.mp inBlock
  obtain ⟨reachable, inside⟩ := (first.mem_order_iff free f b).mp member
  unfold destination at leads
  dsimp only at leads
  split at leads
  · obtain ⟨target, edge, rfl⟩ := Option.map_eq_some_iff.mp leads
    refine (first.mem_order_iff free f target).mpr ⟨reachable, inside.step (Or.inr ?_)⟩
    exact listed f b own inOwn target edge
  · cases leads

theorem Stable.agree {encoder : Encoder (φ × ι)} (stable : Stable encoder icfg) {fuel : ℕ}
    (ended : icfg.walk fuel = some (later, walked)) :
    icfg.WalksFreely ∧ ∃ marks first last second,
      Agree (instrsOf icfg) encoder (MarkedIcfg.order walked) marks first last second := by
  have first := (MarkedIcfg.walk_cases ended).1
  obtain ⟨other, between, marks, firstRun, after, last, secondRun, ranFirst, ranSecond,
    sameInstrs, sameLengths⟩ := stable
  obtain ⟨walked', ended', _, handledFirst⟩ := (run_iff _ _ _ _ _).mp ranFirst
  obtain ⟨rfl, rfl⟩ := MarkedIcfg.walk_unique ended ended'
  obtain ⟨again, endedAgain, entered, handledSecond⟩ := (run_iff _ _ _ _ _).mp ranSecond
  have second := (MarkedIcfg.walk_cases endedAgain).1
  obtain ⟨_, emittedFirst⟩ := emitted_iff first.nodup_order handledFirst
  obtain ⟨nonempty, emittedSecond⟩ := emitted_iff second.nodup_order handledSecond
  have free : icfg.WalksFreely := by
    refine first.walksFreely_of_again second entered ?_
    intro place member
    have inside := List.length_pos_iff.mpr (nonempty place member)
    have emitted := (emittedSecond place 0).mpr ⟨member, inside⟩
    exact ((emittedFirst place 0).mp ((sameInstrs place 0).mpr emitted)).1
  obtain ⟨_, repeated⟩ := MarkedIcfg.walk_again free ended'
  obtain ⟨_, rfl⟩ := MarkedIcfg.walk_unique repeated endedAgain
  rw [instrsOf_later first] at handledSecond
  exact ⟨free, marks, firstRun, last, secondRun, handledFirst, handledSecond, sameLengths⟩

/-- Branch sizing is stable across the two runs exactly if no mark is in the way of the walks
and the short forms can be used. -/
theorem stable_iff_settled (lengths : φ × ι → ℕ → CodeLength) (region : BitVec 64)
    (icfg later : MarkedIcfg φ ι) (listed : Listed icfg) {fuel : ℕ}
    (ended : icfg.walk fuel = some (later, walked))
    (fits : Fits (encoderAt lengths region) icfg walked) :
    Stable (encoderAt lengths region) icfg ↔
      icfg.WalksFreely ∧ Settled (instrsOf icfg) lengths region (MarkedIcfg.order walked) := by
  have first := (MarkedIcfg.walk_cases ended).1
  constructor
  · intro stable
    obtain ⟨free, marks, firstRun, last, secondRun, agree⟩ := stable.agree ended
    exact ⟨free, settled_of_agree first.nodup_order (leadsInside_order listed first free) agree⟩
  · rintro ⟨free, settled⟩
    obtain ⟨last, repeated⟩ := MarkedIcfg.walk_again free ended
    obtain ⟨marks, firstRun, lastMarks, secondRun, ranFirst, ranSecond, sameLengths⟩ :=
      agree_of_settled first.nodup_order (leadsInside_order listed first free) fits.2 settled
    have entered (f : φ) (member : f ∈ walked.map Prod.fst) :
        (later.function f).entryBlock ≠ none := by
      rw [entryBlock_later first]
      exact fits.1 f member
    have ranAgain := ranSecond
    rw [← instrsOf_later first] at ranAgain
    refine ⟨fuel, later, marks, firstRun, last, lastMarks, secondRun,
      (run_iff _ _ _ _ _).mpr ⟨walked, ended, fits.1, ranFirst⟩,
      (run_iff _ _ _ _ _).mpr ⟨walked, repeated, entered, ranAgain⟩, ?_, sameLengths⟩
    intro b nr
    rw [(emitted_iff first.nodup_order ranFirst).2, (emitted_iff first.nodup_order ranSecond).2]

end Icfg

/-! ### Two blocks -/

def twoBlocks (instrs : List (BlockInstruction Bool)) (outgoingEdges visited : List Bool) :
    MarkedIcfg Unit Bool where
  valid := fun _ => false
  entryFunction := some ()
  function := fun _ =>
    { valid := fun _ => false
      hasInfo := true
      entryBlock := some false
      block := fun b =>
        if b then
          { instrs := [⟨⟨.RET, []⟩, none, none⟩]
            next := none
            prev := some false
            incomingEdges := [false]
            outgoingEdges := [] }
        else
          { instrs := instrs
            next := some true
            prev := none
            incomingEdges := outgoingEdges.filter (fun b => !b)
            outgoingEdges := outgoingEdges }
      blockValid := fun _ _ => false
      entryState := fun _ => none
      visited := visited }
  outgoingEdges := fun _ => []
  visited := []

def jumpTo (b : Bool) : BlockInstruction Bool :=
  ⟨⟨.JZa, [.mem (.direct (.plain 0))]⟩, none, some b⟩

def moveImmediate : BlockInstruction Bool :=
  ⟨⟨.MOV64ri, [.reg (.gprs64 .A), .imm (.plain 0)]⟩, none, none⟩

theorem isOk_iff {ε α : Type} {result : Except ε α} :
    result.isOk = true ↔ ∃ out, result = .ok out := by
  cases result with
  | ok out => exact ⟨fun _ => ⟨out, rfl⟩, fun _ => rfl⟩
  | error failure => exact ⟨nofun, nofun⟩

theorem listed_twoBlocks {instrs : List (BlockInstruction Bool)} {edges : List Bool}
    (listed : ∀ instr ∈ instrs, instr.branchEdge.toList ⊆ edges) (visited : List Bool) :
    Listed (twoBlocks instrs edges visited) := by
  intro f b instr member dst edge
  cases b with
  | false => exact listed instr member (Option.mem_toList.mpr edge)
  | true =>
      cases List.mem_singleton.mp member
      cases edge

theorem walksFreely_twoBlocks (instrs : List (BlockInstruction Bool)) (edges : List Bool) :
    (twoBlocks instrs edges []).WalksFreely :=
  ⟨fun _ _ => Or.inr (fun _ _ => List.not_mem_nil),
    fun _ _ _ _ => Or.inr (fun _ _ => List.not_mem_nil)⟩

/-- A loop, a branch to the end and a move that can be counted from its end. -/
theorem stable_twoBlocks :
    Stable (encoderAt (fun _ nr => if nr = 2 then .relative 3 0x1000 else .fixed 1) 0x400000)
      (twoBlocks [jumpTo false, jumpTo true, moveImmediate] [false, true] []) := by
  obtain ⟨later, ended⟩ : ∃ later,
      (twoBlocks [jumpTo false, jumpTo true, moveImmediate] [false, true] []).walk 10 =
        some (later, [((), [false, true])]) := ⟨_, rfl⟩
  refine (stable_iff_settled _ _ _ later (listed_twoBlocks (by decide) _) ended
    ⟨fun _ _ => nofun, isOk_iff.mp (by decide +kernel)⟩).mpr
      ⟨walksFreely_twoBlocks _ _, ⟨?_, ?_⟩⟩
  · rintro ⟨⟨⟩, b⟩ _ nr instr dst short long found leads branch other _ _
    cases b with
    | false =>
        rcases nr with _ | _ | _ | nr
        · cases found
          cases leads
          exact absurd rfl other
        · cases found
          cases leads
          cases branch
          decide +kernel
        · cases found
          cases leads
        · cases found
    | true =>
        rcases nr with _ | nr
        · cases found
          cases leads
        · cases found
  · rintro ⟨⟨⟩, b⟩ _ nr instr ilen val found plain relative
    cases b with
    | false =>
        rcases nr with _ | _ | _ | nr
        · cases relative
        · cases relative
        · cases relative
          unfold Crosses
          decide +kernel
        · cases found
    | true =>
        rcases nr with _ | nr
        · cases relative
        · cases found

/-- The loop shrinks, but the destination stays at its alignment: the second branch was 126
bytes before it, and is 130 bytes before it in the second run. -/
theorem not_stable_of_fits :
    ¬ ∀ (lengths : Unit × Bool → ℕ → CodeLength) (region : BitVec 64)
      (icfg later : MarkedIcfg Unit Bool) (fuel : ℕ) (walked : List (Unit × List Bool)),
      Listed icfg → icfg.WalksFreely → icfg.walk fuel = some (later, walked) →
        Fits (encoderAt lengths region) icfg walked → Stable (encoderAt lengths region) icfg := by
  intro always
  let lengths : Unit × Bool → ℕ → CodeLength := fun place nr =>
    .fixed (if place.2 then 1 else if nr = 15 then 2 else 10)
  let icfg := twoBlocks
    ([jumpTo false, moveImmediate, jumpTo true] ++ List.replicate 13 moveImmediate)
    [false, true] []
  obtain ⟨later, ended⟩ : ∃ later, icfg.walk 10 = some (later, [((), [false, true])]) :=
    ⟨_, rfl⟩
  have stable := always lengths 0 icfg later 10 _ (listed_twoBlocks (by decide) _)
    (walksFreely_twoBlocks _ _) ended ⟨fun _ _ => nofun, isOk_iff.mp (by decide +kernel)⟩
  obtain ⟨_, marks, first, last, second, ranFirst, ranSecond, _⟩ := stable.agree ended
  have fails : (do
      let marked ← handleBranches (instrsOf icfg) (encoderAt lengths 0)
        [((), false), ((), true)] false noMarks
      handleBranches (instrsOf icfg) (encoderAt lengths 0) [((), false), ((), true)] true
        marked.1).isOk = false := by
    decide +kernel
  have order : MarkedIcfg.order [((), [false, true])] = [((), false), ((), true)] := rfl
  rw [order] at ranFirst ranSecond
  rw [ranFirst] at fails
  change (handleBranches (instrsOf icfg) (encoderAt lengths 0) [((), false), ((), true)] true
    marks).isOk = false at fails
  rw [ranSecond] at fails
  cases fails

theorem not_stable_marked (encoder : Encoder (Unit × Bool)) :
    ¬ Stable encoder (twoBlocks [moveImmediate] [] [true]) := by
  intro stable
  obtain ⟨later, ended⟩ : ∃ later,
      (twoBlocks [moveImmediate] [] [true]).walk 10 = some (later, [((), [false])]) := ⟨_, rfl⟩
  obtain ⟨free, _⟩ := stable.agree ended
  rcases free.blocks () ⟨(), rfl, .refl⟩ false rfl with marked | clear
  · cases List.mem_singleton.mp marked
  · exact clear true ⟨false, rfl, .single (Or.inl rfl)⟩ List.mem_cons_self

end CodeGeneration

end Drob
