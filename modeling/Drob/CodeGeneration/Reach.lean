import Drob.CodeGeneration.ShortBranches

/-!
How far instructions move when branches shrink: blocks move down by what the blocks before
them lose, and no further than the code behind them. So branches back come closer, and only a
branch ahead can lose its destination.
-/

namespace Drob

namespace CodeGeneration

variable {ι : Type}

/-! ### Addresses in reach -/

theorem is_rel32_iff (val : BitVec 64) :
    Encoder.ModRMEncoding.is_rel32 val = true ↔ -2 ^ 31 ≤ val.toInt ∧ val.toInt < 2 ^ 31 := by
  unfold Encoder.ModRMEncoding.is_rel32
  have whole : ((2 ^ 32 : ℕ) : ℤ) ∣ val.toInt - (val.toNat : ℤ) := by
    rw [BitVec.toInt_eq_toNat_cond]
    split <;> omega
  rw [decide_eq_true_iff, ← BitVec.toInt_inj, BitVec.toInt_signExtend_of_le (by decide),
    BitVec.toInt_setWidth, Int.bmod_eq_iff (by decide)]
  constructor
  · rintro ⟨low, high, _⟩
    omega
  · rintro ⟨low, high⟩
    exact ⟨by omega, by omega, whole⟩

/-- The length of an instruction changes when it moves down if its address crosses an end of
the reach. -/
theorem sameLength_iff (ilen : ℕ) (val addr : BitVec 64) {moved : ℕ}
    (small : moved ≤ ARCH_PAGE_SIZE) :
    (CodeLength.relative ilen val).ilenAt addr =
        (CodeLength.relative ilen val).ilenAt (addr - BitVec.ofNat 64 moved) ↔
      ¬ Crosses ilen val addr moved := by
  have rels : val - (addr - BitVec.ofNat 64 moved + BitVec.ofNat 64 (ilen + 4)) =
      val - (addr + BitVec.ofNat 64 (ilen + 4)) + BitVec.ofNat 64 moved := by
    ring
  unfold CodeLength.ilenAt Crosses
  unfold ARCH_PAGE_SIZE at small
  dsimp only
  rw [rels]
  generalize val - (addr + BitVec.ofNat 64 (ilen + 4)) = rel
  -- the displacement grows, or it was far above the reach and wraps around
  have later : (rel + BitVec.ofNat 64 moved).toInt = rel.toInt + moved ∨
      2 ^ 62 ≤ rel.toInt ∧ (rel + BitVec.ofNat 64 moved).toInt = rel.toInt + moved - 2 ^ 64 := by
    have bound := rel.isLt
    rw [BitVec.toInt_eq_toNat_cond, BitVec.toInt_eq_toNat_cond, BitVec.toNat_add,
      BitVec.toNat_ofNat]
    split <;> split <;> omega
  have high := rel.toInt_lt
  have same : (if Encoder.ModRMEncoding.is_rel32 rel = true then ilen + 4 else ilen) =
        (if Encoder.ModRMEncoding.is_rel32 (rel + BitVec.ofNat 64 moved) = true then ilen + 4
          else ilen) ↔
      (-2 ^ 31 ≤ rel.toInt ∧ rel.toInt < 2 ^ 31 ↔
        -2 ^ 31 ≤ (rel + BitVec.ofNat 64 moved).toInt ∧
          (rel + BitVec.ofNat 64 moved).toInt < 2 ^ 31) := by
    rw [← is_rel32_iff, ← is_rel32_iff]
    split <;> split <;> simp_all
  rw [same]
  omega

section Moves

variable [DecidableEq ι] {code : ι → List (BlockInstruction ι)} {encoder : Encoder ι}
  {order : List ι}

/-! ### Places in the second run -/

def SameAt (code : ι → List (BlockInstruction ι)) (encoder : Encoder ι) (order : List ι) (b : ι)
    (nr : ℕ) : Prop :=
  ∀ instr, (code b)[nr]? = some instr → destination instr = none →
    encoder b nr (placeOf code encoder noMarks order b nr) =
      encoder b nr (placeOf code encoder (shortMarks code encoder order) order b nr)

theorem gained_succ (code : ι → List (BlockInstruction ι)) (encoder : Encoder ι) (order : List ι)
    (b : ι) (nr : ℕ) :
    gained code encoder order b (nr + 1) =
      gained code encoder order b nr + gain code encoder order b nr := by
  unfold gained
  rw [List.range_succ, List.map_append, List.sum_append, List.map_singleton, List.sum_singleton]

theorem placeOf_succ (marks : Marks ι) {b : ι} {nr : ℕ} {instr : BlockInstruction ι}
    (found : (code b)[nr]? = some instr) :
    placeOf code encoder marks order b (nr + 1) = placeOf code encoder marks order b nr +
      lengthOf encoder marks b nr (placeOf code encoder marks order b nr) instr := by
  unfold placeOf
  rw [placeFrom, found]
  rfl

theorem lengthOf_gain {b : ι} (member : b ∈ order) {nr : ℕ} {instr : BlockInstruction ι}
    (found : (code b)[nr]? = some instr) (same : SameAt code encoder order b nr) :
    lengthOf encoder noMarks b nr (placeOf code encoder noMarks order b nr) instr =
      lengthOf encoder (shortMarks code encoder order) b nr
        (placeOf code encoder (shortMarks code encoder order) order b nr) instr +
          gain code encoder order b nr := by
  unfold gain lengthOf
  rw [found]
  dsimp only
  cases leads : destination instr with
  | none => exact same instr found leads
  | some dst =>
      obtain ⟨short, long, lengths, le⟩ := branchLengths_isSome leads
      have marked : shortMarks code encoder order b nr = _ :=
        shortMarks_eq found leads lengths member
      rw [lengths]
      change long = (if shortMarks code encoder order b nr = true then short else long) +
        (if is_rel8 (distance code encoder order b nr short dst) = true then long - short else 0)
      rw [marked]
      split
      · omega
      · rfl

/-- Inside a block, instructions move down with the start of the block and by what is gained
before them. -/
theorem placeOf_gained {b : ι} (member : b ∈ order) {moved : ℕ}
    (starts : startOf code encoder noMarks order b =
      startOf code encoder (shortMarks code encoder order) order b + moved)
    {nr : ℕ} (same : ∀ k, k < nr → SameAt code encoder order b k) :
    placeOf code encoder noMarks order b nr =
      placeOf code encoder (shortMarks code encoder order) order b nr +
        (moved + gained code encoder order b nr) := by
  induction nr with
  | zero => exact starts
  | succ nr ih =>
      have here := ih (fun k less => same k (Nat.lt_succ_of_lt less))
      rw [gained_succ]
      cases found : (code b)[nr]? with
      | none =>
          have noGain : gain code encoder order b nr = 0 := by
            unfold gain
            rw [found]
          have stays (marks : Marks ι) : placeOf code encoder marks order b (nr + 1) =
              placeOf code encoder marks order b nr := by
            unfold placeOf
            rw [placeFrom, found]
            rfl
          rw [stays, stays, noGain]
          exact here
      | some instr =>
          have length := lengthOf_gain member found (same nr (Nat.lt_succ_self nr))
          rw [placeOf_succ _ found, placeOf_succ _ found, length]
          omega

theorem endOf_lost (once : order.Nodup) {early rest : List ι} (split : order = early ++ rest)
    (same : ∀ b ∈ early, ∀ k, SameAt code encoder order b k) :
    alignUp (endOf code encoder noMarks early) ARCH_BLOCK_ALIGN =
      alignUp (endOf code encoder (shortMarks code encoder order) early) ARCH_BLOCK_ALIGN +
        lostBy code encoder order early := by
  induction early using List.reverseRecOn generalizing rest with
  | nil => rfl
  | append_singleton early b ih =>
      have splitHere : order = early ++ b :: rest := by rw [split]; simp
      have member : b ∈ order := by rw [splitHere]; simp
      have moved := ih splitHere (fun c inEarly => same c (List.mem_append_left _ inEarly))
      have starts (marks : Marks ι) : startOf code encoder marks order b =
          alignUp (endOf code encoder marks early) ARCH_BLOCK_ALIGN := by
        unfold startOf
        rw [before_append once splitHere]
      rw [← starts, ← starts] at moved
      have stops := placeOf_gained member moved
        (fun k (_ : k < (code b).length) => same b (by simp) k)
      have ends (marks : Marks ι) : endOf code encoder marks (early ++ [b]) =
          placeOf code encoder marks order b (code b).length := by
        rw [endOf_snoc, ← starts]
        rfl
      have alignedLong : 16 ∣ startOf code encoder noMarks order b := alignUp_aligned _
      have alignedShort : 16 ∣ startOf code encoder (shortMarks code encoder order) order b :=
        alignUp_aligned _
      have begins := start_le_placeFrom code encoder (shortMarks code encoder order) b
        (startOf code encoder (shortMarks code encoder order) order b) (code b).length
      change _ ≤ placeOf code encoder (shortMarks code encoder order) order b (code b).length
        at begins
      have long : placeOf code encoder noMarks order b (code b).length =
          startOf code encoder noMarks order b + size code encoder order b := by
        have le := start_le_placeFrom code encoder noMarks b
          (startOf code encoder noMarks order b) (code b).length
        exact (Nat.add_sub_of_le le).symm
      have short : placeOf code encoder (shortMarks code encoder order) order b (code b).length =
          startOf code encoder (shortMarks code encoder order) order b +
            (size code encoder order b - gained code encoder order b (code b).length) := by
        omega
      have smaller := alignUp_distance (dvd_zero 16) (Nat.sub_le (size code encoder order b)
        (gained code encoder order b (code b).length))
      unfold lostBy at moved ⊢
      rw [ends, ends, long, short, alignUp_add alignedLong, alignUp_add alignedShort,
        List.map_append, List.sum_append, List.map_singleton, List.sum_singleton, moved]
      have loses : lost code encoder order b + alignUp (size code encoder order b -
          gained code encoder order b (code b).length) ARCH_BLOCK_ALIGN =
            alignUp (size code encoder order b) ARCH_BLOCK_ALIGN := Nat.sub_add_cancel smaller
      omega

theorem placeOf_moved (once : order.Nodup) {early rest : List ι} {b : ι}
    (split : order = early ++ b :: rest) {nr : ℕ}
    (same : ∀ c ∈ early, ∀ k, SameAt code encoder order c k)
    (sameHere : ∀ k, k < nr → SameAt code encoder order b k) :
    placeOf code encoder noMarks order b nr =
      placeOf code encoder (shortMarks code encoder order) order b nr +
        (lostBy code encoder order early + gained code encoder order b nr) := by
  have member : b ∈ order := by rw [split]; simp
  refine placeOf_gained member ?_ sameHere
  unfold startOf
  rw [before_append once split]
  exact endOf_lost once split same

/-! ### Reach in the second run -/

theorem distance_second (once : order.Nodup) (same : ∀ b ∈ order, ∀ k, SameAt code encoder order b k)
    {b dst : ι} (member : b ∈ order) (dstMember : dst ∈ order) (nr short : ℕ) :
    (startOf code encoder (shortMarks code encoder order) order dst : ℤ) -
        (placeOf code encoder (shortMarks code encoder order) order b nr + short) =
      distance code encoder order b nr short dst +
        (lostBy code encoder order (before order b) + gained code encoder order b nr) -
          lostBy code encoder order (before order dst) := by
  have places {c : ι} (inOrder : c ∈ order) (k : ℕ) : placeOf code encoder noMarks order c k =
      placeOf code encoder (shortMarks code encoder order) order c k +
        (lostBy code encoder order (before order c) + gained code encoder order c k) := by
    obtain ⟨early, rest, split⟩ := List.append_of_mem inOrder
    rw [before_append once split]
    refine placeOf_moved once split (fun d inEarly => same d ?_) (fun k _ => same c inOrder k)
    rw [split]
    exact List.mem_append_left _ inEarly
  have branch := places member nr
  have target : startOf code encoder noMarks order dst =
      startOf code encoder (shortMarks code encoder order) order dst +
        lostBy code encoder order (before order dst) := places dstMember 0
  unfold distance
  omega

theorem lostBy_append (left right : List ι) :
    lostBy code encoder order (left ++ right) =
      lostBy code encoder order left + lostBy code encoder order right := by
  unfold lostBy
  rw [List.map_append, List.sum_append]

theorem reaches_back (once : order.Nodup) (same : ∀ b ∈ order, ∀ k, SameAt code encoder order b k)
    {b dst : ι} (member : b ∈ order) (back : dst = b ∨ dst ∈ before order b) (nr short : ℕ)
    (near : is_rel8 (distance code encoder order b nr short dst) = true) :
    is_rel8 (startOf code encoder (shortMarks code encoder order) order dst -
      (placeOf code encoder (shortMarks code encoder order) order b nr + short)) = true := by
  obtain ⟨early, rest, split⟩ := List.append_of_mem member
  have beforeEq := before_append once split
  have fits := of_decide_eq_true near
  have behind : startOf code encoder (shortMarks code encoder order) order dst ≤
      placeOf code encoder (shortMarks code encoder order) order b nr := by
    rcases back with rfl | inBefore
    · exact start_le_placeFrom code encoder _ _ _ _
    · rw [beforeEq] at inBefore
      obtain ⟨first, middle, rfl⟩ := List.append_of_mem inBefore
      have splitDst : order = first ++ dst :: (middle ++ b :: rest) := by rw [split]; simp
      calc
        startOf code encoder _ order dst ≤ startOf code encoder _ order b :=
          place_le_startOf code encoder _ once splitDst (Nat.zero_le _)
        _ ≤ _ := start_le_placeFrom code encoder _ _ _ _
  have dstMember : dst ∈ order := by
    rcases back with rfl | inBefore
    · exact member
    · rw [split]
      exact List.mem_append_left _ (beforeEq ▸ inBefore)
  have closer : lostBy code encoder order (before order dst) ≤
      lostBy code encoder order (before order b) := by
    rcases back with rfl | inBefore
    · exact le_rfl
    · rw [beforeEq] at inBefore ⊢
      obtain ⟨first, middle, rfl⟩ := List.append_of_mem inBefore
      have splitDst : order = first ++ dst :: (middle ++ b :: rest) := by rw [split]; simp
      rw [before_append once splitDst, lostBy_append]
      exact Nat.le_add_right _ _
  have second := distance_second once same member dstMember nr short
  apply decide_eq_true
  omega

theorem reaches_ahead_iff (once : order.Nodup)
    (same : ∀ b ∈ order, ∀ k, SameAt code encoder order b k) {b dst : ι} (member : b ∈ order)
    (dstMember : dst ∈ order) (other : dst ≠ b) (notBefore : dst ∉ before order b) {nr short long : ℕ}
    {instr : BlockInstruction ι} (found : (code b)[nr]? = some instr)
    (leads : destination instr = some dst)
    (lengths : branchLengths instr.instruction.opcode = some (short, long)) (le : short ≤ long) :
    (is_rel8 (distance code encoder order b nr short dst) = true ↔
        distance code encoder order b nr short dst ≤ 127) ∧
      (is_rel8 (distance code encoder order b nr short dst) = true →
        (is_rel8 (startOf code encoder (shortMarks code encoder order) order dst -
            (placeOf code encoder (shortMarks code encoder order) order b nr + short)) = true ↔
          distance code encoder order b nr short dst + gained code encoder order b nr ≤
            127 + lostBy code encoder order
              ((before order dst).drop (before order b).length))) := by
  obtain ⟨early, rest, split⟩ := List.append_of_mem member
  have beforeEq := before_append once split
  rw [beforeEq] at notBefore
  have inRest : dst ∈ rest := by
    rw [split] at dstMember
    rcases List.mem_append.mp dstMember with inEarly | inTail
    · exact absurd inEarly notBefore
    · exact (List.mem_cons.mp inTail).resolve_left other
  obtain ⟨middle, late, rfl⟩ := List.append_of_mem inRest
  have splitDst : order = (early ++ b :: middle) ++ dst :: late := by rw [split]; simp
  have inside := Nat.succ_le_of_lt (List.getElem?_eq_some_iff.mp found).1
  -- the branch ends before the destination in every layout
  have ahead (marks : Marks ι) : placeOf code encoder marks order b nr +
      lengthOf encoder marks b nr (placeOf code encoder marks order b nr) instr ≤
        startOf code encoder marks order dst := by
    rw [← placeOf_succ marks found]
    exact place_le_startOf code encoder marks once split inside
  have long_ := ahead noMarks
  have longLength : lengthOf encoder noMarks b nr (placeOf code encoder noMarks order b nr) instr =
      long := by
    unfold lengthOf
    rw [leads, lengths]
    rfl
  have positive : 0 ≤ distance code encoder order b nr short dst := by
    unfold distance
    omega
  have marked : shortMarks code encoder order b nr = _ :=
    shortMarks_eq found leads lengths member
  have second := distance_second once same member dstMember nr short
  rw [beforeEq, before_append once splitDst, lostBy_append] at second
  refine ⟨?_, fun near => ?_⟩
  · unfold is_rel8
    rw [decide_eq_true_iff]
    exact ⟨fun both => both.2, fun le => ⟨by omega, le⟩⟩
  · have short_ := ahead (shortMarks code encoder order)
    have shortLength : lengthOf encoder (shortMarks code encoder order) b nr
        (placeOf code encoder (shortMarks code encoder order) order b nr) instr = short := by
      unfold lengthOf
      rw [leads, lengths, marked, near]
      rfl
    rw [beforeEq, before_append once splitDst, List.drop_left]
    unfold is_rel8
    rw [decide_eq_true_iff]
    omega

end Moves

/-! ### The condition -/

section Condition

variable [DecidableEq ι] {code : ι → List (BlockInstruction ι)} {lengths : ι → ℕ → CodeLength}
  {region : BitVec 64} {order : List ι}

theorem sameAt_iff {b : ι} {nr moved : ℕ} (small : moved ≤ ARCH_PAGE_SIZE)
    (place : placeOf code (encoderAt lengths region) noMarks order b nr =
      placeOf code (encoderAt lengths region)
        (shortMarks code (encoderAt lengths region) order) order b nr + moved) :
    SameAt code (encoderAt lengths region) order b nr ↔
      ∀ instr ilen val, (code b)[nr]? = some instr → destination instr = none →
        lengths b nr = .relative ilen val →
          ¬ Crosses ilen val (region + BitVec.ofNat 64
            (placeOf code (encoderAt lengths region) noMarks order b nr)) moved := by
  have shifted : region + BitVec.ofNat 64 (placeOf code (encoderAt lengths region)
        (shortMarks code (encoderAt lengths region) order) order b nr) =
      region + BitVec.ofNat 64 (placeOf code (encoderAt lengths region) noMarks order b nr) -
        BitVec.ofNat 64 moved := by
    rw [place, BitVec.ofNat_add]
    ring
  unfold SameAt
  constructor
  · intro same instr ilen val found plain relative
    have equal := same instr found plain
    rw [← sameLength_iff ilen val _ small, ← shifted, ← relative]
    exact equal
  · intro apart instr found plain
    change (lengths b nr).ilenAt _ = (lengths b nr).ilenAt _
    rw [shifted]
    cases kind : lengths b nr with
    | fixed ilen => rfl
    | relative ilen val =>
        exact (sameLength_iff ilen val _ small).mpr (apart instr ilen val found plain kind)

theorem place_le_page (inPage : ∀ b ∈ order, ∀ k, InPage code (encoderAt lengths region) noMarks b
      (startOf code (encoderAt lengths region) noMarks order b) k)
    {b : ι} (member : b ∈ order) {nr : ℕ} {instr : BlockInstruction ι}
    (found : (code b)[nr]? = some instr) :
    placeOf code (encoderAt lengths region) noMarks order b nr ≤ ARCH_PAGE_SIZE := by
  have fits := inPage b member nr instr found
  unfold placeOf
  omega

theorem same_iff (once : order.Nodup)
    (inPage : ∀ b ∈ order, ∀ k, InPage code (encoderAt lengths region) noMarks b
      (startOf code (encoderAt lengths region) noMarks order b) k) :
    (∀ b ∈ order, ∀ k, SameAt code (encoderAt lengths region) order b k) ↔
      ∀ b ∈ order, ∀ nr instr ilen val, (code b)[nr]? = some instr →
        destination instr = none → lengths b nr = .relative ilen val →
          ¬ Crosses ilen val (region + BitVec.ofNat 64
              (placeOf code (encoderAt lengths region) noMarks order b nr))
            (lostBy code (encoderAt lengths region) order (before order b) +
              gained code (encoderAt lengths region) order b nr) := by
  -- one instruction, if all lengths before it stay the same
  have one {early rest : List ι} {b : ι} (split : order = early ++ b :: rest) {nr : ℕ}
      (same : ∀ c ∈ early, ∀ k, SameAt code (encoderAt lengths region) order c k)
      (sameHere : ∀ k, k < nr → SameAt code (encoderAt lengths region) order b k) :
      SameAt code (encoderAt lengths region) order b nr ↔
        ∀ instr ilen val, (code b)[nr]? = some instr → destination instr = none →
          lengths b nr = .relative ilen val →
            ¬ Crosses ilen val (region + BitVec.ofNat 64
                (placeOf code (encoderAt lengths region) noMarks order b nr))
              (lostBy code (encoderAt lengths region) order (before order b) +
                gained code (encoderAt lengths region) order b nr) := by
    have member : b ∈ order := by rw [split]; simp
    have place := placeOf_moved once split same sameHere
    rw [before_append once split]
    cases found : (code b)[nr]? with
    | none =>
        refine iff_of_true ?_ nofun
        intro instr impossible
        rw [found] at impossible
        cases impossible
    | some instr =>
        have le := place_le_page inPage member found
        rw [← found]
        exact sameAt_iff (by omega) place
  constructor
  · intro same b member nr
    obtain ⟨early, rest, split⟩ := List.append_of_mem member
    refine (one split (fun c inEarly => same c ?_) (fun k _ => same b member k)).mp
      (same b member nr)
    rw [split]
    exact List.mem_append_left _ inEarly
  · intro apart
    -- along the order, and along the instructions of each block
    have upTo (early rest : List ι) (split : order = early ++ rest) :
        ∀ b ∈ early, ∀ k, SameAt code (encoderAt lengths region) order b k := by
      induction early using List.reverseRecOn generalizing rest with
      | nil => nofun
      | append_singleton early b ih =>
          have splitHere : order = early ++ b :: rest := by rw [split]; simp
          have before := ih (b :: rest) splitHere
          intro c member
          rcases List.mem_append.mp member with inEarly | isLast
          · exact before c inEarly
          · rw [List.mem_singleton.mp isLast]
            intro k
            induction k using Nat.strongRecOn with
            | ind k ihInstr =>
                exact (one splitHere before ihInstr).mpr (apart b (by rw [splitHere]; simp) k)
    exact upTo order [] (List.append_nil order).symm

theorem emits_short (once : order.Nodup)
    (same : ∀ b ∈ order, ∀ k, SameAt code (encoderAt lengths region) order b k)
    (fits : ∃ out, emitBlocks code (encoderAt lengths region) noMarks order .resetCodePool =
      .ok out) :
    ∃ out, emitBlocks code (encoderAt lengths region)
      (shortMarks code (encoderAt lengths region) order) order .resetCodePool = .ok out := by
  rw [emits_iff once] at fits ⊢
  intro b member
  obtain ⟨nonempty, inPage⟩ := fits b member
  refine ⟨nonempty, ?_⟩
  intro k instr found
  have long := inPage k instr found
  obtain ⟨early, rest, split⟩ := List.append_of_mem member
  have sameBefore (c : ι) (inEarly : c ∈ early) := same c (by
    rw [split]
    exact List.mem_append_left _ inEarly)
  have moved : placeOf code (encoderAt lengths region) noMarks order b k = _ :=
    placeOf_moved once split sameBefore (fun j _ => same b member j)
  have length := lengthOf_gain member found (same b member k)
  change placeOf code (encoderAt lengths region) noMarks order b k +
    lengthOf _ _ b k (placeOf code (encoderAt lengths region) noMarks order b k) instr - 1 < _
      at long
  change placeOf code (encoderAt lengths region) _ order b k +
    lengthOf _ _ b k (placeOf code (encoderAt lengths region) _ order b k) instr - 1 < _
  omega

end Condition

end CodeGeneration

end Drob
