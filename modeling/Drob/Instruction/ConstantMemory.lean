import Drob.Instruction.Context

/-!
Queries for constant memory. The walk over the mappings asks the configuration for the
full size at every writable mapping it comes to, so that its answer is right only where
these longer ranges are harmless.
-/

namespace Drob

def MemoryRange.Contains (range : MemoryRange) (byte : Nat) : Prop :=
  range.start.toNat ≤ byte ∧ byte < range.stop.toNat

def MemCfg.Contains (mem : MemCfg) (byte : Nat) : Prop :=
  mem.start.toNat ≤ byte ∧ byte < mem.start.toNat + mem.size.toNat

def MemCfg.Ends (mem : MemCfg) : Prop :=
  mem.start.toNat + mem.size.toNat < 2 ^ 64

namespace MemProtCache

def ConfiguredByte (cache : MemProtCache) (byte : Nat) : Prop :=
  ∃ mem ∈ cache.ranges, mem.Contains byte

def FoundByte (cache : MemProtCache) (byte : Nat) : Prop :=
  ∃ mem ∈ cache.ranges, mem.Contains byte ∧ mem.Ends

def ConstantByte (cache : MemProtCache) (byte : Nat) : Prop :=
  ∃ range ∈ cache.memoryRanges, range.Contains byte ∧ range.r = true ∧
    (range.w = false ∨ cache.ConfiguredByte byte)

def Disjoint (cache : MemProtCache) : Prop :=
  ∀ range ∈ cache.memoryRanges, ∀ other ∈ cache.memoryRanges, ∀ byte,
    range.Contains byte → other.Contains byte → range = other

def All (property : Nat → Prop) (addr size : Nat) : Prop :=
  ∀ byte, addr ≤ byte → byte < addr + size → property byte

/-- The query returns, and returns true exactly for constant memory. -/
def AnswersConstant (cache : MemProtCache) (addr : BitVec 64) (size : Nat) : Prop :=
  ∃ answer, cache.isConstant addr size = .ok answer ∧
    (answer = true ↔ All cache.ConstantByte addr.toNat size)

def AnswersConfigured (cache : MemProtCache) (addr : BitVec 64) (size : Nat) : Prop :=
  ∃ answer, cache.isConfiguredConstant addr.toNat size = .ok answer ∧
    (answer = true ↔ All cache.ConfiguredByte addr.toNat size)

/-- The positions at which the walk looks for a mapping: the address and the ends of the
mappings it passes. A writable one is passed if the full size from there is configured. -/
inductive Reached (cache : MemProtCache) (size addr stop : Nat) : Nat → Prop
  | start : Reached cache size addr stop addr
  | next {position : Nat} {range : MemoryRange} (reached : Reached cache size addr stop position)
      (mapped : range ∈ cache.memoryRanges) (here : range.Contains position)
      (readable : range.r = true)
      (configured : range.w = true →
        position + size < 2 ^ 64 ∧ All cache.FoundByte position size)
      (more : range.stop.toNat < stop) : Reached cache size addr stop range.stop.toNat

/-- The full size from a writable mapping on neither wraps around nor contains a byte that
is not configured, unless the query is not constant anyway. -/
def Harmless (cache : MemProtCache) (addr size : Nat) : Prop :=
  ∀ position, cache.Reached size addr (addr + size) position →
    ∀ range ∈ cache.memoryRanges, range.Contains position → range.r = true → range.w = true →
      position + size < 2 ^ 64 ∧
        (All cache.ConstantByte addr size → All cache.FoundByte position size)

variable {cache : MemProtCache}

/-! ### Configured ranges -/

theorem found_iff (mem : MemCfg) (byte : Nat) :
    (mem.start.toNat ≤ byte ∧ byte < (mem.start + mem.size).toNat) ↔
      mem.Contains byte ∧ mem.Ends := by
  have startBound := mem.start.isLt
  have sizeBound := mem.size.isLt
  unfold MemCfg.Contains MemCfg.Ends
  rw [BitVec.toNat_add]
  by_cases wraps : mem.start.toNat + mem.size.toNat < 2 ^ 64
  · rw [Nat.mod_eq_of_lt wraps]
    exact ⟨fun inside => ⟨inside, wraps⟩, fun both => both.1⟩
  · have wrapped : (mem.start.toNat + mem.size.toNat) % 2 ^ 64 =
        mem.start.toNat + mem.size.toNat - 2 ^ 64 := by
      omega
    rw [wrapped]
    omega

theorem of_find_range {property : MemCfg → Bool} {mem : MemCfg}
    (found : cache.ranges.find? property = some mem) : mem ∈ cache.ranges ∧ property mem = true :=
  ⟨List.mem_of_find?_eq_some found, List.find?_some found⟩

theorem configuredLoop_iff (cache : MemProtCache) (addr stop : Nat) :
    cache.isConfiguredConstantLoop addr stop = true ↔
      ∀ byte, addr ≤ byte → byte < stop → cache.FoundByte byte := by
  induction distance : stop - addr using Nat.strong_induction_on generalizing addr with
  | _ distance ih =>
      rw [isConfiguredConstantLoop]
      split
      · rename_i inside
        split
        · rename_i notFound
          refine ⟨fun impossible => (by cases impossible), fun all => ?_⟩
          obtain ⟨mem, member, contains, ends⟩ := all addr le_rfl inside
          have missed := List.find?_eq_none.mp notFound mem member
          rw [Bool.and_eq_true, decide_eq_true_iff, decide_eq_true_iff] at missed
          exact absurd ((found_iff mem addr).mpr ⟨contains, ends⟩) missed
        · rename_i mem found
          obtain ⟨member, holds⟩ := of_find_range found
          rw [Bool.and_eq_true, decide_eq_true_iff, decide_eq_true_iff] at holds
          rw [ih (stop - (mem.start + mem.size).toNat) (by omega) _ rfl]
          constructor
          · intro later byte atLeast below
            by_cases before : byte < (mem.start + mem.size).toNat
            · obtain ⟨contains, ends⟩ := (found_iff mem byte).mp ⟨by omega, before⟩
              exact ⟨mem, member, contains, ends⟩
            · exact later byte (Nat.le_of_not_lt before) below
          · intro all byte atLeast below
            exact all byte (by omega) below
      · rename_i outside
        exact ⟨fun _ byte atLeast below => by omega, fun _ => rfl⟩

theorem isConfiguredConstant_ok (cache : MemProtCache) {addr size : Nat}
    (fits : addr + size < 2 ^ 64) :
    ∃ answer, cache.isConfiguredConstant addr size = .ok answer ∧
      (answer = true ↔ All cache.FoundByte addr size) := by
  unfold isConfiguredConstant
  rw [Nat.mod_eq_of_lt fits]
  by_cases empty : size = 0
  · refine ⟨true, if_pos empty, ?_⟩
    exact ⟨fun _ byte atLeast below => by omega, fun _ => rfl⟩
  · refine ⟨_, ?_, configuredLoop_iff cache addr (addr + size)⟩
    dsimp only
    rw [if_neg empty, if_pos (by omega)]

theorem isConfiguredConstant_wraps (cache : MemProtCache) {addr size : Nat}
    (small : addr < 2 ^ 64) (sizeSmall : size < 2 ^ 64) (wraps : 2 ^ 64 ≤ addr + size) :
    cache.isConfiguredConstant addr size = .error (.assertion "end > addr") := by
  unfold isConfiguredConstant
  have wrapped : (addr + size) % 2 ^ 64 = addr + size - 2 ^ 64 := by
    omega
  dsimp only
  rw [if_neg (by omega), if_neg (by rw [wrapped]; omega)]

/-- The query for configured memory is exact unless all bytes are configured and one of them
only by a range that ends at or after the end of the address space. -/
theorem answersConfigured_iff (cache : MemProtCache) {addr : BitVec 64} {size : Nat}
    (fits : addr.toNat + size < 2 ^ 64) :
    cache.AnswersConfigured addr size ↔
      (All cache.ConfiguredByte addr.toNat size → All cache.FoundByte addr.toNat size) := by
  obtain ⟨answer, answered, exact⟩ := cache.isConfiguredConstant_ok fits
  have weaker (all : All cache.FoundByte addr.toNat size) :
      All cache.ConfiguredByte addr.toNat size := by
    intro byte atLeast below
    obtain ⟨mem, member, contains, _⟩ := all byte atLeast below
    exact ⟨mem, member, contains⟩
  constructor
  · rintro ⟨other, otherAnswered, otherExact⟩ all
    cases answered.symm.trans otherAnswered
    exact exact.mp (otherExact.mpr all)
  · intro found
    refine ⟨answer, answered, exact.trans ⟨weaker, found⟩⟩

/-! ### The walk over the mappings -/

theorem findMemoryRange_some {addr : Nat} {range : MemoryRange}
    (found : cache.findMemoryRange addr = some range) :
    range ∈ cache.memoryRanges ∧ range.Contains addr := by
  have holds := List.find?_some found
  rw [Bool.and_eq_true, decide_eq_true_iff, decide_eq_true_iff] at holds
  exact ⟨List.mem_of_find?_eq_some found, holds⟩

theorem findMemoryRange_none {addr : Nat} (missed : cache.findMemoryRange addr = none)
    {range : MemoryRange} (member : range ∈ cache.memoryRanges) : ¬ range.Contains addr := by
  have missedRange := List.find?_eq_none.mp missed range member
  rwa [Bool.and_eq_true, decide_eq_true_iff, decide_eq_true_iff] at missedRange

theorem Disjoint.findMemoryRange (disjoint : cache.Disjoint) {addr : Nat} {range : MemoryRange}
    (member : range ∈ cache.memoryRanges) (contains : range.Contains addr) :
    cache.findMemoryRange addr = some range := by
  cases found : cache.findMemoryRange addr with
  | none => exact absurd contains (findMemoryRange_none found member)
  | some other =>
      obtain ⟨otherMember, otherContains⟩ := findMemoryRange_some found
      rw [disjoint other otherMember range member addr otherContains contains]

theorem isConstantLoop_range {size addr stop : Nat} (inside : addr < stop) {range : MemoryRange}
    (found : cache.findMemoryRange addr = some range) (readable : range.r = true) :
    cache.isConstantLoop size addr stop = (do
      let configured ← if range.w then cache.isConfiguredConstant addr size else .ok true
      if configured then cache.isConstantLoop size range.stop.toNat stop else .ok false) := by
  rw [isConstantLoop, dif_pos inside]
  split
  · rename_i missed
    rw [found] at missed
    cases missed
  · rename_i other otherFound
    rw [found] at otherFound
    cases otherFound
    rw [if_pos readable]

theorem isConstantLoop_end {size addr stop : Nat} (outside : stop ≤ addr) :
    cache.isConstantLoop size addr stop = .ok true := by
  rw [isConstantLoop, dif_neg (Nat.not_lt.mpr outside)]

theorem isConstantLoop_pass {size addr stop : Nat} (inside : addr < stop) {range : MemoryRange}
    (found : cache.findMemoryRange addr = some range) (readable : range.r = true)
    (configured : range.w = true → addr + size < 2 ^ 64 ∧ All cache.FoundByte addr size) :
    cache.isConstantLoop size addr stop = cache.isConstantLoop size range.stop.toNat stop := by
  rw [isConstantLoop_range inside found readable]
  cases writable : range.w with
  | false => rfl
  | true =>
      obtain ⟨fits, all⟩ := configured writable
      obtain ⟨answer, answered, exact⟩ := cache.isConfiguredConstant_ok fits
      rw [if_pos rfl, answered, exact.mpr all]
      rfl

theorem Reached.loop_eq (disjoint : cache.Disjoint) {size addr stop position : Nat}
    (inside : addr < stop) (reached : cache.Reached size addr stop position) :
    position < stop ∧
      cache.isConstantLoop size addr stop = cache.isConstantLoop size position stop := by
  induction reached with
  | start => exact ⟨inside, rfl⟩
  | next reached mapped here readable configured more ih =>
      refine ⟨more, ih.2.trans ?_⟩
      exact isConstantLoop_pass ih.1 (disjoint.findMemoryRange mapped here) readable configured

theorem isConstantLoop_fails {size addr stop : Nat} (inside : addr < stop)
    (unreadable : ∀ range, cache.findMemoryRange addr = some range → range.r = false) :
    cache.isConstantLoop size addr stop = .ok false := by
  rw [isConstantLoop, dif_pos inside]
  split
  · rfl
  · rename_i range found
    rw [unreadable range found, if_neg Bool.false_ne_true]

theorem not_constantByte (disjoint : cache.Disjoint) {addr : Nat}
    (unreadable : ∀ range, cache.findMemoryRange addr = some range → range.r = false) :
    ¬ cache.ConstantByte addr := by
  rintro ⟨range, member, contains, readable, _⟩
  rw [unreadable range (disjoint.findMemoryRange member contains)] at readable
  cases readable

theorem constantByte_of_pass {position size : Nat} {range : MemoryRange}
    (member : range ∈ cache.memoryRanges) (here : range.Contains position)
    (readable : range.r = true)
    (configured : range.w = true → All cache.FoundByte position size) {byte : Nat}
    (atLeast : position ≤ byte) (below : byte < position + size)
    (inRange : byte < range.stop.toNat) : cache.ConstantByte byte := by
  refine ⟨range, member, ⟨here.1.trans atLeast, inRange⟩, readable, ?_⟩
  cases writable : range.w with
  | false => exact Or.inl rfl
  | true =>
      obtain ⟨mem, memMember, contains, _⟩ := configured writable byte atLeast below
      exact Or.inr ⟨mem, memMember, contains⟩

theorem Harmless.loop (disjoint : cache.Disjoint) {addr size : Nat}
    (harmless : cache.Harmless addr size) {position : Nat}
    (reached : cache.Reached size addr (addr + size) position) (inside : position < addr + size)
    (after : addr ≤ position)
    (before : ∀ byte, addr ≤ byte → byte < position → cache.ConstantByte byte) :
    ∃ answer, cache.isConstantLoop size position (addr + size) = .ok answer ∧
      (answer = true ↔ All cache.ConstantByte addr size) := by
  induction distance : addr + size - position using Nat.strong_induction_on
    generalizing position with
  | _ distance ih =>
      by_cases unreadable : ∀ range, cache.findMemoryRange position = some range →
          range.r = false
      · refine ⟨false, isConstantLoop_fails inside unreadable, ?_⟩
        refine ⟨fun impossible => (by cases impossible), fun all => ?_⟩
        exact absurd (all position after inside) (not_constantByte disjoint unreadable)
      · push Not at unreadable
        obtain ⟨range, found, readable⟩ := unreadable
        have readable := Bool.eq_true_of_not_eq_false readable
        obtain ⟨member, here⟩ := findMemoryRange_some found
        by_cases configured : range.w = true →
            position + size < 2 ^ 64 ∧ All cache.FoundByte position size
        · have passed (byte : Nat) (atLeast : addr ≤ byte) (below : byte < addr + size)
              (inRange : byte < range.stop.toNat) : cache.ConstantByte byte := by
            by_cases early : byte < position
            · exact before byte atLeast early
            · exact constantByte_of_pass member here readable
                (fun writable => (configured writable).2) (Nat.le_of_not_lt early) (by omega)
                inRange
          rw [isConstantLoop_pass inside found readable configured]
          by_cases more : range.stop.toNat < addr + size
          · have later := here.2
            exact ih (addr + size - range.stop.toNat) (by omega)
              (reached.next member here readable configured more) more (by omega)
              (fun byte atLeast inRange => passed byte atLeast (by omega) inRange) rfl
          · refine ⟨true, isConstantLoop_end (Nat.le_of_not_lt more), ?_⟩
            refine ⟨fun _ byte atLeast below => ?_, fun _ => rfl⟩
            exact passed byte atLeast below (by omega)
        · push Not at configured
          obtain ⟨writable, notAll⟩ := configured
          obtain ⟨fits, exact⟩ := harmless position reached range member here readable writable
          obtain ⟨answer, answered, answerIff⟩ := cache.isConfiguredConstant_ok fits
          have no : answer = false := by
            rw [← Bool.not_eq_true, answerIff]
            exact notAll fits
          refine ⟨false, ?_, ?_⟩
          · rw [isConstantLoop_range inside found readable, if_pos writable, answered, no]
            rfl
          · refine ⟨fun impossible => (by cases impossible), fun all => ?_⟩
            exact absurd (exact all) (notAll fits)

theorem answersConstant_iff (disjoint : cache.Disjoint) {addr : BitVec 64} {size : Nat}
    (fits : addr.toNat + size < 2 ^ 64) :
    cache.AnswersConstant addr size ↔ cache.Harmless addr.toNat size := by
  by_cases empty : size = 0
  · subst empty
    refine ⟨fun _ position reached range member here readable writable => ?_, fun _ => ?_⟩
    · have at_start : position < 2 ^ 64 := here.2.trans range.stop.isLt
      exact ⟨at_start, fun _ byte atLeast below => by omega⟩
    · refine ⟨true, rfl, ?_⟩
      exact ⟨fun _ byte atLeast below => by omega, fun _ => rfl⟩
  · have inside : addr.toNat < addr.toNat + size := by omega
    have query : cache.isConstant addr size =
        cache.isConstantLoop size addr.toNat (addr.toNat + size) := by
      unfold isConstant
      rw [Nat.mod_eq_of_lt fits]
      dsimp only
      rw [if_neg empty, if_pos inside]
    unfold AnswersConstant
    rw [query]
    constructor
    · rintro ⟨answer, answered, exact⟩ position reached range member here readable writable
      obtain ⟨positionInside, same⟩ := Reached.loop_eq disjoint inside reached
      rw [same, isConstantLoop_range positionInside
        (disjoint.findMemoryRange member here) readable, if_pos writable] at answered
      have positionSmall : position < 2 ^ 64 := here.2.trans range.stop.isLt
      have positionFits : position + size < 2 ^ 64 := by
        by_contra wraps
        rw [isConfiguredConstant_wraps cache positionSmall (by omega)
          (Nat.le_of_not_lt wraps)] at answered
        cases answered
      refine ⟨positionFits, fun all => ?_⟩
      obtain ⟨configured, configuredEq, configuredIff⟩ :=
        cache.isConfiguredConstant_ok positionFits
      rw [configuredEq] at answered
      cases configured with
      | true => exact configuredIff.mp rfl
      | false =>
          cases answered
          have impossible := exact.mpr all
          cases impossible
    · intro harmless
      exact harmless.loop disjoint .start inside le_rfl
        (fun byte atLeast below => by omega)

/-- Both queries, for disjoint mappings and a range that does not wrap around. -/
theorem queries_iff (disjoint : cache.Disjoint) {addr : BitVec 64} {size : Nat}
    (fits : addr.toNat + size < 2 ^ 64) :
    (cache.AnswersConstant addr size ↔ cache.Harmless addr.toNat size) ∧
      (cache.AnswersConfigured addr size ↔
        (All cache.ConfiguredByte addr.toNat size → All cache.FoundByte addr.toNat size)) :=
  ⟨answersConstant_iff disjoint fits, answersConfigured_iff cache fits⟩

/-! ### Two mappings -/

/-- A writable page that is configured constant, and a read-only page after it. -/
def twoPages : MemProtCache :=
  { memoryRanges :=
      [{ start := 0x1000, stop := 0x2000, r := true, w := true },
        { start := 0x2000, stop := 0x3000, r := true, w := false }]
    ranges := [{ start := 0x1000, size := 0x1000 }] }

theorem twoPages_disjoint : twoPages.Disjoint := by
  intro range member other otherMember byte contains otherContains
  simp only [twoPages, List.mem_cons, List.not_mem_nil, or_false] at member otherMember
  unfold MemoryRange.Contains at contains otherContains
  rcases member with rfl | rfl <;> rcases otherMember with rfl | rfl
  · rfl
  · exact absurd contains.2 (Nat.not_lt.mpr otherContains.1)
  · exact absurd otherContains.2 (Nat.not_lt.mpr contains.1)
  · rfl

theorem twoPages_constant : All twoPages.ConstantByte 0x1ff8 16 := by
  intro byte atLeast below
  by_cases first : byte < 0x2000
  · refine ⟨_, List.mem_cons_self, ⟨?_, first⟩, rfl, Or.inr ⟨_, List.mem_cons_self, ?_, ?_⟩⟩
    · change 0x1000 ≤ byte
      omega
    · change 0x1000 ≤ byte
      omega
    · exact first
  · refine ⟨_, List.mem_cons_of_mem _ List.mem_cons_self, ⟨?_, ?_⟩, rfl, Or.inl rfl⟩
    · exact Nat.le_of_not_lt first
    · change byte < 0x3000
      omega

/-- The query asks whether the read-only page is configured, too. -/
theorem not_answersConstant_twoPages :
    twoPages.Disjoint ∧ All twoPages.ConstantByte 0x1ff8 16 ∧
      ¬ twoPages.AnswersConstant 0x1ff8 16 := by
  refine ⟨twoPages_disjoint, twoPages_constant, ?_⟩
  rw [answersConstant_iff twoPages_disjoint (by decide)]
  intro harmless
  obtain ⟨_, found⟩ := harmless 0x1ff8 .start _ List.mem_cons_self ⟨by decide, by decide⟩ rfl rfl
  obtain ⟨mem, member, contains, _⟩ := found twoPages_constant 0x2000 (by decide) (by decide)
  simp only [twoPages, List.mem_cons, List.not_mem_nil, or_false] at member
  subst member
  exact absurd contains.2 (by decide)

/-- Inside the read-only page. -/
theorem queries_iff_twoPages :
    twoPages.AnswersConstant 0x2000 16 ↔ twoPages.Harmless 0x2000 16 :=
  (queries_iff twoPages_disjoint
    (show (0x2000 : BitVec 64).toNat + 16 < 2 ^ 64 by decide)).1

end MemProtCache

end Drob
