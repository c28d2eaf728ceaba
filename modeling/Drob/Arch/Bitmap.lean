import Drob.Arch.Register
import Drob.Library.Result

/-!
Bitmaps of any width, as arrays of words. Operations work on whole words, and only
comparisons mask the last one.
-/

namespace Drob

namespace Bitmap

abbrev Word := BitVec 64

def BITMAP_BITS_PER_ELEMENT : Nat := 64

/-- The sum is an `unsigned long`. -/
def BITMAP_BITS_TO_ELEMENTS (bits : Nat) : Nat :=
  (bits + BITMAP_BITS_PER_ELEMENT - 1) % 2 ^ 64 / BITMAP_BITS_PER_ELEMENT

def BITMAP_BIT_ELEMENT_MASK (bit : Nat) : Word :=
  1#64 <<< (bit % BITMAP_BITS_PER_ELEMENT)

def BITMAP_LAST_ELEMENT_BITS (bits : Nat) : Nat :=
  bits % BITMAP_BITS_PER_ELEMENT

def BITMAP_LAST_ELEMENT_MASK (bits : Nat) : Except Failure Word :=
  let count := BITMAP_BITS_PER_ELEMENT - BITMAP_LAST_ELEMENT_BITS bits
  if count < BITMAP_BITS_PER_ELEMENT then .ok (BitVec.allOnes 64 >>> count)
  else .error .undefined

abbrev Memory := Nat → List Word

def load (memory : Memory) (bmap i : Nat) : Except Failure Word :=
  match (memory bmap)[i]? with
  | some word => .ok word
  | none => .error .undefined

def store (memory : Memory) (bmap i : Nat) (word : Word) : Except Failure Memory :=
  if i < (memory bmap).length then
    .ok (Function.update memory bmap ((memory bmap).set i word))
  else .error .undefined

/-! ### Operations -/

/-- `memset` of all bytes of a bitmap, word by word. -/
def memset (dst : Nat) (word : Word) : Nat → Nat → Memory → Except Failure Memory
  | 0, _, memory => .ok memory
  | count + 1, i, memory => do
      let memory ← store memory dst i word
      memset dst word count (i + 1) memory

def bitmap_zero (dst bits : Nat) (memory : Memory) : Except Failure Memory :=
  memset dst 0 (BITMAP_BITS_TO_ELEMENTS bits) 0 memory

def bitmap_fill (dst bits : Nat) (memory : Memory) : Except Failure Memory := do
  let elements := BITMAP_BITS_TO_ELEMENTS bits
  let memory ← memset dst (BitVec.allOnes 64) elements 0 memory
  let mask ← BITMAP_LAST_ELEMENT_MASK bits
  if elements = 0 then .error .undefined
  else store memory dst (elements - 1) mask

def bitmap_set_bit (bmap bit : Nat) (memory : Memory) : Except Failure Memory := do
  let word ← load memory bmap (bit / BITMAP_BITS_PER_ELEMENT)
  store memory bmap (bit / BITMAP_BITS_PER_ELEMENT) (word ||| BITMAP_BIT_ELEMENT_MASK bit)

/-- The loop of `bitmap_andnot`, `bitmap_or` and `bitmap_and`. -/
def wordLoop (op : Word → Word → Word) (dst src1 src2 : Nat) :
    Nat → Nat → Memory → Except Failure Memory
  | 0, _, memory => .ok memory
  | count + 1, i, memory => do
      let word1 ← load memory src1 i
      let word2 ← load memory src2 i
      let memory ← store memory dst i (op word1 word2)
      wordLoop op dst src1 src2 count (i + 1) memory

def bitmap_andnot (dst src1 src2 bits : Nat) (memory : Memory) : Except Failure Memory :=
  wordLoop (fun word1 word2 => word1 &&& ~~~word2) dst src1 src2
    (BITMAP_BITS_TO_ELEMENTS bits) 0 memory

def bitmap_or (dst src1 src2 bits : Nat) (memory : Memory) : Except Failure Memory :=
  wordLoop (fun word1 word2 => word1 ||| word2) dst src1 src2
    (BITMAP_BITS_TO_ELEMENTS bits) 0 memory

def bitmap_and (dst src1 src2 bits : Nat) (memory : Memory) : Except Failure Memory :=
  wordLoop (fun word1 word2 => word1 &&& word2) dst src1 src2
    (BITMAP_BITS_TO_ELEMENTS bits) 0 memory

/-- The loop of `bitmap_equal` over the words before the last one. -/
def equalLoop (memory : Memory) (src1 src2 : Nat) : Nat → Nat → Except Failure Bool
  | 0, _ => .ok true
  | count + 1, i => do
      let word1 ← load memory src1 i
      let word2 ← load memory src2 i
      if word1 ≠ word2 then .ok false else equalLoop memory src1 src2 count (i + 1)

def bitmap_equal (memory : Memory) (src1 src2 bits : Nat) : Except Failure Bool := do
  let elements := BITMAP_BITS_TO_ELEMENTS bits
  let before ← equalLoop memory src1 src2 (elements - 1) 0
  if ¬ before then .ok false
  else if elements = 0 then .error .undefined
  else do
    let word1 ← load memory src1 (elements - 1)
    let word2 ← load memory src2 (elements - 1)
    let mask ← BITMAP_LAST_ELEMENT_MASK bits
    .ok (word1 &&& mask == word2 &&& mask)

def emptyLoop (memory : Memory) (bmap : Nat) : Nat → Nat → Except Failure Bool
  | 0, _ => .ok true
  | count + 1, i => do
      let word ← load memory bmap i
      if word ≠ 0 then .ok false else emptyLoop memory bmap count (i + 1)

def bitmap_empty (memory : Memory) (bmap bits : Nat) : Except Failure Bool := do
  let elements := BITMAP_BITS_TO_ELEMENTS bits
  let before ← emptyLoop memory bmap (elements - 1) 0
  if ¬ before then .ok false
  else if elements = 0 then .error .undefined
  else do
    let word ← load memory bmap (elements - 1)
    let mask ← BITMAP_LAST_ELEMENT_MASK bits
    .ok (word &&& mask == 0)

/-! ### Programs over bitmaps -/

inductive Operation where
  | zero (dst : Nat)
  | fill (dst : Nat)
  | setBit (bmap bit : Nat)
  | or (dst src1 src2 : Nat)
  | and (dst src1 src2 : Nat)
  | andnot (dst src1 src2 : Nat)
  deriving DecidableEq

def Operation.Valid (bits : Nat) : Operation → Prop
  | .setBit _ bit => bit < bits
  | _ => True

def Operation.run (bits : Nat) (memory : Memory) : Operation → Except Failure Memory
  | .zero dst => bitmap_zero dst bits memory
  | .fill dst => bitmap_fill dst bits memory
  | .setBit bmap bit => bitmap_set_bit bmap bit memory
  | .or dst src1 src2 => bitmap_or dst src1 src2 bits memory
  | .and dst src1 src2 => bitmap_and dst src1 src2 bits memory
  | .andnot dst src1 src2 => bitmap_andnot dst src1 src2 bits memory

def run (bits : Nat) : List Operation → Memory → Except Failure Memory
  | [], memory => .ok memory
  | operation :: rest, memory => do
      let memory ← operation.run bits memory
      run bits rest memory

/-- The sets that the bitmaps stand for; nothing is known about a bitmap that was not
built from initialized ones. -/
abbrev Sets := Nat → Option (Finset Nat)

def Operation.sets (bits : Nat) (sets : Sets) : Operation → Sets
  | .zero dst => Function.update sets dst (some ∅)
  | .fill dst => Function.update sets dst (some (Finset.range bits))
  | .setBit bmap bit => Function.update sets bmap ((sets bmap).map (insert bit))
  | .or dst src1 src2 =>
      Function.update sets dst (Option.map₂ (· ∪ ·) (sets src1) (sets src2))
  | .and dst src1 src2 =>
      Function.update sets dst (Option.map₂ (· ∩ ·) (sets src1) (sets src2))
  | .andnot dst src1 src2 =>
      Function.update sets dst (Option.map₂ (· \ ·) (sets src1) (sets src2))

def testBit (words : List Word) (bit : Nat) : Bool :=
  (words.getD (bit / BITMAP_BITS_PER_ELEMENT) 0).getLsbD (bit % BITMAP_BITS_PER_ELEMENT)

structure Represents (bits : Nat) (words : List Word) (set : Finset Nat) : Prop where
  below : ∀ bit ∈ set, bit < bits
  bit_iff : ∀ bit, bit < bits → (testBit words bit = true ↔ bit ∈ set)

/-- All arrays are as large as `BITMAP_DECLARE` makes them. -/
def Declared (bits : Nat) (memory : Memory) : Prop :=
  ∀ bmap, (memory bmap).length = BITMAP_BITS_TO_ELEMENTS bits

/-- In all programs over bitmaps that are declared with this width, the bitmaps and their
comparisons are those of the sets. -/
def ImplementsSets (bits : Nat) : Prop :=
  ∀ operations : List Operation, (∀ operation ∈ operations, operation.Valid bits) →
    ∀ memory, Declared bits memory →
      ∃ later, run bits operations memory = .ok later ∧
        ∀ bmap set, operations.foldl (Operation.sets bits) (fun _ => none) bmap = some set →
          Represents bits (later bmap) set ∧
            bitmap_empty later bmap bits = .ok (decide (set = ∅)) ∧
              ∀ other otherSet,
                operations.foldl (Operation.sets bits) (fun _ => none) other = some otherSet →
                  bitmap_equal later bmap other bits = .ok (decide (set = otherSet))

/-! ### Words -/

variable {bits : Nat} {memory : Memory}

theorem load_ok {bmap i : Nat} (inside : i < (memory bmap).length) :
    load memory bmap i = .ok ((memory bmap).getD i 0) := by
  unfold load
  rw [List.getD_eq_getElem?_getD, List.getElem?_eq_getElem inside]
  rfl

structure Stored (memory later : Memory) (dst : Nat) (words : Nat → Word) : Prop where
  other : ∀ bmap, bmap ≠ dst → later bmap = memory bmap
  length : (later dst).length = (memory dst).length
  word : ∀ j, (later dst).getD j 0 = words j

theorem Stored.length_eq {later : Memory} {dst : Nat} {words : Nat → Word}
    (stored : Stored memory later dst words) (bmap : Nat) :
    (later bmap).length = (memory bmap).length := by
  by_cases same : bmap = dst
  · rw [same]
    exact stored.length
  · rw [stored.other bmap same]

theorem store_ok {dst i : Nat} (word : Word) (inside : i < (memory dst).length) :
    ∃ later, store memory dst i word = .ok later ∧
      Stored memory later dst (fun j => if j = i then word else (memory dst).getD j 0) := by
  refine ⟨_, if_pos inside, ?_⟩
  constructor
  · intro bmap different
    exact Function.update_of_ne different _ _
  · rw [Function.update_self, List.length_set]
  · intro j
    rw [Function.update_self, List.getD_eq_getElem?_getD, List.getElem?_set,
      List.getD_eq_getElem?_getD]
    by_cases same : j = i
    · rw [if_pos same.symm, if_pos same, if_pos inside]
      rfl
    · rw [if_neg (Ne.symm same), if_neg same]

theorem Stored.then {middle later : Memory} {dst : Nat} {words words' : Nat → Word}
    (first : Stored memory middle dst words) (second : Stored middle later dst words') :
    Stored memory later dst words' where
  other := fun bmap different =>
    (second.other bmap different).trans (first.other bmap different)
  length := second.length.trans first.length
  word := second.word

theorem memset_ok (dst : Nat) (word : Word) (count i : Nat)
    (room : i + count ≤ (memory dst).length) :
    ∃ later, memset dst word count i memory = .ok later ∧
      Stored memory later dst
        (fun j => if i ≤ j ∧ j < i + count then word else (memory dst).getD j 0) := by
  induction count generalizing i memory with
  | zero =>
      refine ⟨memory, rfl, fun _ _ => rfl, rfl, ?_⟩
      intro j
      rw [if_neg (by omega)]
  | succ count ih =>
      obtain ⟨middle, stores, first⟩ := store_ok word (show i < (memory dst).length by omega)
      obtain ⟨later, sets, second⟩ :=
        ih (i + 1) (show i + 1 + count ≤ (middle dst).length by rw [first.length]; omega)
      refine ⟨later, ?_, (first.then second).other, (first.then second).length, ?_⟩
      · unfold memset
        rw [stores]
        exact sets
      · intro j
        rw [second.word, first.word]
        by_cases here : j = i
        · rw [if_neg (by omega), if_pos here, if_pos (by omega)]
        · rw [if_neg here]
          by_cases inside : i + 1 ≤ j ∧ j < i + 1 + count
          · rw [if_pos inside, if_pos (by omega)]
          · rw [if_neg inside, if_neg (by omega)]

theorem wordLoop_ok (op : Word → Word → Word) (dst src1 src2 count i : Nat)
    (room : ∀ bmap, i + count ≤ (memory bmap).length) :
    ∃ later, wordLoop op dst src1 src2 count i memory = .ok later ∧
      Stored memory later dst (fun j =>
        if i ≤ j ∧ j < i + count then
          op ((memory src1).getD j 0) ((memory src2).getD j 0)
        else (memory dst).getD j 0) := by
  induction count generalizing i memory with
  | zero =>
      refine ⟨memory, rfl, fun _ _ => rfl, rfl, ?_⟩
      intro j
      rw [if_neg (by omega)]
  | succ count ih =>
      have inside (bmap : Nat) : i < (memory bmap).length := by
        have enough := room bmap
        omega
      let word := op ((memory src1).getD i 0) ((memory src2).getD i 0)
      obtain ⟨middle, stores, first⟩ := store_ok word (inside dst)
      have unchanged (bmap j : Nat) (after : i + 1 ≤ j) :
          (middle bmap).getD j 0 = (memory bmap).getD j 0 := by
        by_cases same : bmap = dst
        · rw [same, first.word, if_neg (by omega)]
        · rw [first.other bmap same]
      obtain ⟨later, loops, second⟩ := ih (i + 1)
        (show ∀ bmap, i + 1 + count ≤ (middle bmap).length from fun bmap => by
          have enough := room bmap
          rw [first.length_eq bmap]
          omega)
      refine ⟨later, ?_, (first.then second).other, (first.then second).length, ?_⟩
      · unfold wordLoop
        rw [load_ok (inside src1), load_ok (inside src2)]
        change (do
          let memory ← store memory dst i word
          wordLoop op dst src1 src2 count (i + 1) memory) = _
        rw [stores]
        exact loops
      · intro j
        rw [second.word]
        by_cases here : j = i
        · subst here
          rw [if_neg (by omega), first.word, if_pos rfl, if_pos (by omega)]
        · by_cases after : i + 1 ≤ j ∧ j < i + 1 + count
          · rw [if_pos after, if_pos (by omega), unchanged src1 j after.1,
              unchanged src2 j after.1]
          · rw [if_neg after, first.word, if_neg here, if_neg (by omega)]

theorem equalLoop_ok (src1 src2 count i : Nat)
    (room : ∀ bmap, i + count ≤ (memory bmap).length) :
    equalLoop memory src1 src2 count i = .ok (decide (∀ j, i ≤ j → j < i + count →
      (memory src1).getD j 0 = (memory src2).getD j 0)) := by
  induction count generalizing i with
  | zero =>
      rw [decide_eq_true (fun j atLeast below => by omega)]
      rfl
  | succ count ih =>
      have inside (bmap : Nat) : i < (memory bmap).length := by
        have enough := room bmap
        omega
      unfold equalLoop
      rw [load_ok (inside src1), load_ok (inside src2)]
      change (if (memory src1).getD i 0 ≠ (memory src2).getD i 0 then Except.ok false
        else equalLoop memory src1 src2 count (i + 1)) = _
      by_cases same : (memory src1).getD i 0 = (memory src2).getD i 0
      · rw [if_neg (not_not_intro same), ih (i + 1) (fun bmap => by
          have enough := room bmap
          omega)]
        congr 1
        rw [decide_eq_decide]
        constructor
        · intro later j atLeast below
          by_cases here : j = i
          · rw [here]
            exact same
          · exact later j (by omega) (by omega)
        · intro all j atLeast below
          exact all j (by omega) (by omega)
      · rw [if_pos same, decide_eq_false (fun all => same (all i le_rfl (by omega)))]

theorem emptyLoop_ok (bmap count i : Nat) (room : i + count ≤ (memory bmap).length) :
    emptyLoop memory bmap count i =
      .ok (decide (∀ j, i ≤ j → j < i + count → (memory bmap).getD j 0 = 0)) := by
  induction count generalizing i with
  | zero =>
      rw [decide_eq_true (fun j atLeast below => by omega)]
      rfl
  | succ count ih =>
      unfold emptyLoop
      rw [load_ok (show i < (memory bmap).length by omega)]
      change (if (memory bmap).getD i 0 ≠ 0 then Except.ok false
        else emptyLoop memory bmap count (i + 1)) = _
      by_cases zero : (memory bmap).getD i 0 = 0
      · rw [if_neg (not_not_intro zero), ih (i + 1) (by omega)]
        congr 1
        rw [decide_eq_decide]
        constructor
        · intro later j atLeast below
          by_cases here : j = i
          · rw [here]
            exact zero
          · exact later j (by omega) (by omega)
        · intro all j atLeast below
          exact all j (by omega) (by omega)
      · rw [if_pos zero, decide_eq_false (fun all => zero (all i le_rfl (by omega)))]

/-! ### The last word -/

/-- The last word has padding, and the number of bits is far from the largest one. -/
structure Padded (bits : Nat) : Prop where
  rest : bits % 64 ≠ 0
  small : bits + 63 < 2 ^ 64

theorem Padded.elements (padded : Padded bits) :
    BITMAP_BITS_TO_ELEMENTS bits = bits / 64 + 1 := by
  have rest := padded.rest
  have small := padded.small
  unfold BITMAP_BITS_TO_ELEMENTS BITMAP_BITS_PER_ELEMENT
  rw [Nat.mod_eq_of_lt (by omega)]
  omega

theorem Padded.mask (padded : Padded bits) :
    ∃ mask, BITMAP_LAST_ELEMENT_MASK bits = .ok mask ∧
      ∀ k, mask.getLsbD k = decide (k < bits % 64) := by
  have rest := padded.rest
  have bound := Nat.mod_lt bits (show 0 < 64 by decide)
  refine ⟨_, if_pos (show 64 - bits % 64 < 64 by omega), ?_⟩
  intro k
  rw [BitVec.getLsbD_ushiftRight, BitVec.getLsbD_allOnes]
  rw [decide_eq_decide]
  change 64 - bits % 64 + k < 64 ↔ _
  omega

theorem words_eq_iff {mask : Word}
    (masked : ∀ k, mask.getLsbD k = decide (k < bits % 64)) (words1 words2 : Nat → Word) :
    ((∀ j, 0 ≤ j → j < 0 + bits / 64 → words1 j = words2 j) ∧
        words1 (bits / 64) &&& mask = words2 (bits / 64) &&& mask) ↔
      ∀ bit, bit < bits →
        (words1 (bit / 64)).getLsbD (bit % 64) = (words2 (bit / 64)).getLsbD (bit % 64) := by
  constructor
  · rintro ⟨before, last⟩ bit below
    by_cases inLast : bit / 64 = bits / 64
    · have inMask : mask.getLsbD (bit % 64) = true := by
        rw [masked]
        exact decide_eq_true (by omega)
      have same := congrArg (fun word : Word => word.getLsbD (bit % 64)) last
      rw [BitVec.getLsbD_and, BitVec.getLsbD_and, inMask, Bool.and_true, Bool.and_true] at same
      rw [inLast]
      exact same
    · rw [before (bit / 64) (Nat.zero_le _) (by omega)]
  · intro same
    constructor
    · intro j _ below
      apply BitVec.eq_of_getLsbD_eq
      intro k small
      have found := same (64 * j + k) (by omega)
      rwa [show (64 * j + k) / 64 = j by omega, show (64 * j + k) % 64 = k by omega] at found
    · apply BitVec.eq_of_getLsbD_eq
      intro k small
      rw [BitVec.getLsbD_and, BitVec.getLsbD_and, masked]
      by_cases inMask : k < bits % 64
      · have found := same (64 * (bits / 64) + k) (by omega)
        rw [show (64 * (bits / 64) + k) / 64 = bits / 64 by omega,
          show (64 * (bits / 64) + k) % 64 = k by omega] at found
        rw [found]
      · rw [decide_eq_false inMask, Bool.and_false, Bool.and_false]

/-! ### Sets -/

theorem Represents.testBit_eq {words : List Word} {set : Finset Nat}
    (represents : Represents bits words set) {bit : Nat} (below : bit < bits) :
    testBit words bit = decide (bit ∈ set) := by
  by_cases member : bit ∈ set
  · rw [decide_eq_true member]
    exact (represents.bit_iff bit below).mpr member
  · rw [decide_eq_false member]
    exact Bool.eq_false_iff.mpr (fun isSet => member ((represents.bit_iff bit below).mp isSet))

theorem Represents.eq_iff {words1 words2 : List Word} {set1 set2 : Finset Nat}
    (first : Represents bits words1 set1) (second : Represents bits words2 set2) :
    (∀ bit, bit < bits → testBit words1 bit = testBit words2 bit) ↔ set1 = set2 := by
  constructor
  · intro same
    ext bit
    constructor
    · intro member
      have below := first.below bit member
      rw [← second.bit_iff bit below, ← same bit below]
      exact (first.bit_iff bit below).mpr member
    · intro member
      have below := second.below bit member
      rw [← first.bit_iff bit below, same bit below]
      exact (second.bit_iff bit below).mpr member
  · rintro rfl bit below
    rw [first.testBit_eq below, second.testBit_eq below]

theorem Represents.empty_iff {words : List Word} {set : Finset Nat}
    (represents : Represents bits words set) :
    (∀ bit, bit < bits → testBit words bit = false) ↔ set = ∅ := by
  rw [Finset.eq_empty_iff_forall_notMem]
  constructor
  · intro clear bit member
    have below := represents.below bit member
    have isSet := (represents.bit_iff bit below).mpr member
    rw [clear bit below] at isSet
    cases isSet
  · intro none bit below
    rw [represents.testBit_eq below, decide_eq_false (none bit)]

theorem bitmap_equal_ok (padded : Padded bits) (declared : Declared bits memory)
    {src1 src2 : Nat} {set1 set2 : Finset Nat}
    (first : Represents bits (memory src1) set1) (second : Represents bits (memory src2) set2) :
    bitmap_equal memory src1 src2 bits = .ok (decide (set1 = set2)) := by
  obtain ⟨mask, maskEq, masked⟩ := padded.mask
  have elements := padded.elements
  have length (bmap : Nat) : (memory bmap).length = bits / 64 + 1 :=
    (declared bmap).trans elements
  have agree := (words_eq_iff masked (fun j => (memory src1).getD j 0)
    (fun j => (memory src2).getD j 0)).trans (first.eq_iff second)
  unfold bitmap_equal
  dsimp only
  rw [elements, Nat.add_sub_cancel, equalLoop_ok src1 src2 (bits / 64) 0 (fun bmap => by
    rw [length bmap]
    omega)]
  change (if ¬ decide _ = true then Except.ok false
    else if bits / 64 + 1 = 0 then _ else _) = _
  rw [if_neg (show ¬ bits / 64 + 1 = 0 by omega), load_ok (by rw [length]; omega),
    load_ok (by rw [length]; omega), maskEq]
  change (if ¬ decide _ = true then Except.ok false
    else Except.ok ((memory src1).getD (bits / 64) 0 &&& mask ==
      (memory src2).getD (bits / 64) 0 &&& mask)) = _
  by_cases before : ∀ j, 0 ≤ j → j < 0 + bits / 64 →
      (memory src1).getD j 0 = (memory src2).getD j 0
  · rw [if_neg (not_not_intro (decide_eq_true before)), beq_eq_decide]
    congr 1
    rw [decide_eq_decide, ← agree]
    exact ⟨fun last => ⟨before, last⟩, fun both => both.2⟩
  · rw [if_pos (by rw [decide_eq_true_iff]; exact before),
      decide_eq_false (fun same => before (agree.mpr same).1)]

theorem bitmap_empty_ok (padded : Padded bits) (declared : Declared bits memory)
    {bmap : Nat} {set : Finset Nat} (represents : Represents bits (memory bmap) set) :
    bitmap_empty memory bmap bits = .ok (decide (set = ∅)) := by
  obtain ⟨mask, maskEq, masked⟩ := padded.mask
  have elements := padded.elements
  have length : (memory bmap).length = bits / 64 + 1 := (declared bmap).trans elements
  have agree : ((∀ j, 0 ≤ j → j < 0 + bits / 64 → (memory bmap).getD j 0 = 0) ∧
      (memory bmap).getD (bits / 64) 0 &&& mask = 0) ↔ set = ∅ := by
    rw [← represents.empty_iff]
    have words := words_eq_iff masked (fun j => (memory bmap).getD j 0) (fun _ => 0)
    rw [show (0 : Word) &&& mask = 0 from BitVec.zero_and] at words
    refine words.trans (forall₂_congr fun bit below => ?_)
    rw [show (0 : Word).getLsbD (bit % 64) = false from BitVec.getLsbD_zero]
    rfl
  unfold bitmap_empty
  dsimp only
  rw [elements, Nat.add_sub_cancel, emptyLoop_ok bmap (bits / 64) 0 (by rw [length]; omega)]
  change (if ¬ decide _ = true then Except.ok false
    else if bits / 64 + 1 = 0 then _ else _) = _
  rw [if_neg (show ¬ bits / 64 + 1 = 0 by omega), load_ok (by rw [length]; omega), maskEq]
  change (if ¬ decide _ = true then Except.ok false
    else Except.ok ((memory bmap).getD (bits / 64) 0 &&& mask == 0)) = _
  by_cases before : ∀ j, 0 ≤ j → j < 0 + bits / 64 → (memory bmap).getD j 0 = 0
  · rw [if_neg (not_not_intro (decide_eq_true before)), beq_eq_decide]
    congr 1
    rw [decide_eq_decide, ← agree]
    exact ⟨fun last => ⟨before, last⟩, fun both => both.2⟩
  · rw [if_pos (by rw [decide_eq_true_iff]; exact before),
      decide_eq_false (fun same => before (agree.mpr same).1)]

/-! ### Whole programs -/

structure Built (bits : Nat) (memory : Memory) (sets : Sets) : Prop where
  declared : Declared bits memory
  represents : ∀ bmap set, sets bmap = some set → Represents bits (memory bmap) set

theorem Built.update {sets : Sets} (built : Built bits memory sets) {later : Memory}
    {dst : Nat} {words : Nat → Word} (stored : Stored memory later dst words)
    {result : Option (Finset Nat)}
    (represents : ∀ set, result = some set → (∀ bit ∈ set, bit < bits) ∧
      ∀ bit, bit < bits → ((words (bit / 64)).getLsbD (bit % 64) = true ↔ bit ∈ set)) :
    Built bits later (Function.update sets dst result) where
  declared := fun bmap => (stored.length_eq bmap).trans (built.declared bmap)
  represents := by
    intro bmap set found
    by_cases same : bmap = dst
    · subst same
      rw [Function.update_self] at found
      obtain ⟨below, bitIff⟩ := represents set found
      refine ⟨below, ?_⟩
      intro bit small
      unfold testBit
      rw [stored.word]
      exact bitIff bit small
    · rw [Function.update_of_ne same] at found
      rw [stored.other bmap same]
      exact built.represents bmap set found

theorem Built.wordLoop {sets : Sets} (padded : Padded bits) (built : Built bits memory sets)
    {op : Word → Word → Word} {setOp : Finset Nat → Finset Nat → Finset Nat}
    (dst src1 src2 : Nat) (bitOp : Bool → Bool → Bool)
    (onBits : ∀ (word1 word2 : Word) (k : Nat), k < 64 →
      (op word1 word2).getLsbD k = bitOp (word1.getLsbD k) (word2.getLsbD k))
    (onSets : ∀ (set1 set2 : Finset Nat) (bit : Nat),
      bitOp (decide (bit ∈ set1)) (decide (bit ∈ set2)) = decide (bit ∈ setOp set1 set2))
    (closed : ∀ (set1 set2 : Finset Nat), setOp set1 set2 ⊆ set1 ∪ set2) :
    ∃ later, Bitmap.wordLoop op dst src1 src2 (BITMAP_BITS_TO_ELEMENTS bits) 0 memory =
        .ok later ∧
      Built bits later (Function.update sets dst (Option.map₂ setOp (sets src1) (sets src2))) := by
  obtain ⟨later, loops, stored⟩ :=
    wordLoop_ok op dst src1 src2 (BITMAP_BITS_TO_ELEMENTS bits) 0
      (fun bmap => by rw [built.declared bmap, Nat.zero_add])
  refine ⟨later, loops, built.update stored ?_⟩
  intro set found
  obtain ⟨set1, set2, found1, found2, rfl⟩ := Option.map₂_eq_some_iff.mp found
  have first := built.represents src1 set1 found1
  have second := built.represents src2 set2 found2
  constructor
  · intro bit member
    rcases Finset.mem_union.mp (closed set1 set2 member) with inFirst | inSecond
    · exact first.below bit inFirst
    · exact second.below bit inSecond
  · intro bit below
    have inside : bit / 64 < BITMAP_BITS_TO_ELEMENTS bits := by
      rw [padded.elements]
      omega
    have bit1 : ((memory src1).getD (bit / 64) 0).getLsbD (bit % 64) = decide (bit ∈ set1) :=
      first.testBit_eq below
    have bit2 : ((memory src2).getD (bit / 64) 0).getLsbD (bit % 64) = decide (bit ∈ set2) :=
      second.testBit_eq below
    rw [if_pos (by omega), onBits _ _ _ (Nat.mod_lt _ (by decide)), bit1, bit2, onSets,
      decide_eq_true_iff]

theorem Built.step {sets : Sets} (padded : Padded bits) (built : Built bits memory sets)
    {operation : Operation} (valid : operation.Valid bits) :
    ∃ later, operation.run bits memory = .ok later ∧
      Built bits later (operation.sets bits sets) := by
  have elements := padded.elements
  have length (bmap : Nat) : (memory bmap).length = bits / 64 + 1 :=
    (built.declared bmap).trans elements
  cases operation with
  | zero dst =>
      obtain ⟨later, cleared, stored⟩ := memset_ok dst 0
        (BITMAP_BITS_TO_ELEMENTS bits) 0 (by rw [built.declared dst, Nat.zero_add])
      refine ⟨later, cleared, built.update stored ?_⟩
      rintro set ⟨⟩
      constructor
      · intro bit member
        exact absurd member (Finset.notMem_empty bit)
      · intro bit below
        rw [if_pos (by omega), show (0 : Word).getLsbD (bit % 64) = false from BitVec.getLsbD_zero]
        exact ⟨fun impossible => (by cases impossible),
          fun member => absurd member (Finset.notMem_empty bit)⟩
  | fill dst =>
      obtain ⟨mask, maskEq, masked⟩ := padded.mask
      obtain ⟨middle, filled, first⟩ := memset_ok dst (BitVec.allOnes 64)
        (BITMAP_BITS_TO_ELEMENTS bits) 0 (by rw [built.declared dst, Nat.zero_add])
      obtain ⟨later, stores, second⟩ := store_ok mask
        (show bits / 64 < (middle dst).length by rw [first.length, length dst]; omega)
      refine ⟨later, ?_, built.update (first.then second) ?_⟩
      · change bitmap_fill dst bits memory = _
        unfold bitmap_fill
        dsimp only
        rw [filled, maskEq, elements]
        exact stores
      · rintro set ⟨⟩
        constructor
        · intro bit member
          exact Finset.mem_range.mp member
        · intro bit below
          rw [Finset.mem_range]
          refine ⟨fun _ => below, fun _ => ?_⟩
          by_cases last : bit / 64 = bits / 64
          · rw [if_pos last, masked]
            exact decide_eq_true (by omega)
          · rw [if_neg last, first.word, if_pos (by omega), BitVec.getLsbD_allOnes]
            exact decide_eq_true (Nat.mod_lt _ (by decide))
  | setBit bmap bit =>
      have small : bit < bits := valid
      have inside : bit / 64 < (memory bmap).length := by
        rw [length bmap]
        omega
      obtain ⟨later, stores, stored⟩ := store_ok
        ((memory bmap).getD (bit / 64) 0 ||| BITMAP_BIT_ELEMENT_MASK bit) inside
      refine ⟨later, ?_, built.update stored ?_⟩
      · change bitmap_set_bit bmap bit memory = _
        unfold bitmap_set_bit BITMAP_BITS_PER_ELEMENT
        rw [load_ok inside]
        exact stores
      · intro set found
        obtain ⟨old, before, rfl⟩ := Option.map_eq_some_iff.mp found
        have represents := built.represents bmap old before
        constructor
        · intro other member
          rcases Finset.mem_insert.mp member with rfl | inOld
          · exact small
          · exact represents.below other inOld
        · intro other below
          have oldBit : ((memory bmap).getD (other / 64) 0).getLsbD (other % 64) =
              decide (other ∈ old) := represents.testBit_eq below
          rw [Finset.mem_insert]
          by_cases sameWord : other / 64 = bit / 64
          · rw [if_pos sameWord, BitVec.getLsbD_or, ← sameWord, oldBit]
            have bitOfMask : (BITMAP_BIT_ELEMENT_MASK bit).getLsbD (other % 64) =
                decide (other = bit) := by
              unfold BITMAP_BIT_ELEMENT_MASK BITMAP_BITS_PER_ELEMENT
              rw [← BitVec.twoPow_eq, BitVec.getLsbD_twoPow, Bool.eq_iff_iff]
              rw [Bool.and_eq_true, decide_eq_true_iff, decide_eq_true_iff, decide_eq_true_iff]
              omega
            rw [bitOfMask, Bool.or_eq_true, decide_eq_true_iff, decide_eq_true_iff]
            exact or_comm
          · rw [if_neg sameWord, oldBit, decide_eq_true_iff]
            have different : other ≠ bit := by
              rintro rfl
              exact sameWord rfl
            exact ⟨Or.inr, fun found => found.resolve_left different⟩
  | or dst src1 src2 =>
      refine built.wordLoop padded dst src1 src2 Bool.or ?_ ?_ ?_
      · intro word1 word2 k small
        exact BitVec.getLsbD_or
      · intro set1 set2 bit
        rw [Bool.eq_iff_iff, decide_eq_true_iff, Finset.mem_union, Bool.or_eq_true,
          decide_eq_true_iff, decide_eq_true_iff]
      · intro set1 set2
        exact Finset.Subset.refl _
  | and dst src1 src2 =>
      refine built.wordLoop padded dst src1 src2 Bool.and ?_ ?_ ?_
      · intro word1 word2 k small
        exact BitVec.getLsbD_and
      · intro set1 set2 bit
        rw [Bool.eq_iff_iff, decide_eq_true_iff, Finset.mem_inter, Bool.and_eq_true,
          decide_eq_true_iff, decide_eq_true_iff]
      · intro set1 set2
        exact Finset.inter_subset_left.trans Finset.subset_union_left
  | andnot dst src1 src2 =>
      refine built.wordLoop padded dst src1 src2 (fun a b => a && !b) ?_ ?_ ?_
      · intro word1 word2 k small
        rw [BitVec.getLsbD_and, BitVec.getLsbD_not, decide_eq_true small, Bool.true_and]
      · intro set1 set2 bit
        rw [Bool.eq_iff_iff, decide_eq_true_iff, Finset.mem_sdiff, Bool.and_eq_true,
          decide_eq_true_iff, Bool.not_eq_true', decide_eq_false_iff_not]
      · intro set1 set2
        exact Finset.sdiff_subset.trans Finset.subset_union_left

theorem Built.run {sets : Sets} (padded : Padded bits) {operations : List Operation}
    (valid : ∀ operation ∈ operations, operation.Valid bits) (built : Built bits memory sets) :
    ∃ later, Bitmap.run bits operations memory = .ok later ∧
      Built bits later (operations.foldl (Operation.sets bits) sets) := by
  induction operations generalizing memory sets with
  | nil => exact ⟨memory, rfl, built⟩
  | cons operation rest ih =>
      obtain ⟨middle, ran, next⟩ := built.step padded (valid operation List.mem_cons_self)
      obtain ⟨later, ranRest, last⟩ :=
        ih (fun other member => valid other (List.mem_cons_of_mem _ member)) next
      refine ⟨later, ?_, last⟩
      unfold Bitmap.run
      rw [ran]
      exact ranRest

/-- A bitmap that ends with a full word cannot be filled. -/
theorem fill_error (full : bits % 64 = 0) (memory : Memory) :
    ∃ failure, Bitmap.run bits [.fill 0] memory = .error failure := by
  have undefinedMask : BITMAP_LAST_ELEMENT_MASK bits = .error .undefined := by
    unfold BITMAP_LAST_ELEMENT_MASK BITMAP_LAST_ELEMENT_BITS BITMAP_BITS_PER_ELEMENT
    rw [full]
    rfl
  change ∃ failure, (do
    let memory ← bitmap_fill 0 bits memory
    Except.ok memory) = .error failure
  unfold bitmap_fill
  dsimp only
  rw [undefinedMask]
  cases memset 0 (BitVec.allOnes 64) (BITMAP_BITS_TO_ELEMENTS bits) 0 memory with
  | error failure => exact ⟨failure, rfl⟩
  | ok middle => exact ⟨.undefined, rfl⟩

/-- Rounding up the largest numbers of bits wraps around. -/
theorem set_bit_error (large : 2 ^ 64 ≤ bits + 63) (declared : Declared bits memory) :
    ∃ failure, Bitmap.run bits [.setBit 0 (bits - 1)] memory = .error failure := by
  have outside : (memory 0).length ≤ (bits - 1) / 64 := by
    rw [declared 0]
    unfold BITMAP_BITS_TO_ELEMENTS BITMAP_BITS_PER_ELEMENT
    have wrapped := Nat.mod_lt (bits + 64 - 1) (show 0 < 2 ^ 64 by decide)
    omega
  refine ⟨.undefined, ?_⟩
  change (do
    let memory ← bitmap_set_bit 0 (bits - 1) memory
    Except.ok memory) = .error .undefined
  unfold bitmap_set_bit BITMAP_BITS_PER_ELEMENT load
  rw [List.getElem?_eq_none outside]
  rfl

theorem Padded.implementsSets (padded : Padded bits) : ImplementsSets bits := by
  intro operations valid memory declared
  have start : Built bits memory (fun _ => none) :=
    ⟨declared, fun _ _ impossible => by cases impossible⟩
  obtain ⟨later, ran, built⟩ := start.run padded valid
  refine ⟨later, ran, ?_⟩
  intro bmap set found
  have represents := built.represents bmap set found
  refine ⟨represents, bitmap_empty_ok padded built.declared represents, ?_⟩
  intro other otherSet otherFound
  exact bitmap_equal_ok padded built.declared represents
    (built.represents other otherSet otherFound)

theorem not_implementsSets (operation : Operation) (valid : operation.Valid bits)
    (fails : ∀ memory, Declared bits memory →
      ∃ failure, Bitmap.run bits [operation] memory = .error failure) :
    ¬ ImplementsSets bits := by
  intro implements
  have declared : Declared bits (fun _ => List.replicate (BITMAP_BITS_TO_ELEMENTS bits) 0) :=
    fun _ => List.length_replicate
  obtain ⟨later, ran, _⟩ := implements [operation] (by
    intro other member
    cases List.mem_singleton.mp member
    exact valid) _ declared
  obtain ⟨failure, failed⟩ := fails _ declared
  rw [failed] at ran
  cases ran

/-- Bitmaps implement sets unless the width is a multiple of the word size, for which the
mask of the last word is undefined, or so large that rounding it up wraps around. -/
theorem implementsSets_iff (bits : Nat) :
    ImplementsSets bits ↔ bits % 64 ≠ 0 ∧ bits + 63 < 2 ^ 64 := by
  constructor
  · intro implements
    refine ⟨fun full => ?_, Nat.lt_of_not_le fun large => ?_⟩
    · exact not_implementsSets (.fill 0) trivial
        (fun memory _ => fill_error full memory) implements
    · have valid : (Operation.setBit 0 (bits - 1)).Valid bits := by
        change bits - 1 < bits
        omega
      exact not_implementsSets _ valid (fun memory declared => set_bit_error large declared)
        implements
  · rintro ⟨rest, small⟩
    exact Padded.implementsSets ⟨rest, small⟩

/-- A bitmap of one full word. -/
theorem not_implementsSets_word : ¬ ImplementsSets 64 :=
  not_implementsSets (.fill 0) trivial (fun memory _ => fill_error rfl memory)

end Bitmap

def SUBREGISTER_BITS : Nat :=
  Fintype.card SubRegister

theorem implementsSets_subRegisters : Bitmap.ImplementsSets SUBREGISTER_BITS :=
  Bitmap.Padded.implementsSets ⟨by decide +kernel, by decide +kernel⟩

end Drob
