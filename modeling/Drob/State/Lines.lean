import Drob.State.Reading
import Drob.State.Rank

/-!
What a program state answers after a write: every container and the tracked stack is a
line of bytes, a write replaces a range of one line and clears the pointers that reach
into it, and a read depends on the bytes of its own range.
-/

namespace Drob

open DynamicValueType LittleEndian

namespace StackState

/-! ### The stack as a line of bytes -/

theorem elemAt_eq {stack : StackState} {offset : Int} {n : Nat}
    (index : (n : Int) = stack.base + offset) (inside : n < stack.elems.size) :
    stack.elemAt offset = stack.elems.elem n := by
  unfold elemAt
  rw [if_pos (by omega), ← index, Int.toNat_natCast]

def withElems (stack : StackState) (estate : Elements) : StackState :=
  { stack with elems := estate }

theorem elemAt_withElems {stack : StackState} {estate : Elements} {offset : Int} {n : Nat}
    (index : (n : Int) = stack.base + offset) (inside : n < estate.size) :
    (stack.withElems estate).elemAt offset = estate.elem n :=
  elemAt_eq index inside

theorem exists_index {stack : StackState} {offset : Int}
    (used : stack.elemAt offset ≠ .initial) :
    ∃ n : Nat, (n : Int) = stack.base + offset ∧ n < stack.elems.size := by
  unfold elemAt at used
  by_cases inside : 0 ≤ stack.base + offset ∧ stack.base + offset < stack.elems.size
  · exact ⟨(stack.base + offset).toNat, by omega, by omega⟩
  · rw [if_neg inside] at used
    exact absurd rfl used

theorem ne_initial_of_ptr {element : Element} {ptr : PtrType} (head : element.type = ofPtr ptr) :
    element ≠ .initial := by
  rintro rfl
  cases ptr <;> cases head

theorem Holds.elem {stack : StackState} {baseOffset : Int} {size i : Nat}
    (holds : stack.Holds baseOffset size) (below : i < size) :
    stack.elemAt (baseOffset + i) = stack.elems.elem (stack.getStackIdx baseOffset + i) := by
  have positive : 0 < size := by omega
  have index := holds.stackIdx positive
  have room := holds.room positive
  exact elemAt_eq (by omega) (by omega)

theorem WellFormed.tails {stack : StackState} (wellFormed : stack.WellFormed) {h : Int}
    {ptr : PtrType} (head : (stack.elemAt h).type = ofPtr ptr) (j : Nat) (positive : 0 < j)
    (small : j < 8) : (stack.elemAt (h + j)).type = tailOf ptr := by
  obtain ⟨n, index, inside⟩ := exists_index (ne_initial_of_ptr head)
  rw [elemAt_eq index inside] at head
  obtain ⟨room, tails⟩ := wellFormed.shape.head n ptr inside head
  rw [elemAt_eq (by omega : ((n + j : Nat) : Int) = _) (by omega)]
  exact tails j positive small

end StackState

namespace Elements

/-! ### Ranges of a line -/

def window (bytes : Int → Element) (start : Int) (count : Nat) : Elements :=
  { size := count, elem := fun i => bytes (start + i) }

/-- The pointer at `h` reaches into the range. -/
def ReachesInto (bytes : Int → Element) (start : Int) (count : Nat) (h : Int) (ptr : PtrType) :
    Prop :=
  (bytes h).type = ofPtr ptr ∧ h < start + count ∧ start < h + 8

/-- What a write leaves of the rest of a line: the remaining bytes of the pointers that
reach into the range are cleared, and every other byte stays. -/
structure Spares (before after : Int → Element) (start : Int) (count : Nat) : Prop where
  apart : ∀ k, (k < start ∨ start + count ≤ k) →
    (∀ h ptr, ReachesInto before start count h ptr → k < h ∨ h + 8 ≤ k) → after k = before k
  remains : ∀ k h ptr, (k < start ∨ start + count ≤ k) → ReachesInto before start count h ptr →
    h ≤ k → k < h + 8 → (after k).type = cleared ptr

def HoldsData (after : Int → Element) (start : Int) (count : Nat) (data : DynamicValue) : Prop :=
  ∀ i, i < count → ∃ old, after (start + i) = writtenElement data i old

theorem Marked.remains {estate marked : Elements} {byteOffset bytes : Nat} (positive : 0 < bytes)
    (mark : Marked estate byteOffset bytes marked) (shape : estate.WellFormed)
    {h k : Nat} {ptr : PtrType} (head : estate.type h = ofPtr ptr) (inSize : h < estate.size)
    (meets : h < byteOffset + bytes ∧ byteOffset < h + 8)
    (outside : k < byteOffset ∨ byteOffset + bytes ≤ k) (covers : h ≤ k ∧ k < h + 8) :
    marked.type k = cleared ptr := by
  have room := (shape.head h ptr inSize head).1
  rcases mark.outside k outside with same | ⟨other, otherPtr, le, lt, otherLe, otherLt,
    otherInside, otherHead, wiped⟩
  · exfalso
    have kInside : k < marked.size := by
      rw [mark.size_eq]
      omega
    have notPlain := shape.not_plain inSize head covers
    rcases mark.shape.plain_or_covered kInside with plain | ⟨found, foundPtr, foundLe, foundLt,
      foundInside, foundHead⟩
    · apply notPlain
      unfold PlainAt at plain ⊢
      rwa [same] at plain
    · have apart := mark.shape.apart_of_plain mark.plain foundInside foundHead
      have before : estate.type found = ofPtr foundPtr := by
        rcases mark.outside found (by omega) with kept | ⟨_, wipedPtr, _, _, _, _, _, _, wiped⟩
        · rw [← kept]
          exact foundHead
        · exact absurd foundHead
            (ofPtr_ne_of_isPtr_eq_false (by rw [wiped, isPtr_cleared]) foundPtr)
      have one := shape.head_unique (k := k) inSize (by rw [← mark.size_eq]; exact foundInside)
        head before covers ⟨foundLe, foundLt⟩
      omega
  · have one := shape.head_unique (k := k) inSize otherInside head otherHead covers
      ⟨otherLe, otherLt⟩
    subst one
    rw [head] at otherHead
    rw [wiped]
    cases ptr <;> cases otherPtr <;> first | rfl | cases otherHead

theorem Marked.apart {estate marked : Elements} {byteOffset bytes : Nat} (positive : 0 < bytes)
    (mark : Marked estate byteOffset bytes marked) {k : Nat}
    (outside : k < byteOffset ∨ byteOffset + bytes ≤ k)
    (apart : ∀ h ptr, h < estate.size → estate.type h = ofPtr ptr → h < byteOffset + bytes →
      byteOffset < h + 8 → k < h ∨ h + 8 ≤ k) :
    marked.elem k = estate.elem k := by
  have kept := mark.kept k
  have type : (marked.elem k).type = (estate.elem k).type := by
    rcases mark.outside k outside with same | ⟨h, ptr, le, lt, kLe, kLt, inside, head, _⟩
    · exact same
    · have beyond := apart h ptr inside head (by omega) lt
      omega
  cases new : marked.elem k
  cases old : estate.elem k
  rw [new, old] at kept type
  simp only at kept type
  rw [kept.1, kept.2, type]

/-! ### A pointer that starts inside -/

theorem markUnknownLoop_append (byteOffset m n i : Nat) (estate : Elements) :
    markUnknownLoop byteOffset (m + n) i estate =
      (markUnknownLoop byteOffset m i estate).bind (markUnknownLoop byteOffset n (i + m)) := by
  induction m generalizing i estate with
  | zero => rw [Nat.zero_add]; rfl
  | succ m ih =>
      rw [show m + 1 + n = m + n + 1 by omega]
      unfold markUnknownLoop
      cases markUnknownAt estate byteOffset i with
      | error failure => rfl
      | ok marked =>
          change markUnknownLoop byteOffset (m + n) (i + 1) marked =
            (markUnknownLoop byteOffset m (i + 1) marked).bind _
          rw [ih, show i + (m + 1) = i + 1 + m by omega]

theorem type_clearTail_of_no_tail {estate : Elements} {byteOffset k : Nat}
    (noTail : (estate.type (byteOffset + 1)).isTail = false) (other : k ≠ byteOffset) :
    (estate.clearTail byteOffset).type k = estate.type k := by
  unfold clearTail
  dsimp only
  rw [clearTailLoop_run .usr 0 _ _ _ (Nat.zero_le _)
    (fun j below => absurd below (Nat.not_lt_zero j))
    (fun _ => by
      rw [Nat.add_zero, type_setType, if_neg (by omega)]
      exact noTail)]
  rw [type_modify, if_neg (by omega), type_setType, if_neg other]

/-- The first pointer that starts inside of the range: the loop gets there, clears the
start of the range instead, and fails at the first tail byte. -/
theorem WellFormed.markUnknown_first {estate : Elements} (shape : estate.WellFormed)
    {byteOffset bytes i : Nat} (room : byteOffset + bytes ≤ estate.size)
    (small : byteOffset < 2 ^ 31) (positive : 0 < i) (before : i + 1 < bytes)
    (head : (estate.type (byteOffset + i)).isPtr = true)
    (first : estate.NoInnerHead byteOffset i) :
    estate.markUnknown byteOffset bytes = .error (.assertion "i == 0") := by
  obtain ⟨ptr, headEq⟩ := (isPtr_iff _).mp head
  have inside : byteOffset + i < estate.size := by omega
  have tailEq := shape.tail_type (k := byteOffset + i + 1) headEq inside (by omega) (by omega)
  obtain ⟨result, clear, returned⟩ :=
    shape.markUnknown_eq positive (by omega : byteOffset + i ≤ estate.size) small first
  have resultShape := clear.shape shape
  -- the pointer itself is not over the start of the range
  have kept (k : Nat) (covered : byteOffset + i ≤ k) (within : k < byteOffset + i + 8) :
      result.type k = estate.type k := by
    rcases clear with ⟨_plain, rfl⟩ | ⟨h, other, le, lt, hInside, hHead, rfl⟩
    · rfl
    · rw [shape.clearTail_eq hInside hHead, type_modify, if_neg]
      intro inOther
      have same := shape.head_unique (k := k) hInside inside hHead headEq inOther
        ⟨covered, within⟩
      omega
  have headThere : (result.modify byteOffset i weakenElement).type (byteOffset + i) = ofPtr ptr := by
    rw [type_modify, if_neg (by omega), kept _ (by omega) (by omega), headEq]
  have tailThere : (result.modify byteOffset i weakenElement).type (byteOffset + i + 1) =
      tailOf ptr := by
    rw [type_modify, if_neg (by omega), kept _ (by omega) (by omega), tailEq]
  have noTail : ((result.modify byteOffset i weakenElement).type (byteOffset + 1)).isTail =
      false := by
    rcases Nat.lt_or_ge 1 i with more | one
    · rw [type_modify, if_pos (by omega)]
      exact (weaken_plain (clear.plain_range shape first (by omega) more)).2
    · rw [show byteOffset + 1 = byteOffset + i by omega, headThere, isTail_ofPtr]
  obtain ⟨n, rfl⟩ : ∃ n, bytes = i + (n + 2) := ⟨bytes - i - 2, by omega⟩
  unfold markUnknown at returned ⊢
  rw [markUnknownLoop_append, returned, Nat.zero_add]
  generalize result.modify byteOffset i weakenElement = marked at headThere tailThere noTail
  have here : markUnknownAt marked byteOffset i = .ok (marked.clearTail byteOffset) := by
    unfold markUnknownAt
    rw [headThere]
    cases ptr <;> rfl
  have next : markUnknownAt (marked.clearTail byteOffset) byteOffset (i + 1) =
      .error (.assertion "i == 0") := by
    unfold markUnknownAt
    rw [← Nat.add_assoc, type_clearTail_of_no_tail noTail (by omega), tailThere]
    cases ptr <;> exact if_neg (by omega)
  change markUnknownLoop byteOffset (n + 2) i marked = _
  unfold markUnknownLoop
  rw [here]
  change markUnknownLoop byteOffset (n + 1) (i + 1) (marked.clearTail byteOffset) = _
  unfold markUnknownLoop
  rw [next]
  rfl

/-- A pointer that starts strictly inside of the range, before its last byte, makes the
write fail. -/
theorem WellFormed.setElements_inner {estate : Elements} (shape : estate.WellFormed)
    {byteOffset bytes i : Nat} (data : DynamicValue) (room : byteOffset + bytes ≤ estate.size)
    (small : byteOffset < 2 ^ 31) (positive : 0 < i) (before : i + 1 < bytes)
    (head : (estate.type (byteOffset + i)).isPtr = true) :
    estate.setElements byteOffset bytes data false = .error (.assertion "i == 0") := by
  have found : ∃ j, 0 < j ∧ (estate.type (byteOffset + j)).isPtr = true := ⟨i, positive, head⟩
  obtain ⟨firstPositive, firstHead⟩ := Nat.find_spec found
  have firstLe : Nat.find found ≤ i := Nat.find_min' found ⟨positive, head⟩
  have failed := shape.markUnknown_first room small firstPositive (by omega) firstHead (by
    intro j after earlier
    have notHead := Nat.find_min found earlier
    rw [not_and, Bool.not_eq_true] at notHead
    exact notHead after)
  unfold setElements
  rw [if_neg (by simp only [not_not]; omega), if_neg Bool.false_ne_true, failed]
  rfl

end Elements

namespace StackState

open Elements

theorem Holds.setElements {stack : StackState} {baseOffset : Int} {size : Nat}
    (holds : stack.Holds baseOffset size) (wellFormed : stack.WellFormed)
    {data : DynamicValue} (positive : 0 < size) (fits : FitsBytes data size)
    (noInner : stack.elems.NoInnerHead (stack.getStackIdx baseOffset) size) :
    ∃ estate, stack.elems.setElements (stack.getStackIdx baseOffset) size data false =
        .ok estate ∧ estate.size = stack.elems.size ∧ estate.WellFormed ∧
      Spares stack.elemAt (stack.withElems estate).elemAt baseOffset size ∧
      HoldsData (stack.withElems estate).elemAt baseOffset size data := by
  have index := holds.stackIdx positive
  have room := holds.room positive
  have small := holds.index_small positive
  obtain ⟨estate, returned, sizeEq, shape⟩ := wellFormed.shape.setElements_ok data positive
    (by omega) small fits noInner
  obtain ⟨marked, mark, written⟩ := wellFormed.shape.setElements_eq data positive
    (by omega) small fits noInner
  rw [returned] at written
  cases written
  refine ⟨_, returned, sizeEq, shape, ⟨?_, ?_⟩, ?_⟩
  · intro k outside apart
    by_cases inside : 0 ≤ stack.base + k ∧ stack.base + k < stack.elems.size
    · obtain ⟨n, index⟩ := Int.eq_ofNat_of_zero_le inside.1
      rw [elemAt_withElems index.symm (by rw [sizeEq]; omega),
        elemAt_eq index.symm (by omega), elem_modify, if_neg (by omega)]
      apply mark.apart positive (by omega)
      intro h ptr inSize head before after
      have found := apart (h - stack.base) ptr
        ⟨by rw [elemAt_eq (by omega) inSize]; exact head, by omega, by omega⟩
      omega
    · unfold elemAt withElems
      rw [if_neg inside, if_neg]
      dsimp only
      rw [sizeEq]
      exact inside
  · intro k h ptr outside reaches before after
    obtain ⟨head, starts, ends⟩ := reaches
    obtain ⟨n, index, inSize⟩ := exists_index (ne_initial_of_ptr head)
    rw [elemAt_eq index inSize] at head
    have fits := (wellFormed.shape.head n ptr inSize head).1
    obtain ⟨j, rfl⟩ : ∃ j : Nat, k = h + j := ⟨(k - h).toNat, by omega⟩
    rw [elemAt_withElems (by omega : ((n + j : Nat) : Int) = _) (by rw [sizeEq]; omega),
      elem_modify, if_neg (by omega)]
    exact mark.remains positive wellFormed.shape head inSize (by omega) (by omega) (by omega)
  · intro i below
    refine ⟨marked.elem (stack.getStackIdx baseOffset + i), ?_⟩
    rw [elemAt_withElems (n := stack.getStackIdx baseOffset + i) (by omega) (by rw [sizeEq]; omega),
      elem_modify, if_pos (by omega), Nat.add_sub_cancel_left]

end StackState

namespace Elements

variable {before after : Int → Element} {start : Int} {count : Nat} {data : DynamicValue}

/-! ### Reads of an overwritten line -/

theorem HoldsData.readBack (holds : HoldsData after start count data)
    (operand : OperandSize count) (fits : FitsBytes data count) (smallNr : data.SmallNr) :
    (window after start count).getElements 0 count = .ok (resized data count) := by
  have positive := operand.positive
  have elemAt (i : Nat) (below : i < count) :
      ∃ old, (window after start count).elem (0 + i) = writtenElement data i old := by
    rw [Nat.zero_add]
    exact holds i below
  have immediate (val : BitVec 128) (written : ∀ i old, writtenElement data i old =
      { old with type := .immediate, data := byte val i }) :
      (window after start count).getElements 0 count = .ok (resized (.imm128 val) count) := by
    apply getElements_immediate operand
    · intro k below
      obtain ⟨old, here⟩ := elemAt k below
      unfold Elements.type
      rw [here, written]
    · intro k below
      obtain ⟨old, here⟩ := elemAt k below
      rw [here, written]
  have plain (type : DynamicValueType)
      (same : data = .dead ∧ type = .dead ∨ data = .unknown ∧ type = .unknown ∨
        data = .tainted ∧ type = .tainted) (keeps : resized data count = data) :
      (window after start count).getElements 0 count = .ok (resized data count) := by
    rw [keeps]
    apply getElements_plain positive same
    intro k below
    obtain ⟨old, here⟩ := elemAt k below
    unfold Elements.type
    rw [here]
    rcases same with ⟨rfl, rfl⟩ | ⟨rfl, rfl⟩ | ⟨rfl, rfl⟩ <;> rfl
  cases data with
  | dead => exact plain .dead (by simp) rfl
  | unknown => exact plain .unknown (by simp) rfl
  | tainted => exact plain .tainted (by simp) rfl
  | imm128 val => exact immediate val (fun _ _ => rfl)
  | imm64 val =>
      rw [immediate (val.setWidth 128) (fun _ _ => rfl)]
      unfold resized
      dsimp only
      split
      · rfl
      · congr 2
        apply BitVec.eq_of_getLsbD_eq
        intro i below
        simp only [BitVec.getLsbD_setWidth, below, decide_true, Bool.true_and]
        by_cases narrow : i < 8 * count
        · simp [narrow, show i < 128 by omega]
        · simp [narrow]
  | ptr type nr ptrOffset =>
      have eight : count = 8 := fits.1 rfl
      subst eight
      obtain ⟨first, head⟩ := elemAt 0 (by omega)
      have stored : (window after start 8).readData 64 0 8 = ptrOffset := by
        refine Eq.trans (ofBytes_congr ?_) (ofBytes_byte ptrOffset (n := 8) (Nat.le_refl 64))
        intro i below
        obtain ⟨old, here⟩ := elemAt i below
        rw [here]
        rfl
      rw [Nat.add_zero] at head
      have headType : (window after start 8).type 0 = ofPtr type := by
        unfold Elements.type
        rw [head]
        rfl
      rw [getElements_ptr headType, stored, head]
      change Except.ok (DynamicValue.ptr type (BitVec.ofNat 8 nr).toNat ptrOffset) = _
      rw [BitVec.toNat_ofNat, Nat.mod_eq_of_lt smallNr]
      rfl

theorem getElements_window_congr {size : Nat}
    (same : ∀ i, i < size → after (start + i) = before (start + i)) :
    (window after start size).getElements 0 size =
      (window before start size).getElements 0 size := by
  apply getElements_congr
  intro i below
  unfold window
  rw [Nat.zero_add]
  exact same i below

def Remains (ptr : PtrType) (answer : Except Failure DynamicValue) : Prop :=
  match ptr with
  | .stack => answer = .ok .tainted
  | _ => ∃ data, answer = .ok data ∧ data.isImm = false ∧ data.isPtr = false

theorem remains_of_cleared {stack : StackState} (wellFormed : stack.WellFormed) {size i : Nat}
    (below : i < size) {ptr : PtrType} (type : (stack.elemAt (start + i)).type = cleared ptr) :
    Remains ptr ((window stack.elemAt start size).getElements 0 size) := by
  have heads (p : Nat)
      (head : ((window stack.elemAt start size).type (0 + p)).isPtr = true) (j : Nat)
      (positive : 0 < j) (small : j < 8) (_inside : p + j < size) :
      ((window stack.elemAt start size).type (0 + (p + j))).isTail = true := by
    rw [Nat.zero_add] at head ⊢
    obtain ⟨other, found⟩ := (isPtr_iff _).mp head
    have tail := wellFormed.tails found j positive small
    rw [add_assoc, ← Nat.cast_add] at tail
    unfold Elements.type window
    rw [tail, isTail_tailOf]
  have found : (window stack.elemAt start size).type (0 + i) = cleared ptr := by
    rw [Nat.zero_add]
    exact type
  have notStack (isUnknown : cleared ptr = .unknown) : ∃ data,
      (window stack.elemAt start size).getElements 0 size = .ok data ∧ data.isImm = false ∧
        data.isPtr = false := by
    rcases getElements_unknown heads below (found.trans isUnknown) with answer | answer
    · exact ⟨_, answer, rfl, rfl⟩
    · exact ⟨_, answer, rfl, rfl⟩
  cases ptr with
  | stack => exact getElements_tainted heads below found
  | usr => exact notStack rfl
  | ret => exact notStack rfl

end Elements

end Drob
