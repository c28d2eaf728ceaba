import Drob.State.Runs

/-!
The bytes that a container describes. On complete pointers every answer of a container
describes the bytes it is about, also after a value is written.
-/

namespace Drob

open LittleEndian

def DynamicValue.SmallNr : DynamicValue → Prop
  | .ptr _ nr _ => nr < 256
  | _ => True

def word (bytes : Nat → BitVec 8) (start count : Nat) : BitVec (8 * count) :=
  ofBytes (8 * count) (fun i => bytes (start + i)) count

theorem word_congr {bytes other : Nat → BitVec 8} {start otherStart count : Nat}
    (same : ∀ i, i < count → bytes (start + i) = other (otherStart + i)) :
    word bytes start count = word other otherStart count :=
  ofBytes_congr same

def overwrite (bytes : Nat → BitVec 8) (start count : Nat) (new : Nat → BitVec 8) :
    Nat → BitVec 8 :=
  fun k => if start ≤ k ∧ k < start + count then new (k - start) else bytes k

theorem setWidth_ofBytes (bytes : Nat → BitVec 8) {n w v : Nat} (fits : 8 * n ≤ w) :
    (ofBytes w bytes n).setWidth v = ofBytes v bytes n := by
  apply BitVec.eq_of_getLsbD_eq
  intro k below
  rw [BitVec.getLsbD_setWidth, getLsbD_ofBytes, getLsbD_ofBytes]
  by_cases inBytes : k < 8 * n
  · have inWord : k < w := by omega
    simp [inBytes, inWord, below]
  · simp [inBytes]

namespace Elements

open DynamicValueType

/-- Immediate bytes are the concrete ones, and the bytes of a pointer are its address. -/
structure Describes (base : DynamicValue.PtrBase) (estate : Elements)
    (bytes : Nat → BitVec 8) : Prop where
  imm : ∀ k, k < estate.size → estate.type k = .immediate → bytes k = (estate.elem k).data
  ptr : ∀ h type, h < estate.size → estate.type h = ofPtr type →
    word bytes h 8 = base type (estate.elem h).nr.toNat + estate.readData 64 h 8

/-! ### Reading -/

structure Scan.OnlyImm (scan : Scan) : Prop where
  noDead : scan.hasDead = false
  noPtr : scan.hasPtr = false
  noStackPtr : scan.hasStackPtr = false
  noUnknown : scan.hasUnknown = false
  noTainted : scan.hasTainted = false
  notMixed : scan.isMixed = false

theorem Scan.OnlyImm.of_single {scan : Scan} (imm : scan.hasImm = true)
    (untainted : scan.hasTainted = false)
    (single : scan.isMixed = false ∧ scan.several = false) (noStackPtr : scan.hasStackPtr = false)
    (noPtr : scan.hasPtr = false) : scan.OnlyImm := by
  obtain ⟨notMixed, notSeveral⟩ := single
  unfold several at notSeveral
  rw [imm, noStackPtr, noPtr, untainted] at notSeveral
  refine ⟨?_, noPtr, noStackPtr, ?_, untainted, notMixed⟩
  · cases dead : scan.hasDead with
    | false => rfl
    | true =>
        simp [dead] at notSeveral
        omega
  · cases unknown : scan.hasUnknown with
    | false => rfl
    | true => simp [unknown] at notSeveral

theorem Scan.OnlyImm.of_add {scan : Scan} {i : Nat} {type : DynamicValueType}
    (only : (scan.add i type).OnlyImm) :
    scan.OnlyImm ∧ (type = .immediate ∨ type = .tail ∧ i ≠ 0) := by
  obtain ⟨noDead, noPtr, noStackPtr, noUnknown, noTainted, notMixed⟩ := only
  cases type with
  | immediate =>
      exact ⟨⟨noDead, noPtr, noStackPtr, noUnknown, noTainted, notMixed⟩, Or.inl rfl⟩
  | tail =>
      obtain ⟨before, first⟩ := Bool.or_eq_false_iff.mp notMixed
      refine ⟨⟨noDead, noPtr, noStackPtr, noUnknown, noTainted, before⟩, Or.inr ⟨rfl, ?_⟩⟩
      intro zero
      rw [zero] at first
      cases first
  | stackPtr => cases noStackPtr
  | usrPtr => cases noPtr
  | returnPtr => cases noPtr
  | dead => cases noDead
  | stackPtrTail => cases noTainted
  | unknown => cases noUnknown
  | tainted => cases noTainted

theorem onlyImm_of_scanLoop (estate : Elements) (byteOffset n i skip : Nat) (scan : Scan)
    (only : (scanLoop estate byteOffset n i skip scan).OnlyImm) : scan.OnlyImm := by
  induction n generalizing i skip scan with
  | zero => exact only
  | succ n ih =>
      cases skip with
      | succ skip => exact ih (i + 1) skip scan only
      | zero => exact (ih (i + 1) _ _ only).of_add.1

theorem bytes_of_scanLoop (estate : Elements) (byteOffset n i : Nat) (scan : Scan)
    (only : (scanLoop estate byteOffset n i 0 scan).OnlyImm) :
    ∀ k, i ≤ k → k < i + n → estate.type (byteOffset + k) = .immediate ∨
      estate.type (byteOffset + k) = .tail ∧ k ≠ 0 := by
  induction n generalizing i scan with
  | zero =>
      intro k later before
      omega
  | succ n ih =>
      intro k later before
      unfold scanLoop at only
      have here := (onlyImm_of_scanLoop estate byteOffset n (i + 1) _ _ only).of_add.2
      rcases Nat.eq_or_lt_of_le later with atByte | after
      · rw [← atByte]
        exact here
      · have noPtr : (estate.type (byteOffset + i)).isPtr = false := by
          rcases here with imm | ⟨tail, _⟩
          · rw [imm]
            rfl
          · rw [tail]
            rfl
        dsimp only at only
        rw [noPtr, if_neg Bool.false_ne_true] at only
        exact ih (i + 1) _ only k after (by omega)

theorem WellFormed.imm_of_scan {estate : Elements} (shape : estate.WellFormed)
    {byteOffset bytes : Nat} (room : byteOffset + bytes ≤ estate.size)
    (only : (scanLoop estate byteOffset bytes 0 0 .empty).OnlyImm) {k : Nat} (below : k < bytes) :
    estate.type (byteOffset + k) = .immediate := by
  have read (j : Nat) (inside : j < bytes) :=
    bytes_of_scanLoop estate byteOffset bytes 0 .empty only j (Nat.zero_le j) (by omega)
  rcases read k below with imm | ⟨tail, _⟩
  · exact imm
  · obtain ⟨h, ptr, before, within, head⟩ :=
      shape.tail (byteOffset + k) (by omega) (by rw [tail]; rfl)
    have headPtr : (estate.type h).isPtr = true := by rw [head, isPtr_ofPtr]
    by_cases inRange : byteOffset ≤ h
    · have found := read (h - byteOffset) (by omega)
      rw [show byteOffset + (h - byteOffset) = h by omega] at found
      rcases found with imm | ⟨other, _⟩
      · rw [imm] at headPtr
        cases headPtr
      · rw [other] at headPtr
        cases headPtr
    · -- the pointer reaches into the range, so the range starts with a tail
      obtain ⟨_, tails⟩ := shape.head h ptr (by omega) head
      have first := tails (byteOffset - h) (by omega) (by omega)
      rw [show h + (byteOffset - h) = byteOffset by omega] at first
      rcases read 0 (by omega) with imm | ⟨_, notFirst⟩
      · rw [Nat.add_zero, first] at imm
        cases ptr <;> cases imm
      · exact absurd rfl notFirst

theorem Describes.getElements {base : DynamicValue.PtrBase} {estate : Elements}
    {bytes : Nat → BitVec 8} (describes : estate.Describes base bytes) (shape : estate.WellFormed)
    {byteOffset count : Nat} {value : DynamicValue} (room : byteOffset + count ≤ estate.size)
    (answered : estate.getElements byteOffset count = .ok value) :
    value.Describes base (word bytes byteOffset count) := by
  unfold Elements.getElements at answered
  dsimp only at answered
  generalize scanned : scanLoop estate byteOffset count 0 0 .empty = scan at answered
  have pointer (eight : count = 8) (read : estate.readPtr byteOffset = value) :
      value.Describes base (word bytes byteOffset count) := by
    subst eight
    subst read
    unfold readPtr
    cases found : (estate.type byteOffset).ptr? with
    | none => trivial
    | some type =>
        have head := describes.ptr byteOffset type (by omega) (eq_ofPtr_of_ptr? found)
        exact head.trans (BitVec.setWidth_eq _).symm
  have immediate (only : scan.OnlyImm) : ∀ i, i < count →
      bytes (byteOffset + i) = (estate.elem (byteOffset + i)).data := by
    intro i below
    rw [← scanned] at only
    exact describes.imm _ (by omega) (shape.imm_of_scan room only below)
  split at answered
  · cases answered
    trivial
  · rename_i noTaint
    split at answered
    · cases answered
      trivial
    · rename_i notMixed
      split at answered
      · rename_i stackPtr
        cases answered
        refine pointer ?_ rfl
        by_contra other
        apply noTaint
        simp [stackPtr, other]
      · rename_i noStackPtr
        split at answered
        · split at answered
          · cases answered
            trivial
          · rename_i eight
            cases answered
            exact pointer (not_not.mp eight) rfl
        · rename_i noPtr
          split at answered
          · rename_i isImm
            have only : scan.OnlyImm :=
              .of_single isImm (by simp only [Bool.or_eq_true, not_or, Bool.not_eq_true] at noTaint; exact noTaint.1) (by simpa using notMixed)
                (by simpa using noStackPtr) (by simpa using noPtr)
            split at answered
            · cases answered
              change word bytes byteOffset count = (estate.readData 64 byteOffset count).setWidth _
              unfold readData
              rw [setWidth_ofBytes _ (by omega)]
              exact ofBytes_congr (immediate only)
            · split at answered
              · rename_i sixteen
                subst sixteen
                cases answered
                change word bytes byteOffset 16 = (estate.readData 128 byteOffset 16).setWidth _
                unfold readData
                rw [setWidth_ofBytes _ (by omega)]
                exact ofBytes_congr (immediate only)
              · cases answered
          · split at answered
            · cases answered
              trivial
            · cases answered
              trivial

/-! ### Writing -/

/-- The element that setting a value leaves at index `i` of the range. -/
def writtenElement (data : DynamicValue) (i : Nat) (old : Element) : Element :=
  match data with
  | .ptr type nr ptrOffset =>
      { type := if i = 0 then ofPtr type else tailOf type
        nr := if i = 0 then BitVec.ofNat 8 nr else old.nr
        data := byte ptrOffset i }
  | .imm64 val => { old with type := .immediate, data := byte (val.setWidth 128) i }
  | .imm128 val => { old with type := .immediate, data := byte val i }
  | .dead => { old with type := .dead, data := 0 }
  | .unknown => { old with type := .unknown, data := 0 }
  | .tainted => { old with type := .tainted, data := 0 }

/-- What `setElements` writes over the marked range. -/
theorem WellFormed.setElements_eq {estate : Elements} (shape : estate.WellFormed)
    (data : DynamicValue) {byteOffset bytes : Nat} (positive : 0 < bytes)
    (room : bytes + byteOffset ≤ estate.size) (small : byteOffset < 2 ^ 31)
    (fits : FitsBytes data bytes) (noInner : estate.NoInnerHead byteOffset bytes) :
    ∃ marked, Marked estate byteOffset bytes marked ∧
      estate.setElements byteOffset bytes data false =
        .ok (marked.modify byteOffset bytes (writtenElement data)) := by
  obtain ⟨marked, returned, mark⟩ := shape.markUnknown_ok positive (by omega) small noInner
  refine ⟨marked, mark, ?_⟩
  unfold setElements
  rw [if_neg (by simp only [not_not]; exact ⟨positive, room⟩), if_neg Bool.false_ne_true, returned]
  cases data with
  | ptr type nr ptrOffset => exact if_pos (fits.1 rfl)
  | imm64 val => exact setImm_ok marked byteOffset bytes _ (fits.2 rfl)
  | imm128 val => exact setImm_ok marked byteOffset bytes _ (fits.2 rfl)
  | dead => rfl
  | unknown => rfl
  | tainted => rfl

theorem byte_of_written {base : DynamicValue.PtrBase} {data : DynamicValue} {new : Nat → BitVec 8}
    {bytes i : Nat} {old : Element} (described : data.Describes base (word new 0 bytes))
    (below : i < bytes) (short : bytes ≤ 16)
    (imm : (writtenElement data i old).type = .immediate) :
    new i = (writtenElement data i old).data := by
  have own : byte (word new 0 bytes) i = new i := by
    unfold word
    rw [byte_ofBytes _ below (Nat.le_refl _), Nat.zero_add]
  rw [← own]
  cases data with
  | imm64 val =>
      change word new 0 bytes = val.setWidth _ at described
      change byte (word new 0 bytes) i = byte (val.setWidth 128) i
      rw [described, byte_setWidth val (by omega), byte_setWidth val (by omega)]
  | imm128 val =>
      change word new 0 bytes = val.setWidth _ at described
      change byte (word new 0 bytes) i = byte val i
      rw [described, byte_setWidth val (by omega)]
  | ptr type nr ptrOffset =>
      change (if i = 0 then ofPtr type else tailOf type) = .immediate at imm
      split at imm <;> cases type <;> cases imm
  | dead => cases imm
  | unknown => cases imm
  | tainted => cases imm

theorem ptr_of_written {data : DynamicValue} {i : Nat} {old : Element} {type : PtrType}
    (head : (writtenElement data i old).type = ofPtr type) :
    i = 0 ∧ ∃ nr ptrOffset, data = .ptr type nr ptrOffset := by
  cases data with
  | ptr other nr ptrOffset =>
      change (if i = 0 then ofPtr other else tailOf other) = ofPtr type at head
      split at head
      · rename_i first
        refine ⟨first, nr, ptrOffset, ?_⟩
        cases other <;> cases type <;> first | rfl | cases head
      · cases other <;> cases type <;> cases head
  | imm64 val => cases type <;> cases head
  | imm128 val => cases type <;> cases head
  | dead => cases type <;> cases head
  | unknown => cases type <;> cases head
  | tainted => cases type <;> cases head

theorem Describes.setElements {base : DynamicValue.PtrBase} {estate result : Elements}
    {bytes new : Nat → BitVec 8} (describes : estate.Describes base bytes)
    (shape : estate.WellFormed) {data : DynamicValue} {byteOffset count : Nat}
    (positive : 0 < count) (short : count ≤ 16) (room : count + byteOffset ≤ estate.size)
    (small : byteOffset < 2 ^ 31) (fits : FitsBytes data count) (smallNr : data.SmallNr)
    (noInner : estate.NoInnerHead byteOffset count)
    (described : data.Describes base (word new 0 count))
    (returned : estate.setElements byteOffset count data false = .ok result) :
    result.Describes base (overwrite bytes byteOffset count new) := by
  obtain ⟨marked, mark, written⟩ :=
    shape.setElements_eq data positive room small fits noInner
  rw [written] at returned
  cases returned
  constructor
  · intro k inside imm
    by_cases here : byteOffset ≤ k ∧ k < byteOffset + count
    · unfold type at imm
      rw [elem_modify, if_pos here] at imm ⊢
      unfold overwrite
      rw [if_pos here]
      exact byte_of_written described (by omega) short imm
    · rw [type_modify, if_neg here] at imm
      unfold overwrite
      rw [if_neg here, elem_modify, if_neg here, (mark.kept k).1]
      rw [size_modify, mark.size_eq] at inside
      apply describes.imm k inside
      rcases mark.outside k (by omega) with same | ⟨h, ptr, _, _, _, _, _, _, wiped⟩
      · rw [← same]
        exact imm
      · rw [wiped] at imm
        cases ptr <;> cases imm
  · intro h ptr inside head
    by_cases here : byteOffset ≤ h ∧ h < byteOffset + count
    · unfold type at head
      rw [elem_modify, if_pos here] at head
      obtain ⟨first, nr, ptrOffset, rfl⟩ := ptr_of_written head
      have start : h = byteOffset := by omega
      subst start
      have eight : count = 8 := fits.1 rfl
      subst eight
      have concrete : word (overwrite bytes h 8 new) h 8 = word new 0 8 := by
        apply word_congr
        intro i below
        unfold overwrite
        rw [if_pos (by omega), Nat.add_sub_cancel_left, Nat.zero_add]
      have stored : (marked.modify h 8 (writtenElement (.ptr ptr nr ptrOffset))).readData 64 h 8 =
          ptrOffset := by
        unfold readData
        refine Eq.trans (ofBytes_congr ?_) (ofBytes_byte ptrOffset (n := 8) (Nat.le_refl 64))
        intro i below
        rw [elem_modify, if_pos (by omega), Nat.add_sub_cancel_left]
        rfl
      rw [concrete, stored, elem_modify, if_pos here, Nat.sub_self]
      change _ = base ptr (BitVec.ofNat 8 nr).toNat + ptrOffset
      rw [BitVec.toNat_ofNat, Nat.mod_eq_of_lt smallNr]
      change word new 0 8 = (base ptr nr + ptrOffset).setWidth 64 at described
      rw [described, BitVec.setWidth_eq]
    · rw [type_modify, if_neg here] at head
      have insideMarked : h < marked.size := inside
      have apart := mark.shape.apart_of_plain mark.plain insideMarked head
      have before : estate.type h = ofPtr ptr := by
        rcases mark.outside h (by omega) with same | ⟨other, kind, _, _, _, _, _, _, wiped⟩
        · rw [← same]
          exact head
        · exact absurd head (ofPtr_ne_of_isPtr_eq_false (by rw [wiped, isPtr_cleared]) ptr)
      have found := describes.ptr h ptr (by rw [← mark.size_eq]; exact inside) before
      have concrete : word (overwrite bytes byteOffset count new) h 8 = word bytes h 8 := by
        apply word_congr
        intro i below
        unfold overwrite
        rw [if_neg (by omega)]
      have stored : (marked.modify byteOffset count (writtenElement data)).readData 64 h 8 =
          estate.readData 64 h 8 := by
        unfold readData
        apply ofBytes_congr
        intro i below
        rw [elem_modify, if_neg (by omega), (mark.kept _).1]
      rw [concrete, stored, found, elem_modify, if_neg here, (mark.kept h).2]

end Elements

end Drob
