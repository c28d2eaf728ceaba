import Drob.State.Describes

/-!
What a read answers, from the types of the bytes that it goes over: bytes of one kind, a
complete pointer, and a byte that makes the answer tainted or unknown.
-/

namespace Drob

open DynamicValueType LittleEndian

namespace Elements

/-! ### Reads of equal bytes -/

theorem scanLoop_congr {left right : Elements} {l r : Nat} (n i skip : Nat) (scan : Scan)
    (same : ∀ k, i ≤ k → k < i + n → left.type (l + k) = right.type (r + k)) :
    scanLoop left l n i skip scan = scanLoop right r n i skip scan := by
  induction n generalizing i skip scan with
  | zero => rfl
  | succ n ih =>
      have rest (k : Nat) (later : i + 1 ≤ k) (below : k < i + 1 + n) :
          left.type (l + k) = right.type (r + k) := same k (by omega) (by omega)
      cases skip with
      | succ skip => exact ih (i + 1) skip scan rest
      | zero =>
          unfold scanLoop
          dsimp only
          rw [same i (Nat.le_refl i) (by omega)]
          exact ih (i + 1) _ _ rest

theorem readData_congr {left right : Elements} {l r w count : Nat}
    (same : ∀ i, i < count → left.elem (l + i) = right.elem (r + i)) :
    left.readData w l count = right.readData w r count := by
  apply ofBytes_congr
  intro i below
  rw [same i below]

theorem getElements_congr {left right : Elements} {l r bytes : Nat}
    (same : ∀ i, i < bytes → left.elem (l + i) = right.elem (r + i)) :
    left.getElements l bytes = right.getElements r bytes := by
  have scanEq : scanLoop left l bytes 0 0 .empty = scanLoop right r bytes 0 0 .empty := by
    apply scanLoop_congr
    intro k _ below
    exact congrArg Element.type (same k (by omega))
  have ptrEq (eight : bytes = 8) : left.readPtr l = right.readPtr r := by
    subst eight
    have first := same 0 (by omega)
    unfold readPtr Elements.type
    rw [readData_congr same, show left.elem l = right.elem r from first]
  unfold getElements
  dsimp only
  rw [scanEq]
  generalize scanLoop right r bytes 0 0 .empty = scan
  by_cases taints : (scan.hasTainted ||
      (scan.hasStackPtr && ((scan.isMixed || scan.several) || bytes != 8))) = true
  · rw [if_pos taints, if_pos taints]
  · rw [if_neg taints, if_neg taints]
    split
    · rfl
    · split
      · rename_i mixed stackPtr
        have eight : bytes = 8 := by
          by_contra other
          apply taints
          rw [stackPtr, bne_iff_ne.mpr other]
          simp
        rw [ptrEq eight]
      · split
        · split
          · rfl
          · rename_i eight
            rw [ptrEq (not_not.mp eight)]
        · rw [readData_congr same]
          by_cases wide : bytes = 16
          · subst wide
            rw [readData_congr same]
          · rw [if_neg wide, if_neg wide]

/-! ### Bytes of one kind -/

theorem scanLoop_skip (estate : Elements) (byteOffset n i skip : Nat) (scan : Scan)
    (all : n ≤ skip) : scanLoop estate byteOffset n i skip scan = scan := by
  induction n generalizing i skip with
  | zero => rfl
  | succ n ih =>
      cases skip with
      | zero => omega
      | succ skip => exact ih (i + 1) skip (by omega)

def Uniform : DynamicValueType → Prop
  | .dead | .unknown | .tainted | .immediate => True
  | _ => False

theorem add_add {type : DynamicValueType} (uniform : Uniform type) (i j : Nat) :
    (Scan.empty.add i type).add j type = Scan.empty.add 0 type := by
  cases type <;> first | rfl | exact absurd uniform id

theorem scanLoop_uniform {estate : Elements} {byteOffset : Nat} {type : DynamicValueType}
    (uniform : Uniform type) (n i : Nat)
    (types : ∀ k, i ≤ k → k < i + n → estate.type (byteOffset + k) = type) :
    scanLoop estate byteOffset n i 0 (Scan.empty.add 0 type) = Scan.empty.add 0 type := by
  have notPtr : type.isPtr = false := by
    cases type <;> first | rfl | exact absurd uniform id
  induction n generalizing i with
  | zero => rfl
  | succ n ih =>
      unfold scanLoop
      dsimp only
      rw [types i (Nat.le_refl i) (by omega), notPtr, add_add uniform]
      exact ih (i + 1) (fun k later below => types k (by omega) (by omega))

theorem scan_uniform {estate : Elements} {byteOffset bytes : Nat} {type : DynamicValueType}
    (uniform : Uniform type) (positive : 0 < bytes)
    (types : ∀ k, k < bytes → estate.type (byteOffset + k) = type) :
    scanLoop estate byteOffset bytes 0 0 .empty = Scan.empty.add 0 type := by
  obtain ⟨n, rfl⟩ : ∃ n, bytes = n + 1 := ⟨bytes - 1, by omega⟩
  have notPtr : type.isPtr = false := by
    cases type <;> first | rfl | exact absurd uniform id
  unfold scanLoop
  dsimp only
  rw [types 0 positive, notPtr]
  exact scanLoop_uniform uniform n 1 (fun k _ below => types k (by omega))

def resized (data : DynamicValue) (bytes : Nat) : DynamicValue :=
  match data with
  | .imm64 val =>
      if bytes = 16 then .imm128 (val.setWidth 128)
      else .imm64 ((val.setWidth (8 * bytes)).setWidth 64)
  | .imm128 val =>
      if bytes = 16 then .imm128 val else .imm64 ((val.setWidth (8 * bytes)).setWidth 64)
  | other => other

theorem readData_byte {estate : Elements} {byteOffset w bytes : Nat} {val : BitVec 128}
    (data : ∀ i, i < bytes → (estate.elem (byteOffset + i)).data = byte val i) :
    estate.readData w byteOffset bytes = (val.setWidth (8 * bytes)).setWidth w := by
  have exact := ofBytes_byte_setWidth val (rfl : 8 * bytes = 8 * bytes)
  have same : estate.readData w byteOffset bytes = ofBytes w (byte val) bytes :=
    ofBytes_congr data
  rw [same, ← exact, setWidth_ofBytes _ (Nat.le_refl _)]

theorem getElements_immediate {estate : Elements} {byteOffset bytes : Nat} {val : BitVec 128}
    (size : bytes = 1 ∨ bytes = 2 ∨ bytes = 4 ∨ bytes = 8 ∨ bytes = 16)
    (types : ∀ k, k < bytes → estate.type (byteOffset + k) = .immediate)
    (data : ∀ i, i < bytes → (estate.elem (byteOffset + i)).data = byte val i) :
    estate.getElements byteOffset bytes = .ok (resized (.imm128 val) bytes) := by
  have positive : 0 < bytes := by omega
  unfold getElements
  dsimp only
  rw [scan_uniform (show Uniform .immediate from trivial) positive types]
  change (if bytes = 1 ∨ bytes = 2 ∨ bytes = 4 ∨ bytes = 8 then
      Except.ok (DynamicValue.imm64 (estate.readData 64 byteOffset bytes))
    else if bytes = 16 then .ok (.imm128 (estate.readData 128 byteOffset 16))
    else Except.error (Failure.assertion "drob_assert_not_reached()")) = _
  unfold resized
  by_cases wide : bytes = 16
  · subst wide
    rw [if_neg (by decide), if_pos rfl]
    dsimp only
    rw [if_pos rfl, readData_byte data, BitVec.setWidth_eq]
    exact congrArg (fun read => Except.ok (DynamicValue.imm128 read)) (BitVec.setWidth_eq val)
  · rw [if_pos (by omega)]
    dsimp only
    rw [if_neg wide, readData_byte data]

theorem getElements_plain {estate : Elements} {byteOffset bytes : Nat} (positive : 0 < bytes)
    {data : DynamicValue} {type : DynamicValueType}
    (plain : data = .dead ∧ type = .dead ∨ data = .unknown ∧ type = .unknown ∨
      data = .tainted ∧ type = .tainted)
    (types : ∀ k, k < bytes → estate.type (byteOffset + k) = type) :
    estate.getElements byteOffset bytes = .ok data := by
  unfold getElements
  rcases plain with ⟨rfl, rfl⟩ | ⟨rfl, rfl⟩ | ⟨rfl, rfl⟩
  · rw [scan_uniform (show Uniform .dead from trivial) positive types]
    rfl
  · rw [scan_uniform (show Uniform .unknown from trivial) positive types]
    rfl
  · rw [scan_uniform (show Uniform .tainted from trivial) positive types]
    rfl

theorem getElements_ptr {estate : Elements} {byteOffset : Nat} {type : PtrType}
    (head : estate.type byteOffset = ofPtr type) :
    estate.getElements byteOffset 8 =
      .ok (.ptr type (estate.elem byteOffset).nr.toNat (estate.readData 64 byteOffset 8)) := by
  have scanned : scanLoop estate byteOffset 8 0 0 .empty = Scan.empty.add 0 (ofPtr type) := by
    unfold scanLoop
    dsimp only
    rw [Nat.add_zero byteOffset, head, isPtr_ofPtr, if_pos rfl]
    exact scanLoop_skip estate byteOffset 7 1 7 _ (Nat.le_refl 7)
  have answer : estate.readPtr byteOffset =
      .ptr type (estate.elem byteOffset).nr.toNat (estate.readData 64 byteOffset 8) := by
    unfold readPtr
    rw [head, ptr?_ofPtr]
  unfold getElements
  rw [scanned, ← answer]
  cases type <;> rfl

/-! ### A byte that decides -/

structure Sets (type : DynamicValueType) (flag : Scan → Bool) : Prop where
  sets : ∀ (scan : Scan) (i : Nat), flag (scan.add i type) = true
  keeps : ∀ (scan : Scan) (i : Nat) (other : DynamicValueType), flag scan = true →
    flag (scan.add i other) = true

theorem sets_tainted : Sets .tainted Scan.hasTainted where
  sets := fun _ _ => rfl
  keeps := by
    intro scan i other before
    cases other <;> first | exact before | rfl

theorem sets_unknown : Sets .unknown Scan.hasUnknown where
  sets := fun _ _ => rfl
  keeps := by
    intro scan i other before
    cases other <;> first | exact before | rfl

variable {flag : Scan → Bool} {type : DynamicValueType}

theorem scanLoop_keeps (sets : Sets type flag) (estate : Elements) (byteOffset n i skip : Nat)
    (scan : Scan) (before : flag scan = true) :
    flag (scanLoop estate byteOffset n i skip scan) = true := by
  induction n generalizing i skip scan with
  | zero => exact before
  | succ n ih =>
      cases skip with
      | succ skip => exact ih (i + 1) skip scan before
      | zero => exact ih (i + 1) _ _ (sets.keeps scan i _ before)

theorem scanLoop_sets (sets : Sets type flag) {estate : Elements} {byteOffset n i skip k : Nat}
    (scan : Scan) (notTail : type.isTail = false)
    (heads : ∀ p, i ≤ p → (estate.type (byteOffset + p)).isPtr = true →
      ∀ j, 0 < j → j < 8 → p + j < i + n → (estate.type (byteOffset + (p + j))).isTail = true)
    (skipped : ∀ p, i ≤ p → p < i + skip → p < i + n →
      (estate.type (byteOffset + p)).isTail = true)
    (reached : i ≤ k) (below : k < i + n) (found : estate.type (byteOffset + k) = type) :
    flag (scanLoop estate byteOffset n i skip scan) = true := by
  induction n generalizing i skip scan with
  | zero => omega
  | succ n ih =>
      have later (p : Nat) (after : i + 1 ≤ p)
          (head : (estate.type (byteOffset + p)).isPtr = true) (j : Nat) (positive : 0 < j)
          (small : j < 8) (inside : p + j < i + 1 + n) :
          (estate.type (byteOffset + (p + j))).isTail = true :=
        heads p (by omega) head j positive small (by omega)
      cases skip with
      | succ skip =>
          have other : k ≠ i := by
            rintro rfl
            have tail := skipped k (Nat.le_refl k) (by omega) (by omega)
            rw [found, notTail] at tail
            cases tail
          exact ih scan later
            (fun p after before inside => skipped p (by omega) (by omega) (by omega))
            (by omega) (by omega)
      | zero =>
          unfold scanLoop
          dsimp only
          by_cases here : k = i
          · subst here
            rw [found]
            exact scanLoop_keeps sets _ _ _ _ _ _ (sets.sets scan k)
          · refine ih _ later ?_ (by omega) (by omega)
            intro p after before inside
            cases isPtr : (estate.type (byteOffset + i)).isPtr with
            | false =>
                rw [isPtr, if_neg Bool.false_ne_true] at before
                omega
            | true =>
                rw [isPtr, if_pos rfl] at before
                have tail := heads i (Nat.le_refl i) isPtr (p - i) (by omega) (by omega) (by omega)
                rwa [show i + (p - i) = p by omega] at tail

theorem getElements_tainted {estate : Elements} {byteOffset bytes k : Nat}
    (heads : ∀ p, (estate.type (byteOffset + p)).isPtr = true →
      ∀ j, 0 < j → j < 8 → p + j < bytes → (estate.type (byteOffset + (p + j))).isTail = true)
    (below : k < bytes) (found : estate.type (byteOffset + k) = .tainted) :
    estate.getElements byteOffset bytes = .ok .tainted := by
  have taints : (scanLoop estate byteOffset bytes 0 0 .empty).hasTainted = true :=
    scanLoop_sets sets_tainted .empty rfl
      (fun p _ head j positive small inside => heads p head j positive small (by omega))
      (fun p _ _ _ => by omega) (Nat.zero_le k) (by omega) found
  unfold getElements
  dsimp only
  rw [taints, Bool.true_or, if_pos rfl]

theorem getElements_unknown {estate : Elements} {byteOffset bytes k : Nat}
    (heads : ∀ p, (estate.type (byteOffset + p)).isPtr = true →
      ∀ j, 0 < j → j < 8 → p + j < bytes → (estate.type (byteOffset + (p + j))).isTail = true)
    (below : k < bytes) (found : estate.type (byteOffset + k) = .unknown) :
    estate.getElements byteOffset bytes = .ok .tainted ∨
      estate.getElements byteOffset bytes = .ok .unknown := by
  have isUnknown : (scanLoop estate byteOffset bytes 0 0 .empty).hasUnknown = true :=
    scanLoop_sets sets_unknown .empty rfl
      (fun p _ head j positive small inside => heads p head j positive small (by omega))
      (fun p _ _ _ => by omega) (Nat.zero_le k) (by omega) found
  unfold getElements
  dsimp only
  generalize scanLoop estate byteOffset bytes 0 0 .empty = scan at isUnknown
  split
  · exact Or.inl rfl
  · right
    split
    · rfl
    · rename_i single
      rw [Bool.or_eq_true, not_or, Bool.not_eq_true, Bool.not_eq_true] at single
      have counted := of_decide_eq_false single.2
      rw [isUnknown, Bool.toNat_true] at counted
      rw [Bool.toNat_eq_zero.mp (by omega : scan.hasStackPtr.toNat = 0),
        Bool.toNat_eq_zero.mp (by omega : scan.hasPtr.toNat = 0),
        Bool.toNat_eq_zero.mp (by omega : scan.hasImm.toNat = 0),
        Bool.toNat_eq_zero.mp (by omega : scan.hasDead.toNat = 0)]
      rfl

end Elements

end Drob
