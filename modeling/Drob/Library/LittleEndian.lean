import Mathlib

/-!
Little-endian byte sequences and bit vectors. A sequence is a function from
positions to bytes; a word is read from its first `n` bytes.
-/

namespace LittleEndian

variable {w : Nat}

/-- Byte `i` of a word, zero past its end. -/
def byte (word : BitVec w) (i : Nat) : BitVec 8 :=
  word.extractLsb' (8 * i) 8

/-- The word whose byte `i` is `bytes i` for each `i` below the count. -/
def ofBytes (w : Nat) (bytes : Nat → BitVec 8) : Nat → BitVec w
  | 0 => 0
  | n + 1 => ofBytes w bytes n ||| ((bytes n).setWidth w <<< (8 * n))

theorem getLsbD_byte (word : BitVec w) (i k : Nat) :
    (byte word i).getLsbD k = (decide (k < 8) && word.getLsbD (8 * i + k)) := by
  unfold byte
  rw [BitVec.getLsbD_extractLsb']

theorem getLsbD_ofBytes (bytes : Nat → BitVec 8) (n k : Nat) :
    (ofBytes w bytes n).getLsbD k =
      (decide (k < w) && decide (k < 8 * n) && (bytes (k / 8)).getLsbD (k % 8)) := by
  induction n with
  | zero => simp [ofBytes]
  | succ n ih =>
      rw [ofBytes, BitVec.getLsbD_or, ih, BitVec.getLsbD_shiftLeft,
        BitVec.getLsbD_setWidth]
      by_cases inside : k < w
      · by_cases earlier : k < 8 * n
        · have larger : k < 8 * (n + 1) := by omega
          simp [inside, earlier, larger]
        · by_cases last : k < 8 * (n + 1)
          · have quotient : k / 8 = n := by omega
            have remainder : k % 8 = k - 8 * n := by omega
            have below : k - 8 * n < w := by omega
            simp [inside, earlier, last, quotient, remainder, below]
          · have beyond : 8 ≤ k - 8 * n := by omega
            simp [inside, earlier, last, BitVec.getLsbD_of_ge _ _ beyond]
      · simp [inside]

theorem byte_ofBytes (bytes : Nat → BitVec 8) {n i : Nat} (inside : i < n)
    (fits : 8 * n ≤ w) : byte (ofBytes w bytes n) i = bytes i := by
  apply BitVec.eq_of_getLsbD_eq
  intro k below
  have inWord : 8 * i + k < w := by omega
  have inBytes : 8 * i + k < 8 * n := by omega
  have quotient : (8 * i + k) / 8 = i := by omega
  have remainder : (8 * i + k) % 8 = k := by omega
  rw [getLsbD_byte, getLsbD_ofBytes, quotient, remainder]
  simp [below, inWord, inBytes]

theorem ofBytes_byte (word : BitVec w) {n : Nat} (covers : w ≤ 8 * n) :
    ofBytes w (byte word) n = word := by
  apply BitVec.eq_of_getLsbD_eq
  intro k below
  have inBytes : k < 8 * n := by omega
  have split : 8 * (k / 8) + k % 8 = k := by omega
  have remainder : k % 8 < 8 := by omega
  rw [getLsbD_ofBytes, getLsbD_byte, split]
  simp [below, inBytes, remainder]

theorem ofBytes_congr {left right : Nat → BitVec 8} {n : Nat}
    (same : ∀ i, i < n → left i = right i) :
    ofBytes w left n = ofBytes w right n := by
  induction n with
  | zero => rfl
  | succ n ih =>
      rw [ofBytes, ofBytes, same n (Nat.lt_succ_self n),
        ih (fun i below => same i (Nat.lt_succ_of_lt below))]

theorem ofBytes_byte_setWidth (word : BitVec w) {v n : Nat} (exact : v = 8 * n) :
    ofBytes v (byte word) n = word.setWidth v := by
  apply BitVec.eq_of_getLsbD_eq
  intro k below
  have inBytes : k < 8 * n := by omega
  have split : 8 * (k / 8) + k % 8 = k := by omega
  have remainder : k % 8 < 8 := by omega
  rw [getLsbD_ofBytes, getLsbD_byte, split, BitVec.getLsbD_setWidth]
  simp [below, inBytes, remainder]

theorem byte_setWidth (word : BitVec w) {v i : Nat} (inside : 8 * (i + 1) ≤ v) :
    byte (word.setWidth v) i = byte word i := by
  apply BitVec.eq_of_getLsbD_eq
  intro k below
  have inTarget : 8 * i + k < v := by omega
  rw [getLsbD_byte, getLsbD_byte, BitVec.getLsbD_setWidth]
  simp [inTarget]

theorem byte_zero (i : Nat) : byte (0 : BitVec w) i = 0 := by
  apply BitVec.eq_of_getLsbD_eq
  intro k below
  rw [getLsbD_byte]
  simp

end LittleEndian
