import Drob.CodeGeneration.BinaryPool
import Drob.Library.Result

/-!
Decoding a block of instructions. The decoder gets a window of bytes from each address
on: first one that should end with the page, and after a failure one that reaches into
the next page.
-/

namespace Drob

inductive DecodeRet where
  | Ok | NOP | UnhandledInstr | UnsupportedInstr | BrokenInstr | EOB
  deriving DecidableEq

def ARCH_MAX_ILEN : Nat := 15

/-- The decoder of the platform with the conversion of what it decodes; `ξ` are decoded
instructions and `ι` the ones that the conversion makes of them. -/
structure Decoder (ξ ι : Type) where
  /-- `xed_decode` on the bytes of the window. -/
  xed_decode : List (BitVec 8) → Option ξ
  /-- `xed_decoded_inst_get_length` -/
  length : ξ → Nat
  segmentOverride : ξ → Bool
  isNop : ξ → Bool
  convert_decoded : BitVec 64 → ξ → Except Failure (DecodeRet × List ι)
  /-- The conversion returns instructions, and whether the block ends. -/
  converted : ∀ itext xedd ret instrs, convert_decoded itext xedd = .ok (ret, instrs) →
    (ret = .Ok ∨ ret = .EOB) ∧ instrs ≠ []

/-- The decoder reads the bytes of one instruction of at most 15 bytes, and an incomplete
instruction is an error. -/
structure Decoder.Complete {ξ ι : Type} (decoder : Decoder ξ ι) : Prop where
  fits : ∀ bytes xedd, decoder.xed_decode bytes = some xedd →
    0 < decoder.length xedd ∧ decoder.length xedd ≤ ARCH_MAX_ILEN ∧
      decoder.length xedd ≤ bytes.length
  own : ∀ bytes xedd, decoder.xed_decode bytes = some xedd →
    ∀ other, bytes.take (decoder.length xedd) = other.take (decoder.length xedd) →
      decoder.length xedd ≤ other.length → decoder.xed_decode other = some xedd

def codeBytes (image : BitVec 64 → BitVec 8) (itext : BitVec 64) (count : Nat) :
    List (BitVec 8) :=
  (List.range count).map (fun i => image (itext + BitVec.ofNat 64 i))

section Decode

variable {ξ ι : Type} (decoder : Decoder ξ ι) (image : BitVec 64 → BitVec 8)

def arch_decode_one (itext : BitVec 64) (max_ilen : Nat) :
    Except Failure (DecodeRet × BitVec 64 × List ι) :=
  match decoder.xed_decode (codeBytes image itext max_ilen) with
  | none => .ok (.BrokenInstr, itext, [])
  | some xedd =>
      let next := itext + BitVec.ofNat 64 (decoder.length xedd % 256)
      if decoder.segmentOverride xedd then
        .error (.exception "Segment override is not supported")
      else if decoder.isNop xedd then .ok (.NOP, next, [])
      else do
        let (ret, instrs) ← decoder.convert_decoded itext xedd
        .ok (ret, next, instrs)

def DIV_ROUND_UP (n d : BitVec 64) : BitVec 64 :=
  (n + d - 1) / d

/-- The first window, as a `uint16_t` that is clamped. -/
def firstWindow (itext : BitVec 64) : Nat :=
  let page := BitVec.ofNat 64 ARCH_PAGE_SIZE
  let max_ilen := ((DIV_ROUND_UP itext page - itext).setWidth 16).toNat
  if max_ilen = 0 ∨ ARCH_MAX_ILEN < max_ilen then ARCH_MAX_ILEN else max_ilen

/-- The windows that the decoder is given at an address, with what it returns last. -/
def decodeWindows (itext : BitVec 64) :
    List Nat × Except Failure (DecodeRet × BitVec 64 × List ι) :=
  let max_ilen := firstWindow itext
  match arch_decode_one decoder image itext max_ilen with
  | .ok (.BrokenInstr, next, instrs) =>
      if max_ilen < ARCH_MAX_ILEN then
        ([max_ilen, ARCH_PAGE_SIZE], arch_decode_one decoder image next ARCH_PAGE_SIZE)
      else ([max_ilen], .ok (.BrokenInstr, next, instrs))
  | other => ([max_ilen], other)

def checkDecoded (decoded : Except Failure (DecodeRet × BitVec 64 × List ι)) :
    Except Failure (Option (BitVec 64) × List ι) := do
  let (ret, next, instrs) ← decoded
  match ret with
  | .UnhandledInstr => .error (.exception "Unhandled instruction")
  | .UnsupportedInstr => .error (.exception "Unsupported instruction")
  | .BrokenInstr => .error (.exception "Broken instruction stream")
  | .NOP => .ok (some next, [])
  | .EOB => if instrs = [] then .error (.assertion "!instrs.empty()") else .ok (none, instrs)
  | .Ok => if instrs = [] then .error (.assertion "!instrs.empty()") else .ok (some next, instrs)

/-- The loop of `decodeBlock` over one way to decode an instruction; nothing is returned when
the fuel runs out, since code may go on forever. -/
def decodeLoop (decode : BitVec 64 → Except Failure (DecodeRet × BitVec 64 × List ι)) :
    Nat → BitVec 64 → Option (Except Failure (List ι))
  | 0, _ => none
  | fuel + 1, itext =>
      match checkDecoded (decode itext) with
      | .error failure => some (.error failure)
      | .ok (none, instrs) => some (.ok instrs)
      | .ok (some next, instrs) =>
          (decodeLoop decode fuel next).map (fun later =>
            match later with
            | .ok rest => .ok (instrs ++ rest)
            | .error failure => .error failure)

def decodeBlock (fuel : Nat) (itext : BitVec 64) : Option (Except Failure (List ι)) :=
  decodeLoop (fun itext => (decodeWindows decoder image itext).2) fuel itext

inductive Decodes (start : BitVec 64) : BitVec 64 → Prop
  | start : Decodes start start
  | next {itext later : BitVec 64} {instrs : List ι} (decodes : Decodes start itext)
      (decoded : checkDecoded (decodeWindows decoder image itext).2 = .ok (some later, instrs)) :
      Decodes start later

/-- The bytes from an address to the end of its page. -/
def bytesLeft (itext : BitVec 64) : Nat :=
  ARCH_PAGE_SIZE - itext.toNat % ARCH_PAGE_SIZE

/-- The first window ends with the page at the latest, and bytes of the next page are given
only if the ones that are left in the page cannot be decoded. -/
structure StaysInPage (itext : BitVec 64) : Prop where
  positive : ∀ window ∈ (decodeWindows decoder image itext).1, 0 < window
  first : ∀ window ∈ (decodeWindows decoder image itext).1.head?, window ≤ bytesLeft itext
  retry : ∀ window ∈ (decodeWindows decoder image itext).1, bytesLeft itext < window →
    decoder.xed_decode (codeBytes image itext (bytesLeft itext)) = none

/-- The block is decoded page by page, as with any window that is large enough. -/
structure DecodesByPage (start : BitVec 64) : Prop where
  stays : ∀ itext, Decodes decoder image start itext → StaysInPage decoder image itext
  same : ∀ limit, ARCH_MAX_ILEN ≤ limit → ∀ fuel, decodeBlock decoder image fuel start =
    decodeLoop (fun itext => arch_decode_one decoder image itext limit) fuel start

/-- What `DIV_ROUND_UP` is short of the end of the page, as a `uint16_t`. -/
def roundingError (itext : BitVec 64) : Nat :=
  (ARCH_PAGE_SIZE - 1) * (itext.toNat / ARCH_PAGE_SIZE + 1) % 2 ^ 16

/-- No instruction can reach past the page, or the error is small; and where the error leaves a
window of fewer than 15 bytes, an instruction that ends in the page is not longer. -/
def AddressFits (itext : BitVec 64) : Prop :=
  (ARCH_MAX_ILEN ≤ bytesLeft itext ∨ roundingError itext < bytesLeft itext) ∧
    ∀ count < ARCH_MAX_ILEN, 0 < count → bytesLeft itext < ARCH_PAGE_SIZE →
      (roundingError itext + count) % 2 ^ 16 = bytesLeft itext →
        ∀ xedd, decoder.xed_decode (codeBytes image itext (bytesLeft itext)) = some xedd →
          decoder.length xedd ≤ count

/-- The window ends with the page at the latest, and an instruction that ends in the page fits
into it. -/
def WindowFits (itext : BitVec 64) : Prop :=
  firstWindow itext ≤ bytesLeft itext ∧
    (firstWindow itext < ARCH_MAX_ILEN → bytesLeft itext < ARCH_PAGE_SIZE →
      ∀ xedd, decoder.xed_decode (codeBytes image itext (bytesLeft itext)) = some xedd →
        decoder.length xedd ≤ firstWindow itext)

/-! ### Windows -/

variable {decoder image}

theorem take_codeBytes (itext : BitVec 64) {count total : Nat} (le : count ≤ total) :
    (codeBytes image itext total).take count = codeBytes image itext count := by
  unfold codeBytes
  rw [← List.map_take, List.take_range, Nat.min_eq_left le]

theorem length_codeBytes (itext : BitVec 64) (count : Nat) :
    (codeBytes image itext count).length = count := by
  unfold codeBytes
  rw [List.length_map, List.length_range]

theorem Decoder.Complete.grow (complete : decoder.Complete) {itext : BitVec 64}
    {window other : Nat} {xedd : ξ}
    (decoded : decoder.xed_decode (codeBytes image itext window) = some xedd)
    (enough : decoder.length xedd ≤ other) :
    decoder.xed_decode (codeBytes image itext other) = some xedd := by
  have inside := (complete.fits _ _ decoded).2.2
  rw [length_codeBytes] at inside
  refine complete.own _ _ decoded _ ?_ ?_
  · rw [take_codeBytes itext inside, take_codeBytes itext enough]
  · rw [length_codeBytes]
    exact enough

theorem Decoder.Complete.large (complete : decoder.Complete) (itext : BitVec 64)
    {window other : Nat} (windowLarge : ARCH_MAX_ILEN ≤ window)
    (otherLarge : ARCH_MAX_ILEN ≤ other) :
    decoder.xed_decode (codeBytes image itext window) =
      decoder.xed_decode (codeBytes image itext other) := by
  cases decoded : decoder.xed_decode (codeBytes image itext window) with
  | some xedd =>
      exact (complete.grow decoded ((complete.fits _ _ decoded).2.1.trans otherLarge)).symm
  | none =>
      cases otherDecoded : decoder.xed_decode (codeBytes image itext other) with
      | none => rfl
      | some xedd =>
          have same := complete.grow otherDecoded
            ((complete.fits _ _ otherDecoded).2.1.trans windowLarge)
          rw [decoded] at same
          cases same

theorem firstWindow_pos (itext : BitVec 64) : 0 < firstWindow itext := by
  unfold firstWindow
  dsimp only
  split
  · decide
  · rename_i inRange
    omega

theorem firstWindow_le (itext : BitVec 64) : firstWindow itext ≤ ARCH_MAX_ILEN := by
  unfold firstWindow
  dsimp only
  split
  · exact le_rfl
  · rename_i inRange
    exact Nat.le_of_not_lt (fun large => inRange (Or.inr large))

theorem bytesLeft_pos (itext : BitVec 64) : 0 < bytesLeft itext := by
  unfold bytesLeft
  have inside : itext.toNat % ARCH_PAGE_SIZE < ARCH_PAGE_SIZE := Nat.mod_lt _ (by decide)
  omega

theorem toNat_window {itext : BitVec 64} (inner : bytesLeft itext < ARCH_PAGE_SIZE) :
    ((DIV_ROUND_UP itext (BitVec.ofNat 64 ARCH_PAGE_SIZE) - itext).setWidth 16).toNat =
      (bytesLeft itext + 2 ^ 16 - roundingError itext) % 2 ^ 16 := by
  have below := itext.isLt
  unfold DIV_ROUND_UP roundingError
  unfold bytesLeft at inner ⊢
  rw [BitVec.toNat_setWidth, BitVec.toNat_sub, BitVec.toNat_udiv, BitVec.toNat_sub,
    BitVec.toNat_add]
  change (2 ^ 64 - itext.toNat +
    (2 ^ 64 - 1 + (itext.toNat + 4096) % 2 ^ 64) % 2 ^ 64 / 4096) % 2 ^ 64 % 2 ^ 16 =
      (4096 - itext.toNat % 4096 + 2 ^ 16 - 4095 * (itext.toNat / 4096 + 1) % 2 ^ 16) % 2 ^ 16
  change 4096 - itext.toNat % 4096 < 4096 at inner
  omega

theorem firstWindow_inner {itext : BitVec 64} (inner : bytesLeft itext < ARCH_PAGE_SIZE) :
    firstWindow itext =
      if (bytesLeft itext + 2 ^ 16 - roundingError itext) % 2 ^ 16 = 0 ∨
          ARCH_MAX_ILEN < (bytesLeft itext + 2 ^ 16 - roundingError itext) % 2 ^ 16 then
        ARCH_MAX_ILEN
      else (bytesLeft itext + 2 ^ 16 - roundingError itext) % 2 ^ 16 := by
  unfold firstWindow
  dsimp only
  rw [toNat_window inner]

theorem firstWindow_eq_iff {itext : BitVec 64} (inner : bytesLeft itext < ARCH_PAGE_SIZE)
    {count : Nat} (positive : 0 < count) (small : count < ARCH_MAX_ILEN) :
    firstWindow itext = count ↔ (roundingError itext + count) % 2 ^ 16 = bytesLeft itext := by
  have short : roundingError itext < 2 ^ 16 := Nat.mod_lt _ (by decide)
  have left := bytesLeft_pos itext
  rw [firstWindow_inner inner]
  unfold ARCH_PAGE_SIZE at inner
  unfold ARCH_MAX_ILEN at small ⊢
  split <;> omega

theorem firstWindow_le_bytesLeft_iff (itext : BitVec 64) :
    firstWindow itext ≤ bytesLeft itext ↔
      ARCH_MAX_ILEN ≤ bytesLeft itext ∨ roundingError itext < bytesLeft itext := by
  by_cases large : ARCH_MAX_ILEN ≤ bytesLeft itext
  · exact iff_of_true ((firstWindow_le itext).trans large) (Or.inl large)
  · have inner : bytesLeft itext < ARCH_PAGE_SIZE :=
      (Nat.lt_of_not_le large).trans (by decide)
    have short : roundingError itext < 2 ^ 16 := Nat.mod_lt _ (by decide)
    have left := bytesLeft_pos itext
    rw [firstWindow_inner inner]
    unfold ARCH_MAX_ILEN at large ⊢
    split <;> omega

theorem windowFits_iff_addressFits (itext : BitVec 64) :
    WindowFits decoder image itext ↔ AddressFits decoder image itext := by
  unfold WindowFits AddressFits
  rw [firstWindow_le_bytesLeft_iff]
  refine and_congr_right (fun _ => ?_)
  constructor
  · intro whole count small positive inner isWindow xedd decoded
    have windowEq := (firstWindow_eq_iff inner positive small).mpr isWindow
    rw [← windowEq] at small ⊢
    exact whole small inner xedd decoded
  · intro whole small inner xedd decoded
    have isWindow := (firstWindow_eq_iff inner (firstWindow_pos itext) small).mp rfl
    exact whole _ small (firstWindow_pos itext) inner isWindow xedd decoded

theorem arch_decode_one_some {itext : BitVec 64} {window : Nat} {xedd : ξ}
    (decoded : decoder.xed_decode (codeBytes image itext window) = some xedd)
    (next : BitVec 64) (instrs : List ι) :
    arch_decode_one decoder image itext window ≠ .ok (.BrokenInstr, next, instrs) := by
  intro broken
  unfold arch_decode_one at broken
  rw [decoded] at broken
  dsimp only at broken
  split at broken
  · cases broken
  · split at broken
    · cases broken
    · obtain ⟨⟨ret, converted⟩, convertedEq, same⟩ := bind_ok broken
      cases same
      rcases (decoder.converted _ _ _ _ convertedEq).1 with impossible | impossible <;>
        cases impossible

theorem arch_decode_one_none {itext : BitVec 64} {window : Nat}
    (failed : decoder.xed_decode (codeBytes image itext window) = none) :
    arch_decode_one decoder image itext window = .ok (.BrokenInstr, itext, []) := by
  unfold arch_decode_one
  rw [failed]

theorem arch_decode_one_congr {itext : BitVec 64} {window other : Nat}
    (same : decoder.xed_decode (codeBytes image itext window) =
      decoder.xed_decode (codeBytes image itext other)) :
    arch_decode_one decoder image itext window = arch_decode_one decoder image itext other := by
  unfold arch_decode_one
  rw [same]

theorem decodeWindows_some {itext : BitVec 64} {xedd : ξ}
    (decoded : decoder.xed_decode (codeBytes image itext (firstWindow itext)) = some xedd) :
    decodeWindows decoder image itext =
      ([firstWindow itext], arch_decode_one decoder image itext (firstWindow itext)) := by
  unfold decodeWindows
  dsimp only
  split
  · rename_i next instrs broken
    exact absurd broken (arch_decode_one_some decoded next instrs)
  · rfl

theorem decodeWindows_retry {itext : BitVec 64} (small : firstWindow itext < ARCH_MAX_ILEN)
    (failed : decoder.xed_decode (codeBytes image itext (firstWindow itext)) = none) :
    decodeWindows decoder image itext = ([firstWindow itext, ARCH_PAGE_SIZE],
      arch_decode_one decoder image itext ARCH_PAGE_SIZE) := by
  unfold decodeWindows
  dsimp only
  rw [arch_decode_one_none failed]
  dsimp only
  rw [if_pos small]

theorem decodeWindows_large {itext : BitVec 64} (large : firstWindow itext = ARCH_MAX_ILEN) :
    decodeWindows decoder image itext =
      ([firstWindow itext], arch_decode_one decoder image itext (firstWindow itext)) := by
  unfold decodeWindows
  dsimp only
  split
  · rename_i next instrs broken
    rw [if_neg (by rw [large]; exact lt_irrefl _), broken]
  · rfl

theorem decodeWindows_eq (complete : decoder.Complete) {limit : Nat}
    (large : ARCH_MAX_ILEN ≤ limit) (itext : BitVec 64) :
    (decodeWindows decoder image itext).2 = arch_decode_one decoder image itext limit := by
  cases decoded : decoder.xed_decode (codeBytes image itext (firstWindow itext)) with
  | some xedd =>
      rw [decodeWindows_some decoded]
      refine arch_decode_one_congr (decoded.trans (complete.grow decoded ?_).symm)
      exact (complete.fits _ _ decoded).2.1.trans large
  | none =>
      rcases Nat.lt_or_eq_of_le (firstWindow_le itext) with small | full
      · rw [decodeWindows_retry small decoded]
        exact arch_decode_one_congr (complete.large itext (by decide) large)
      · rw [decodeWindows_large full]
        exact arch_decode_one_congr (complete.large itext full.ge large)

theorem staysInPage_of_windowFits (complete : decoder.Complete) {itext : BitVec 64}
    (fits : WindowFits decoder image itext) : StaysInPage decoder image itext := by
  obtain ⟨inPage, whole⟩ := fits
  have single (windows : (decodeWindows decoder image itext).1 = [firstWindow itext]) :
      StaysInPage decoder image itext := by
    constructor
    · intro window member
      rw [windows, List.mem_singleton] at member
      rw [member]
      exact firstWindow_pos itext
    · intro window head
      rw [windows] at head
      cases head
      exact inPage
    · intro window member beyond
      rw [windows, List.mem_singleton] at member
      rw [member] at beyond
      exact absurd inPage (Nat.not_le.mpr beyond)
  cases decoded : decoder.xed_decode (codeBytes image itext (firstWindow itext)) with
  | some xedd => exact single (congrArg Prod.fst (decodeWindows_some decoded))
  | none =>
      rcases Nat.lt_or_eq_of_le (firstWindow_le itext) with small | full
      · have windows := congrArg Prod.fst (decodeWindows_retry small decoded)
        constructor
        · intro window member
          rw [windows] at member
          rcases List.mem_cons.mp member with rfl | last
          · exact firstWindow_pos itext
          · cases List.mem_singleton.mp last
            decide
        · intro window head
          rw [windows] at head
          cases head
          exact inPage
        · intro window member beyond
          rw [windows] at member
          rcases List.mem_cons.mp member with rfl | last
          · exact absurd inPage (Nat.not_le.mpr beyond)
          · cases List.mem_singleton.mp last
            cases left : decoder.xed_decode (codeBytes image itext (bytesLeft itext)) with
            | none => rfl
            | some xedd =>
                have found := complete.grow left (whole small beyond xedd left)
                rw [decoded] at found
                cases found
      · exact single (congrArg Prod.fst (decodeWindows_large full))

theorem windowFits_of_staysInPage (complete : decoder.Complete) {itext : BitVec 64}
    (stays : StaysInPage decoder image itext) : WindowFits decoder image itext := by
  have first : firstWindow itext ∈ (decodeWindows decoder image itext).1.head? := by
    unfold decodeWindows
    dsimp only
    split
    · split <;> rfl
    · rfl
  refine ⟨stays.first _ first, ?_⟩
  intro small inner xedd decoded
  by_contra long
  have failed : decoder.xed_decode (codeBytes image itext (firstWindow itext)) = none := by
    cases inWindow : decoder.xed_decode (codeBytes image itext (firstWindow itext)) with
    | none => rfl
    | some other =>
        have inside := (complete.fits _ _ inWindow).2.2
        rw [length_codeBytes] at inside
        have same := complete.grow inWindow (inside.trans (stays.first _ first))
        rw [decoded] at same
        cases same
        exact absurd inside long
  have retried : ARCH_PAGE_SIZE ∈ (decodeWindows decoder image itext).1 := by
    rw [decodeWindows_retry small failed]
    exact List.mem_cons_of_mem _ List.mem_cons_self
  have unreadable := stays.retry _ retried inner
  rw [decoded] at unreadable
  cases unreadable

theorem decodeBlock_eq (complete : decoder.Complete) {limit : Nat}
    (large : ARCH_MAX_ILEN ≤ limit) (fuel : Nat) (start : BitVec 64) :
    decodeBlock decoder image fuel start =
      decodeLoop (fun itext => arch_decode_one decoder image itext limit) fuel start := by
  unfold decodeBlock
  congr 1
  funext itext
  exact decodeWindows_eq complete large itext

theorem decodeLoop_mono {decode : BitVec 64 → Except Failure (DecodeRet × BitVec 64 × List ι)}
    {fuel more : Nat} (le : fuel ≤ more) {itext : BitVec 64} {result : Except Failure (List ι)}
    (ended : decodeLoop decode fuel itext = some result) :
    decodeLoop decode more itext = some result := by
  induction fuel generalizing more itext result with
  | zero => cases ended
  | succ fuel ih =>
      obtain ⟨more, rfl⟩ : ∃ n, more = n + 1 := ⟨more - 1, by omega⟩
      have inner {next : BitVec 64} {later : Except Failure (List ι)} :=
        @ih more (Nat.le_of_succ_le_succ le) next later
      unfold decodeLoop at ended ⊢
      cases checked : checkDecoded (decode itext) with
      | error failure =>
          rw [checked] at ended
          exact ended
      | ok decoded =>
          obtain ⟨next, instrs⟩ := decoded
          rw [checked] at ended
          cases next with
          | none => exact ended
          | some next =>
              obtain ⟨later, endedLater, same⟩ := Option.map_eq_some_iff.mp ended
              exact Option.map_eq_some_iff.mpr ⟨later, inner endedLater, same⟩

/-- A block is decoded page by page if and only if the rounding error does not matter at any of
its instructions. -/
theorem decodesByPage_iff (complete : decoder.Complete) (start : BitVec 64) :
    DecodesByPage decoder image start ↔
      ∀ itext, Decodes decoder image start itext → AddressFits decoder image itext := by
  constructor
  · intro byPage itext decodes
    rw [← windowFits_iff_addressFits]
    exact windowFits_of_staysInPage complete (byPage.stays itext decodes)
  · intro fits
    constructor
    · intro itext decodes
      exact staysInPage_of_windowFits complete
        ((windowFits_iff_addressFits itext).mpr (fits itext decodes))
    · intro limit large fuel
      exact decodeBlock_eq complete large fuel start

end Decode

/-! ### A return at the end of a page -/

def retLength (operand : Bool) : Nat :=
  if operand then 3 else 1

/-- A decoder that knows `ret` and `ret imm16` only. -/
def retDecoder : Decoder Bool Unit where
  xed_decode := fun bytes =>
    if bytes.head? = some 0xc3 then some false
    else if bytes.head? = some 0xc2 ∧ 3 ≤ bytes.length then some true
    else none
  length := retLength
  segmentOverride := fun _ => false
  isNop := fun _ => false
  convert_decoded := fun _ _ => .ok (.EOB, [()])
  converted := by
    intro itext xedd ret instrs same
    cases same
    exact ⟨Or.inr rfl, List.cons_ne_nil _ _⟩

theorem xed_decode_ret {bytes : List (BitVec 8)} {operand : Bool} :
    retDecoder.xed_decode bytes = some operand ↔
      bytes.head? = some (if operand then 0xc2 else 0xc3) ∧ retLength operand ≤ bytes.length := by
  change (if _ then some false else if _ then some true else none) = _ ↔ _
  cases bytes with
  | nil => cases operand <;> decide
  | cons byte rest =>
      cases operand with
      | false =>
          change _ ↔ some byte = some 0xc3 ∧ 1 ≤ rest.length + 1
          split
          · rename_i isRet
            exact iff_of_true rfl ⟨isRet, Nat.succ_le_succ (Nat.zero_le _)⟩
          · rename_i other
            refine iff_of_false ?_ (fun isRet => other isRet.1)
            split <;> nofun
      | true =>
          change _ ↔ some byte = some 0xc2 ∧ 3 ≤ rest.length + 1
          split
          · rename_i isRet
            refine iff_of_false nofun (fun both => ?_)
            cases isRet.symm.trans both.1
          · split
            · rename_i found
              exact iff_of_true rfl found
            · rename_i other
              exact iff_of_false nofun other

theorem retDecoder_complete : retDecoder.Complete := by
  constructor
  · intro bytes operand decoded
    have inside := (xed_decode_ret.mp decoded).2
    refine ⟨?_, ?_, inside⟩
    · cases operand <;> decide
    · cases operand <;> decide
  · intro bytes operand decoded other same enough
    have first := (xed_decode_ret.mp decoded).1
    refine xed_decode_ret.mpr ⟨?_, enough⟩
    have positive : retDecoder.length operand ≠ 0 := by cases operand <;> decide
    have heads := congrArg List.head? same
    rw [List.head?_take, List.head?_take, if_neg positive, if_neg positive] at heads
    exact heads.symm.trans first

/-- The window of the last byte of a page has 15 bytes. -/
theorem not_decodesByPage_ret :
    retDecoder.Complete ∧ ¬ DecodesByPage retDecoder (fun _ => 0xc3) 0x400fff := by
  refine ⟨retDecoder_complete, fun byPage => ?_⟩
  have first := (byPage.stays 0x400fff .start).first (firstWindow 0x400fff) rfl
  revert first
  decide

theorem decodes_ret_iff {image : BitVec 64 → BitVec 8} {start itext : BitVec 64} :
    Decodes retDecoder image start itext ↔ itext = start := by
  constructor
  · intro decodes
    induction decodes with
    | start => rfl
    | @next itext later instrs decodes decoded ih =>
        exfalso
        revert decoded
        rw [decodeWindows_eq retDecoder_complete le_rfl]
        unfold arch_decode_one
        split
        · nofun
        · nofun
  · rintro rfl
    exact .start

/-- The first window is the last byte of a page, where an instruction of three bytes starts; it
is decoded with a second window. -/
theorem decodesByPage_iff_ret :
    DecodesByPage retDecoder (fun _ => 0xc2) 0xfffffff ∧
      (decodeWindows retDecoder (fun _ => 0xc2) 0xfffffff).1 = [1, ARCH_PAGE_SIZE] := by
  constructor
  · refine (decodesByPage_iff retDecoder_complete 0xfffffff).mpr ?_
    intro itext decodes
    cases decodes_ret_iff.mp decodes
    refine ⟨Or.inr (by decide), fun count _ positive _ _ operand decoded => ?_⟩
    have inside := (xed_decode_ret.mp decoded).2
    rw [length_codeBytes] at inside
    exact (inside.trans (by decide)).trans positive
  · rfl

end Drob
