import Drob.CodeGeneration.PoolMemory

/-!
What the binary pool hands out: code in order, aligned constants that keep their
bytes, and no overlap. It holds as long as every allocation fits into the page that
its part of the region is at; the request for another page goes to a wrong address.
-/

namespace Drob

def ConstantsApart (left right : Nat × List (BitVec 8)) : Prop :=
  left.1 + left.2.length ≤ right.1 ∨ right.1 + right.2.length ≤ left.1 ∨
    left = right ∧ (left.2.length = 8 ∨ left.2.length = 16)

instance : Std.Symm ConstantsApart where
  symm := by
    rintro left right (before | after | ⟨rfl, merged⟩)
    · exact Or.inr (Or.inl before)
    · exact Or.inl after
    · exact Or.inr (Or.inr ⟨rfl, merged⟩)

/-- What was handed out is usable: code ranges lie behind each other, constants are
aligned and hold their bytes, everything is mapped and nothing overlaps. -/
structure PoolSafe (history : PoolHistory) (pool : PoolMemory) : Prop where
  codeOrder : history.code.Pairwise (fun earlier later => earlier.1 + earlier.2 ≤ later.1)
  aligned : ∀ constant ∈ history.constants, constant.1 % constant.2.length = 0
  kept : ∀ constant ∈ history.constants, ∀ i, i < constant.2.length →
    pool.memory (constant.1 + i) = constant.2.getD i 0
  apart : history.constants.Pairwise ConstantsApart
  fromCode : ∀ constant ∈ history.constants, ∀ range ∈ history.code,
    range.1 + range.2 ≤ constant.1 ∨ constant.1 + constant.2.length ≤ range.1
  codeMapped : ∀ range ∈ history.code, ∀ i, i < range.2 → pool.mapped (range.1 + i) = true
  constantsMapped : ∀ constant ∈ history.constants, ∀ i, i < constant.2.length →
    pool.mapped (constant.1 + i) = true

namespace PoolCall

/-- A code range starts at the next code address and lies after all others; a call
fails only when the next page of one pool belongs to the other. -/
def Answers (history : PoolHistory) (pool : PoolMemory) (call : PoolCall) : Prop :=
  match call.run pool with
  | (.ok addr, _) =>
      ∀ size, call = .allocCode size →
        addr = pool.nextCode ∧ ∀ range ∈ history.code, range.1 + range.2 ≤ addr
  | (.error _, _) => pool.curInstrPage + ARCH_PAGE_SIZE = pool.curConstPage

end PoolCall

namespace PoolMemory

def ConstantFits (pool : PoolMemory) (size : Nat) : Prop :=
  alignDown (alignDown (pool.nextConst + 1 - size) size) ARCH_PAGE_SIZE = pool.curConstPage

def Fits (pool : PoolMemory) : PoolCall → Prop
  | .allocCode size =>
      alignDown (pool.nextInstr + size - 1) ARCH_PAGE_SIZE = pool.curInstrPage
  | .allocConstant bytes => pool.ConstantFits bytes.length
  | .allocConstant64 val => pool.map64.lookup val ≠ none ∨ pool.ConstantFits 8
  | .allocConstant128 val => pool.map128.lookup val ≠ none ∨ pool.ConstantFits 16
  | _ => True

structure Invariant (start size : Nat) (history : PoolHistory) (pool : PoolMemory) : Prop where
  mmapStart_eq : pool.mmapStart = start
  mmapSize_eq : pool.mmapSize = size
  start_pos : 0 < start
  start_aligned : start % ARCH_PAGE_SIZE = 0
  size_aligned : size % ARCH_PAGE_SIZE = 0
  two_pages : 2 * ARCH_PAGE_SIZE ≤ size
  top : start + size ≤ 2 ^ 64
  instrPage : pool.curInstrPage = start
  constPage : pool.curConstPage = start + size - ARCH_PAGE_SIZE
  nextInstr_ge : start ≤ pool.nextInstr
  nextInstr_le : pool.nextInstr ≤ start + ARCH_PAGE_SIZE
  nextConst_ge : start + size - ARCH_PAGE_SIZE ≤ pool.nextConst + 1
  nextConst_le : pool.nextConst + 1 ≤ start + size
  codePage : ∀ a, start ≤ a → a < start + ARCH_PAGE_SIZE → pool.mapped a = true
  constantPage : ∀ a, start + size - ARCH_PAGE_SIZE ≤ a → a < start + size →
    pool.mapped a = true
  code : ∀ range ∈ history.code, start ≤ range.1 ∧ range.1 + range.2 ≤ pool.nextInstr
  codeOrder : history.code.Pairwise (fun earlier later => earlier.1 + earlier.2 ≤ later.1)
  constants : ∀ constant ∈ history.constants,
    pool.nextConst < constant.1 ∧ constant.1 + constant.2.length ≤ start + size ∧
      constant.1 % constant.2.length = 0 ∧
      ∀ i, i < constant.2.length → pool.memory (constant.1 + i) = constant.2.getD i 0
  apart : history.constants.Pairwise ConstantsApart
  map64 : ∀ entry ∈ pool.map64, (entry.2, wordBytes entry.1 8) ∈ history.constants
  map128 : ∀ entry ∈ pool.map128, (entry.2, wordBytes entry.1 16) ∈ history.constants

variable {start size : Nat} {history : PoolHistory} {pool : PoolMemory}

theorem Invariant.safe (invariant : Invariant start size history pool) :
    PoolSafe history pool := by
  have twoPages := invariant.two_pages
  have instrLe := invariant.nextInstr_le
  have constGe := invariant.nextConst_ge
  unfold ARCH_PAGE_SIZE at twoPages instrLe constGe
  refine
    { codeOrder := invariant.codeOrder
      aligned := fun constant member => (invariant.constants constant member).2.2.1
      kept := fun constant member => (invariant.constants constant member).2.2.2
      apart := invariant.apart
      fromCode := ?_
      codeMapped := ?_
      constantsMapped := ?_ }
  · intro constant member range inCode
    have below := (invariant.code range inCode).2
    have above := (invariant.constants constant member).1
    omega
  · intro range inCode i inside
    have bounds := invariant.code range inCode
    exact invariant.codePage _ (by omega) (by unfold ARCH_PAGE_SIZE; omega)
  · intro constant member i inside
    have bounds := invariant.constants constant member
    exact invariant.constantPage _ (by unfold ARCH_PAGE_SIZE; omega) (by omega)

/-! ### Code -/

theorem alignDown_page {x page : Nat} (same : alignDown x ARCH_PAGE_SIZE = page) :
    page ≤ x ∧ x < page + ARCH_PAGE_SIZE := by
  unfold alignDown ARCH_PAGE_SIZE at *
  omega

theorem allocCode_fits {bytes : Nat}
    (fits : alignDown (pool.nextInstr + bytes - 1) ARCH_PAGE_SIZE = pool.curInstrPage) :
    pool.allocCode bytes =
      (.ok pool.nextInstr, { pool with nextInstr := pool.nextInstr + bytes }) := by
  unfold allocCode
  rw [if_neg (not_not.mpr fits)]

theorem Invariant.allocCode (invariant : Invariant start size history pool) {bytes : Nat}
    (valid : 1 ≤ bytes)
    (fits : alignDown (pool.nextInstr + bytes - 1) ARCH_PAGE_SIZE = pool.curInstrPage) :
    Invariant start size
      { history with code := history.code ++ [(pool.nextInstr, bytes)] }
      { pool with nextInstr := pool.nextInstr + bytes } := by
  have inPage := alignDown_page fits
  rw [invariant.instrPage] at inPage
  have nextGe := invariant.nextInstr_ge
  refine
    { invariant with
      nextInstr_ge := by dsimp only; omega
      nextInstr_le := by dsimp only; omega
      code := ?_
      codeOrder := ?_ }
  · intro range member
    dsimp only
    rcases List.mem_append.mp member with old | new
    · have bounds := invariant.code range old
      omega
    · rw [List.mem_singleton.mp new]
      dsimp only
      omega
  · refine List.pairwise_append.mpr ⟨invariant.codeOrder, List.pairwise_singleton _ _, ?_⟩
    intro range old other new
    rw [List.mem_singleton.mp new]
    exact (invariant.code range old).2

theorem Invariant.newBlock (invariant : Invariant start size history pool) (write : Bool) :
    Invariant start size history (pool.newBlock write).2 := by
  have nextGe := invariant.nextInstr_ge
  have nextLe := invariant.nextInstr_le
  have aligned := invariant.start_aligned
  have twoPages := invariant.two_pages
  have constGe := invariant.nextConst_ge
  unfold ARCH_PAGE_SIZE at nextLe aligned twoPages constGe
  unfold PoolMemory.newBlock
  dsimp only
  split
  · exact invariant
  · rename_i unaligned
    have up : pool.nextInstr ≤ alignUp pool.nextInstr ARCH_BLOCK_ALIGN ∧
        alignUp pool.nextInstr ARCH_BLOCK_ALIGN ≤ start + 4096 := by
      unfold alignUp alignDown ARCH_BLOCK_ALIGN at *
      omega
    refine
      { invariant with
        nextInstr_ge := by dsimp only; omega
        nextInstr_le := by unfold ARCH_PAGE_SIZE; dsimp only; omega
        code := ?_
        constants := ?_ }
    · intro range member
      have bounds := invariant.code range member
      dsimp only
      omega
    · intro constant member
      obtain ⟨above, below, divides, kept⟩ := invariant.constants constant member
      refine ⟨above, below, divides, ?_⟩
      intro i inside
      dsimp only
      split
      · unfold writeBytes
        rw [if_neg]
        · exact kept i inside
        · have length := length_arch_fill_with_nops
            (alignUp pool.nextInstr ARCH_BLOCK_ALIGN - pool.nextInstr)
          omega
      · exact kept i inside

/-! ### Constants -/

theorem allocConstant_fits {bytes : List (BitVec 8)} (valid : (PoolCall.allocConstant bytes).Valid)
    (fits : pool.ConstantFits bytes.length) :
    pool.allocConstant bytes =
      (.ok (alignDown (pool.nextConst + 1 - bytes.length) bytes.length),
        { pool with
          memory := writeBytes pool.memory
            (alignDown (pool.nextConst + 1 - bytes.length) bytes.length) bytes
          nextConst := alignDown (pool.nextConst + 1 - bytes.length) bytes.length - 1 }) := by
  have power : IS_POWER_OF_2 bytes.length = true := by
    rcases valid with same | same | same | same | same <;> rw [same] <;> decide
  unfold ConstantFits at fits
  unfold allocConstant
  dsimp only
  rw [if_neg (not_not.mpr power), if_neg (not_not.mpr fits)]

theorem Invariant.constant_place (invariant : Invariant start size history pool)
    {bytes : List (BitVec 8)} (valid : (PoolCall.allocConstant bytes).Valid)
    (fits : pool.ConstantFits bytes.length) {current : Nat}
    (place : current = alignDown (pool.nextConst + 1 - bytes.length) bytes.length) :
    start + size - ARCH_PAGE_SIZE ≤ current ∧ current + bytes.length ≤ pool.nextConst + 1 ∧
      current % bytes.length = 0 ∧ 0 < bytes.length := by
  have inPage := (alignDown_page fits).1
  rw [← place, invariant.constPage] at inPage
  refine ⟨inPage, ?_⟩
  have constGe := invariant.nextConst_ge
  have positive := invariant.start_pos
  have twoPages := invariant.two_pages
  unfold ARCH_PAGE_SIZE at inPage constGe twoPages
  unfold alignDown at place
  rcases valid with same | same | same | same | same <;> rw [same] at place ⊢ <;> omega

theorem Invariant.allocConstant (invariant : Invariant start size history pool)
    {bytes : List (BitVec 8)} (valid : (PoolCall.allocConstant bytes).Valid)
    (fits : pool.ConstantFits bytes.length) {current : Nat}
    (place : current = alignDown (pool.nextConst + 1 - bytes.length) bytes.length) :
    Invariant start size
      { history with constants := history.constants ++ [(current, bytes)] }
      { pool with memory := writeBytes pool.memory current bytes, nextConst := current - 1 } := by
  obtain ⟨inPage, below, divides, nonempty⟩ := invariant.constant_place valid fits place
  have constLe := invariant.nextConst_le
  have positive := invariant.start_pos
  have twoPages := invariant.two_pages
  unfold ARCH_PAGE_SIZE at inPage twoPages
  refine
    { invariant with
      nextConst_ge := by unfold ARCH_PAGE_SIZE; dsimp only; omega
      nextConst_le := by dsimp only; omega
      constants := ?_
      apart := ?_
      map64 := fun entry member => List.mem_append_left _ (invariant.map64 entry member)
      map128 := fun entry member => List.mem_append_left _ (invariant.map128 entry member) }
  · intro constant member
    rcases List.mem_append.mp member with old | new
    · obtain ⟨above, top, aligned, kept⟩ := invariant.constants constant old
      refine ⟨by dsimp only; omega, top, aligned, ?_⟩
      intro i inside
      dsimp only
      unfold writeBytes
      rw [if_neg (by omega)]
      exact kept i inside
    · rw [List.mem_singleton.mp new]
      refine ⟨by dsimp only; omega, by dsimp only; omega, divides, ?_⟩
      intro i inside
      dsimp only at inside ⊢
      unfold writeBytes
      rw [if_pos (by omega), Nat.add_sub_cancel_left]
  · refine List.pairwise_append.mpr ⟨invariant.apart, List.pairwise_singleton _ _, ?_⟩
    intro constant old other new
    rw [List.mem_singleton.mp new]
    have above := (invariant.constants constant old).1
    exact Or.inr (Or.inl (by dsimp only; omega))

theorem Invariant.mergedConstant (invariant : Invariant start size history pool)
    {constant : Nat × List (BitVec 8)} (member : constant ∈ history.constants)
    (merged : constant.2.length = 8 ∨ constant.2.length = 16) :
    Invariant start size { history with constants := history.constants ++ [constant] } pool := by
  refine
    { invariant with
      constants := ?_
      apart := ?_
      map64 := fun entry inside => List.mem_append_left _ (invariant.map64 entry inside)
      map128 := fun entry inside => List.mem_append_left _ (invariant.map128 entry inside) }
  · intro other inside
    rcases List.mem_append.mp inside with old | new
    · exact invariant.constants other old
    · rw [List.mem_singleton.mp new]
      exact invariant.constants constant member
  · refine List.pairwise_append.mpr ⟨invariant.apart, List.pairwise_singleton _ _, ?_⟩
    intro other old found new
    rw [List.mem_singleton.mp new]
    by_cases same : other = constant
    · subst same
      exact Or.inr (Or.inr ⟨rfl, merged⟩)
    · exact invariant.apart.forall old member same

theorem mem_of_lookup {α β : Type} [DecidableEq α] {entries : List (α × β)} {key : α} {value : β}
    (found : entries.lookup key = some value) : (key, value) ∈ entries := by
  obtain ⟨before, after, rfl, _⟩ := List.lookup_eq_some_iff.mp found
  exact List.mem_append_right _ List.mem_cons_self

/-! ### Resetting the code pool -/

theorem mmapFixed_ok {addr bytes : Nat} {protection : Protection}
    (aligned : addr % ARCH_PAGE_SIZE = 0) (positive : 0 < bytes)
    (above : pool.mmapStart ≤ addr)
    (below : addr + alignUp bytes ARCH_PAGE_SIZE ≤ pool.mmapStart + pool.mmapSize) :
    pool.mmapFixed addr bytes protection =
      some { pool with
        mapped := fun a => if addr ≤ a ∧ a < addr + alignUp bytes ARCH_PAGE_SIZE then
          protection == .readWrite else pool.mapped a
        memory := fun a => if addr ≤ a ∧ a < addr + alignUp bytes ARCH_PAGE_SIZE then 0
          else pool.memory a } := by
  unfold mmapFixed
  dsimp only
  rw [if_pos ⟨aligned, positive, above, below⟩]

theorem alignUp_page : alignUp ARCH_PAGE_SIZE ARCH_PAGE_SIZE = ARCH_PAGE_SIZE := by
  decide

/-- The code page is mapped anew; the page of constants is not touched. -/
theorem Invariant.resetCodePool (invariant : Invariant start size history pool) :
    ∃ later, pool.resetCodePool = (.ok (), later) ∧
      Invariant start size { history with code := [] } later := by
  have startEq := invariant.mmapStart_eq
  have sizeEq := invariant.mmapSize_eq
  have positive := invariant.start_pos
  have aligned := invariant.start_aligned
  have twoPages := invariant.two_pages
  have top := invariant.top
  have poolSize : (pool.curInstrPage + ARCH_PAGE_SIZE + 2 ^ 64 - pool.mmapStart) % 2 ^ 64 =
      ARCH_PAGE_SIZE := by
    rw [invariant.instrPage, startEq]
    unfold ARCH_PAGE_SIZE
    omega
  unfold PoolMemory.resetCodePool
  dsimp only
  rw [poolSize, invariant.instrPage, if_neg (by unfold nullptr; omega)]
  rw [mmapFixed_ok (by rw [startEq]; exact aligned) (by decide) (le_refl _)
    (by rw [alignUp_page, sizeEq]; omega)]
  dsimp only [Option.map]
  rw [mmapFixed_ok (by rw [startEq]; exact aligned) (by decide) (le_refl _)
    (by rw [alignUp_page]; dsimp only; rw [sizeEq]; omega)]
  refine ⟨_, rfl, ?_⟩
  rw [alignUp_page, startEq]
  unfold ARCH_PAGE_SIZE at twoPages
  refine
    { invariant with
      mmapStart_eq := rfl
      instrPage := rfl
      nextInstr_ge := le_refl _
      nextInstr_le := Nat.le_add_right _ _
      codePage := ?_
      constantPage := ?_
      code := ?_
      codeOrder := List.Pairwise.nil
      constants := ?_ }
  · intro a above below
    dsimp only
    rw [if_pos ⟨above, below⟩]
    rfl
  · intro a above below
    have outside : ¬ (start ≤ a ∧ a < start + ARCH_PAGE_SIZE) := by
      unfold ARCH_PAGE_SIZE at above ⊢
      omega
    dsimp only
    rw [if_neg outside, if_neg outside]
    exact invariant.constantPage a above below
  · intro range member
    cases member
  · intro constant member
    obtain ⟨above, below, divides, kept⟩ := invariant.constants constant member
    refine ⟨above, below, divides, ?_⟩
    intro i inside
    have constGe := invariant.nextConst_ge
    have outside : ¬ (start ≤ constant.1 + i ∧ constant.1 + i < start + ARCH_PAGE_SIZE) := by
      unfold ARCH_PAGE_SIZE at constGe ⊢
      omega
    dsimp only
    rw [if_neg outside, if_neg outside]
    exact kept i inside

/-! ### One call -/

theorem length_wordBytes {w : Nat} (val : BitVec w) (bytes : Nat) :
    (wordBytes val bytes).length = bytes := by
  unfold wordBytes
  rw [List.length_map, List.length_range]

theorem allocConstant64_new {val : BitVec 64} (new : pool.map64.lookup val = none)
    (fits : pool.ConstantFits 8) {current : Nat}
    (place : current = alignDown (pool.nextConst + 1 - 8) 8) :
    pool.allocConstant64 val =
      (.ok current,
        { pool with
          memory := writeBytes pool.memory current (wordBytes val 8)
          nextConst := current - 1
          map64 := (val, current) :: pool.map64 }) := by
  have length := length_wordBytes val 8
  unfold allocConstant64
  rw [new]
  dsimp only
  rw [allocConstant_fits (Or.inr (Or.inr (Or.inr (Or.inl length)))) (by rw [length]; exact fits)]
  dsimp only
  rw [length, ← place]

theorem allocConstant128_new {val : BitVec 128} (new : pool.map128.lookup val = none)
    (fits : pool.ConstantFits 16) {current : Nat}
    (place : current = alignDown (pool.nextConst + 1 - 16) 16) :
    pool.allocConstant128 val =
      (.ok current,
        { pool with
          memory := writeBytes pool.memory current (wordBytes val 16)
          nextConst := current - 1
          map128 := (val, current) :: pool.map128 }) := by
  have length := length_wordBytes val 16
  unfold allocConstant128
  rw [new]
  dsimp only
  rw [allocConstant_fits (Or.inr (Or.inr (Or.inr (Or.inr length)))) (by rw [length]; exact fits)]
  dsimp only
  rw [length, ← place]

theorem Invariant.call (invariant : Invariant start size history pool) {call : PoolCall}
    (valid : call.Valid) (fits : pool.Fits call) :
    call.Answers history pool ∧
      Invariant start size (call.next history pool).1 (call.next history pool).2 := by
  have answered (addr : Nat) (later : PoolMemory) (ran : call.run pool = (.ok addr, later))
      (code : ∀ bytes, call = .allocCode bytes →
        addr = pool.nextCode ∧ ∀ range ∈ history.code, range.1 + range.2 ≤ addr)
      (kept : Invariant start size (call.record history addr) later) :
      call.Answers history pool ∧
        Invariant start size (call.next history pool).1 (call.next history pool).2 := by
    unfold PoolCall.Answers PoolCall.next
    rw [ran]
    exact ⟨code, kept⟩
  cases call with
  | allocCode bytes =>
      refine answered _ _ (allocCode_fits fits) ?_ (invariant.allocCode valid.1 fits)
      intro _ _
      exact ⟨rfl, fun range member => (invariant.code range member).2⟩
  | newBlock write =>
      exact answered _ _ rfl (fun _ impossible => by cases impossible) (invariant.newBlock write)
  | nextCode =>
      exact answered _ _ rfl (fun _ impossible => by cases impossible) invariant
  | allocConstant bytes =>
      exact answered _ _ (allocConstant_fits valid fits) (fun _ impossible => by cases impossible)
        (invariant.allocConstant valid fits rfl)
  | allocConstant64 val =>
      have length := length_wordBytes val 8
      have sized : (PoolCall.allocConstant (wordBytes val 8)).Valid :=
        Or.inr (Or.inr (Or.inr (Or.inl length)))
      cases found : pool.map64.lookup val with
      | some addr =>
          have ran : pool.allocConstant64 val = (.ok addr, pool) := by
            unfold allocConstant64
            rw [found]
          exact answered addr pool ran (fun _ impossible => by cases impossible)
            (invariant.mergedConstant (invariant.map64 _ (mem_of_lookup found)) (Or.inl length))
      | none =>
          rcases fits with known | fits
          · exact absurd found known
          · have kept := invariant.allocConstant sized
              (length.symm ▸ fits) rfl
            rw [length] at kept
            refine answered _ _ (allocConstant64_new found fits rfl)
              (fun _ impossible => by cases impossible) { kept with map64 := ?_ }
            intro entry member
            rcases List.mem_cons.mp member with rfl | old
            · exact List.mem_append_right _ List.mem_cons_self
            · exact kept.map64 entry old
  | allocConstant128 val =>
      have length := length_wordBytes val 16
      have sized : (PoolCall.allocConstant (wordBytes val 16)).Valid :=
        Or.inr (Or.inr (Or.inr (Or.inr length)))
      cases found : pool.map128.lookup val with
      | some addr =>
          have ran : pool.allocConstant128 val = (.ok addr, pool) := by
            unfold allocConstant128
            rw [found]
          exact answered addr pool ran (fun _ impossible => by cases impossible)
            (invariant.mergedConstant (invariant.map128 _ (mem_of_lookup found)) (Or.inr length))
      | none =>
          rcases fits with known | fits
          · exact absurd found known
          · have kept := invariant.allocConstant sized
              (length.symm ▸ fits) rfl
            rw [length] at kept
            refine answered _ _ (allocConstant128_new found fits rfl)
              (fun _ impossible => by cases impossible) { kept with map128 := ?_ }
            intro entry member
            rcases List.mem_cons.mp member with rfl | old
            · exact List.mem_append_right _ List.mem_cons_self
            · exact kept.map128 entry old
  | resetCodePool =>
      obtain ⟨later, reset, kept⟩ := invariant.resetCodePool
      refine answered nullptr later ?_ (fun _ impossible => by cases impossible) kept
      unfold PoolCall.run
      rw [reset]
      rfl

/-! ### A new region -/

def withPage (pool : PoolMemory) (addr : Nat) : PoolMemory :=
  { pool with
    mapped := fun a => if addr ≤ a ∧ a < addr + ARCH_PAGE_SIZE then true else pool.mapped a
    memory := fun a => if addr ≤ a ∧ a < addr + ARCH_PAGE_SIZE then 0 else pool.memory a }

theorem mmapFixed_page {addr : Nat} (aligned : addr % ARCH_PAGE_SIZE = 0)
    (above : pool.mmapStart ≤ addr) (below : addr + ARCH_PAGE_SIZE ≤ pool.mmapStart + pool.mmapSize) :
    pool.mmapFixed addr ARCH_PAGE_SIZE .readWrite = some (pool.withPage addr) := by
  rw [mmapFixed_ok aligned (by decide) above (by rw [alignUp_page]; exact below), alignUp_page]
  rfl

theorem resetCodePool_null (null : pool.curInstrPage = nullptr)
    (aligned : pool.mmapStart % ARCH_PAGE_SIZE = 0) (room : ARCH_PAGE_SIZE ≤ pool.mmapSize) :
    pool.resetCodePool =
      (.ok (), { pool.withPage pool.mmapStart with
        curInstrPage := pool.mmapStart
        nextInstr := pool.mmapStart }) := by
  unfold PoolMemory.resetCodePool
  dsimp only
  rw [if_pos null]
  dsimp only
  rw [mmapFixed_page aligned (le_refl _) (Nat.add_le_add_left room _)]

theorem resetConstantPool_null (pool : PoolMemory) (tmp : Nat)
    (null : pool.curConstPage = nullptr)
    (place : pool.mmapStart + pool.mmapSize - ARCH_PAGE_SIZE = tmp)
    (aligned : tmp % ARCH_PAGE_SIZE = 0) (above : pool.mmapStart ≤ tmp)
    (below : tmp + ARCH_PAGE_SIZE ≤ pool.mmapStart + pool.mmapSize) :
    pool.resetConstantPool =
      (.ok (), { withPage { pool with map64 := [], map128 := [] } tmp with
        curConstPage := tmp
        nextConst := tmp + ARCH_PAGE_SIZE - 1 }) := by
  have mapped : mmapFixed { pool with map64 := [], map128 := [] } tmp ARCH_PAGE_SIZE .readWrite =
      some (withPage { pool with map64 := [], map128 := [] } tmp) :=
    mmapFixed_page aligned above below
  unfold PoolMemory.resetConstantPool
  dsimp only
  rw [if_pos null, place]
  dsimp only
  rw [mapped]

def firstPages (start size tmp : Nat) : PoolMemory :=
  { mmapStart := start
    mmapSize := size
    curInstrPage := start
    nextInstr := start
    curConstPage := tmp
    nextConst := tmp + ARCH_PAGE_SIZE - 1
    map64 := []
    map128 := []
    mapped := fun a =>
      if tmp ≤ a ∧ a < tmp + ARCH_PAGE_SIZE then true
      else if start ≤ a ∧ a < start + ARCH_PAGE_SIZE then true else false
    memory := fun a =>
      if tmp ≤ a ∧ a < tmp + ARCH_PAGE_SIZE then 0
      else if start ≤ a ∧ a < start + ARCH_PAGE_SIZE then 0 else 0 }

theorem create_eq {tmp : Nat} (aligned : start % ARCH_PAGE_SIZE = 0)
    (sizeAligned : size % ARCH_PAGE_SIZE = 0) (small : size ≤ ARCH_MAX_MMAP_SIZE)
    (twoPages : 2 * ARCH_PAGE_SIZE ≤ size) (onePage : ARCH_PAGE_SIZE ≤ size)
    (place : start + size - ARCH_PAGE_SIZE = tmp) (constAligned : tmp % ARCH_PAGE_SIZE = 0)
    (above : start ≤ tmp) (below : tmp + ARCH_PAGE_SIZE ≤ start + size) :
    create start size = .ok (firstPages start size tmp) := by
  unfold create
  rw [if_neg (not_not.mpr sizeAligned), if_neg (Nat.not_lt.mpr small),
    if_neg (Nat.not_lt.mpr twoPages)]
  exact resetPools_ok (resetCodePool_null rfl aligned onePage)
    (resetConstantPool_null _ tmp rfl place constAligned above below)

theorem invariant_create (positive : 0 < start) (aligned : start % ARCH_PAGE_SIZE = 0)
    (top : start + size ≤ 2 ^ 64) (created : create start size = .ok pool) :
    Invariant start size { code := [], constants := [] } pool := by
  by_cases sizeAligned : size % ARCH_PAGE_SIZE = 0
  · by_cases small : size ≤ ARCH_MAX_MMAP_SIZE
    · by_cases twoPages : 2 * ARCH_PAGE_SIZE ≤ size
      · have onePage : ARCH_PAGE_SIZE ≤ size := by
          unfold ARCH_PAGE_SIZE at twoPages ⊢
          omega
        obtain ⟨tmp, place⟩ : ∃ tmp, start + size - ARCH_PAGE_SIZE = tmp := ⟨_, rfl⟩
        have constant :
            tmp % ARCH_PAGE_SIZE = 0 ∧ start ≤ tmp ∧ tmp + ARCH_PAGE_SIZE = start + size := by
          unfold ARCH_PAGE_SIZE at aligned sizeAligned twoPages place ⊢
          omega
        rw [create_eq aligned sizeAligned small twoPages onePage place constant.1 constant.2.1
          (le_of_eq constant.2.2)] at created
        have same := Except.ok.inj created
        rw [← same]
        unfold firstPages
        refine
          { mmapStart_eq := rfl
            mmapSize_eq := rfl
            start_pos := positive
            start_aligned := aligned
            size_aligned := sizeAligned
            two_pages := twoPages
            top := top
            instrPage := rfl
            constPage := place.symm
            nextInstr_ge := le_refl _
            nextInstr_le := Nat.le_add_right _ _
            nextConst_ge := ?_
            nextConst_le := ?_
            codePage := ?_
            constantPage := ?_
            code := fun range member => by cases member
            codeOrder := List.Pairwise.nil
            constants := fun constant member => by cases member
            apart := List.Pairwise.nil
            map64 := fun entry member => by cases member
            map128 := fun entry member => by cases member }
        · unfold ARCH_PAGE_SIZE at place ⊢
          dsimp only
          omega
        · unfold ARCH_PAGE_SIZE at constant ⊢
          dsimp only
          omega
        · intro a above below
          dsimp only
          split
          · rfl
          · rw [if_pos ⟨above, below⟩]
        · intro a above below
          dsimp only
          rw [if_pos ⟨by omega, by omega⟩]
      · unfold create at created
        rw [if_neg (not_not.mpr sizeAligned), if_neg (Nat.not_lt.mpr small),
          if_pos (Nat.lt_of_not_le twoPages)] at created
        cases created
    · unfold create at created
      rw [if_neg (not_not.mpr sizeAligned), if_pos (Nat.lt_of_not_le small)] at created
      cases created
  · unfold create at created
    rw [if_pos sizeAligned] at created
    cases created

end PoolMemory

/-! ### Sequences of calls -/

open PoolMemory

theorem PoolMemory.Invariant.runAll {start size : Nat} {history : PoolHistory} {pool : PoolMemory}
    (invariant : Invariant start size history pool) (calls : List PoolCall)
    (valid : ∀ call ∈ calls, call.Valid)
    (fits : ∀ before call after, calls = before ++ call :: after →
      (PoolCall.runAll history pool before).2.Fits call) :
    Invariant start size (PoolCall.runAll history pool calls).1
      (PoolCall.runAll history pool calls).2 := by
  induction calls generalizing history pool with
  | nil => exact invariant
  | cons call calls ih =>
      have kept := (invariant.call (valid call List.mem_cons_self) (fits [] call calls rfl)).2
      refine ih kept (fun other member => valid other (List.mem_cons_of_mem _ member)) ?_
      intro before other after split
      exact fits (call :: before) other after (by rw [split]; rfl)

/-- In a run whose allocations fit their pages, every call is answered and everything
that was handed out stays usable. -/
theorem poolSafe_of_fits (start size : Nat) (pool : PoolMemory) (calls : List PoolCall)
    (positive : 0 < start) (aligned : start % ARCH_PAGE_SIZE = 0) (top : start + size ≤ 2 ^ 64)
    (created : PoolMemory.create start size = .ok pool) (valid : ∀ call ∈ calls, call.Valid)
    (fits : ∀ before call after, calls = before ++ call :: after →
      (PoolCall.runAll { code := [], constants := [] } pool before).2.Fits call) :
    (∀ before call after, calls = before ++ call :: after →
      call.Answers (PoolCall.runAll { code := [], constants := [] } pool before).1
        (PoolCall.runAll { code := [], constants := [] } pool before).2) ∧
    ∀ before after, calls = before ++ after →
      PoolSafe (PoolCall.runAll { code := [], constants := [] } pool before).1
        (PoolCall.runAll { code := [], constants := [] } pool before).2 := by
  have invariant := invariant_create positive aligned top created
  have along (before after : List PoolCall) (split : calls = before ++ after) :
      Invariant start size (PoolCall.runAll { code := [], constants := [] } pool before).1
        (PoolCall.runAll { code := [], constants := [] } pool before).2 := by
    refine invariant.runAll before ?_ ?_
    · intro call member
      exact valid call (by rw [split]; exact List.mem_append_left _ member)
    · intro earlier call later inside
      refine fits earlier call (later ++ after) ?_
      rw [split, inside, List.append_assoc]
      rfl
  refine ⟨?_, fun before after split => (along before after split).safe⟩
  intro before call after split
  refine ((along before (call :: after) split).call ?_ (fits before call after split)).1
  exact valid call (by rw [split]; exact List.mem_append_right _ List.mem_cons_self)

def threePages : PoolMemory :=
  (PoolMemory.create 4096 12288).toOption.get rfl

theorem create_threePages : PoolMemory.create 4096 12288 = .ok threePages :=
  rfl

/-- A constant and an instruction in a region of three pages. -/
theorem poolSafe_twoCalls :
    PoolSafe (PoolCall.runAll { code := [], constants := [] } threePages
        [.allocConstant64 7, .allocCode 15]).1
      (PoolCall.runAll { code := [], constants := [] } threePages
        [.allocConstant64 7, .allocCode 15]).2 := by
  refine (poolSafe_of_fits 4096 12288 _ [.allocConstant64 7, .allocCode 15] (by decide)
    (by decide) (by decide) create_threePages ?_ ?_).2 _ [] (List.append_nil _).symm
  · intro call member
    rcases List.mem_cons.mp member with rfl | later
    · exact trivial
    · rw [List.mem_singleton.mp later]
      exact ⟨by decide, by decide⟩
  · intro before call after same
    match before, same with
    | [], same =>
        cases same
        right
        unfold PoolMemory.ConstantFits
        decide +kernel
    | [_], same =>
        cases same
        change alignDown _ _ = _
        decide +kernel
    | _ :: _ :: before, same =>
        have length := congrArg List.length same
        simp only [List.length_cons, List.length_append, List.length_nil] at length
        omega

theorem PoolCall.Answers.returned {history : PoolHistory} {pool : PoolMemory} {call : PoolCall}
    (answers : call.Answers history pool)
    (apart : pool.curInstrPage + ARCH_PAGE_SIZE ≠ pool.curConstPage) :
    (call.run pool).1.toBool = true := by
  unfold PoolCall.Answers at answers
  split at answers
  · rename_i addr later ran
    rw [ran]
    rfl
  · exact absurd answers apart

def fullPage : List PoolCall :=
  List.replicate 273 (.allocCode 15)

/-- The 274th instruction of 15 bytes needs a second page, which is free. -/
theorem not_poolSafe_of_valid :
    ¬ ∀ (start size : Nat) (pool : PoolMemory) (calls : List PoolCall),
      0 < start → start % ARCH_PAGE_SIZE = 0 → start + size ≤ 2 ^ 64 →
      PoolMemory.create start size = .ok pool → (∀ call ∈ calls, call.Valid) →
        (∀ before call after, calls = before ++ call :: after →
          call.Answers (PoolCall.runAll { code := [], constants := [] } pool before).1
            (PoolCall.runAll { code := [], constants := [] } pool before).2) ∧
        ∀ before after, calls = before ++ after →
          PoolSafe (PoolCall.runAll { code := [], constants := [] } pool before).1
            (PoolCall.runAll { code := [], constants := [] } pool before).2 := by
  intro always
  refine absurd (PoolCall.Answers.returned ((always 4096 12288 threePages
    (fullPage ++ [.allocCode 15]) (by decide) (by decide) (by decide) create_threePages ?_).1
      _ _ [] rfl) (by decide +kernel)) (by decide +kernel)
  intro call member
  rcases List.mem_append.mp member with many | last
  · unfold fullPage at many
    rw [List.eq_of_mem_replicate many]
    exact ⟨by decide, by decide⟩
  · rw [List.mem_singleton.mp last]
    exact ⟨by decide, by decide⟩

end Drob
