import Drob.Api.Placement
import Drob.State.Describes

/-!
The translation puts every parameter where the ABI places it, as long as no parameter
of 16 bytes has to go to a stack slot that it takes for aligned.
-/

namespace Drob

open LittleEndian

/-! ### Writing fresh bytes -/

namespace Elements

theorem setElements_fresh {estate : Elements} {byteOffset bytes : Nat} {data : DynamicValue}
    (positive : 0 < bytes) (room : bytes + byteOffset ≤ estate.size) (short : bytes ≤ 16)
    (fits : FitsBytes data bytes) (small : data.SmallNr)
    (fresh : ∀ i, i < bytes → estate.elem (byteOffset + i) = .initial) :
    ∃ result, estate.setElements byteOffset bytes data false = .ok result ∧
      result.size = estate.size ∧
      (∀ k, ¬ (byteOffset ≤ k ∧ k < byteOffset + bytes) → result.elem k = estate.elem k) ∧
      ∀ i, i < bytes → (result.elem (byteOffset + i)).Holds i data := by
  have marked := markUnknownLoop_plain byteOffset bytes 0 estate (by
    intro j below
    rw [Nat.zero_add]
    unfold PlainAt type
    rw [fresh j below]
    exact ⟨rfl, rfl⟩)
  unfold setElements markUnknown
  rw [if_neg (by simp only [not_not]; exact ⟨positive, room⟩), if_neg Bool.false_ne_true, marked,
    Nat.add_zero]
  generalize weakened : estate.modify byteOffset bytes weakenElement = marked
  have outside (k : Nat) (other : ¬ (byteOffset ≤ k ∧ k < byteOffset + bytes)) :
      marked.elem k = estate.elem k := by
    rw [← weakened, elem_modify, if_neg other]
  have size : marked.size = estate.size := by
    rw [← weakened, size_modify]
  have written (change : Nat → Element → Element)
      (holds : ∀ i old, i < bytes → (change i old).Holds i data) :
      (marked.modify byteOffset bytes change).size = estate.size ∧
        (∀ k, ¬ (byteOffset ≤ k ∧ k < byteOffset + bytes) →
          (marked.modify byteOffset bytes change).elem k = estate.elem k) ∧
        ∀ i, i < bytes →
          ((marked.modify byteOffset bytes change).elem (byteOffset + i)).Holds i data := by
    refine ⟨by rw [size_modify, size], ?_, ?_⟩
    · intro k other
      rw [elem_modify, if_neg other, outside k other]
    · intro i below
      rw [elem_modify, if_pos (by omega), Nat.add_sub_cancel_left]
      exact holds i _ below
  cases data with
  | ptr type nr ptrOffset =>
      refine ⟨_, if_pos (fits.1 rfl), written _ ?_⟩
      intro i old _below
      refine ⟨rfl, ?_, rfl⟩
      intro first
      change (if i = 0 then BitVec.ofNat 8 nr else old.nr).toNat = nr
      rw [if_pos first, BitVec.toNat_ofNat]
      exact Nat.mod_eq_of_lt small
  | imm64 val =>
      refine ⟨_, setImm_ok marked byteOffset bytes _ (fits.2 rfl), written _ ?_⟩
      intro i old below
      exact ⟨rfl, byte_setWidth val (by omega)⟩
  | imm128 val =>
      exact ⟨_, setImm_ok marked byteOffset bytes _ (fits.2 rfl), written _ (fun _ _ _ => ⟨rfl, rfl⟩)⟩
  | dead => exact ⟨_, rfl, written _ (fun _ _ _ => rfl)⟩
  | unknown => exact ⟨_, rfl, written _ (fun _ _ _ => rfl)⟩
  | tainted => exact ⟨_, rfl, written _ (fun _ _ _ => rfl)⟩

end Elements

/-! ### One place -/

structure RewriterCfg.Shape (cfg : RewriterCfg) (limit : Int) : Prop where
  sizes : ∀ container, (cfg.entryState.reg container).size = container.size
  alive : cfg.entryState.stack.dead = false
  base : cfg.entryState.stack.base = 0
  size : cfg.entryState.stack.elems.size ≤ limit

structure Wrote (slot : Slot) (cfg next : RewriterCfg) : Prop where
  ranges : next.entrySpec.stackIn = cfg.entrySpec.stackIn ++ slot.range?.toList
  registers : next.entrySpec.regIn = cfg.entrySpec.regIn ∪ slot.mask
  pointers : next.usrPtrCfg = cfg.usrPtrCfg
  values : ∀ i, i < slot.bytes → (next.entryState.elemAt (slot.place.byte i)).Holds i slot.value
  frame : ∀ location, ¬ slot.Covers location →
    next.entryState.elemAt location = cfg.entryState.elemAt location

structure Slot.Fresh (slot : Slot) (cfg : RewriterCfg) : Prop where
  positive : 0 < slot.bytes
  short : slot.bytes ≤ 16
  fits : Elements.FitsBytes slot.value slot.bytes
  small : slot.value.SmallNr
  fresh : ∀ i, i < slot.bytes → cfg.entryState.elemAt (slot.place.byte i) = .initial

namespace RewriterCfg

theorem inRegister_fresh {cfg : RewriterCfg} {limit : Int} (shape : cfg.Shape limit)
    {reg : Register} {access : RegisterAccessType} {bytes : Nat} {data : DynamicValue}
    (part : access ≠ .fullZeroParent) {mask : SubRegisterMask}
    (masked : getSubRegisterMask reg access = .ok mask)
    (slice : getRegisterData reg access = .ok { container := reg.container, byteOffset := 0, bytes })
    (room : bytes ≤ reg.container.size)
    (fresh : Slot.Fresh { place := .register reg access, bytes, value := data } cfg) :
    ∃ next, cfg.inRegister reg access data = .ok next ∧ next.Shape limit ∧
      Wrote { place := .register reg access, bytes, value := data } cfg next := by
  have sizes := shape.sizes reg.container
  obtain ⟨result, written, size, frame, values⟩ :=
    @Elements.setElements_fresh (cfg.entryState.reg reg.container) 0 bytes data
      fresh.positive (by rw [sizes]; exact room) fresh.short fresh.fits fresh.small (by
        intro i below
        rw [Nat.zero_add]
        exact fresh.fresh i below)
  have changed : cfg.entryState.setRegister reg access data false =
      .ok (cfg.entryState.withReg reg.container result) := by
    unfold ProgramState.setRegister
    rw [if_neg (fun both => part both.1), slice]
    change ProgramState.setSlice _ _ _ _ = _
    unfold ProgramState.setSlice
    dsimp only
    rw [written]
    rfl
  refine ⟨(cfg.addRegIn mask).withEntryState (cfg.entryState.withReg reg.container result),
    ?_, ?_, ?_⟩
  · unfold inRegister
    rw [masked, changed]
    rfl
  · refine ⟨?_, shape.alive, shape.base, shape.size⟩
    intro container
    change ((cfg.entryState.withReg reg.container result).reg container).size = _
    by_cases same : container = reg.container
    · subst same
      rw [ProgramState.reg_withReg_self, size, sizes]
    · rw [ProgramState.reg_withReg_of_ne _ _ same]
      exact shape.sizes container
  · refine ⟨(List.append_nil _).symm, ?_, rfl, ?_, ?_⟩
    · unfold Slot.mask
      dsimp only
      rw [masked]
      rfl
    · intro i below
      change (((cfg.entryState.withReg reg.container result).reg reg.container).elem i).Holds i data
      rw [ProgramState.reg_withReg_self]
      have value := values i below
      rwa [Nat.zero_add] at value
    · intro location uncovered
      cases location with
      | stack offset => rfl
      | register container byte =>
          change ((cfg.entryState.withReg reg.container result).reg container).elem byte = _
          by_cases same : container = reg.container
          · subst same
            rw [ProgramState.reg_withReg_self]
            refine frame byte ?_
            intro inside
            exact uncovered ⟨byte, by change byte < bytes; omega, rfl⟩
          · rw [ProgramState.reg_withReg_of_ne _ _ same]
            rfl

theorem inStack_fresh {cfg : RewriterCfg} {limit later : Int} (shape : cfg.Shape limit)
    {offset : Int} {bytes : Nat} {data : DynamicValue} (nonneg : 0 ≤ offset)
    (grows : limit ≤ later) (room : offset + bytes ≤ later) (bound : offset < 2 ^ 31)
    (fresh : Slot.Fresh { place := .stack offset, bytes, value := data } cfg) :
    ∃ next, cfg.inStack offset bytes data = .ok next ∧ next.Shape later ∧
      Wrote { place := .stack offset, bytes, value := data } cfg next := by
  have positive : 0 < bytes := fresh.positive
  have base := shape.base
  have limited := shape.size
  obtain ⟨grown, grownEq⟩ : ∃ grown, cfg.entryState.growStack offset bytes = grown := ⟨_, rfl⟩
  have sameAt (other : Int) : grown.stack.elemAt other = cfg.entryState.stack.elemAt other := by
    rw [← grownEq]
    exact StackState.elemAt_grow _ _ _ _
  have grownStack : grown.stack.base = 0 ∧ grown.stack.dead = false ∧
      offset + bytes ≤ grown.stack.elems.size ∧ grown.stack.elems.size ≤ later := by
    rw [← grownEq]
    unfold ProgramState.growStack StackState.grow
    rw [shape.alive, if_neg Bool.false_ne_true]
    unfold StackState.growOld StackState.growNew StackState.oldStackSize StackState.newStackSize
    split
    · split
      · dsimp only at *
        omega
      · dsimp only at *
        exact ⟨base, shape.alive, by omega, by omega⟩
    · split
      · dsimp only at *
        omega
      · dsimp only at *
        exact ⟨base, shape.alive, by omega, by omega⟩
  obtain ⟨grownBase, grownAlive, large, small⟩ := grownStack
  have index : grown.stack.getStackIdx offset = offset.toNat := by
    unfold StackState.getStackIdx
    rw [grownBase]
    omega
  have elemOf (k : Nat) (inside : k < grown.stack.elems.size) :
      grown.stack.elems.elem k = cfg.entryState.stack.elemAt k := by
    rw [← sameAt, ← StackState.elemAt_index inside, grownBase, Int.sub_zero]
  obtain ⟨result, written, size, frame, values⟩ :=
    @Elements.setElements_fresh grown.stack.elems offset.toNat bytes data
      fresh.positive (by omega) fresh.short fresh.fits fresh.small (by
        intro i below
        rw [elemOf _ (by omega)]
        have initial := fresh.fresh i below
        change cfg.entryState.stack.elemAt (offset + i) = _ at initial
        rw [← initial]
        congr 1
        omega)
  have changed : cfg.entryState.setStack offset bytes data false =
      .ok (grown.withStackElems result) := by
    unfold ProgramState.setStack ProgramState.isStackDead
    rw [if_neg (Nat.pos_iff_ne_zero.mp positive), shape.alive, if_neg Bool.false_ne_true]
    dsimp only
    rw [grownEq, index, written]
    rfl
  have resultAt (other : Int) : (grown.withStackElems result).stack.elemAt other =
      if 0 ≤ other ∧ other < grown.stack.elems.size then result.elem other.toNat else .initial := by
    change (if 0 ≤ grown.stack.base + other ∧ grown.stack.base + other < result.size then _
      else _) = _
    rw [size, grownBase, Int.zero_add]
    change (if _ then result.elem (grown.stack.base + other).toNat else _) = _
    rw [grownBase, Int.zero_add]
  refine ⟨(cfg.addStackIn { offset, length := bytes }).withEntryState
    (grown.withStackElems result), ?_, ?_, ?_⟩
  · unfold inStack
    rw [changed]
    rfl
  · refine ⟨?_, grownAlive, grownBase, ?_⟩
    · intro container
      change (grown.reg container).size = _
      rw [← grownEq]
      exact shape.sizes container
    · change (result.size : Int) ≤ later
      rw [size]
      exact small
  · refine ⟨rfl, (Finset.union_empty _).symm, rfl, ?_, ?_⟩
    · intro i below
      change ((grown.withStackElems result).stack.elemAt (offset + i)).Holds i data
      change i < bytes at below
      rw [resultAt, if_pos (by omega)]
      have value := values i below
      have same : (offset + i).toNat = offset.toNat + i := by omega
      rwa [same]
    · intro location uncovered
      cases location with
      | register container byte =>
          change (grown.reg container).elem byte = _
          rw [← grownEq]
          rfl
      | stack other =>
          change (grown.withStackElems result).stack.elemAt other = cfg.entryState.stack.elemAt other
          have outside : ¬ (offset ≤ other ∧ other < offset + bytes) := by
            intro inside
            refine uncovered ⟨(other - offset).toNat, ?_, ?_⟩
            · dsimp only
              omega
            · change Location.stack other = .stack (offset + ((other - offset).toNat : Int))
              congr 1
              omega
          rw [resultAt, ← sameAt]
          by_cases inside : 0 ≤ other ∧ other < grown.stack.elems.size
          · rw [if_pos inside, frame _ (by omega)]
            have same := @StackState.elemAt_index grown.stack other.toNat (by omega)
            rw [← same, grownBase]
            congr 1
            omega
          · rw [if_neg inside, StackState.elemAt_outside (by rw [grownBase]; omega)]

end RewriterCfg

/-! ### The places of a run -/

def AbiState.Taken (abi : AbiState) : Location → Prop
  | .register (.gprs64 gpr) _ => gpr ∈ argumentGprs.take abi.ints
  | .register (.sse128 nr) _ => nr.val < abi.sses
  | .register (.flag1 _) _ => False
  | .stack offset => 8 ≤ offset ∧ offset < abi.top

def Location.ReturnAddress : Location → Prop
  | .register _ _ => False
  | .stack offset => 0 ≤ offset ∧ offset < 8

structure Tracks (done : List Slot) (limit : Int) (cfg : RewriterCfg) : Prop where
  shape : cfg.Shape limit
  ranges : cfg.entrySpec.stackIn = { offset := 0, length := 8 } :: done.filterMap Slot.range?
  registers : ∀ sub, sub ∈ cfg.entrySpec.regIn ↔ ∃ slot ∈ done, sub ∈ slot.mask
  values : ∀ slot ∈ done, ∀ i, i < slot.bytes →
    (cfg.entryState.elemAt (slot.place.byte i)).Holds i slot.value
  rest : ∀ location, ¬ location.ReturnAddress → (∀ slot ∈ done, ¬ slot.Covers location) →
    cfg.entryState.elemAt location = .initial
  apart : done.Pairwise (fun left right => ∀ location, left.Covers location → ¬ right.Covers location)

theorem Wrote.tracks {slot : Slot} {cfg next : RewriterCfg} {done : List Slot} {limit later : Int}
    (wrote : Wrote slot cfg next) (tracks : Tracks done limit cfg) (shape : next.Shape later)
    (own : ∀ location, slot.Covers location →
      ∀ other ∈ done, ¬ other.Covers location) :
    Tracks (done ++ [slot]) later next := by
  refine ⟨shape, ?_, ?_, ?_, ?_, ?_⟩
  · rw [wrote.ranges, tracks.ranges, List.filterMap_append, List.cons_append]
    cases found : slot.range? with
    | none => rw [List.filterMap_cons_none found, List.filterMap_nil, Option.toList_none]
    | some range => rw [List.filterMap_cons_some found, List.filterMap_nil, Option.toList_some]
  · intro sub
    rw [wrote.registers, Finset.mem_union, tracks.registers]
    simp only [List.mem_append, List.mem_singleton, or_and_right, exists_or, exists_eq_left]
  · intro other member i below
    rcases List.mem_append.mp member with old | new
    · rw [wrote.frame _ (fun covers => own _ covers other old ⟨i, below, rfl⟩)]
      exact tracks.values other old i below
    · cases List.mem_singleton.mp new
      exact wrote.values i below
  · intro location free uncovered
    rw [wrote.frame location (uncovered slot (by simp))]
    exact tracks.rest location free
      (fun other member => uncovered other (List.mem_append_left _ member))
  · refine List.pairwise_append.mpr ⟨tracks.apart, List.pairwise_singleton _ _, ?_⟩
    intro other old next new location covers
    rw [List.mem_singleton.mp new]
    intro again
    exact own location again other old covers

structure Synced (abi : AbiState) (tr : Translation) : Prop where
  ints : tr.intIdx = abi.ints
  sses : tr.sseIdx = abi.sses
  offset : tr.stackOffset = abi.top

structure Progress (abi : AbiState) (done : List Slot) (tr : Translation) : Prop where
  synced : Synced abi tr
  tracks : Tracks done abi.top tr.cfg
  taken : ∀ slot ∈ done, ∀ location, slot.Covers location → abi.Taken location

structure Suits (data : DynamicValue) (bytes : Nat) : Prop where
  fits : Elements.FitsBytes data bytes
  small : data.SmallNr

theorem suits_unknown (bytes : Nat) : Suits .unknown bytes :=
  ⟨⟨nofun, nofun⟩, trivial⟩

theorem suits_data {param : ParamCfg} {value : DynamicValue} {bytes : Nat}
    (suits : Suits value bytes) : Suits (param.data value) bytes := by
  unfold ParamCfg.data
  split
  · exact suits
  · exact suits_unknown bytes

theorem suits_imm64 (val : BitVec 64) {bytes : Nat} (size : bytes = 4 ∨ bytes = 8) :
    Suits (.imm64 val) bytes :=
  ⟨⟨nofun, fun _ => by omega⟩, trivial⟩

theorem suits_imm128 (val : BitVec 128) : Suits (.imm128 val) 16 :=
  ⟨⟨nofun, fun _ => by omega⟩, trivial⟩

theorem suits_usrPtr {nr : Nat} (small : nr < 256) : Suits (.ptr .usr nr 0) 8 :=
  ⟨⟨fun _ => rfl, nofun⟩, small⟩

theorem mem_take_of_le {α : Type} {items : List α} {first second : Nat} (le : first ≤ second)
    {item : α} (member : item ∈ items.take first) : item ∈ items.take second := by
  have shorter : items.take first <+: items.take second := List.take_prefix_take_left le
  exact shorter.subset member

theorem AbiState.Taken.mono {first second : AbiState} {location : Location}
    (taken : first.Taken location) (ints : first.ints ≤ second.ints)
    (sses : first.sses ≤ second.sses) (slots : first.slots ≤ second.slots) :
    second.Taken location := by
  match location, taken with
  | .register (.gprs64 gpr) _, taken => exact mem_take_of_le ints taken
  | .register (.sse128 nr) _, taken => exact Nat.lt_of_lt_of_le taken sses
  | .stack offset, taken =>
      refine ⟨taken.1, ?_⟩
      have below := taken.2
      unfold AbiState.top at below ⊢
      omega

theorem AbiState.top_pos (abi : AbiState) : 8 ≤ abi.top := by
  unfold top
  omega

theorem AbiState.not_taken_stack {abi : AbiState} {offset : Int} (above : abi.top ≤ offset) :
    ¬ abi.Taken (.stack offset) := by
  intro taken
  have below : offset < abi.top := taken.2
  omega

theorem Progress.fresh {abi : AbiState} {done : List Slot} {tr : Translation}
    (progress : Progress abi done tr) (place : Place) {bytes : Nat} {data : DynamicValue}
    (suits : Suits data bytes) (positive : 0 < bytes) (short : bytes ≤ 16)
    (free : ∀ i, i < bytes → ¬ (place.byte i).ReturnAddress ∧ ¬ abi.Taken (place.byte i)) :
    Slot.Fresh { place, bytes, value := data } tr.cfg where
  positive := positive
  short := short
  fits := suits.fits
  small := suits.small
  fresh := fun i below => progress.tracks.rest _ (free i below).1
    (fun slot member covers => (free i below).2 (progress.taken slot member _ covers))

theorem Progress.write {abi later : AbiState} {done : List Slot} {tr next : Translation}
    (progress : Progress abi done tr) {slot : Slot}
    (free : ∀ location, slot.Covers location → ¬ abi.Taken location)
    (wrote : Wrote slot tr.cfg next.cfg) (shape : next.cfg.Shape later.top)
    (synced : Synced later next) (ints : abi.ints ≤ later.ints) (sses : abi.sses ≤ later.sses)
    (slots : abi.slots ≤ later.slots)
    (takes : ∀ location, slot.Covers location → later.Taken location) :
    Progress later (done ++ [slot]) next where
  synced := synced
  tracks := wrote.tracks progress.tracks shape
    (fun location covers other member again =>
      free location covers (progress.taken other member location again))
  taken := by
    intro other member location covers
    rcases List.mem_append.mp member with old | new
    · exact (progress.taken other old location covers).mono ints sses slots
    · cases List.mem_singleton.mp new
      exact takes location covers

theorem Progress.onStack {abi : AbiState} {done : List Slot} {tr : Translation}
    (progress : Progress abi done tr) {bytes : Nat} (slots : Nat) {data : DynamicValue}
    (suits : Suits data bytes) (positive : 0 < bytes) (short : bytes ≤ 16)
    (enough : bytes ≤ 8 * slots) (bound : abi.top + 8 * slots < 2 ^ 31) :
    ∃ next, tr.onStack bytes (8 * slots) data = .ok next ∧
      Progress (abi.onStack bytes slots data).2 (done ++ (abi.onStack bytes slots data).1) next ∧
      next.cfg.usrPtrCfg = tr.cfg.usrPtrCfg := by
  have low := abi.top_pos
  have offsetEq := progress.synced.offset
  have later : (abi.onStack bytes slots data).2.top = abi.top + 8 * slots := by
    unfold AbiState.onStack AbiState.top
    dsimp only
    omega
  have free (i : Nat) (_below : i < bytes) :
      ¬ ((Place.stack abi.top).byte i).ReturnAddress ∧ ¬ abi.Taken ((Place.stack abi.top).byte i) := by
    constructor
    · intro reserved
      have inside : abi.top + i < 8 := reserved.2
      omega
    · exact AbiState.not_taken_stack (by omega)
  obtain ⟨cfg, written, shape, wrote⟩ :=
    RewriterCfg.inStack_fresh progress.tracks.shape (show 0 ≤ abi.top by omega)
      (show abi.top ≤ abi.top + 8 * slots by omega)
      (show abi.top + bytes ≤ abi.top + 8 * slots by omega) (by omega)
      (progress.fresh _ suits positive short free)
  refine ⟨{ tr with cfg, stackOffset := abi.top + 8 * slots }, ?_, ?_, wrote.pointers⟩
  · unfold Translation.onStack addInt
    rw [offsetEq, written, if_pos (by omega)]
    rfl
  · refine progress.write ?_ wrote ?_ ⟨progress.synced.ints, progress.synced.sses, later.symm⟩
      (le_refl _) (le_refl _) (Nat.le_add_right _ _) ?_
    · rintro location ⟨i, below, rfl⟩
      exact (free i below).2
    · rw [later]
      exact shape
    · rintro location ⟨i, below, rfl⟩
      change i < bytes at below
      change 8 ≤ abi.top + i ∧ abi.top + i < (abi.onStack bytes slots data).2.top
      rw [later]
      omega

/-! ### Argument registers -/

theorem argumentGprs_next {i : Nat} {gpr : Gpr} (found : argumentGprs[i]? = some gpr) :
    gpr ∉ argumentGprs.take i ∧ gpr ∈ argumentGprs.take (i + 1) := by
  have below : i < 6 := (List.getElem?_eq_some_iff.mp found).1
  interval_cases i <;> cases found <;> decide

theorem sse_regs_next {i : Nat} {reg : Register} (found : sse_regs[i]? = some reg) :
    ∃ nr : Fin 16, reg = .sse128 nr ∧ nr.val = i := by
  have below : i < 8 := (List.getElem?_eq_some_iff.mp found).1
  interval_cases i <;> cases found <;> exact ⟨_, rfl, rfl⟩

structure Argument (reg : Register) (access : RegisterAccessType) (bytes : Nat) : Prop where
  part : access ≠ .fullZeroParent
  mask : ∃ mask, getSubRegisterMask reg access = .ok mask
  slice : getRegisterData reg access = .ok { container := reg.container, byteOffset := 0, bytes }
  room : bytes ≤ reg.container.size
  positive : 0 < bytes
  short : bytes ≤ 16

theorem argument_integer (gpr : Gpr) {bytes : Nat} (size : bytes = 4 ∨ bytes = 8) :
    Argument (AbiState.integerReg bytes gpr) .full bytes := by
  rcases size with rfl | rfl
  · exact ⟨by decide, ⟨_, rfl⟩, rfl, show 4 ≤ 8 by decide, by decide, by decide⟩
  · exact ⟨by decide, ⟨_, rfl⟩, rfl, show 8 ≤ 8 by decide, by decide, by decide⟩

theorem argument_sse (nr : Fin 16) {bytes : Nat} (size : bytes = 4 ∨ bytes = 8 ∨ bytes = 16) :
    Argument (.sse128 nr) (AbiState.sseAccess bytes) bytes := by
  have slice (access : RegisterAccessType) (known : access = .f0 ∨ access = .h0 ∨ access = .full) :
      ∃ mask, getSubRegisterMask (.sse128 nr) access = .ok mask := by
    rcases known with rfl | rfl | rfl <;> exact ⟨_, rfl⟩
  rcases size with rfl | rfl | rfl
  · exact ⟨by decide, slice .f0 (Or.inl rfl), by simp [getRegisterData, AbiState.sseAccess,
      archGetRegisterInfo, RegisterInfo.sizeInBytes], show 4 ≤ 16 by decide, by decide, by decide⟩
  · exact ⟨by decide, slice .h0 (Or.inr (Or.inl rfl)), by simp [getRegisterData,
      AbiState.sseAccess, archGetRegisterInfo, RegisterInfo.sizeInBytes],
      show 8 ≤ 16 by decide, by decide, by decide⟩
  · exact ⟨by decide, slice .full (Or.inr (Or.inr rfl)), rfl, show 16 ≤ 16 by decide, by decide,
      by decide⟩

theorem container_integerReg (bytes : Nat) (gpr : Gpr) :
    (AbiState.integerReg bytes gpr).container = .gprs64 gpr := by
  unfold AbiState.integerReg
  split <;> rfl

theorem Progress.inRegister {abi : AbiState} {done : List Slot} {tr : Translation}
    (progress : Progress abi done tr) {reg : Register} {access : RegisterAccessType}
    {bytes : Nat} {data : DynamicValue} (argument : Argument reg access bytes) (ints sses : Nat)
    (suits : Suits data bytes) (free : ∀ i, ¬ abi.Taken (.register reg.container i))
    (intsLe : abi.ints ≤ ints) (ssesLe : abi.sses ≤ sses)
    (takes : ∀ i, AbiState.Taken { abi with ints, sses } (.register reg.container i)) :
    ∃ cfg, tr.cfg.inRegister reg access data = .ok cfg ∧ cfg.usrPtrCfg = tr.cfg.usrPtrCfg ∧
      Progress { abi with ints, sses }
        (done ++ [{ place := .register reg access, bytes, value := data }])
        { tr with cfg, intIdx := ints, sseIdx := sses } := by
  obtain ⟨mask, masked⟩ := argument.mask
  obtain ⟨cfg, written, shape, wrote⟩ :=
    RewriterCfg.inRegister_fresh progress.tracks.shape argument.part masked argument.slice
      argument.room (progress.fresh (.register reg access) suits argument.positive
        argument.short (fun i _ => ⟨id, free i⟩))
  refine ⟨cfg, written, wrote.pointers, ?_⟩
  refine progress.write ?_ wrote shape ⟨rfl, rfl, progress.synced.offset⟩ intsLe ssesLe
    (le_refl _) ?_
  · rintro location ⟨i, _, rfl⟩
    exact free i
  · rintro location ⟨i, _, rfl⟩
    exact takes i

theorem Progress.inGpr {abi : AbiState} {done : List Slot} {tr : Translation}
    (progress : Progress abi done tr) {bytes : Nat} {gpr : Gpr} {data : DynamicValue}
    (found : argumentGprs[abi.ints]? = some gpr) (size : bytes = 4 ∨ bytes = 8)
    (suits : Suits data bytes) :
    ∃ cfg, tr.cfg.inRegister (AbiState.integerReg bytes gpr) .full data = .ok cfg ∧
      cfg.usrPtrCfg = tr.cfg.usrPtrCfg ∧
      Progress { abi with ints := abi.ints + 1 }
        (done ++ [{ place := .register (AbiState.integerReg bytes gpr) .full, bytes, value := data }])
        { tr with cfg, intIdx := tr.intIdx + 1 } := by
  obtain ⟨fresh, taken⟩ := argumentGprs_next found
  obtain ⟨cfg, written, pointers, next⟩ :=
    progress.inRegister (argument_integer gpr size) (abi.ints + 1) abi.sses suits
      (by
        intro i
        rw [container_integerReg]
        exact fresh)
      (Nat.le_succ _) (le_refl _)
      (by
        intro i
        rw [container_integerReg]
        exact taken)
  refine ⟨cfg, written, pointers, ?_⟩
  rw [progress.synced.ints, progress.synced.sses]
  exact next

theorem Progress.integer {abi : AbiState} {done : List Slot} {tr : Translation}
    (progress : Progress abi done tr) (regs : List Register) {bytes : Nat} {data : DynamicValue}
    (same : regs = argumentGprs.map (AbiState.integerReg bytes)) (size : bytes = 4 ∨ bytes = 8)
    (suits : Suits data bytes) (bound : (abi.integer bytes data).2.top < 2 ^ 31) :
    ∃ next, tr.integer regs bytes data = .ok next ∧
      Progress (abi.integer bytes data).2 (done ++ (abi.integer bytes data).1) next ∧
      next.cfg.usrPtrCfg = tr.cfg.usrPtrCfg := by
  unfold AbiState.integer at bound ⊢
  unfold Translation.integer
  rw [same, List.getElem?_map, progress.synced.ints]
  cases found : argumentGprs[abi.ints]? with
  | some gpr =>
      obtain ⟨cfg, written, pointers, next⟩ := progress.inGpr found size suits
      refine ⟨{ tr with cfg, intIdx := tr.intIdx + 1 }, ?_, next, pointers⟩
      dsimp only [Option.map_some]
      rw [written, progress.synced.ints]
      rfl
  | none =>
      rw [found] at bound
      dsimp only [Option.map_none] at bound ⊢
      exact progress.onStack 1 suits (by omega) (by omega) (by omega) (by
        unfold AbiState.onStack AbiState.top at *
        dsimp only at bound
        omega)

theorem AbiState.aligned_of_even {abi : AbiState} (even : abi.slots % 2 = 0) : abi.aligned = abi := by
  unfold aligned
  rw [even]
  rfl

theorem Progress.sse {abi : AbiState} {done : List Slot} {tr : Translation}
    (progress : Progress abi done tr) {bytes : Nat} (slots : Nat) {data : DynamicValue}
    (size : bytes = 4 ∧ slots = 1 ∨ bytes = 8 ∧ slots = 1 ∨ bytes = 16 ∧ slots = 2)
    (even : bytes = 16 → abi.sses < 8 ∨ abi.slots % 2 = 0)
    (suits : Suits data bytes) (bound : (abi.sse bytes data).2.top < 2 ^ 31) :
    ∃ next, tr.sse (AbiState.sseAccess bytes) bytes (8 * slots) data = .ok next ∧
      Progress (abi.sse bytes data).2 (done ++ (abi.sse bytes data).1) next ∧
      next.cfg.usrPtrCfg = tr.cfg.usrPtrCfg := by
  unfold AbiState.sse at bound ⊢
  unfold Translation.sse
  rw [progress.synced.sses]
  cases found : sse_regs[abi.sses]? with
  | some reg =>
      obtain ⟨nr, rfl, index⟩ := sse_regs_next found
      obtain ⟨cfg, written, pointers, next⟩ :=
        progress.inRegister (argument_sse nr (by omega)) abi.ints (abi.sses + 1) suits
          (fun _ taken => absurd (show nr.val < abi.sses from taken) (by omega))
          (le_refl _) (Nat.le_succ _) (fun _ => show nr.val < abi.sses + 1 by omega)
      refine ⟨{ tr with cfg, sseIdx := tr.sseIdx + 1 }, ?_, ?_, pointers⟩
      · dsimp only
        rw [written, progress.synced.sses]
        rfl
      · rw [progress.synced.ints, progress.synced.sses]
        exact next
  | none =>
      rw [found] at bound
      have used : 8 ≤ abi.sses := List.getElem?_eq_none_iff.mp found
      have spilled : (if bytes = 16 then abi.aligned.onStack 16 2 data else abi.onStack bytes 1 data) =
          abi.onStack bytes slots data := by
        rcases size with ⟨rfl, rfl⟩ | ⟨rfl, rfl⟩ | ⟨rfl, rfl⟩
        · rfl
        · rfl
        · rw [if_pos rfl, AbiState.aligned_of_even ((even rfl).resolve_left (by omega))]
      dsimp only at bound ⊢
      rw [spilled] at bound ⊢
      exact progress.onStack slots suits (by omega) (by omega) (by omega) (by
        unfold AbiState.onStack AbiState.top at *
        dsimp only at bound
        omega)

theorem Progress.integer128 {abi : AbiState} {done : List Slot} {tr : Translation}
    (progress : Progress abi done tr) {low high whole : DynamicValue}
    (room : abi.ints + 2 ≤ 6) (suitsLow : Suits low 8) (suitsHigh : Suits high 8) :
    ∃ next, tr.integer128 low high whole = .ok next ∧
      Progress (abi.integer128 low high whole).2 (done ++ (abi.integer128 low high whole).1) next ∧
      next.cfg.usrPtrCfg = tr.cfg.usrPtrCfg := by
  obtain ⟨first, foundFirst⟩ : ∃ first, argumentGprs[abi.ints]? = some first :=
    ⟨_, List.getElem?_eq_getElem (show abi.ints < argumentGprs.length from by
      change abi.ints < 6
      omega)⟩
  obtain ⟨second, foundSecond⟩ : ∃ second, argumentGprs[abi.ints + 1]? = some second :=
    ⟨_, List.getElem?_eq_getElem (show abi.ints + 1 < argumentGprs.length from by
      change abi.ints + 1 < 6
      omega)⟩
  have regs : integer64_regs = argumentGprs.map .gprs64 := rfl
  obtain ⟨cfg, written, pointers, next⟩ := progress.inGpr foundFirst (Or.inr rfl) suitsLow
  obtain ⟨cfg', written', pointers', next'⟩ := next.inGpr foundSecond (Or.inr rfl) suitsHigh
  refine ⟨{ tr with cfg := cfg', intIdx := tr.intIdx + 2 }, ?_, ?_, pointers'.trans pointers⟩
  · unfold Translation.integer128
    rw [regs, List.getElem?_map, List.getElem?_map, progress.synced.ints, foundFirst, foundSecond]
    change (do
      let cfg ← tr.cfg.inRegister (AbiState.integerReg 8 first) .full low
      let cfg ← cfg.inRegister (AbiState.integerReg 8 second) .full high
      .ok { tr with cfg, intIdx := abi.ints + 2 }) = _
    rw [written]
    change (do
      let cfg ← cfg.inRegister (AbiState.integerReg 8 second) .full high
      .ok { tr with cfg, intIdx := abi.ints + 2 }) = _
    rw [written']
    rfl
  · unfold AbiState.integer128
    rw [foundFirst, foundSecond]
    rw [List.append_assoc] at next'
    exact next'

/-! ### The parameters -/

/-- The translation and the ABI take the same stack offset for a parameter: no 128-bit
integer goes to the stack, and a vector of 16 bytes goes to an aligned slot. -/
def AbiState.Agrees (abi : AbiState) (param : ParamCfg) : Prop :=
  match param.type.bind ParamType.abiClass with
  | some .integer128 => abi.ints + 2 ≤ 6
  | some (.sse 16) => abi.sses < 8 ∨ abi.slots % 2 = 0
  | _ => True

def ParamCfg.Supported (param : ParamCfg) : Prop :=
  validParamType param.type = true

theorem Progress.counted {abi : AbiState} {done : List Slot} {tr : Translation}
    (progress : Progress abi done tr) (pointers : Nat) : Progress { abi with pointers } done tr where
  synced := ⟨progress.synced.ints, progress.synced.sses, progress.synced.offset⟩
  tracks := progress.tracks
  taken := progress.taken

theorem Progress.withPtrCfg {abi : AbiState} {done : List Slot} {tr : Translation}
    (progress : Progress abi done tr) (usrPtrCfg : List UsrPtrFullCfg) :
    Progress abi done { tr with cfg := { tr.cfg with usrPtrCfg } } where
  synced := ⟨progress.synced.ints, progress.synced.sses, progress.synced.offset⟩
  tracks :=
    { shape := ⟨progress.tracks.shape.sizes, progress.tracks.shape.alive,
        progress.tracks.shape.base, progress.tracks.shape.size⟩
      ranges := progress.tracks.ranges
      registers := progress.tracks.registers
      values := progress.tracks.values
      rest := progress.tracks.rest
      apart := progress.tracks.apart }
  taken := progress.taken

section Translate

variable {param : ParamCfg} {type : ParamType} (abi : AbiState) (tr : Translation)

theorem drobParamToImm32_extended (typed : param.type = some type)
    (small : type.abiClass = some (.integer 4)) (const : param.state = .CONST) :
    drobParamToImm32 param = .ok (param.extended type) := by
  unfold drobParamToImm32
  rw [if_neg (not_not.mpr const), typed]
  cases type <;> cases small <;> rfl

theorem translate_small (typed : param.type = some type)
    (small : type.abiClass = some (.integer 4)) :
    translate param tr = tr.integer integer32_regs 4 (abi.value param type) := by
  have notPtr : ¬ type = .PTR := by
    rintro rfl
    cases small
  have value : abi.value param type =
      param.data (.imm64 ((param.extended type).setWidth 64)) := by
    cases type <;> cases small <;> rfl
  have known : drobParamTypeToAMD64 param.type = .ok .INTEGER8 ∨
      drobParamTypeToAMD64 param.type = .ok .INTEGER16 ∨
      drobParamTypeToAMD64 param.type = .ok .INTEGER32 := by
    rw [typed]
    cases type <;> cases small <;> simp [drobParamTypeToAMD64]
  have data : param.data32 = .ok (abi.value param type) := by
    unfold ParamCfg.data32
    rw [value]
    unfold ParamCfg.data
    split
    · rename_i const
      rw [drobParamToImm32_extended typed small const]
      rfl
    · rfl
  unfold translate
  rw [if_neg (fun same => notPtr (Option.some.inj (typed.symm.trans same)))]
  unfold translateParam
  rcases known with known | known | known
  all_goals
    rw [known, data]
    rfl

theorem translate_large (typed : param.type = some type)
    (large : type.abiClass = some (.integer 8)) (notPtr : type ≠ .PTR) :
    translate param tr = tr.integer integer64_regs 8 (abi.value param type) := by
  unfold translate
  rw [if_neg (fun same => notPtr (Option.some.inj (typed.symm.trans same)))]
  unfold translateParam
  rw [typed]
  cases type <;> cases large <;> first | exact absurd rfl notPtr | rfl

theorem translate_integer128 (typed : param.type = some type)
    (wide : type.abiClass = some .integer128) :
    translate param tr = tr.integer128 (param.data (.imm64 (param.value.setWidth 64)))
      (param.data (.imm64 ((param.value >>> 64).setWidth 64))) (abi.value param type) := by
  unfold translate translateParam
  rw [typed]
  cases type <;> cases wide <;> rfl

theorem translate_sse (typed : param.type = some type) {bytes : Nat}
    (vector : type.abiClass = some (.sse bytes)) :
    translate param tr = tr.sse (AbiState.sseAccess bytes) bytes (if bytes = 16 then 16 else 8)
        (abi.value param type) ∧
      (bytes = 4 ∨ bytes = 8 ∨ bytes = 16) ∧ Suits (abi.value param type) bytes := by
  unfold translate translateParam
  rw [typed]
  cases type <;> cases vector
  · exact ⟨rfl, Or.inl rfl, suits_data (suits_imm64 _ (Or.inl rfl))⟩
  · exact ⟨rfl, Or.inr (Or.inl rfl), suits_data (suits_imm64 _ (Or.inr rfl))⟩
  · exact ⟨rfl, Or.inr (Or.inr rfl), suits_data (suits_imm128 _)⟩
  · exact ⟨rfl, Or.inr (Or.inr rfl), suits_data (suits_imm128 _)⟩

theorem suits_integer (param : ParamCfg) {bytes : Nat} (integer : type.abiClass = some (.integer bytes))
    (notPtr : type ≠ .PTR) : Suits (abi.value param type) bytes ∧ (bytes = 4 ∨ bytes = 8) := by
  cases type <;> cases integer <;> first
    | exact absurd rfl notPtr
    | exact ⟨suits_data (suits_imm64 _ (Or.inl rfl)), Or.inl rfl⟩
    | exact ⟨suits_data (suits_imm64 _ (Or.inr rfl)), Or.inr rfl⟩

end Translate

def ParamCfg.pointer (param : ParamCfg) : List UsrPtrFullCfg :=
  if param.type = some .PTR then [param.usrPtrCfg] else []

theorem Progress.translate {abi : AbiState} {done : List Slot} {tr : Translation}
    (progress : Progress abi done tr) {param : ParamCfg} (supported : param.Supported)
    (agrees : abi.Agrees param) (pointers : tr.cfg.usrPtrCfg.length = abi.pointers)
    (few : (abi.place param).2.pointers ≤ 256) (bound : (abi.place param).2.top < 2 ^ 31) :
    ∃ next, Drob.translate param tr = .ok next ∧
      Progress (abi.place param).2 (done ++ (abi.place param).1) next ∧
      next.cfg.usrPtrCfg = tr.cfg.usrPtrCfg ++ param.pointer := by
  unfold ParamCfg.Supported validParamType at supported
  unfold AbiState.Agrees at agrees
  unfold AbiState.place at few bound ⊢
  unfold ParamCfg.pointer
  cases typed : param.type with
  | none =>
      rw [typed] at supported
      cases supported
  | some type =>
      rw [typed] at supported agrees few bound
      dsimp only [Option.bind_some] at agrees few bound ⊢
      by_cases isPtr : type = .PTR
      · subst isPtr
        change (AbiState.integer { abi with pointers := abi.pointers + 1 } 8
          (.ptr .usr abi.pointers 0)).2.top < 2 ^ 31 at bound
        change (AbiState.integer { abi with pointers := abi.pointers + 1 } 8
          (.ptr .usr abi.pointers 0)).2.pointers ≤ 256 at few
        have small : abi.pointers < 256 := by
          unfold AbiState.integer AbiState.onStack at few
          split at few
          · exact few
          · exact few
        obtain ⟨next, written, later, same⟩ := (progress.counted (abi.pointers + 1)).integer
          integer64_regs rfl (Or.inr rfl) (suits_usrPtr small) bound
        refine ⟨{ next with cfg := { next.cfg with
          usrPtrCfg := next.cfg.usrPtrCfg ++ [param.usrPtrCfg] } }, ?_, later.withPtrCfg _, ?_⟩
        · unfold Drob.translate translatePtr
          rw [if_pos typed, pointers]
          dsimp only
          rw [written]
          rfl
        · rw [if_pos rfl]
          exact congrArg (fun before => before ++ [param.usrPtrCfg]) same
      · have noPointer : ¬ some type = some ParamType.PTR := fun same => isPtr (Option.some.inj same)
        rw [if_neg noPointer, List.append_nil]
        rw [if_neg isPtr] at few bound ⊢
        cases kind : type.abiClass with
        | none =>
            cases type <;> cases kind
            cases supported
        | some kind' =>
            rw [kind] at agrees bound
            cases kind' with
            | integer bytes =>
                obtain ⟨suits, size⟩ := suits_integer abi param kind isPtr
                rcases size with rfl | rfl
                · rw [translate_small abi tr typed kind]
                  exact progress.integer _ rfl (Or.inl rfl) suits bound
                · rw [translate_large abi tr typed kind isPtr]
                  exact progress.integer _ rfl (Or.inr rfl) suits bound
            | integer128 =>
                rw [translate_integer128 abi tr typed kind]
                exact progress.integer128 agrees (suits_data (suits_imm64 _ (Or.inr rfl)))
                  (suits_data (suits_imm64 _ (Or.inr rfl)))
            | sse bytes =>
                obtain ⟨written, size, suits⟩ := translate_sse abi tr typed kind
                rw [written]
                rcases size with rfl | rfl | rfl
                · exact progress.sse 1 (by omega) (by omega) suits bound
                · exact progress.sse 1 (by omega) (by omega) suits bound
                · exact progress.sse 2 (by omega) (fun _ => agrees) suits bound

/-! ### All parameters -/

theorem AbiState.place_mono (abi : AbiState) (param : ParamCfg) :
    abi.slots ≤ (abi.place param).2.slots ∧
      (abi.place param).2.pointers =
        abi.pointers + if param.type = some .PTR then 1 else 0 := by
  unfold place
  cases typed : param.type with
  | none => exact ⟨le_refl _, rfl⟩
  | some type =>
      have same : (if some type = some ParamType.PTR then 1 else 0) =
          if type = ParamType.PTR then 1 else 0 := by
        simp only [Option.some.injEq]
      rw [same]
      dsimp only
      cases kind : type.abiClass with
      | none =>
          cases type <;> cases kind
          exact ⟨le_refl _, rfl⟩
      | some kind' =>
          cases kind' with
          | integer bytes =>
              unfold AbiState.integer AbiState.onStack
              dsimp only
              split
              · exact ⟨le_refl _, rfl⟩
              · exact ⟨Nat.le_succ _, rfl⟩
          | integer128 =>
              unfold AbiState.integer128 AbiState.onStack AbiState.aligned
              dsimp only
              split
              · exact ⟨le_refl _, rfl⟩
              · exact ⟨by dsimp only; omega, rfl⟩
          | sse bytes =>
              unfold AbiState.sse AbiState.onStack AbiState.aligned
              dsimp only
              split
              · exact ⟨le_refl _, rfl⟩
              · split
                · exact ⟨by dsimp only; omega, rfl⟩
                · exact ⟨Nat.le_succ _, rfl⟩

theorem AbiState.after_mono (abi : AbiState) (params : List ParamCfg) :
    abi.slots ≤ (abi.after params).slots ∧
      (abi.after params).pointers =
        abi.pointers + (params.filter (fun param => param.type = some .PTR)).length := by
  induction params generalizing abi with
  | nil => exact ⟨le_refl _, rfl⟩
  | cons param params ih =>
      obtain ⟨slots, pointers⟩ := abi.place_mono param
      obtain ⟨slots', pointers'⟩ := ih (abi.place param).2
      refine ⟨slots.trans slots', ?_⟩
      change ((abi.place param).2.after params).pointers = _
      rw [pointers', pointers, List.filter_cons]
      by_cases isPtr : param.type = some .PTR
      · rw [if_pos isPtr, if_pos (by rw [decide_eq_true isPtr]), List.length_cons]
        omega
      · rw [if_neg isPtr, if_neg (by rw [decide_eq_false isPtr]; exact Bool.false_ne_true)]
        omega

theorem Progress.translateParams {abi : AbiState} {done : List Slot} {tr : Translation}
    (progress : Progress abi done tr) (params : List ParamCfg)
    (supported : ∀ param ∈ params, param.Supported)
    (agrees : ∀ before param after, params = before ++ param :: after →
      (abi.after before).Agrees param)
    (pointers : tr.cfg.usrPtrCfg.length = abi.pointers)
    (few : (abi.after params).pointers ≤ 256) (bound : (abi.after params).top < 2 ^ 31) :
    ∃ next, Drob.translateParams params tr = .ok next ∧
      Progress (abi.after params) (done ++ abi.placeAll params) next ∧
      next.cfg.usrPtrCfg = tr.cfg.usrPtrCfg ++ params.flatMap ParamCfg.pointer := by
  induction params generalizing abi done tr with
  | nil =>
      refine ⟨tr, rfl, ?_, (List.append_nil _).symm⟩
      unfold AbiState.placeAll
      rw [List.append_nil]
      exact progress
  | cons param params ih =>
      have later := (abi.place param).2.after_mono params
      change ((abi.place param).2.after params).pointers ≤ 256 at few
      change ((abi.place param).2.after params).top < 2 ^ 31 at bound
      obtain ⟨next, written, stepped, pointers'⟩ :=
        progress.translate (supported param List.mem_cons_self) (agrees [] param params rfl) pointers
          (by omega) (by
            have slots := later.1
            unfold AbiState.top at bound ⊢
            omega)
      have length : next.cfg.usrPtrCfg.length = (abi.place param).2.pointers := by
        rw [pointers', List.length_append, pointers, (abi.place_mono param).2]
        unfold ParamCfg.pointer
        split <;> rfl
      obtain ⟨final, writtenRest, finished, pointersRest⟩ := ih stepped
        (fun other member => supported other (List.mem_cons_of_mem _ member))
        (fun before other after split => agrees (param :: before) other after (by rw [split]; rfl))
        length few bound
      refine ⟨final, ?_, ?_, ?_⟩
      · unfold Drob.translateParams
        rw [written]
        exact writtenRest
      · rw [List.append_assoc] at finished
        exact finished
      · rw [pointersRest, pointers', List.flatMap_cons, List.append_assoc]

end Drob
