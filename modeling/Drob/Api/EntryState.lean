import Drob.Api.Translated

/-!
The whole translation of a parameter list: exactly when the entry specification and
the entry state have every parameter where the ABI places it.
-/

namespace Drob

namespace RewriterCfg

theorem inRegister_ok {cfg next : RewriterCfg} {reg : Register} {access : RegisterAccessType}
    {data : DynamicValue} (written : cfg.inRegister reg access data = .ok next) :
    ∃ mask entryState, cfg.entryState.setRegister reg access data false = .ok entryState ∧
      next = (cfg.addRegIn mask).withEntryState entryState := by
  obtain ⟨mask, _, rest⟩ := bind_ok written
  obtain ⟨entryState, set, same⟩ := bind_ok rest
  exact ⟨mask, entryState, set, (Except.ok.inj same).symm⟩

theorem inStack_ok {cfg next : RewriterCfg} {offset : Int} {bytes : Nat} {data : DynamicValue}
    (written : cfg.inStack offset bytes data = .ok next) :
    ∃ entryState, cfg.entryState.setStack offset bytes data false = .ok entryState ∧
      next = (cfg.addStackIn { offset, length := bytes }).withEntryState entryState := by
  obtain ⟨entryState, set, same⟩ := bind_ok written
  exact ⟨entryState, set, (Except.ok.inj same).symm⟩

end RewriterCfg

/-! ### The stack ranges of any translation -/

def Appends (cfg next : RewriterCfg) (ranges : List StackRange) : Prop :=
  next.entrySpec.stackIn = cfg.entrySpec.stackIn ++ ranges

theorem appends_inRegister {cfg next : RewriterCfg} {reg : Register} {access : RegisterAccessType}
    {data : DynamicValue} (written : cfg.inRegister reg access data = .ok next) :
    Appends cfg next [] ∧ next.usrPtrCfg = cfg.usrPtrCfg := by
  obtain ⟨mask, entryState, _, rfl⟩ := RewriterCfg.inRegister_ok written
  exact ⟨(List.append_nil _).symm, rfl⟩

theorem onStack_ok {tr next : Translation} {bytes slot : Nat} {data : DynamicValue}
    (written : tr.onStack bytes slot data = .ok next) :
    Appends tr.cfg next.cfg [{ offset := tr.stackOffset, length := bytes }] ∧
      next.intIdx = tr.intIdx ∧ next.sseIdx = tr.sseIdx ∧
      next.stackOffset = tr.stackOffset + slot ∧ next.stackOffset < 2 ^ 31 := by
  obtain ⟨cfg, set, rest⟩ := bind_ok written
  obtain ⟨offset, added, same⟩ := bind_ok rest
  obtain ⟨entryState, _, rfl⟩ := RewriterCfg.inStack_ok set
  cases Except.ok.inj same
  unfold addInt at added
  obtain ⟨small, sum⟩ := ite_ok added
  cases Except.ok.inj sum
  exact ⟨rfl, rfl, rfl, rfl, small⟩

theorem integer_ok {tr next : Translation} {regs : List Register} {bytes : Nat}
    {data : DynamicValue} (written : tr.integer regs bytes data = .ok next) :
    (regs[tr.intIdx]?.isSome = true ∧ Appends tr.cfg next.cfg [] ∧
        next.intIdx = tr.intIdx + 1 ∧ next.sseIdx = tr.sseIdx ∧
        next.stackOffset = tr.stackOffset) ∨
      regs[tr.intIdx]? = none ∧ tr.onStack bytes 8 data = .ok next := by
  unfold Translation.integer at written
  cases found : regs[tr.intIdx]? with
  | some reg =>
      rw [found] at written
      obtain ⟨cfg, set, same⟩ := bind_ok written
      cases Except.ok.inj same
      exact Or.inl ⟨rfl, (appends_inRegister set).1, rfl, rfl, rfl⟩
  | none =>
      rw [found] at written
      exact Or.inr ⟨rfl, written⟩

theorem sse_ok {tr next : Translation} {access : RegisterAccessType} {bytes slot : Nat}
    {data : DynamicValue} (written : tr.sse access bytes slot data = .ok next) :
    (sse_regs[tr.sseIdx]?.isSome = true ∧ Appends tr.cfg next.cfg [] ∧
        next.intIdx = tr.intIdx ∧ next.sseIdx = tr.sseIdx + 1 ∧
        next.stackOffset = tr.stackOffset) ∨
      sse_regs[tr.sseIdx]? = none ∧ tr.onStack bytes slot data = .ok next := by
  unfold Translation.sse at written
  cases found : sse_regs[tr.sseIdx]? with
  | some reg =>
      rw [found] at written
      obtain ⟨cfg, set, same⟩ := bind_ok written
      cases Except.ok.inj same
      exact Or.inl ⟨rfl, (appends_inRegister set).1, rfl, rfl, rfl⟩
  | none =>
      rw [found] at written
      exact Or.inr ⟨rfl, written⟩

theorem align128_ok {tr aligned : Translation} (written : tr.align128 = .ok aligned) :
    aligned.cfg = tr.cfg ∧ aligned.stackOffset % 16 = 0 := by
  unfold Translation.align128 at written
  split at written
  · obtain ⟨offset, _, rest⟩ := bind_ok written
    obtain ⟨even, same⟩ := ite_ok rest
    cases Except.ok.inj same
    exact ⟨rfl, even⟩
  · rename_i even
    cases Except.ok.inj written
    exact ⟨rfl, not_not.mp even⟩

theorem integer128_ok {tr next : Translation} {low high whole : DynamicValue}
    (written : tr.integer128 low high whole = .ok next) :
    (tr.intIdx + 2 ≤ 6 ∧ Appends tr.cfg next.cfg [] ∧ next.intIdx = tr.intIdx + 2 ∧
        next.sseIdx = tr.sseIdx ∧ next.stackOffset = tr.stackOffset) ∨
      ¬ tr.intIdx + 2 ≤ 6 ∧ ∃ offset, offset % 16 = 0 ∧
        Appends tr.cfg next.cfg [{ offset, length := 16 }] := by
  unfold Translation.integer128 at written
  split at written
  · rename_i first second foundFirst foundSecond
    have room : tr.intIdx + 1 < 6 := (List.getElem?_eq_some_iff.mp foundSecond).1
    obtain ⟨cfg, set, rest⟩ := bind_ok written
    obtain ⟨cfg', set', same⟩ := bind_ok rest
    cases Except.ok.inj same
    have ranges := (appends_inRegister set).1
    have ranges' := (appends_inRegister set').1
    unfold Appends at ranges ranges' ⊢
    rw [ranges, List.append_nil] at ranges'
    exact Or.inl ⟨by omega, ranges', rfl, rfl, rfl⟩
  · rename_i missing
    right
    obtain ⟨aligned, alignedEq, stacked⟩ := bind_ok written
    obtain ⟨sameCfg, even⟩ := align128_ok alignedEq
    have ranges := (onStack_ok stacked).1
    rw [sameCfg] at ranges
    refine ⟨?_, aligned.stackOffset, even, ranges⟩
    intro room
    have first : integer64_regs[tr.intIdx]? = some _ :=
      List.getElem?_eq_getElem (show tr.intIdx < 6 by omega)
    have second : integer64_regs[tr.intIdx + 1]? = some _ :=
      List.getElem?_eq_getElem (show tr.intIdx + 1 < 6 by omega)
    exact missing _ _ first second

/-! ### Comparing the ranges with those of the ABI -/

def stackRanges (slots : List Slot) : List StackRange :=
  slots.filterMap Slot.range?

/-- A step appends as many ranges as the ABI has; if they are the same, the counters
agree after it. -/
def Follows (tr next : Translation) (abi : AbiState) (placed : List Slot × AbiState)
    (agrees : Prop) : Prop :=
  ∃ ranges, Appends tr.cfg next.cfg ranges ∧ ranges.length = (stackRanges placed.1).length ∧
    (tr.stackOffset = abi.top → tr.stackOffset < 2 ^ 31 → ranges = stackRanges placed.1 →
      agrees ∧ Synced placed.2 next ∧ next.stackOffset < 2 ^ 31)

section Follows

variable {abi : AbiState} {tr next : Translation} {data value : DynamicValue}

theorem follows_onStack {bytes slots : Nat} (ints : tr.intIdx = abi.ints)
    (sses : tr.sseIdx = abi.sses) (written : tr.onStack bytes (8 * slots) data = .ok next) :
    Follows tr next abi (abi.onStack bytes slots value) True := by
  obtain ⟨ranges, sameInts, sameSses, offset, small⟩ := onStack_ok written
  refine ⟨_, ranges, rfl, ?_⟩
  intro same _ _
  refine ⟨trivial, ⟨sameInts.trans ints, sameSses.trans sses, ?_⟩, small⟩
  rw [offset, same]
  unfold AbiState.onStack AbiState.top
  dsimp only
  omega

theorem follows_integer {regs : List Register} {bytes : Nat}
    (map : regs = argumentGprs.map (AbiState.integerReg bytes)) (ints : tr.intIdx = abi.ints)
    (sses : tr.sseIdx = abi.sses) (written : tr.integer regs bytes data = .ok next) :
    Follows tr next abi (abi.integer bytes value) True := by
  unfold AbiState.integer
  have found : regs[tr.intIdx]? = argumentGprs[abi.ints]?.map (AbiState.integerReg bytes) := by
    rw [map, List.getElem?_map, ints]
  rcases integer_ok written with ⟨some, ranges, ints', sses', offset⟩ | ⟨none, stacked⟩
  · rw [found, Option.isSome_map] at some
    obtain ⟨gpr, isSome⟩ := Option.isSome_iff_exists.mp some
    rw [isSome]
    refine ⟨[], ranges, rfl, ?_⟩
    intro same small _
    refine ⟨trivial, ⟨?_, sses'.trans sses, offset.trans same⟩, by omega⟩
    dsimp only
    omega
  · rw [found, Option.map_eq_none_iff] at none
    rw [none]
    exact follows_onStack ints sses stacked

theorem follows_sse {bytes slots : Nat} {access : RegisterAccessType}
    (size : bytes = 4 ∧ slots = 1 ∨ bytes = 8 ∧ slots = 1 ∨ bytes = 16 ∧ slots = 2)
    (ints : tr.intIdx = abi.ints) (sses : tr.sseIdx = abi.sses)
    (written : tr.sse access bytes (8 * slots) data = .ok next) :
    Follows tr next abi (abi.sse bytes value)
      (bytes = 16 → abi.sses < 8 ∨ abi.slots % 2 = 0) := by
  unfold AbiState.sse
  rcases sse_ok written with ⟨some, ranges, ints', sses', offset⟩ | ⟨none, stacked⟩
  · rw [sses] at some
    obtain ⟨reg, isSome⟩ := Option.isSome_iff_exists.mp some
    rw [isSome]
    have below : abi.sses < 8 := (List.getElem?_eq_some_iff.mp isSome).1
    refine ⟨[], ranges, rfl, ?_⟩
    intro same small _
    refine ⟨fun _ => Or.inl below, ⟨ints'.trans ints, ?_, offset.trans same⟩, by omega⟩
    dsimp only
    omega
  · rw [sses] at none
    rw [none]
    dsimp only
    have follows : Follows tr next abi (abi.onStack bytes slots value) True :=
      follows_onStack ints sses stacked
    obtain ⟨ranges, appends, length, agree⟩ := follows
    by_cases wide : bytes = 16
    · subst wide
      have two : slots = 2 := by omega
      subst two
      rw [if_pos rfl]
      refine ⟨ranges, appends, length, ?_⟩
      intro same small equal
      obtain ⟨appended, _, _, _, _⟩ := onStack_ok stacked
      -- the ranges are equal only if the slot was aligned already
      have offsets : tr.stackOffset = abi.aligned.top := by
        unfold Appends at appends appended
        rw [appended] at appends
        have single := List.append_cancel_left appends
        rw [equal] at single
        exact congrArg StackRange.offset (List.cons.inj single).1
      rw [same] at offsets
      have even : abi.slots % 2 = 0 := by
        unfold AbiState.top AbiState.aligned at offsets
        dsimp only at offsets
        omega
      rw [AbiState.aligned_of_even even] at equal ⊢
      obtain ⟨_, synced, bounded⟩ := agree same small equal
      exact ⟨fun _ => Or.inr even, synced, bounded⟩
    · have one : slots = 1 := by omega
      subst one
      rw [if_neg wide]
      refine ⟨ranges, appends, length, ?_⟩
      intro same small equal
      obtain ⟨_, synced, bounded⟩ := agree same small equal
      exact ⟨fun impossible => absurd impossible wide, synced, bounded⟩

theorem follows_integer128 {low high whole lowValue highValue : DynamicValue}
    (ints : tr.intIdx = abi.ints) (sses : tr.sseIdx = abi.sses)
    (written : tr.integer128 low high whole = .ok next) :
    Follows tr next abi (abi.integer128 lowValue highValue value) (abi.ints + 2 ≤ 6) := by
  rcases integer128_ok written with ⟨room, ranges, ints', sses', offset⟩ | ⟨full, offset, even, ranges⟩
  · have first : argumentGprs[abi.ints]? = some _ :=
      List.getElem?_eq_getElem (show abi.ints < 6 by omega)
    have second : argumentGprs[abi.ints + 1]? = some _ :=
      List.getElem?_eq_getElem (show abi.ints + 1 < 6 by omega)
    unfold AbiState.integer128
    rw [first, second]
    refine ⟨[], ranges, rfl, ?_⟩
    intro same small _
    refine ⟨by omega, ⟨?_, sses'.trans sses, offset.trans same⟩, by omega⟩
    dsimp only
    omega
  · have missing : argumentGprs[abi.ints + 1]? = none :=
      List.getElem?_eq_none (show 6 ≤ abi.ints + 1 by omega)
    have spilled : abi.integer128 lowValue highValue value = abi.aligned.onStack 16 2 value := by
      unfold AbiState.integer128
      rw [missing]
      split
      · rename_i impossible
        cases impossible
      · rfl
    rw [spilled]
    refine ⟨_, ranges, rfl, ?_⟩
    intro _ _ equal
    -- the ABI has an odd multiple of eight
    have same : offset = abi.aligned.top :=
      congrArg StackRange.offset (List.cons.inj equal).1
    exfalso
    unfold AbiState.top AbiState.aligned at same
    dsimp only at same
    omega

theorem Follows.agrees {placed : List Slot × AbiState} {agrees other : Prop}
    (follows : Follows tr next abi placed agrees) (implies : agrees → other) :
    Follows tr next abi placed other := by
  obtain ⟨ranges, appends, length, agree⟩ := follows
  refine ⟨ranges, appends, length, ?_⟩
  intro same small equal
  obtain ⟨holds, synced, bounded⟩ := agree same small equal
  exact ⟨implies holds, synced, bounded⟩

theorem follows_translate {param : ParamCfg} (supported : param.Supported)
    (ints : tr.intIdx = abi.ints) (sses : tr.sseIdx = abi.sses)
    (written : translate param tr = .ok next) :
    Follows tr next abi (abi.place param) (abi.Agrees param) := by
  unfold ParamCfg.Supported validParamType at supported
  unfold AbiState.Agrees AbiState.place
  cases typed : param.type with
  | none =>
      rw [typed] at supported
      cases supported
  | some type =>
      rw [typed] at supported
      dsimp only [Option.bind_some]
      -- the number of pointers is not compared here
      have counted (placed : List Slot × AbiState) (agrees : Prop) (pointers : Nat) :
          Follows tr next { abi with pointers } placed agrees → Follows tr next abi placed agrees :=
        fun follows => follows
      refine counted _ _ (abi.pointers + if type = ParamType.PTR then 1 else 0) ?_
      by_cases isPtr : type = .PTR
      · subst isPtr
        unfold translate translatePtr at written
        rw [if_pos typed] at written
        obtain ⟨stepped, integer, same⟩ := bind_ok written
        cases Except.ok.inj same
        have follows : Follows tr stepped
            { abi with pointers := abi.pointers + if ParamType.PTR = ParamType.PTR then 1 else 0 }
            (AbiState.integer { abi with
              pointers := abi.pointers + if ParamType.PTR = ParamType.PTR then 1 else 0 } 8
              (.ptr .usr abi.pointers 0)) True :=
          follows_integer rfl ints sses integer
        obtain ⟨ranges, appends, length, agree⟩ := follows
        refine ⟨ranges, appends, length, ?_⟩
        intro same small equal
        obtain ⟨_, synced, bounded⟩ := agree same small equal
        exact ⟨trivial, ⟨synced.ints, synced.sses, synced.offset⟩, bounded⟩
      · cases kind : type.abiClass with
        | none =>
            cases type <;> cases kind
            cases supported
        | some kind' =>
            cases kind' with
            | integer bytes =>
                obtain ⟨_, size⟩ := suits_integer abi param kind isPtr
                rcases size with rfl | rfl
                · rw [translate_small abi tr typed kind] at written
                  exact follows_integer rfl ints sses written
                · rw [translate_large abi tr typed kind isPtr] at written
                  exact follows_integer rfl ints sses written
            | integer128 =>
                rw [translate_integer128 abi tr typed kind] at written
                exact follows_integer128 ints sses written
            | sse bytes =>
                obtain ⟨translated, size, _⟩ := translate_sse abi tr typed kind
                rw [translated] at written
                rcases size with rfl | rfl | rfl
                · exact Follows.agrees (follows_sse (Or.inl ⟨rfl, rfl⟩) ints sses written)
                    (fun _ => trivial)
                · exact Follows.agrees (follows_sse (Or.inr (Or.inl ⟨rfl, rfl⟩)) ints sses written)
                    (fun _ => trivial)
                · exact Follows.agrees (follows_sse (Or.inr (Or.inr ⟨rfl, rfl⟩)) ints sses written)
                    (fun agrees => agrees rfl)

end Follows

/-! ### The loop over the parameters -/

theorem translateParams_appends {tr final : Translation} {params : List ParamCfg}
    (supported : ∀ param ∈ params, param.Supported)
    (written : translateParams params tr = .ok final) :
    ∃ ranges, Appends tr.cfg final.cfg ranges := by
  induction params generalizing tr with
  | nil =>
      cases Except.ok.inj written
      exact ⟨[], (List.append_nil _).symm⟩
  | cons param params ih =>
      obtain ⟨stepped, step, rest⟩ := bind_ok written
      obtain ⟨ranges, appends, _, _⟩ := @follows_translate
        { ints := tr.intIdx, sses := tr.sseIdx, slots := 0, pointers := 0 } tr stepped param
        (supported param List.mem_cons_self) rfl rfl step
      obtain ⟨later, appendsLater⟩ :=
        ih (fun other member => supported other (List.mem_cons_of_mem _ member)) rest
      refine ⟨ranges ++ later, ?_⟩
      unfold Appends at appends appendsLater ⊢
      rw [appendsLater, appends, List.append_assoc]

theorem agrees_of_ranges {abi : AbiState} {tr final : Translation} {params : List ParamCfg}
    (synced : Synced abi tr) (small : tr.stackOffset < 2 ^ 31)
    (supported : ∀ param ∈ params, param.Supported)
    (written : translateParams params tr = .ok final)
    (ranges : Appends tr.cfg final.cfg (stackRanges (abi.placeAll params))) :
    (∀ before param after, params = before ++ param :: after →
        (abi.after before).Agrees param) ∧ (abi.after params).top < 2 ^ 31 := by
  induction params generalizing abi tr with
  | nil =>
      refine ⟨?_, ?_⟩
      · intro before param after split
        have length := congrArg List.length split
        rw [List.length_append, List.length_cons, List.length_nil] at length
        omega
      · have offset := synced.offset
        change abi.top < 2 ^ 31
        omega
  | cons param params ih =>
      obtain ⟨stepped, step, rest⟩ := bind_ok written
      obtain ⟨own, appends, length, agree⟩ :=
        follows_translate (supported param List.mem_cons_self) synced.ints synced.sses step
      have supportedRest : ∀ other ∈ params, other.Supported :=
        fun other member => supported other (List.mem_cons_of_mem _ member)
      obtain ⟨later, appendsLater⟩ := translateParams_appends supportedRest rest
      have both : own ++ later =
          stackRanges (abi.place param).1 ++ stackRanges ((abi.place param).2.placeAll params) := by
        unfold Appends at appends appendsLater ranges
        rw [appendsLater, appends, List.append_assoc] at ranges
        rw [List.append_cancel_left ranges]
        exact List.filterMap_append
      obtain ⟨sameOwn, sameLater⟩ := List.append_inj both length
      obtain ⟨agrees, next, bounded⟩ := agree synced.offset small sameOwn
      obtain ⟨agreesRest, bound⟩ := ih next bounded supportedRest rest
        (by rw [← sameLater]; exact appendsLater)
      refine ⟨?_, bound⟩
      intro before other after split
      cases before with
      | nil =>
          cases split
          exact agrees
      | cons first before =>
          cases split
          exact agreesRest before other after rfl

theorem pointer_slot {abi : AbiState} {params : List ParamCfg} {nr : Nat} (above : abi.pointers ≤ nr)
    (below : nr < (abi.after params).pointers) :
    ∃ slot ∈ abi.placeAll params, 0 < slot.bytes ∧ slot.value = .ptr .usr nr 0 := by
  induction params generalizing abi with
  | nil => exact absurd below (Nat.not_lt.mpr above)
  | cons param params ih =>
      have pointers := (abi.place_mono param).2
      by_cases here : param.type = some .PTR ∧ nr = abi.pointers
      · obtain ⟨isPtr, rfl⟩ := here
        have placed : ∃ slot ∈ (abi.place param).1, 0 < slot.bytes ∧
            slot.value = .ptr .usr abi.pointers 0 := by
          unfold AbiState.place
          rw [isPtr]
          change ∃ slot ∈ (AbiState.integer { abi with pointers := abi.pointers + 1 } 8
            (.ptr .usr abi.pointers 0)).1, _
          unfold AbiState.integer AbiState.onStack
          split
          · exact ⟨_, List.mem_singleton_self _, Nat.succ_pos 7, rfl⟩
          · exact ⟨_, List.mem_singleton_self _, Nat.succ_pos 7, rfl⟩
        obtain ⟨slot, member, holds⟩ := placed
        exact ⟨slot, List.mem_append_left _ member, holds⟩
      · have later : (abi.place param).2.pointers ≤ nr := by
          rw [pointers]
          split
          · rename_i isPtr
            have differ : nr ≠ abi.pointers := fun same => here ⟨isPtr, same⟩
            omega
          · omega
        obtain ⟨slot, member, holds⟩ := ih later below
        exact ⟨slot, List.mem_append_right _ member, holds⟩

/-! ### Before and after the loop -/

theorem tracks_start {ret_type : Option ParamType} (valid : ret_type ≠ none) :
    ∃ cfg, translateRet ret_type .initial = .ok cfg ∧ Tracks [] 8 cfg ∧ cfg.usrPtrCfg = [] := by
  have shape : RewriterCfg.initial.Shape 0 := ⟨fun _ => rfl, rfl, rfl, le_refl _⟩
  obtain ⟨cfg, written, shape', wrote⟩ := RewriterCfg.inStack_fresh shape (show (0 : Int) ≤ 0 by omega)
    (show (0 : Int) ≤ 8 by omega) (show (0 : Int) + (8 : Nat) ≤ 8 by omega) (by omega)
    (show Slot.Fresh { place := .stack 0, bytes := 8, value := .ptr .ret 0 0 } .initial from
      { positive := by decide
        short := by decide
        fits := ⟨fun _ => rfl, nofun⟩
        small := show 0 < 256 by decide
        fresh := fun i _ => by
          change StackState.initial.elemAt (0 + i) = _
          refine StackState.elemAt_outside ?_
          change ¬ (0 ≤ (0 : Int) + _ ∧ (0 : Int) + _ < (0 : Nat))
          omega })
  have tracks (out : SubRegisterMask) : Tracks [] 8 (cfg.addRegOut out) := by
    refine ⟨⟨shape'.sizes, shape'.alive, shape'.base, shape'.size⟩, wrote.ranges, ?_, ?_, ?_,
      List.Pairwise.nil⟩
    · intro sub
      change sub ∈ cfg.entrySpec.regIn ↔ _
      rw [wrote.registers]
      constructor
      · intro impossible
        cases impossible
      · rintro ⟨slot, member, _⟩
        cases member
    · intro slot member
      cases member
    · intro location free _
      change cfg.entryState.elemAt location = _
      rw [wrote.frame location ?_]
      · cases location with
        | register container byte => rfl
        | stack offset =>
            change StackState.initial.elemAt offset = _
            refine StackState.elemAt_outside ?_
            change ¬ (0 ≤ (0 : Int) + _ ∧ (0 : Int) + _ < (0 : Nat))
            omega
      · rintro ⟨i, below, rfl⟩
        change i < 8 at below
        exact free (show 0 ≤ (0 : Int) + i ∧ (0 : Int) + i < 8 by omega)
  have noOut : cfg.addRegOut ∅ = cfg := by
    unfold RewriterCfg.addRegOut
    rw [Finset.union_empty]
  have plain : Tracks [] 8 cfg := noOut ▸ tracks ∅
  obtain ⟨type, rfl⟩ := Option.ne_none_iff_exists'.mp valid
  have pointers : cfg.usrPtrCfg = [] := wrote.pointers
  unfold translateRet
  rw [written]
  cases type <;> first
    | exact ⟨_, rfl, plain, pointers⟩
    | exact ⟨_, rfl, tracks _, pointers⟩
    | skip
  all_goals
    refine ⟨(cfg.addRegOut (fullSubRegisterMask (.gprs64 .D))).addRegOut
      (fullSubRegisterMask (.gprs64 .A)), rfl, ?_, pointers⟩
    have both := tracks (fullSubRegisterMask (.gprs64 .D) ∪ fullSubRegisterMask (.gprs64 .A))
    unfold RewriterCfg.addRegOut at both ⊢
    rw [← Finset.union_assoc] at both
    exact both

theorem preserveRegisters_ok {cfg : RewriterCfg} {limit : Int} (shape : cfg.Shape limit)
    (gprs : List Gpr) (once : gprs.Nodup)
    (fresh : ∀ gpr ∈ gprs, ∀ i,
      cfg.entryState.elemAt (.register (.gprs64 gpr) i) = .initial) :
    ∃ next, preserveRegisters cfg (gprs.map .gprs64) = .ok next ∧
      next.entrySpec.stackIn = cfg.entrySpec.stackIn ∧
      next.entrySpec.regIn = cfg.entrySpec.regIn ∧ next.usrPtrCfg = cfg.usrPtrCfg ∧
      (∀ location, (∀ gpr ∈ gprs, ∀ i, location ≠ .register (.gprs64 gpr) i) →
        next.entryState.elemAt location = cfg.entryState.elemAt location) ∧
      ∀ location, next.entryState.elemAt location = cfg.entryState.elemAt location ∨
        (next.entryState.elemAt location).type = .unknown := by
  induction gprs generalizing cfg with
  | nil => exact ⟨cfg, rfl, rfl, rfl, rfl, fun _ _ => rfl, fun _ => Or.inl rfl⟩
  | cons gpr gprs ih =>
      have argument := argument_integer gpr (Or.inr rfl : 8 = 4 ∨ 8 = 8)
      obtain ⟨mask, masked⟩ := argument.mask
      obtain ⟨set, written, shapeSet, wrote⟩ := RewriterCfg.inRegister_fresh shape argument.part
        masked argument.slice argument.room
        (show Slot.Fresh { place := .register (.gprs64 gpr) .full, bytes := 8, value := .unknown } cfg
          from
          { positive := Nat.succ_pos 7
            short := show 8 ≤ 16 by decide
            fits := (suits_unknown 8).fits
            small := trivial
            fresh := fun i _ => fresh gpr List.mem_cons_self i })
      obtain ⟨_, entryState, changed, rfl⟩ := RewriterCfg.inRegister_ok written
      change cfg.entryState.setRegister (.gprs64 gpr) .full .unknown false = .ok entryState at changed
      obtain ⟨notIn, onceRest⟩ := List.nodup_cons.mp once
      have apart (other : Gpr) (member : other ∈ gprs) (i : Nat) :
          ¬ Slot.Covers { place := .register (.gprs64 gpr) .full, bytes := 8, value := .unknown }
            (.register (.gprs64 other) i) := by
        rintro ⟨_, _, same⟩
        cases same
        exact notIn member
      obtain ⟨next, rest, ranges, regs, pointers, frame, either⟩ :=
        @ih ((cfg.addRegPreserved (fullSubRegisterMask (.gprs64 gpr))).withEntryState entryState)
          ⟨shapeSet.sizes, shapeSet.alive, shapeSet.base, shapeSet.size⟩ onceRest (by
            intro other member i
            exact (wrote.frame _ (apart other member i)).trans
              (fresh other (List.mem_cons_of_mem gpr member) i))
      refine ⟨next, ?_, ranges, regs, pointers, ?_, ?_⟩
      · unfold preserveRegisters
        rw [List.map_cons]
        dsimp only
        rw [changed]
        exact rest
      · intro location outside
        rw [frame location
          (fun other member => outside other (List.mem_cons_of_mem gpr member))]
        refine wrote.frame location ?_
        rintro ⟨i, _, rfl⟩
        exact outside gpr List.mem_cons_self i rfl
      · intro location
        rcases either location with same | unknown
        · rw [same]
          by_cases covered : Slot.Covers
              { place := .register (.gprs64 gpr) .full, bytes := 8, value := .unknown } location
          · obtain ⟨i, below, rfl⟩ := covered
            exact Or.inr (wrote.values i below)
          · exact Or.inl (wrote.frame location covered)
        · exact Or.inr unknown

def savedGprs : List Gpr :=
  [.B, .BP, .R12, .R13, .R14, .R15]

theorem saved_not_argument {gpr : Gpr} (saved : gpr ∈ savedGprs) : gpr ∉ argumentGprs ∧ gpr ≠ .SP := by
  revert gpr
  decide

theorem finish_ok {abi : AbiState} {slots : List Slot} {tr : Translation}
    (progress : Progress abi slots tr) :
    ∃ cfg final, tr.cfg.inRegister .RSP .full (.ptr .stack 0 0) = .ok cfg ∧
      preserveRegisters (cfg.addRegPreserved (fullSubRegisterMask .RSP))
        (savedGprs.map .gprs64) = .ok final ∧
      final.entrySpec.stackIn = tr.cfg.entrySpec.stackIn ∧
      final.entrySpec.regIn = tr.cfg.entrySpec.regIn ∪ fullSubRegisterMask .RSP ∧
      final.usrPtrCfg = tr.cfg.usrPtrCfg ∧
      (∀ location, abi.Taken location →
        final.entryState.elemAt location = tr.cfg.entryState.elemAt location) ∧
      ∀ location, ¬ location.Reserved →
        final.entryState.elemAt location = tr.cfg.entryState.elemAt location ∨
          (final.entryState.elemAt location).type = .unknown := by
  have notArgument (gpr : Gpr) (outside : gpr ∉ argumentGprs) (i : Nat) :
      ¬ abi.Taken (.register (.gprs64 gpr) i) :=
    fun taken => outside (List.mem_of_mem_take taken)
  have untouched (gpr : Gpr) (outside : gpr ∉ argumentGprs) (i : Nat) :
      tr.cfg.entryState.elemAt (.register (.gprs64 gpr) i) = .initial :=
    progress.tracks.rest _ id
      (fun slot member covers => notArgument gpr outside i (progress.taken slot member _ covers))
  have argument := argument_integer .SP (Or.inr rfl : 8 = 4 ∨ 8 = 8)
  have masked : getSubRegisterMask .RSP .full = .ok (fullSubRegisterMask .RSP) := rfl
  obtain ⟨cfg, written, shape, wrote⟩ := RewriterCfg.inRegister_fresh progress.tracks.shape
    argument.part masked argument.slice argument.room
    (show Slot.Fresh { place := .register .RSP .full, bytes := 8, value := .ptr .stack 0 0 } tr.cfg
      from
      { positive := Nat.succ_pos 7
        short := show 8 ≤ 16 by decide
        fits := ⟨fun _ => rfl, nofun⟩
        small := show 0 < 256 by decide
        fresh := fun i _ => untouched .SP (by decide) i })
  have apart (gpr : Gpr) (differ : gpr ≠ .SP) (i : Nat) :
      ¬ Slot.Covers { place := .register .RSP .full, bytes := 8, value := .ptr .stack 0 0 }
        (.register (.gprs64 gpr) i) := by
    rintro ⟨_, _, same⟩
    cases same
    exact differ rfl
  have shape' : (cfg.addRegPreserved (fullSubRegisterMask .RSP)).Shape abi.top :=
    ⟨shape.sizes, shape.alive, shape.base, shape.size⟩
  obtain ⟨final, rest, ranges, regs, pointers, frame, either⟩ :=
    preserveRegisters_ok shape' savedGprs (by decide) (by
      intro gpr saved i
      obtain ⟨outside, differ⟩ := saved_not_argument saved
      exact (wrote.frame _ (apart gpr differ i)).trans (untouched gpr outside i))
  have mask : Slot.mask { place := .register .RSP .full, bytes := 8, value := .ptr .stack 0 0 } =
      fullSubRegisterMask .RSP := by
    unfold Slot.mask
    dsimp only
    rw [masked]
    rfl
  have registers := wrote.registers
  rw [mask] at registers
  refine ⟨cfg, final, written, rest, ?_, regs.trans registers,
    pointers.trans wrote.pointers, ?_, ?_⟩
  · exact ranges.trans (wrote.ranges.trans (List.append_nil _))
  · intro location taken
    rw [frame location ?_]
    · refine wrote.frame location ?_
      rintro ⟨i, _, rfl⟩
      exact notArgument .SP (by decide) i taken
    · rintro gpr saved i rfl
      exact notArgument gpr (saved_not_argument saved).1 i taken
  · intro location free
    rcases either location with same | unknown
    · refine Or.inl (same.trans (wrote.frame location ?_))
      rintro ⟨i, _, rfl⟩
      exact free rfl
    · exact Or.inr unknown

/-- No parameter that the translation misplaces, no overflow of the stack offset, and no
more pointers than their numbers can tell apart. -/
def Translatable (params : List ParamCfg) : Prop :=
  (∀ before param after, params = before ++ param :: after →
      (AbiState.start.after before).Agrees param) ∧
    (AbiState.start.after params).top < 2 ^ 31 ∧
    (params.filter (fun param => param.type = some .PTR)).length ≤ 256

theorem pointers_after (params : List ParamCfg) :
    (AbiState.start.after params).pointers =
      (params.filter (fun param => param.type = some .PTR)).length :=
  (AbiState.start.after_mono params).2.trans (Nat.zero_add _)

theorem known_pointers (params : List ParamCfg) :
    (params.flatMap ParamCfg.pointer).map UsrPtrFullCfg.known =
      (params.filter (fun param => param.type = some .PTR)).map ParamCfg.knownPtr := by
  induction params with
  | nil => rfl
  | cons param params ih =>
      rw [List.flatMap_cons, List.map_append, ih, List.filter_cons]
      unfold ParamCfg.pointer
      by_cases isPtr : param.type = some .PTR
      · rw [if_pos isPtr, if_pos (by rw [decide_eq_true isPtr]), List.map_cons]
        refine congrArg (fun known => known :: _) ?_
        unfold UsrPtrFullCfg.known ParamCfg.usrPtrCfg ParamCfg.knownPtr
        by_cases const : param.state = .CONST
        · rw [if_pos const]
          dsimp only
          rw [if_pos const, const]
          rfl
        · rw [if_neg const]
          dsimp only
          rw [if_neg (by rw [beq_iff_eq]; exact const), if_neg const]
      · rw [if_neg isPtr, if_neg (by rw [decide_eq_false isPtr]; exact Bool.false_ne_true)]
        rfl

theorem placed_of_translatable {ret_type : Option ParamType} {params : List ParamCfg}
    (valid : ret_type ≠ none) (supported : ∀ param ∈ params, param.Supported)
    (translatable : Translatable params) :
    ∃ cfg, arch_translate_cfg ret_type params = .ok cfg ∧ Placed params cfg := by
  obtain ⟨agrees, bound, few⟩ := translatable
  obtain ⟨cfg, started, tracks, noPointers⟩ := tracks_start valid
  have progress : Progress AbiState.start []
      { cfg, intIdx := 0, sseIdx := 0, stackOffset := 8 } :=
    ⟨⟨rfl, rfl, rfl⟩, tracks, fun slot member => by cases member⟩
  obtain ⟨tr, ran, finished, pointers⟩ := progress.translateParams params supported agrees
    (congrArg List.length noPointers) (by rw [pointers_after]; exact few) bound
  obtain ⟨withStack, final, stack, saved, ranges, registers, sameUsrPtrs, taken, others⟩ :=
    finish_ok finished
  rw [List.nil_append] at finished
  refine ⟨final, ?_, ?_⟩
  · unfold arch_translate_cfg
    rw [started]
    change (do
      let tr ← translateParams params { cfg, intIdx := 0, sseIdx := 0, stackOffset := 8 }
      let cfg ← tr.cfg.inRegister .RSP .full (.ptr .stack 0 0)
      preserveRegisters (cfg.addRegPreserved (fullSubRegisterMask .RSP)) (savedGprs.map .gprs64)) = _
    rw [ran]
    change (do
      let cfg ← tr.cfg.inRegister .RSP .full (.ptr .stack 0 0)
      preserveRegisters (cfg.addRegPreserved (fullSubRegisterMask .RSP)) (savedGprs.map .gprs64)) = _
    rw [stack]
    exact saved
  · refine
      { ranges := ranges.trans finished.tracks.ranges
        registers := ?_
        values := ?_
        nothingElse := ?_
        pointers := ?_
        apart := finished.tracks.apart }
    · intro sub
      rw [registers, Finset.mem_union, finished.tracks.registers]
    · intro slot member i below
      rw [taken _ (finished.taken slot member _ ⟨i, below, rfl⟩)]
      exact finished.tracks.values slot member i below
    · intro location free uncovered
      rcases others location free with same | unknown
      · left
        rw [same, finished.tracks.rest location ?_ uncovered]
        · rfl
        · intro ret
          refine free ?_
          cases location with
          | register container byte => exact absurd ret id
          | stack offset => exact ret
      · exact Or.inr unknown
    · rw [sameUsrPtrs, pointers]
      change (cfg.usrPtrCfg ++ _).map _ = _
      rw [noPointers, List.nil_append, known_pointers]

theorem preserveRegisters_ranges {cfg final : RewriterCfg} {regs : List Register}
    (saved : preserveRegisters cfg regs = .ok final) :
    final.entrySpec.stackIn = cfg.entrySpec.stackIn := by
  induction regs generalizing cfg with
  | nil =>
      cases Except.ok.inj saved
      rfl
  | cons reg regs ih =>
      obtain ⟨entryState, _, rest⟩ := bind_ok saved
      exact @ih ((cfg.addRegPreserved (fullSubRegisterMask reg)).withEntryState entryState) rest

theorem translatable_of_placed {ret_type : Option ParamType} {params : List ParamCfg}
    (valid : ret_type ≠ none) (supported : ∀ param ∈ params, param.Supported) {cfg : RewriterCfg}
    (translated : arch_translate_cfg ret_type params = .ok cfg) (placed : Placed params cfg) :
    Translatable params := by
  obtain ⟨start, started, rest⟩ := bind_ok translated
  obtain ⟨tr, ran, rest⟩ := bind_ok rest
  obtain ⟨withStack, stack, saved⟩ := bind_ok rest
  obtain ⟨start', started', tracks, _⟩ := tracks_start valid
  cases Except.ok.inj (started.symm.trans started')
  have ranges : Appends start tr.cfg (stackRanges (AbiState.start.placeAll params)) := by
    unfold Appends
    have loop := (appends_inRegister stack).1
    unfold Appends at loop
    rw [List.append_nil] at loop
    rw [tracks.ranges, ← loop]
    exact (preserveRegisters_ranges saved).symm.trans placed.ranges
  obtain ⟨agrees, bound⟩ := @agrees_of_ranges AbiState.start _ _ _ ⟨rfl, rfl, rfl⟩
    (show (8 : Int) < 2 ^ 31 by decide) supported ran ranges
  refine ⟨agrees, bound, ?_⟩
  by_contra many
  have more : 256 < (AbiState.start.after params).pointers := by
    rw [pointers_after]
    exact Nat.lt_of_not_le many
  obtain ⟨slot, member, nonempty, value⟩ := pointer_slot (Nat.zero_le 256) more
  have holds := placed.values slot member 0 nonempty
  rw [value] at holds
  have number := holds.2.1 rfl
  omega

/-- The translation is the one of the ABI exactly for translatable parameters. -/
theorem placed_iff_translatable (ret_type : Option ParamType) (params : List ParamCfg)
    (valid : ret_type ≠ none) (supported : ∀ param ∈ params, param.Supported) :
    (∃ cfg, arch_translate_cfg ret_type params = .ok cfg ∧ Placed params cfg) ↔
      Translatable params := by
  constructor
  · rintro ⟨cfg, translated, placed⟩
    exact translatable_of_placed valid supported translated placed
  · exact placed_of_translatable valid supported

def ParamCfg.ofType (type : ParamType) : ParamCfg :=
  { type := some type, state := .UNKNOWN, value := 0, ptr_flags := 0, ptr_align := 0 }

/-- A known integer, a vector and a pointer. -/
theorem placed_iff_translatable_three :
    ∃ cfg, arch_translate_cfg (some .INT)
        [{ ParamCfg.ofType .INT with state := .CONST, value := 5 }, .ofType .M128, .ofType .PTR] =
          .ok cfg ∧
      Placed
        [{ ParamCfg.ofType .INT with state := .CONST, value := 5 }, .ofType .M128, .ofType .PTR]
        cfg := by
  refine (placed_iff_translatable (some .INT) _ (Option.some_ne_none _) ?_).mpr ⟨?_, by decide, by decide⟩
  · intro param member
    fin_cases member <;> rfl
  · intro before param after split
    match before, split with
    | [], split =>
        cases split
        exact trivial
    | [_], split =>
        cases split
        exact Or.inl (by decide)
    | [_, _], split =>
        cases split
        exact trivial
    | _ :: _ :: _ :: before, split =>
        have length := congrArg List.length split
        simp only [List.length_cons, List.length_append, List.length_nil] at length
        omega

/-- The fourth 128-bit integer belongs to RSP + 8 and is put at RSP + 16. -/
theorem not_placed_of_valid :
    ¬ ∀ (ret_type : Option ParamType) (params : List ParamCfg), ret_type ≠ none →
      (∀ param ∈ params, param.Supported) →
      ∃ cfg, arch_translate_cfg ret_type params = .ok cfg ∧ Placed params cfg := by
  intro always
  have supported : ∀ param ∈ List.replicate 4 (ParamCfg.ofType .INT128), param.Supported := by
    intro param member
    rw [List.eq_of_mem_replicate member]
    rfl
  have valid : some ParamType.VOID ≠ none := Option.some_ne_none _
  obtain ⟨cfg, translated, placed⟩ := always (some .VOID) _ valid supported
  have agrees := (translatable_of_placed valid supported translated placed).1
    (List.replicate 3 (.ofType .INT128)) (.ofType .INT128) [] rfl
  exact absurd agrees (by
    change ¬ 6 + 2 ≤ 6
    decide)

end Drob
