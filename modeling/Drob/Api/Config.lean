import Drob.Instruction.Context

/-!
The configuration interface: creating a configuration for a list of parameter types,
and the calls that set parameter values, pointer flags, alignments and constant
ranges. `malloc` does not clear the parameters, and an index that is not checked
reaches the memory around them, where anything may happen.
-/

namespace Drob

/-- `drob_param_type`; `DROB_PARAM_TYPE_MAX` and larger values are no types. -/
inductive ParamType where
  | VOID | BOOL | CHAR | UCHAR | SHORT | USHORT | INT | UINT | LONG | ULONG | LONGLONG | ULONGLONG
  | INT8 | INT16 | INT32 | INT64 | UINT8 | UINT16 | UINT32 | UINT64 | INT128 | UINT128
  | FLOAT | DOUBLE | M128 | FLOAT128 | PTR
  deriving DecidableEq

/-- The width of the member of `drob_param_value` that belongs to a type. -/
def ParamType.valueWidth : ParamType → Nat
  | .VOID => 0
  | .BOOL | .CHAR | .UCHAR | .INT8 | .UINT8 => 8
  | .SHORT | .USHORT | .INT16 | .UINT16 => 16
  | .INT | .UINT | .INT32 | .UINT32 | .FLOAT => 32
  | .LONG | .ULONG | .LONGLONG | .ULONGLONG | .INT64 | .UINT64 | .DOUBLE | .PTR => 64
  | .INT128 | .UINT128 | .M128 | .FLOAT128 => 128

inductive ParamState where
  | UNKNOWN | CONST
  deriving DecidableEq

/-- `drob_ptr_flag`, with the number of its bit. -/
inductive PtrFlag where
  | CONST | RESTRICT | NOTNULL
  deriving DecidableEq

def PtrFlag.bit : PtrFlag → Nat
  | .CONST => 0
  | .RESTRICT => 1
  | .NOTNULL => 2

/-- `drob_param_cfg`; without type, the memory holds no value of the enumeration. -/
structure ParamCfg where
  type : Option ParamType
  state : ParamState
  value : BitVec 128
  ptr_flags : BitVec 64
  ptr_align : BitVec 16
  deriving DecidableEq

/-- A write of one member of `drob_param_value` keeps the other bytes. -/
def ParamCfg.withValue (param : ParamCfg) (w : Nat) (val : BitVec 128) : ParamCfg :=
  { param with
    value := (param.value >>> w <<< w) ||| (val.setWidth w).setWidth 128
    state := .CONST }

def ParamCfg.withFlag (param : ParamCfg) (flag : PtrFlag) : ParamCfg :=
  { param with ptr_flags := param.ptr_flags ||| (1 <<< flag.bit) }

def ParamCfg.withAlign (param : ParamCfg) (align : BitVec 16) : ParamCfg :=
  { param with ptr_align := align }

inductive ErrorHandling where
  | RETURN_NULL | RETURN_ORIGINAL | ABORT
  deriving DecidableEq

/-- `count` is the number of parameters that were asked for. -/
structure Cfg (count : BitVec 32) where
  ret_type : Option ParamType
  params : Fin count.toNat → ParamCfg
  ranges : List MemCfg
  fail_on_unmodelled : Bool
  error_handling : ErrorHandling
  simple_loop_unroll_count : BitVec 16

variable {count : BitVec 32}

/-- The count as an `int`. -/
def Cfg.param_count (_ : Cfg count) : Int :=
  count.toInt

def EINVAL : Int := 22
def ENOMEM : Int := 12

/-! ### Creating a configuration -/

def validParamType (type : Option ParamType) : Bool :=
  match type with
  | none => false
  | some .VOID => false
  | some _ => true

/-- `drob_cfg_new` with its variable arguments, on the memory that `malloc` returned: only the
type and the state of the parameters are set. -/
def drob_cfg_new (ret : Option ParamType) (count : BitVec 32) (args : Nat → Option ParamType)
    (malloced : Nat → ParamCfg) : Option (Cfg count) :=
  if (List.range count.toNat).all (fun i => validParamType (args i)) then
    some
      { ret_type := ret
        params := fun i => { malloced i with type := args i, state := .UNKNOWN }
        ranges := []
        fail_on_unmodelled := false
        error_handling := .RETURN_NULL
        simple_loop_unroll_count := 10 }
  else none

/-! ### The calls -/

namespace Cfg

def setParam (cfg : Cfg count) (i : Fin count.toNat) (param : ParamCfg) : Cfg count :=
  { cfg with params := Function.update cfg.params i param }

def index (_ : Cfg count) (nr : Int) : Except Failure (Fin count.toNat) :=
  if inside : 0 ≤ nr ∧ nr.toNat < count.toNat then .ok ⟨nr.toNat, inside.2⟩
  else .error .undefined

/-- What the setters have in common; `change` is `none` where the argument is not valid. -/
def changeParam (cfg : Cfg count) (nr : Int) (type : ParamType)
    (change : ParamCfg → Option ParamCfg) : Except Failure (Int × Cfg count) :=
  if nr > cfg.param_count then .ok (-EINVAL, cfg)
  else do
    let i ← cfg.index nr
    if (cfg.params i).type ≠ some type then .ok (-EINVAL, cfg)
    else
      match change (cfg.params i) with
      | some param => .ok (0, cfg.setParam i param)
      | none => .ok (-EINVAL, cfg)

/-- `DEF_DROB_CFG_SET_PARAM` for a type. -/
def drob_cfg_set_param (type : ParamType) (cfg : Cfg count) (nr : Int) (val : BitVec 128) :
    Except Failure (Int × Cfg count) :=
  cfg.changeParam nr type (fun param => some (param.withValue type.valueWidth val))

def drob_cfg_set_ptr_flag (cfg : Cfg count) (nr : Int) (flag : Option PtrFlag) :
    Except Failure (Int × Cfg count) :=
  cfg.changeParam nr .PTR (fun param => flag.map param.withFlag)

/-- `IS_POWER_OF_2` of the source. -/
def isPowerOf2 (val : BitVec 16) : Bool :=
  val != 0 && (val &&& (val - 1)) == 0

def drob_cfg_set_ptr_align (cfg : Cfg count) (nr : Int) (align : BitVec 16) :
    Except Failure (Int × Cfg count) :=
  cfg.changeParam nr .PTR (fun param =>
    if align ≠ 0 ∧ ¬ isPowerOf2 align then none else some (param.withAlign align))

/-- `allocated` is whether `malloc` or `realloc` returned memory. -/
def drob_cfg_add_const_range (cfg : Cfg count) (range : MemCfg) (allocated : Bool) :
    Int × Cfg count :=
  if allocated then (0, { cfg with ranges := cfg.ranges ++ [range] })
  else (-ENOMEM, cfg)

end Cfg

inductive CfgCall where
  | setParam (type : ParamType) (nr : Int) (val : BitVec 128)
  | setPtrFlag (nr : Int) (flag : Option PtrFlag)
  | setPtrAlign (nr : Int) (align : BitVec 16)
  | addConstRange (range : MemCfg) (allocated : Bool)

namespace CfgCall

def run (cfg : Cfg count) : CfgCall → Except Failure (Int × Cfg count)
  | .setParam type nr val => cfg.drob_cfg_set_param type nr val
  | .setPtrFlag nr flag => cfg.drob_cfg_set_ptr_flag nr flag
  | .setPtrAlign nr align => cfg.drob_cfg_set_ptr_align nr align
  | .addConstRange range allocated => .ok (cfg.drob_cfg_add_const_range range allocated)

def runAll (cfg : Cfg count) : List CfgCall → Except Failure (Cfg count)
  | [] => .ok cfg
  | call :: calls => (call.run cfg).bind (fun result => runAll result.2 calls)

def succeeded (cfg : Cfg count) : List CfgCall → List CfgCall
  | [] => []
  | call :: calls =>
      match call.run cfg with
      | .ok (returned, later) =>
          if returned = 0 then call :: succeeded later calls else succeeded later calls
      | .error _ => []

/-! ### What the calls promise -/

def Existing (cfg : Cfg count) (nr : Int) (type : ParamType) (i : Fin count.toNat) : Prop :=
  (i.val : Int) = nr ∧ nr < cfg.param_count ∧ (cfg.params i).type = some type

def Changes (cfg later : Cfg count) : CfgCall → Prop
  | .setParam type nr val =>
      ∃ i, Existing cfg nr type i ∧
        later = cfg.setParam i ((cfg.params i).withValue type.valueWidth val)
  | .setPtrFlag nr flag =>
      ∃ i, Existing cfg nr .PTR i ∧
        ∃ valid, flag = some valid ∧ later = cfg.setParam i ((cfg.params i).withFlag valid)
  | .setPtrAlign nr align =>
      ∃ i, Existing cfg nr .PTR i ∧ later = cfg.setParam i ((cfg.params i).withAlign align)
  | .addConstRange range _ => later = { cfg with ranges := cfg.ranges ++ [range] }

/-- A call changes what it addresses and returns zero, or changes nothing and returns
an error. -/
def Exact (cfg : Cfg count) (call : CfgCall) : Prop :=
  ∃ returned later, call.run cfg = .ok (returned, later) ∧
    (returned = 0 ∧ Changes cfg later call ∨ returned < 0 ∧ later = cfg)

def alignOf (nr : Int) : CfgCall → Option (BitVec 16)
  | .setPtrAlign other align => if other = nr then some align else none
  | _ => none

def PointersMatch (first later : Cfg count) (calls : List CfgCall) : Prop :=
  ∀ nr i, Existing first nr .PTR i →
    (∀ flag, (later.params i).ptr_flags.getLsbD flag.bit = true ↔
      .setPtrFlag nr (some flag) ∈ succeeded first calls) ∧
    (later.params i).ptr_align =
      (((succeeded first calls).filterMap (alignOf nr)).getLast?).getD 0

/-- What the interface promises of a sequence of calls: every call is exact, and at
every point the pointers have the flags and the alignment that were set. -/
def Faithful (first : Cfg count) (calls : List CfgCall) : Prop :=
  (∀ before call after, calls = before ++ call :: after →
    ∃ cfg, runAll first before = .ok cfg ∧ Exact cfg call) ∧
    ∀ before after, calls = before ++ after →
      ∃ cfg, runAll first before = .ok cfg ∧ PointersMatch first cfg before

/-! ### When they keep it -/

def Misdirected (count : BitVec 32) (call : CfgCall) : Prop :=
  let outside (nr : Int) : Prop := nr ≤ count.toInt ∧ ¬ (0 ≤ nr ∧ nr < count.toInt)
  match call with
  | .setParam _ nr _ => outside nr
  | .setPtrFlag nr _ => outside nr
  | .setPtrAlign nr _ => outside nr
  | .addConstRange _ _ => False

instance : DecidablePred (Misdirected count)
  | .setParam _ nr _ | .setPtrFlag nr _ | .setPtrAlign nr _ =>
      inferInstanceAs (Decidable (nr ≤ count.toInt ∧ ¬ (0 ≤ nr ∧ nr < count.toInt)))
  | .addConstRange _ _ => inferInstanceAs (Decidable False)

def ClearPointers (malloced : Nat → ParamCfg) (first : Cfg count) : Prop :=
  ∀ nr i, Existing first nr .PTR i →
    (∀ flag : PtrFlag, (malloced i).ptr_flags.getLsbD flag.bit = false) ∧
      (malloced i).ptr_align = 0

/-! ### One call -/

section Change

variable (cfg : Cfg count) (nr : Int) (type : ParamType) (change : ParamCfg → Option ParamCfg)

theorem changeParam_outside (passes : nr ≤ count.toInt)
    (outside : ¬ (0 ≤ nr ∧ nr < count.toInt)) :
    cfg.changeParam nr type change = .error .undefined := by
  have noIndex : cfg.index nr = .error .undefined := by
    refine dif_neg (fun inside => outside ⟨inside.1, ?_⟩)
    have small := inside.2
    rw [BitVec.toInt_eq_toNat_cond] at passes ⊢
    split at passes <;> split <;> omega
  unfold Cfg.changeParam
  rw [if_neg (show ¬ nr > cfg.param_count from not_lt.mpr passes), noIndex]
  rfl

/-- Where the index is checked well enough, the addressed parameter is changed or nothing. -/
theorem changeParam_cases (directed : ¬ (nr ≤ count.toInt ∧ ¬ (0 ≤ nr ∧ nr < count.toInt))) :
    cfg.changeParam nr type change = .ok (-EINVAL, cfg) ∨
      ∃ i param, Existing cfg nr type i ∧ change (cfg.params i) = some param ∧
        cfg.changeParam nr type change = .ok (0, cfg.setParam i param) := by
  unfold Cfg.changeParam
  split
  · exact Or.inl rfl
  · rename_i below
    have passes : nr ≤ count.toInt := not_lt.mp below
    have inside : 0 ≤ nr ∧ nr < count.toInt := by
      by_contra outside
      exact directed ⟨passes, outside⟩
    have isIndex : 0 ≤ nr ∧ nr.toNat < count.toNat := by
      have small := inside.2
      rw [BitVec.toInt_eq_toNat_cond] at small
      refine ⟨inside.1, ?_⟩
      split at small <;> omega
    have found : cfg.index nr = .ok ⟨nr.toNat, isIndex.2⟩ := dif_pos isIndex
    rw [found]
    dsimp only [bind, Except.bind]
    split
    · exact Or.inl rfl
    · rename_i typed
      cases changed : change (cfg.params ⟨nr.toNat, isIndex.2⟩) with
      | none => exact Or.inl rfl
      | some param =>
          refine Or.inr ⟨_, param, ⟨?_, inside.2, not_not.mp typed⟩, changed, rfl⟩
          exact Int.toNat_of_nonneg inside.1

end Change

theorem einval_neg : -EINVAL < 0 := by decide

theorem not_exact_outside {cfg : Cfg count} {call : CfgCall} {nr : Int} {type : ParamType}
    {change : ParamCfg → Option ParamCfg} (runs : call.run cfg = cfg.changeParam nr type change)
    (exact_ : Exact cfg call) : ¬ (nr ≤ count.toInt ∧ ¬ (0 ≤ nr ∧ nr < count.toInt)) := by
  rintro ⟨passes, outside⟩
  obtain ⟨returned, later, ran, _⟩ := exact_
  rw [runs, changeParam_outside cfg nr type change passes outside] at ran
  cases ran

theorem run_cases {cfg : Cfg count} {call : CfgCall} {nr : Int} {type : ParamType}
    {change : ParamCfg → Option ParamCfg} (runs : call.run cfg = cfg.changeParam nr type change)
    (directed : ¬ (nr ≤ count.toInt ∧ ¬ (0 ≤ nr ∧ nr < count.toInt))) :
    call.run cfg = .ok (-EINVAL, cfg) ∨
      ∃ i param, Existing cfg nr type i ∧ change (cfg.params i) = some param ∧
        call.run cfg = .ok (0, cfg.setParam i param) := by
  rw [runs]
  exact changeParam_cases cfg nr type change directed

theorem exact_iff (cfg : Cfg count) (call : CfgCall) :
    Exact cfg call ↔ ¬ Misdirected count call := by
  cases call with
  | setParam type nr val =>
      have runs : (CfgCall.setParam type nr val).run cfg = cfg.changeParam nr type
          (fun param => some (param.withValue type.valueWidth val)) := rfl
      refine ⟨not_exact_outside runs, fun directed => ?_⟩
      rcases run_cases runs directed with failed | ⟨i, param, existing, same, done⟩
      · exact ⟨_, _, failed, Or.inr ⟨einval_neg, rfl⟩⟩
      · cases same
        exact ⟨_, _, done, Or.inl ⟨rfl, i, existing, rfl⟩⟩
  | setPtrFlag nr flag =>
      have runs : (CfgCall.setPtrFlag nr flag).run cfg =
          cfg.changeParam nr .PTR (fun param => flag.map param.withFlag) := rfl
      refine ⟨not_exact_outside runs, fun directed => ?_⟩
      rcases run_cases runs directed with failed | ⟨i, param, existing, same, done⟩
      · exact ⟨_, _, failed, Or.inr ⟨einval_neg, rfl⟩⟩
      · obtain ⟨valid, isFlag, rfl⟩ := Option.map_eq_some_iff.mp same
        exact ⟨_, _, done, Or.inl ⟨rfl, i, existing, valid, isFlag, rfl⟩⟩
  | setPtrAlign nr align =>
      have runs : (CfgCall.setPtrAlign nr align).run cfg = cfg.changeParam nr .PTR (fun param =>
          if align ≠ 0 ∧ ¬ Cfg.isPowerOf2 align then none else some (param.withAlign align)) := rfl
      refine ⟨not_exact_outside runs, fun directed => ?_⟩
      rcases run_cases runs directed with failed | ⟨i, param, existing, same, done⟩
      · exact ⟨_, _, failed, Or.inr ⟨einval_neg, rfl⟩⟩
      · split at same
        · cases same
        · cases same
          exact ⟨_, _, done, Or.inl ⟨rfl, i, existing, rfl⟩⟩
  | addConstRange range allocated =>
      refine ⟨fun _ impossible => impossible, fun _ => ?_⟩
      cases allocated with
      | true => exact ⟨_, _, rfl, Or.inl ⟨rfl, rfl⟩⟩
      | false => exact ⟨_, _, rfl, Or.inr ⟨by decide, rfl⟩⟩

/-! ### Flags and alignments along a sequence of calls -/

theorem getLsbD_withFlag (param : ParamCfg) (flag other : PtrFlag) :
    (param.withFlag flag).ptr_flags.getLsbD other.bit =
      (param.ptr_flags.getLsbD other.bit || decide (other = flag)) := by
  unfold ParamCfg.withFlag
  dsimp only
  rw [BitVec.getLsbD_or]
  congr 1
  cases flag <;> cases other <;> decide

def changed (nr : Int) (param : ParamCfg) : CfgCall → ParamCfg
  | .setParam type other val => if other = nr then param.withValue type.valueWidth val else param
  | .setPtrFlag other (some flag) => if other = nr then param.withFlag flag else param
  | .setPtrAlign other align => if other = nr then param.withAlign align else param
  | _ => param

theorem setParam_params (cfg : Cfg count) (i j : Fin count.toNat) (param : ParamCfg) :
    (cfg.setParam i param).params j = if (i.val : Int) = j.val then param else cfg.params j := by
  change Function.update cfg.params i param j = _
  rw [Function.update_apply]
  by_cases here : j = i
  · rw [here, if_pos rfl, if_pos rfl]
  · have other : (i.val : Int) ≠ j.val := fun same => here (Fin.ext (by omega))
    rw [if_neg here, if_neg other]

theorem params_of_exact {cfg later : Cfg count} {call : CfgCall} {returned : Int}
    (exact_ : Exact cfg call) (ran : call.run cfg = .ok (returned, later)) (i : Fin count.toNat) :
    later.params i =
      if returned = 0 then changed i (cfg.params i) call else cfg.params i := by
  obtain ⟨_, _, ranExact, outcome⟩ := exact_
  rw [ran] at ranExact
  cases ranExact
  rcases outcome with ⟨zero, changes⟩ | ⟨negative, rfl⟩
  · rw [if_pos zero]
    cases call with
    | setParam type nr val =>
        obtain ⟨j, ⟨rfl, _⟩, rfl⟩ := changes
        rw [setParam_params]
        unfold changed
        dsimp only
        split
        · rename_i here
          rw [Fin.ext (Int.ofNat.inj here)]
        · rfl
    | setPtrFlag nr flag =>
        obtain ⟨j, ⟨rfl, _⟩, valid, rfl, rfl⟩ := changes
        rw [setParam_params]
        unfold changed
        dsimp only
        split
        · rename_i here
          rw [Fin.ext (Int.ofNat.inj here)]
        · rfl
    | setPtrAlign nr align =>
        obtain ⟨j, ⟨rfl, _⟩, rfl⟩ := changes
        rw [setParam_params]
        unfold changed
        dsimp only
        split
        · rename_i here
          rw [Fin.ext (Int.ofNat.inj here)]
        · rfl
    | addConstRange range allocated =>
        rw [show later = _ from changes]
        rfl
  · rw [if_neg (by omega)]

theorem changed_flags (nr : Int) (param : ParamCfg) (call : CfgCall) (flag : PtrFlag) :
    (changed nr param call).ptr_flags.getLsbD flag.bit = true ↔
      param.ptr_flags.getLsbD flag.bit = true ∨ call = .setPtrFlag nr (some flag) := by
  unfold changed
  split
  · rename_i type other val
    have same : (if other = nr then param.withValue type.valueWidth val else param).ptr_flags =
        param.ptr_flags := by split <;> rfl
    rw [same]
    exact (or_iff_left nofun).symm
  · rename_i other asked
    split
    · rename_i here
      subst here
      rw [getLsbD_withFlag, Bool.or_eq_true, decide_eq_true_eq]
      refine or_congr_right ⟨fun same => by rw [same], fun same => ?_⟩
      cases same
      rfl
    · rename_i elsewhere
      refine (or_iff_left (fun same => ?_)).symm
      cases same
      exact elsewhere rfl
  · rename_i other align
    have same : (if other = nr then param.withAlign align else param).ptr_flags =
        param.ptr_flags := by split <;> rfl
    rw [same]
    exact (or_iff_left nofun).symm
  · rename_i other notFlag _
    exact (or_iff_left (fun same => notFlag _ _ same)).symm

theorem changed_align (nr : Int) (param : ParamCfg) (call : CfgCall) :
    (changed nr param call).ptr_align = (alignOf nr call).getD param.ptr_align := by
  cases call with
  | setParam type other val =>
      unfold changed alignOf
      dsimp only
      split <;> rfl
  | setPtrFlag other flag =>
      cases flag with
      | none => rfl
      | some flag =>
          unfold changed alignOf
          dsimp only
          split <;> rfl
  | setPtrAlign other align =>
      unfold changed alignOf
      dsimp only
      split <;> rfl
  | addConstRange range allocated => rfl

/-- Flags are set by successful calls and never cleared, and the alignment is the one of the last
successful call. -/
theorem runAll_spec (first : Cfg count) (calls : List CfgCall)
    (directed : ∀ call ∈ calls, ¬ Misdirected count call) :
    ∃ later, runAll first calls = .ok later ∧ ∀ i : Fin count.toNat,
      (∀ flag, (later.params i).ptr_flags.getLsbD flag.bit = true ↔
        (first.params i).ptr_flags.getLsbD flag.bit = true ∨
          .setPtrFlag i (some flag) ∈ succeeded first calls) ∧
      (later.params i).ptr_align =
        (((succeeded first calls).filterMap (alignOf i)).getLast?).getD
          (first.params i).ptr_align := by
  induction calls generalizing first with
  | nil =>
      refine ⟨first, rfl, fun i => ⟨fun flag => ?_, rfl⟩⟩
      exact (or_iff_left List.not_mem_nil).symm
  | cons call calls ih =>
      have exact_ := (exact_iff first call).mpr (directed call List.mem_cons_self)
      obtain ⟨returned, next, ran, _⟩ := id exact_
      obtain ⟨later, ranAll, spec⟩ := ih next
        (fun other member => directed other (List.mem_cons_of_mem call member))
      refine ⟨later, ?_, fun i => ?_⟩
      · unfold runAll
        rw [ran]
        exact ranAll
      · have step := params_of_exact exact_ ran i
        obtain ⟨flags, align⟩ := spec i
        unfold succeeded
        rw [ran]
        dsimp only
        by_cases zero : returned = 0
        · rw [if_pos zero] at step ⊢
          constructor
          · intro flag
            rw [flags, step, changed_flags, List.mem_cons, eq_comm (a := call), or_assoc]
          · rw [align, step, changed_align, List.filterMap_cons]
            cases alignOf i call with
            | none => rfl
            | some asked =>
                rw [List.getLast?_cons]
                rfl
        · rw [if_neg zero] at step ⊢
          rw [← step]
          exact ⟨flags, align⟩

/-- The interface keeps its promise exactly if no call is misdirected and the memory
of the pointer parameters was clear. -/
theorem faithful_iff (ret : Option ParamType) (args : Nat → Option ParamType)
    (malloced : Nat → ParamCfg) (first : Cfg count) (calls : List CfgCall)
    (created : drob_cfg_new ret count args malloced = some first) :
    Faithful first calls ↔
      ClearPointers malloced first ∧ ∀ call ∈ calls, ¬ Misdirected count call := by
  have memory (i : Fin count.toNat) : (first.params i).ptr_flags = (malloced i).ptr_flags ∧
      (first.params i).ptr_align = (malloced i).ptr_align := by
    unfold drob_cfg_new at created
    split at created
    · cases created
      exact ⟨rfl, rfl⟩
    · cases created
  constructor
  · rintro ⟨exact_, pointers⟩
    constructor
    · intro nr i existing
      obtain ⟨cfg, ran, match_⟩ := pointers [] calls rfl
      cases ran
      obtain ⟨flags, align⟩ := match_ nr i existing
      rw [← (memory i).1, ← (memory i).2]
      refine ⟨fun flag => ?_, align⟩
      rw [← Bool.not_eq_true]
      exact fun set => List.not_mem_nil ((flags flag).mp set)
    · intro call member
      obtain ⟨before, after, split⟩ := List.append_of_mem member
      obtain ⟨cfg, _, isExact⟩ := exact_ before call after split
      exact (exact_iff cfg call).mp isExact
  · rintro ⟨clear, directed⟩
    constructor
    · intro before call after split
      have inside : ∀ other ∈ before, ¬ Misdirected count other :=
        fun other member => directed other (split ▸ List.mem_append_left _ member)
      obtain ⟨cfg, ran, _⟩ := runAll_spec first before inside
      refine ⟨cfg, ran, (exact_iff cfg call).mpr (directed call ?_)⟩
      rw [split]
      exact List.mem_append_right _ List.mem_cons_self
    · intro before after split
      have inside : ∀ other ∈ before, ¬ Misdirected count other :=
        fun other member => directed other (split ▸ List.mem_append_left _ member)
      obtain ⟨cfg, ran, spec⟩ := runAll_spec first before inside
      refine ⟨cfg, ran, ?_⟩
      intro nr i existing
      obtain ⟨flags, align⟩ := spec i
      obtain ⟨noFlags, noAlign⟩ := clear nr i existing
      rw [← (memory i).1] at noFlags
      rw [← (memory i).2] at noAlign
      obtain ⟨rfl, _⟩ := existing
      constructor
      · intro flag
        rw [flags, noFlags flag]
        exact or_iff_right Bool.false_ne_true
      · rw [align, noAlign]

/-! ### Indices and memory of all kinds -/

/-- Memory as `malloc` may return it. -/
def memoryWith (ptr_flags : BitVec 64) : Nat → ParamCfg :=
  fun _ => { type := none, state := .UNKNOWN, value := 0, ptr_flags, ptr_align := 0 }

/-- Calls for the only parameter are exact, one for the parameter behind it is not. -/
theorem faithful_iff_onePointer :
    ∃ first : Cfg 1, drob_cfg_new (some .INT) 1 (fun _ => some .PTR) (memoryWith 0) = some first ∧
      Faithful first [.setPtrFlag 0 (some .NOTNULL), .setPtrAlign 0 16, .setPtrFlag 2 none] ∧
        ¬ Faithful first [.setPtrFlag 1 (some .RESTRICT)] := by
  refine ⟨_, rfl, ?_, ?_⟩
  · refine (faithful_iff (some .INT) (fun _ => some .PTR) (memoryWith 0) _ _ rfl).mpr ⟨?_, ?_⟩
    · intro nr i _
      exact ⟨fun flag => BitVec.getLsbD_zero, rfl⟩
    · decide
  · rw [faithful_iff (some .INT) (fun _ => some .PTR) (memoryWith 0) _ _ rfl]
    rintro ⟨_, directed⟩
    exact directed _ List.mem_cons_self ⟨by decide, by decide⟩

/-- A pointer may have a flag although no call set it. -/
theorem not_faithful_of_created :
    ∃ first : Cfg 1, drob_cfg_new (some .INT) 1 (fun _ => some .PTR) (memoryWith 1) = some first ∧
      ¬ Faithful first [] := by
  refine ⟨_, rfl, ?_⟩
  rintro ⟨_, pointers⟩
  obtain ⟨cfg, ran, match_⟩ := pointers [] [] rfl
  cases ran
  obtain ⟨flags, _⟩ := match_ 0 ⟨0, by decide⟩ ⟨rfl, by decide, rfl⟩
  exact List.not_mem_nil ((flags .CONST).mp rfl)

end CfgCall

end Drob
