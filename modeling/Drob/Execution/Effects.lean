import Drob.Execution.Processor

/-!
What instructions have in common: reading gives no more bytes than it asks for, writing back
what was read changes nothing, and two instructions that write the same result differ at most
in the flags.
-/

namespace Drob

open LittleEndian

namespace Processor

structure SameOn (live : SubRegisterMask) (p q : Processor) : Prop where
  memory : q.memory = p.memory
  reg : ∀ sub ∈ live, ∀ container k, sub.covers container k →
    q.reg container k = p.reg container k

theorem SameOn.refl (live : SubRegisterMask) (p : Processor) : SameOn live p p :=
  ⟨rfl, fun _ _ _ _ _ => rfl⟩

theorem SameOn.symm {live : SubRegisterMask} {p q : Processor} (same : SameOn live p q) :
    SameOn live q p :=
  ⟨same.memory.symm, fun sub isLive container k covers =>
    (same.reg sub isLive container k covers).symm⟩

theorem SameOn.trans {live : SubRegisterMask} {p q r : Processor} (first : SameOn live p q)
    (second : SameOn live q r) : SameOn live p r :=
  ⟨second.memory.trans first.memory, fun sub isLive container k covers =>
    (second.reg sub isLive container k covers).trans (first.reg sub isLive container k covers)⟩

theorem SameOn.of_eq {live : SubRegisterMask} {p q : Processor} (equal : q = p) :
    SameOn live p q :=
  equal ▸ .refl live p

variable {p q : Processor} {host : Host} {live : SubRegisterMask} {bytes : Nat}

/-! ### Reading -/

theorem zero_setWidth (w v : Nat) : (0 : BitVec w).setWidth v = 0 :=
  BitVec.setWidth_zero v w

def HasBytes (bytes : Nat) (value : BitVec 128) : Prop :=
  value = ofBytes 128 (byte value) bytes

theorem hasBytes_ofBytes (source : Nat → BitVec 8) (short : bytes ≤ 16) :
    HasBytes bytes (ofBytes 128 source bytes) := by
  refine ofBytes_congr (fun i below => ?_)
  rw [byte_ofBytes source below (by omega)]

theorem hasBytes_sixteen (value : BitVec 128) : HasBytes 16 value :=
  (ofBytes_byte value (n := 16) (Nat.le_refl 128)).symm

theorem hasBytes_read (p : Processor) (short : bytes ≤ 16) (operand : StaticOperand) :
    HasBytes bytes (p.read bytes operand) := by
  cases operand with
  | reg reg => exact hasBytes_ofBytes _ short
  | imm imm => exact hasBytes_ofBytes _ short
  | mem ptr => exact hasBytes_ofBytes _ short

theorem hasBytes_setWidth {w : Nat} (value : BitVec w) (exactly : w = 8 * bytes)
    (short : bytes ≤ 16) : HasBytes bytes (value.setWidth 128) := by
  have stored : value.setWidth 128 = ofBytes 128 (byte value) bytes := by
    subst exactly
    rw [← setWidth_ofBytes (byte value) (Nat.le_refl (8 * bytes)),
      ofBytes_byte value (Nat.le_refl _)]
  rw [stored]
  exact hasBytes_ofBytes _ short

theorem HasBytes.eq_ofBytes {value : BitVec 128} (short : HasBytes bytes value) {w : Nat}
    {known : BitVec w} (same : value.setWidth (8 * bytes) = known.setWidth (8 * bytes)) :
    value = ofBytes 128 (byte known) bytes := by
  refine Eq.trans short (ofBytes_congr (fun i below => ?_))
  rw [← byte_setWidth value (v := 8 * bytes) (by omega), same, byte_setWidth _ (by omega)]

theorem HasBytes.setWidth_setWidth {value : BitVec 128} (short : HasBytes bytes value) :
    (value.setWidth (8 * bytes)).setWidth 128 = value := by
  rw [← ofBytes_byte_setWidth value (v := 8 * bytes) rfl, setWidth_ofBytes _ (Nat.le_refl _)]
  exact short.symm

theorem HasBytes.byte_eq_zero {value : BitVec 128} (short : HasBytes bytes value) {i : Nat}
    (past : bytes ≤ i) : byte value i = 0 := by
  rw [short]
  apply BitVec.eq_of_getLsbD_eq
  intro k below
  rw [getLsbD_byte, getLsbD_ofBytes]
  have outside : ¬ 8 * i + k < 8 * bytes := by omega
  simp [outside]

theorem HasBytes.zero_iff {value : BitVec 128} (short : HasBytes bytes value) :
    value = 0 ↔ ∀ i, i < bytes → byte value i = 0 := by
  constructor
  · rintro rfl i _
    exact byte_zero i
  · intro zero
    have zeros (i : Nat) (below : i < bytes) : byte value i = byte (0 : BitVec 128) i :=
      (zero i below).trans (byte_zero i).symm
    rw [short, ofBytes_congr zeros]
    apply BitVec.eq_of_getLsbD_eq
    intro k _
    rw [getLsbD_ofBytes, byte_zero]
    simp

/-! ### Writing back what was read -/

theorem overwrite_same (old : Nat → BitVec 8) (start count : Nat) {new : Nat → BitVec 8}
    (same : ∀ i, i < count → new i = old (start + i)) : overwrite old start count new = old := by
  funext k
  unfold overwrite
  split
  · rename_i inside
    rw [same _ (by omega), Nat.add_sub_cancel' inside.1]
  · rfl

theorem reg_setBytes (p : Processor) (container : Container) (start count : Nat)
    (value : BitVec 128) (k : Nat) :
    (p.setBytes container start count value).reg container k =
      if start ≤ k ∧ k < start + count then byte value (k - start) else p.reg container k :=
  congrFun (Function.update_self container _ p.reg) k

theorem reg_setBytes_of_ne (p : Processor) {container other : Container} (start count : Nat)
    (value : BitVec 128) (differ : other ≠ container) :
    (p.setBytes container start count value).reg other = p.reg other :=
  Function.update_of_ne differ _ p.reg

theorem setBytes_same (container : Container) (start count : Nat) {value : BitVec 128}
    (same : ∀ i, i < count → byte value i = p.reg container (start + i)) :
    p.setBytes container start count value = p := by
  unfold setBytes
  rw [overwrite_same _ _ _ same, Function.update_eq_self]

theorem setMemory_same (addr : BitVec 64) (short : bytes ≤ 16) :
    p.setMemory addr bytes (readMemory p.memory 128 addr bytes) = p := by
  unfold setMemory
  congr 1
  funext a
  split
  · rename_i inside
    unfold readMemory
    rw [byte_ofBytes _ inside (by omega), BitVec.ofNat_toNat, BitVec.setWidth_eq,
      BitVec.add_comm, BitVec.sub_add_cancel]
  · rfl

theorem register_gprs32 (p : Processor) (gpr : Gpr) (n : Nat) :
    p.register (.gprs32 gpr) n = ofBytes 128 (p.reg (.gprs64 gpr)) n :=
  ofBytes_congr (fun i _ => congrArg (p.reg (.gprs64 gpr)) (Nat.zero_add i))

/-- Only a 32-bit register is changed by writing back its own value. -/
theorem write_read (p : Processor) (short : bytes ≤ 16) {operand : StaticOperand}
    (whole : ∀ gpr, operand ≠ .reg (.gprs32 gpr)) :
    p.write bytes (p.read bytes operand) operand = p := by
  cases operand with
  | imm imm => rfl
  | mem ptr => exact setMemory_same _ short
  | reg reg =>
      have same : p.setBytes reg.container (archGetRegisterInfo reg).byteOffs bytes
          (p.register reg bytes) = p := by
        refine setBytes_same _ _ _ (fun i below => ?_)
        unfold register
        rw [byte_ofBytes _ below (by omega)]
      cases reg with
      | gprs32 gpr => exact absurd rfl (whole gpr)
      | flag1 flag => exact same
      | gprs8 gpr => exact same
      | gprs8High high => exact same
      | gprs16 gpr => exact same
      | gprs64 gpr => exact same
      | sse128 nr => exact same

/-! ### Flags -/

theorem sameOn_setFlags (same : SameOn live p q) {flags others : Flag → FlagEffect}
    (alike : ∀ flag, .flag flag ∈ live → others flag = flags flag) :
    SameOn live (p.setFlags host flags) (q.setFlags host others) := by
  refine ⟨same.memory, ?_⟩
  intro sub isLive container k covers
  have before := same.reg sub isLive container k covers
  cases container with
  | gprs64 gpr => exact before
  | sse128 nr => exact before
  | flag1 flag =>
      cases sub with
      | gpr gpr part => exact absurd covers not_false
      | xmm nr lane => exact absurd covers not_false
      | flag name =>
          obtain ⟨rfl, rfl⟩ := covers
          change flagAfter host others name (q.reg _) 0 = flagAfter host flags name (p.reg _) 0
          unfold flagAfter
          rw [alike name isLive]
          cases flags name with
          | value value => rfl
          | undefined => rfl
          | unchanged => exact before

theorem setFlags_unchanged (p : Processor) (host : Host) :
    p.setFlags host (fun _ => .unchanged) = p := by
  unfold setFlags
  congr 1
  funext container
  cases container <;> rfl

theorem sameOn_unread {flags : Flag → FlagEffect}
    (unread : ∀ flag, .flag flag ∈ live → flags flag = .unchanged) :
    SameOn live (p.setFlags host flags) p := by
  have same : SameOn live (p.setFlags host flags) (p.setFlags host (fun _ => .unchanged)) :=
    sameOn_setFlags (.refl live p) (fun flag isLive => (unread flag isLive).symm)
  rw [setFlags_unchanged] at same
  exact same

end Processor

/-! ### Instructions that write one place -/

def OpcodeKind.isPlain : OpcodeKind → Bool
  | .alu _ _ | .float _ | .mov _ | .movsd | .lea _ => true
  | _ => false

namespace Processor

variable {p : Processor} {host : Host} {live : SubRegisterMask} {old new : Instruction}

def written (p : Processor) (host : Host) (instruction : Instruction) : Processor :=
  if instruction.opcode.kind.writesDestination then
    p.write (writtenBytes instruction) (p.result host instruction) instruction.destination
  else p

theorem execute_plain (plain : old.opcode.kind.isPlain = true) :
    p.execute host old = (p.written host old).setFlags host (p.flagEffects old) := by
  unfold execute
  dsimp only
  split
  · rename_i found
    rw [found] at plain
    cases plain
  · rename_i found
    rw [found] at plain
    cases plain
  · rfl

theorem sameOn_execute (plainOld : old.opcode.kind.isPlain = true)
    (plainNew : new.opcode.kind.isPlain = true) (written : p.written host new = p.written host old)
    (flags : ∀ flag, .flag flag ∈ live → p.flagEffects new flag = p.flagEffects old flag) :
    SameOn live (p.execute host old) (p.execute host new) := by
  rw [execute_plain plainOld, execute_plain plainNew, written]
  exact sameOn_setFlags (.refl live _) flags

theorem written_congr (writes : new.opcode.kind.writesDestination =
      old.opcode.kind.writesDestination)
    (same : old.opcode.kind.writesDestination = true →
      new.destination = old.destination ∧ writtenBytes new = writtenBytes old ∧
        p.result host new = p.result host old) : p.written host new = p.written host old := by
  unfold written
  rw [writes]
  split
  · rename_i isWritten
    obtain ⟨destination, bytes, result⟩ := same isWritten
    rw [destination, bytes, result]
  · rfl

/-! ### Results -/

theorem plain_width {opcode : Opcode} (plain : opcode.kind.isPlain = true) :
    opcode.kind.bytes ≤ 16 ∧ opcode.kind.sourceBytes ≤ 16 ∧
      ∀ w, (∃ op, opcode.kind = .alu op w) ∨ opcode.kind = .mov w ∨ opcode.kind = .lea w →
        w = 8 * (w / 8) := by
  cases opcode <;> cases plain <;> refine ⟨by decide, by decide, ?_⟩ <;>
    rintro w (⟨op, kind⟩ | kind | kind) <;> cases kind <;> rfl

theorem hasBytes_result (p : Processor) (host : Host) (plain : old.opcode.kind.isPlain = true) :
    HasBytes old.opcode.kind.bytes (p.result host old) := by
  obtain ⟨short, _, whole⟩ := plain_width plain
  unfold result
  cases kind : old.opcode.kind with
  | alu op w =>
      rw [kind] at short
      exact hasBytes_setWidth _ (whole w (Or.inl ⟨op, kind⟩)) short
  | mov w =>
      rw [kind] at short
      exact hasBytes_read p short _
  | movsd => exact hasBytes_read p (by decide) _
  | lea w =>
      rw [kind] at short
      exact hasBytes_setWidth _ (whole w (Or.inr (Or.inr kind))) short
  | float op =>
      cases op with
      | addpd => exact hasBytes_sixteen _
      | mulpd => exact hasBytes_sixteen _
      | addsd => exact hasBytes_setWidth _ rfl (by decide)
      | mulsd => exact hasBytes_setWidth _ rfl (by decide)
  | push w =>
      rw [kind] at plain
      cases plain
  | pop w =>
      rw [kind] at plain
      cases plain
  | control =>
      rw [kind] at plain
      cases plain
  | unmodelled =>
      rw [kind] at plain
      cases plain

theorem writtenBytes_eq (other : old.opcode.kind ≠ .movsd) :
    writtenBytes old = old.opcode.kind.bytes := by
  unfold writtenBytes
  split
  · rename_i found _ _
    exact absurd found other
  · rfl

theorem result_alu {op : AluOp} {w : Nat} (kind : old.opcode.kind = .alu op w) :
    p.result host old = (p.alu old op w).value.setWidth 128 := by
  unfold result
  rw [kind]

theorem result_mov {w : Nat} (kind : old.opcode.kind = .mov w) :
    p.result host old = p.read (w / 8) old.source := by
  unfold result
  rw [kind]

theorem flagEffects_alu {op : AluOp} {w : Nat} (kind : old.opcode.kind = .alu op w) :
    p.flagEffects old = (p.alu old op w).flags := by
  unfold flagEffects
  rw [kind]

theorem flagEffects_other (noAlu : ∀ op w, old.opcode.kind ≠ .alu op w) :
    p.flagEffects old = fun _ => .unchanged := by
  unfold flagEffects
  split
  · rename_i op w found
    exact absurd found (noAlu op w)
  · rfl

theorem result_congr (kind : new.opcode.kind = old.opcode.kind)
    (reads : old.opcode.kind.readsSource = true)
    (destination : new.destination = old.destination)
    (source : p.read old.opcode.kind.sourceBytes new.source =
      p.read old.opcode.kind.sourceBytes old.source) :
    p.result host new = p.result host old ∧ p.flagEffects new = p.flagEffects old := by
  unfold result flagEffects
  rw [kind]
  cases found : old.opcode.kind with
  | alu op w =>
      rw [found] at source
      change p.read (op.sourceWidth w / 8) _ = p.read (op.sourceWidth w / 8) _ at source
      have same : p.alu new op w = p.alu old op w := by
        unfold alu
        rw [destination, source]
      exact ⟨congrArg (fun both => both.value.setWidth 128) same, congrArg AluResult.flags same⟩
  | float op =>
      rw [found] at source
      refine ⟨?_, rfl⟩
      change p.float host new op = p.float host old op
      cases op with
      | addpd | mulpd =>
          change p.read 16 _ = p.read 16 _ at source
          unfold float
          rw [destination, source]
      | addsd | mulsd =>
          change p.read 8 _ = p.read 8 _ at source
          unfold float
          rw [destination, source]
  | mov w =>
      rw [found] at source
      exact ⟨source, rfl⟩
  | movsd =>
      rw [found] at source
      exact ⟨source, rfl⟩
  | lea w =>
      rw [found] at reads
      cases reads
  | push w =>
      rw [found] at reads
      cases reads
  | pop w =>
      rw [found] at reads
      cases reads
  | control =>
      rw [found] at reads
      cases reads
  | unmodelled =>
      rw [found] at reads
      cases reads

/-! ### What is lost -/

theorem sameOn_setBytes_iff (container : Container) (start count : Nat) (value : BitVec 128) :
    SameOn live (p.setBytes container start count value) p ↔
      ∀ sub ∈ live, ∀ k, sub.covers container k → start ≤ k → k < start + count →
        p.reg container k = byte value (k - start) := by
  constructor
  · intro same sub isLive k covers later before
    have equal := same.reg sub isLive container k covers
    rw [reg_setBytes, if_pos ⟨later, before⟩] at equal
    exact equal
  · intro same
    refine ⟨rfl, ?_⟩
    intro sub isLive other k covers
    by_cases here : other = container
    · subst here
      rw [reg_setBytes]
      split
      · rename_i inside
        exact same sub isLive k covers inside.1 inside.2
      · rfl
    · rw [reg_setBytes_of_ne _ _ _ _ here]

theorem sameOn_writeBack32_iff (gpr : Gpr) :
    SameOn live (p.write 4 (p.read 4 (.reg (.gprs32 gpr))) (.reg (.gprs32 gpr))) p ↔
      (.gpr gpr .D1 ∈ live → ∀ k, 4 ≤ k → k < 8 → p.reg (.gprs64 gpr) k = 0) := by
  change SameOn live (p.setBytes (.gprs64 gpr) 0 8
    (ofBytes 128 (byte (p.register (.gprs32 gpr) 4)) 4)) p ↔ _
  rw [register_gprs32, sameOn_setBytes_iff]
  have short : HasBytes 4 (ofBytes 128 (byte (ofBytes 128 (p.reg (.gprs64 gpr)) 4)) 4) :=
    hasBytes_ofBytes _ (by omega)
  constructor
  · intro same isLive k later before
    rw [same _ isLive k ⟨rfl, later, before⟩ (Nat.zero_le k) (by omega), Nat.sub_zero]
    exact short.byte_eq_zero later
  · intro zero sub isLive k covers _ before
    rw [Nat.sub_zero]
    by_cases low : k < 4
    · rw [byte_ofBytes _ low (by omega), byte_ofBytes _ low (by omega)]
    · rw [short.byte_eq_zero (by omega)]
      cases sub with
      | flag name => exact absurd covers not_false
      | xmm nr lane => exact absurd covers not_false
      | gpr base part =>
          obtain ⟨rfl, inside⟩ := covers
          cases part with
          | B0 => omega
          | B1 => omega
          | W1 => omega
          | D1 => exact zero isLive k inside.1 inside.2

/-- A load of eight bytes clears the other half of the register, a scalar instruction does
not. -/
theorem sameOn_load_iff (nr : Fin 16) {value : BitVec 128} (short : HasBytes 8 value) :
    SameOn live (p.write 8 value (.reg (.sse128 nr))) (p.write 16 value (.reg (.sse128 nr))) ↔
      ∀ lane : Fin 4, 2 ≤ lane.val → .xmm nr lane ∈ live →
        ∀ k, (SubRegister.xmm nr lane).covers (.sse128 nr) k → p.reg (.sse128 nr) k = 0 := by
  have first (count k : Nat) : (p.write count value (.reg (.sse128 nr))).reg (.sse128 nr) k =
      if k < count then byte value k else p.reg (.sse128 nr) k := by
    change (p.setBytes (.sse128 nr) 0 count value).reg (.sse128 nr) k = _
    simp [reg_setBytes]
  constructor
  · intro same lane high isLive k covers
    have equal := same.reg _ isLive _ k covers
    obtain ⟨_, later, before⟩ := covers
    have small : lane.val < 4 := lane.isLt
    rw [first, first, if_pos (by omega), if_neg (by omega), short.byte_eq_zero (by omega)] at equal
    exact equal.symm
  · intro zero
    refine ⟨rfl, ?_⟩
    intro sub isLive container k covers
    by_cases here : container = .sse128 nr
    · subst here
      cases sub with
      | flag name => exact absurd covers not_false
      | gpr base part => exact absurd covers not_false
      | xmm other lane =>
          obtain ⟨rfl, later, before⟩ := covers
          have small : lane.val < 4 := lane.isLt
          rw [first, first, if_pos (by omega : k < 16)]
          split
          · rfl
          · rw [short.byte_eq_zero (by omega)]
            exact (zero lane (by omega) isLive k ⟨rfl, later, before⟩).symm
    · change (p.setBytes (.sse128 nr) 0 16 value).reg container k =
        (p.setBytes (.sse128 nr) 0 8 value).reg container k
      rw [reg_setBytes_of_ne _ _ _ _ here, reg_setBytes_of_ne _ _ _ _ here]

end Processor

end Drob
