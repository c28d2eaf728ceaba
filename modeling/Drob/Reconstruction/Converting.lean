import Drob.Decoder.ConvertLoop
import Drob.Reconstruction.Spelling

/-!
`convert_decoded`: what the platform decoder reports is converted to instructions, and the ones
that do not come back where they were executed end the block.
-/

namespace Drob

open ConvertLoop (LoopClass convert_loop)

/-- `xed_category_enum_t`, as far as the conversion looks at it. -/
inductive XedCategory where
  | CALL | UNCOND_BR | RET | COND_BR | NOP | WIDENOP | OTHER
  deriving DecidableEq

structure XedLoop where
  iclass : LoopClass
  hasAddressSizePrefix : Bool
  branchDisplacement : BitVec 32

structure XedInst where
  length : ℕ
  category : XedCategory
  segmentOverride : Bool
  ripRelative : Bool
  loop : Option XedLoop
  /-- `convert_simple`, which returns no opcode information for an unmodelled instruction and fails
  on operands that it does not know; an operand may depend on the address. -/
  simple : BitVec 64 → Except Failure (Option Instruction)
  classified : ∀ itext instruction, simple itext = .ok (some instruction) →
    (instruction.isRet = true → category = .RET) ∧ (instruction.isCall = true → category = .CALL)

namespace XedInst

def ilen (xedd : XedInst) : BitVec 8 :=
  BitVec.ofNat 8 xedd.length

def emplace (xedd : XedInst) (itext : BitVec 64) (instruction : Instruction) :
    DecodedInstruction :=
  { instruction, itext, ilen := xedd.ilen }

def unmodelled : Instruction :=
  { opcode := .NONE, rawOperands := [] }

def convert_decoded (fail_on_unmodelled : Bool) (itext : BitVec 64) (xedd : XedInst) :
    Except Failure (DecodeRet × List DecodedInstruction) :=
  match xedd.loop with
  | some loop =>
      .ok
        (.EOB,
          (convert_loop
            { itext
              ilen := xedd.ilen.toNat
              iclass := loop.iclass
              hasAddressSizePrefix := loop.hasAddressSizePrefix
              branchDisplacement := loop.branchDisplacement }).map (xedd.emplace itext))
  | none =>
      match xedd.simple itext with
      | .error failure => .error failure
      | .ok (some instruction) =>
          match xedd.category with
          | .CALL | .UNCOND_BR | .RET => .ok (.EOB, [xedd.emplace itext instruction])
          | .COND_BR | .NOP | .WIDENOP | .OTHER => .ok (.Ok, [xedd.emplace itext instruction])
      | .ok none =>
          if fail_on_unmodelled then .error (.exception "Unmodelled instruction detected")
          else if xedd.ripRelative then
            .error (.exception
              "RIP-relative addressing is not supported for unmodelled instructions")
          else
            match xedd.category with
            | .CALL | .UNCOND_BR | .RET | .COND_BR =>
                .error (.exception "Unhandled control flow instruction.")
            | .NOP | .WIDENOP | .OTHER => .ok (.Ok, [xedd.emplace itext unmodelled])

/-! ### What is converted -/

variable {fail_on_unmodelled : Bool} {itext : BitVec 64} {xedd : XedInst} {ret : DecodeRet}
variable {instrs : List DecodedInstruction}

theorem convert_decoded_cases
    (converted : convert_decoded fail_on_unmodelled itext xedd = .ok (ret, instrs)) :
    (ret = .EOB ∧ ∃ loop, instrs = (convert_loop loop).map (xedd.emplace itext)) ∨
      ∃ instruction, instrs = [xedd.emplace itext instruction] ∧
        (ret = .EOB ∨ ret = .Ok ∧ ¬ Closes instruction) := by
  unfold convert_decoded at converted
  split at converted
  · cases converted
    exact Or.inl ⟨rfl, _, rfl⟩
  · refine Or.inr ?_
    split at converted
    · cases converted
    · rename_i instruction simple
      obtain ⟨isRet, isCall⟩ := xedd.classified itext instruction simple
      have open_ (noRet : xedd.category ≠ .RET) (noCall : xedd.category ≠ .CALL) :
          ¬ Closes instruction := by
        rintro (returns | calls)
        · exact noRet (isRet returns)
        · exact noCall (isCall calls)
      split at converted
      all_goals cases converted
      all_goals rename_i category
      · exact ⟨instruction, rfl, Or.inl rfl⟩
      · exact ⟨instruction, rfl, Or.inl rfl⟩
      · exact ⟨instruction, rfl, Or.inl rfl⟩
      all_goals
        refine ⟨instruction, rfl, Or.inr ⟨rfl, open_ ?_ ?_⟩⟩
        all_goals rw [category]; decide
    · split at converted
      · cases converted
      · split at converted
        · cases converted
        · have open_ : ¬ Closes unmodelled := by
            rintro (returns | calls)
            · cases returns
            · cases calls
          split at converted
          all_goals cases converted
          all_goals exact ⟨unmodelled, rfl, Or.inr ⟨rfl, open_⟩⟩

theorem convert_loop_open (loop : ConvertLoop.DecodedLoop) :
    ∀ instruction ∈ convert_loop loop, ¬ Closes instruction := by
  intro instruction member
  unfold convert_loop at member
  cases prefixed : loop.hasAddressSizePrefix <;> cases iclass : loop.iclass <;>
    simp [prefixed, iclass] at member <;>
    rcases member with rfl | rfl | rfl | rfl <;>
    rintro (closes | closes) <;> cases closes

theorem convert_loop_nonempty (loop : ConvertLoop.DecodedLoop) : convert_loop loop ≠ [] := by
  unfold convert_loop
  exact List.cons_ne_nil _ _

end XedInst

/-! ### The decoder -/

def xedDecoder (fail_on_unmodelled : Bool) (xed_decode : List (BitVec 8) → Option XedInst) :
    Decoder XedInst DecodedInstruction where
  xed_decode
  length := XedInst.length
  segmentOverride := XedInst.segmentOverride
  isNop := fun xedd => xedd.category = .NOP || xedd.category = .WIDENOP
  convert_decoded := XedInst.convert_decoded fail_on_unmodelled
  converted := by
    intro itext xedd ret instrs converted
    rcases XedInst.convert_decoded_cases converted with
      ⟨ends, loop, rfl⟩ | ⟨instruction, rfl, ends | ⟨goesOn, _⟩⟩
    · refine ⟨Or.inr ends, ?_⟩
      rw [ne_eq, List.map_eq_nil_iff]
      exact XedInst.convert_loop_nonempty loop
    · exact ⟨Or.inr ends, List.cons_ne_nil _ _⟩
    · exact ⟨Or.inl goesOn, List.cons_ne_nil _ _⟩

theorem xedDecoder_converts (fail_on_unmodelled : Bool)
    (xed_decode : List (BitVec 8) → Option XedInst) :
    (xedDecoder fail_on_unmodelled xed_decode).Converts := by
  constructor
  · intro itext xedd ret instrs converted instr member
    rcases XedInst.convert_decoded_cases converted with
      ⟨_, loop, rfl⟩ | ⟨instruction, rfl, _⟩
    · obtain ⟨own, _, rfl⟩ := List.mem_map.mp member
      rfl
    · rw [List.mem_singleton.mp member]
      rfl
  · intro itext xedd ret instrs converted instr member closes
    rcases XedInst.convert_decoded_cases converted with
      ⟨_, loop, rfl⟩ | ⟨instruction, rfl, ends | ⟨_, stays⟩⟩
    · obtain ⟨own, inLoop, rfl⟩ := List.mem_map.mp member
      exact absurd closes (XedInst.convert_loop_open loop own inLoop)
    · rw [List.mem_singleton.mp member]
      exact ⟨ends, rfl⟩
    · rw [List.mem_singleton.mp member] at closes
      exact absurd closes stays

end Drob
