import Drob.Reconstruction.Pass

/-!
What stands in the code at an address, and the lists of instructions that the code spells from
an address on: decoding a block spells it to its end, and a list is split where an instruction
starts.
-/

namespace Drob

/-- An instruction of the code as it was converted, without any instruction if it is a NOP. -/
structure Fetched where
  instrs : List DecodedInstruction
  next : BitVec 64
  /-- The block that contains it ends here. -/
  ends : Bool

/-- What a processor that reads up to 15 bytes finds at an address. -/
def fetch {ξ : Type} (decoder : Decoder ξ DecodedInstruction) (image : BitVec 64 → BitVec 8)
    (itext : BitVec 64) : Option Fetched :=
  match arch_decode_one decoder image itext ARCH_MAX_ILEN with
  | .ok (.Ok, next, instrs) | .ok (.NOP, next, instrs) => some { instrs, next, ends := false }
  | .ok (.EOB, next, instrs) => some { instrs, next, ends := true }
  | _ => none

def Closes (instruction : Instruction) : Prop :=
  instruction.isRet = true ∨ instruction.isCall = true

/-- The conversion of an instruction gives instructions that start where it starts, and a return
or a call is a single one that ends the block. -/
structure Decoder.Converts {ξ : Type} (decoder : Decoder ξ DecodedInstruction) : Prop where
  itext : ∀ itext xedd ret instrs, decoder.convert_decoded itext xedd = .ok (ret, instrs) →
    ∀ instr ∈ instrs, instr.itext = itext
  closes : ∀ itext xedd ret instrs, decoder.convert_decoded itext xedd = .ok (ret, instrs) →
    ∀ instr ∈ instrs, Closes instr.instruction → ret = .EOB ∧ instrs = [instr]

/-- The instructions of the code start where they are fetched, and returns and calls end
blocks. -/
structure FetchesWell (fetch : BitVec 64 → Option Fetched) : Prop where
  itext : ∀ a fetched, fetch a = some fetched → ∀ instr ∈ fetched.instrs, instr.itext = a
  closes : ∀ a fetched, fetch a = some fetched → ∀ instr ∈ fetched.instrs,
    Closes instr.instruction → fetched.ends = true ∧ fetched.instrs = [instr]
  nonempty : ∀ a fetched, fetch a = some fetched → fetched.ends = true → fetched.instrs ≠ []

theorem fetch_cases {ξ : Type} {decoder : Decoder ξ DecodedInstruction}
    {image : BitVec 64 → BitVec 8} {itext : BitVec 64} {fetched : Fetched}
    (found : fetch decoder image itext = some fetched) :
    ∃ ret, arch_decode_one decoder image itext ARCH_MAX_ILEN =
        .ok (ret, fetched.next, fetched.instrs) ∧
      (fetched.ends = true ∧ ret = .EOB ∨ fetched.ends = false ∧ (ret = .Ok ∨ ret = .NOP)) := by
  unfold fetch at found
  split at found
  · rename_i next instrs decoded
    cases found
    exact ⟨.Ok, decoded, Or.inr ⟨rfl, Or.inl rfl⟩⟩
  · rename_i next instrs decoded
    cases found
    exact ⟨.NOP, decoded, Or.inr ⟨rfl, Or.inr rfl⟩⟩
  · rename_i next instrs decoded
    cases found
    exact ⟨.EOB, decoded, Or.inl ⟨rfl, rfl⟩⟩
  · cases found

theorem arch_decode_one_cases {ξ : Type} {decoder : Decoder ξ DecodedInstruction}
    {image : BitVec 64 → BitVec 8} {itext next : BitVec 64} {window : ℕ} {ret : DecodeRet}
    {instrs : List DecodedInstruction}
    (decoded : arch_decode_one decoder image itext window = .ok (ret, next, instrs)) :
    instrs = [] ∧ (ret = .NOP ∨ ret = .BrokenInstr) ∨
      ∃ xedd, decoder.xed_decode (codeBytes image itext window) = some xedd ∧
        decoder.convert_decoded itext xedd = .ok (ret, instrs) := by
  unfold arch_decode_one at decoded
  split at decoded
  · cases decoded
    exact Or.inl ⟨rfl, Or.inr rfl⟩
  · rename_i xedd inWindow
    dsimp only at decoded
    split at decoded
    · cases decoded
    · split at decoded
      · cases decoded
        exact Or.inl ⟨rfl, Or.inl rfl⟩
      · obtain ⟨converted, convertedEq, same⟩ := bind_ok decoded
        cases same
        exact Or.inr ⟨xedd, inWindow, convertedEq⟩

theorem fetchesWell {ξ : Type} {decoder : Decoder ξ DecodedInstruction}
    (converts : decoder.Converts) (image : BitVec 64 → BitVec 8) :
    FetchesWell (fetch decoder image) := by
  constructor
  · intro a fetched found instr member
    obtain ⟨ret, decoded, _⟩ := fetch_cases found
    rcases arch_decode_one_cases decoded with ⟨none, _⟩ | ⟨xedd, _, converted⟩
    · rw [none] at member
      cases member
    · exact converts.itext _ _ _ _ converted instr member
  · intro a fetched found instr member closes
    obtain ⟨ret, decoded, kind⟩ := fetch_cases found
    rcases arch_decode_one_cases decoded with ⟨none, _⟩ | ⟨xedd, _, converted⟩
    · rw [none] at member
      cases member
    · obtain ⟨eob, single⟩ := converts.closes _ _ _ _ converted instr member closes
      refine ⟨?_, single⟩
      rcases kind with ⟨ends, _⟩ | ⟨_, ok | nop⟩
      · exact ends
      · rw [eob] at ok
        cases ok
      · rw [eob] at nop
        cases nop
  · intro a fetched found ends none
    obtain ⟨ret, decoded, kind⟩ := fetch_cases found
    rcases arch_decode_one_cases decoded with ⟨_, nop | broken⟩ | ⟨xedd, _, converted⟩
    · rcases kind with ⟨_, eob⟩ | ⟨goesOn, _⟩
      · rw [nop] at eob
        cases eob
      · rw [ends] at goesOn
        cases goesOn
    · rcases kind with ⟨_, eob⟩ | ⟨goesOn, _⟩
      · rw [broken] at eob
        cases eob
      · rw [ends] at goesOn
        cases goesOn
    · exact (decoder.converted _ _ _ _ converted).2 none

/-! ### Spelling -/

/-- From an address on the code spells a list of instructions, up to the end of a block or to
where some other address is reached. -/
inductive Spells (fetch : BitVec 64 → Option Fetched) :
    BitVec 64 → List DecodedInstruction → Option (BitVec 64) → Prop where
  | here (a : BitVec 64) : Spells fetch a [] (some a)
  | on {a : BitVec 64} {fetched : Fetched} {rest : List DecodedInstruction}
      {stop : Option (BitVec 64)} (found : fetch a = some fetched) (goesOn : fetched.ends = false)
      (later : Spells fetch fetched.next rest stop) : Spells fetch a (fetched.instrs ++ rest) stop
  | ends {a : BitVec 64} {fetched : Fetched} (found : fetch a = some fetched)
      (ends : fetched.ends = true) : Spells fetch a fetched.instrs none

variable {fetch : BitVec 64 → Option Fetched} {a t : BitVec 64} {code : List DecodedInstruction}
variable {stop : Option (BitVec 64)}

theorem Spells.split (well : FetchesWell fetch) (spells : Spells fetch a code stop) {kept : ℕ}
    (found : code.findIdx? (fun instr => decide (instr.itext = t)) = some kept) :
    Spells fetch a (code.take kept) (some t) ∧ Spells fetch t (code.drop kept) stop := by
  have atStart (own : List DecodedInstruction) (rest : List DecodedInstruction)
      (starts : ∀ instr ∈ own, instr.itext = t) (nonempty : own ≠ []) {kept : ℕ}
      (found : (own ++ rest).findIdx? (fun instr => decide (instr.itext = t)) = some kept) :
      kept = 0 := by
    cases own with
    | nil => exact absurd rfl nonempty
    | cons instr others =>
        rw [List.cons_append, List.findIdx?_cons, starts instr List.mem_cons_self,
          decide_eq_true rfl, if_pos rfl] at found
        exact (Option.some.inj found).symm
  have notIn {a : BitVec 64} (own : List DecodedInstruction)
      (starts : ∀ instr ∈ own, instr.itext = a) (apart : a ≠ t) :
      own.findIdx? (fun instr => decide (instr.itext = t)) = none := by
    rw [List.findIdx?_eq_none_iff]
    intro instr member
    rw [starts instr member]
    exact decide_eq_false apart
  induction spells generalizing kept with
  | here a => cases found
  | @on a fetched rest stop fetches goesOn later ih =>
      have starts := well.itext a fetched fetches
      by_cases none : fetched.instrs = []
      · rw [none, List.nil_append] at found
        obtain ⟨front, back⟩ := ih found
        refine ⟨?_, ?_⟩
        · have spelled := Spells.on fetches goesOn front
          rw [none, List.nil_append] at spelled ⊢
          exact spelled
        · rw [none, List.nil_append]
          exact back
      · by_cases same : a = t
        · rw [atStart fetched.instrs rest (same ▸ starts) none found, ← same]
          exact ⟨.here a, .on fetches goesOn later⟩
        · have skipped := notIn fetched.instrs starts same
          rw [List.findIdx?_append, skipped, Option.none_or] at found
          obtain ⟨index, inRest, rfl⟩ := Option.map_eq_some_iff.mp found
          obtain ⟨front, back⟩ := ih inRest
          rw [Nat.add_comm, List.take_length_add_append, List.drop_length_add_append]
          exact ⟨.on fetches goesOn front, back⟩
  | @ends a fetched fetches ends =>
      have starts := well.itext a fetched fetches
      by_cases same : a = t
      · have first := atStart fetched.instrs [] (same ▸ starts)
          (well.nonempty a fetched fetches ends) (by rw [List.append_nil]; exact found)
        rw [first, ← same]
        exact ⟨.here a, .ends fetches ends⟩
      · rw [notIn fetched.instrs starts same] at found
        cases found

theorem Spells.closes (well : FetchesWell fetch) (spells : Spells fetch a code stop) :
    (∀ instr ∈ code.dropLast, ¬ Closes instr.instruction) ∧
      ∀ instr ∈ code, Closes instr.instruction → stop = none := by
  induction spells with
  | here a => exact ⟨nofun, nofun⟩
  | @on a fetched rest stop found goesOn later ih =>
      have stays (instr : DecodedInstruction) (member : instr ∈ fetched.instrs) :
          ¬ Closes instr.instruction := by
        intro closes
        have ends := (well.closes a fetched found instr member closes).1
        rw [goesOn] at ends
        cases ends
      constructor
      · intro instr member
        by_cases none : rest = []
        · rw [none, List.append_nil] at member
          exact stays instr (List.mem_of_mem_dropLast member)
        · rw [List.dropLast_append_of_ne_nil none] at member
          rcases List.mem_append.mp member with own | later
          · exact stays instr own
          · exact ih.1 instr later
      · intro instr member closes
        rcases List.mem_append.mp member with own | later
        · exact absurd closes (stays instr own)
        · exact ih.2 instr later closes
  | @ends a fetched found ends =>
      refine ⟨?_, fun _ _ _ => rfl⟩
      intro instr member closes
      have single := (well.closes a fetched found instr
        (List.mem_of_mem_dropLast member) closes).2
      rw [single] at member
      cases member

/-! ### Decoding a block -/

theorem decodeLoop_cases {decode : BitVec 64 →
      Except Failure (DecodeRet × BitVec 64 × List DecodedInstruction)} {fuel : ℕ}
    {itext : BitVec 64} {instrs : List DecodedInstruction}
    (decoded : decodeLoop decode (fuel + 1) itext = some (.ok instrs)) :
    checkDecoded (decode itext) = .ok (none, instrs) ∨
      ∃ next own rest, checkDecoded (decode itext) = .ok (some next, own) ∧
        decodeLoop decode fuel next = some (.ok rest) ∧ instrs = own ++ rest := by
  unfold decodeLoop at decoded
  split at decoded
  · cases decoded
  · rename_i own checked
    cases decoded
    exact Or.inl checked
  · rename_i next own checked
    obtain ⟨later, ran, same⟩ := Option.map_eq_some_iff.mp decoded
    split at same
    · rename_i rest
      cases same
      exact Or.inr ⟨next, own, rest, checked, ran, rfl⟩
    · cases same

theorem fetch_of_checked {ξ : Type} {decoder : Decoder ξ DecodedInstruction}
    {image : BitVec 64 → BitVec 8} {itext : BitVec 64} {stop : Option (BitVec 64)}
    {instrs : List DecodedInstruction}
    (checked : checkDecoded (arch_decode_one decoder image itext ARCH_MAX_ILEN) =
      .ok (stop, instrs)) :
    ∃ fetched, Drob.fetch decoder image itext = some fetched ∧ fetched.instrs = instrs ∧
      stop = if fetched.ends then none else some fetched.next := by
  obtain ⟨⟨ret, next, own⟩, one, returned⟩ := bind_ok checked
  unfold Drob.fetch
  rw [one]
  cases ret with
  | UnhandledInstr | UnsupportedInstr | BrokenInstr => cases returned
  | NOP =>
      cases returned
      rcases arch_decode_one_cases one with ⟨none, _⟩ | ⟨xedd, _, converted⟩
      · exact ⟨_, rfl, none, rfl⟩
      · rcases (decoder.converted _ _ _ _ converted).1 with impossible | impossible
        · cases impossible
        · cases impossible
  | EOB | Ok =>
      dsimp only at returned
      split at returned
      · cases returned
      · cases returned
        exact ⟨_, rfl, rfl, rfl⟩

theorem spells_decodeBlock {ξ : Type} {decoder : Decoder ξ DecodedInstruction}
    {image : BitVec 64 → BitVec 8} (complete : decoder.Complete) {fuel : ℕ} {itext : BitVec 64}
    {instrs : List DecodedInstruction}
    (decoded : decodeBlock decoder image fuel itext = some (.ok instrs)) :
    Spells (Drob.fetch decoder image) itext instrs none := by
  rw [decodeBlock_eq complete (le_refl ARCH_MAX_ILEN)] at decoded
  induction fuel generalizing itext instrs with
  | zero => cases decoded
  | succ fuel ih =>
      rcases decodeLoop_cases decoded with checked | ⟨next, own, rest, checked, ran, rfl⟩
      · obtain ⟨fetched, found, rfl, ended⟩ := fetch_of_checked checked
        cases ends : fetched.ends with
        | true => exact .ends found ends
        | false =>
            rw [ends] at ended
            cases ended
      · obtain ⟨fetched, found, rfl, stops⟩ := fetch_of_checked checked
        cases ends : fetched.ends with
        | true =>
            rw [ends] at stops
            cases stops
        | false =>
            rw [ends] at stops
            cases stops
            exact .on found ends (ih ran)

/-! ### Code that is reached -/

namespace Reconstruction

def target (context : Context) (own : DecodedInstruction) : Option (BitVec 64) :=
  match own.getRawTarget context with
  | .ok itext => if itext = 0 then none else some itext
  | .error _ => none

/-- The addresses that the code may get to. -/
inductive Reaches (fetch : BitVec 64 → Option Fetched) (context : Context) (entry : BitVec 64) :
    BitVec 64 → Prop where
  | entry : Reaches fetch context entry entry
  | next {a : BitVec 64} {fetched : Fetched} (reaches : Reaches fetch context entry a)
      (found : fetch a = some fetched) (goesOn : fetched.ends = false) :
      Reaches fetch context entry fetched.next
  | branch {a dst : BitVec 64} {fetched : Fetched} {own : DecodedInstruction}
      (reaches : Reaches fetch context entry a) (found : fetch a = some fetched)
      (member : own ∈ fetched.instrs) (branch : own.instruction.isBranch = true)
      (goes : target context own = some dst) :
      Reaches fetch context entry dst

variable {context : Context} {entry : BitVec 64}

theorem target_eq {own : DecodedInstruction} {itext : BitVec 64}
    (known : own.getRawTarget context = .ok itext) :
    target context own = if itext = 0 then none else some itext := by
  unfold target
  rw [known]

/-- Where the code gets to a list of instructions, it gets to each of them and behind them. -/
theorem reaches_of_spells (spells : Spells fetch a code stop)
    (reaches : Reaches fetch context entry a) :
    (∀ own ∈ code, ∃ a fetched, Reaches fetch context entry a ∧ fetch a = some fetched ∧
      own ∈ fetched.instrs) ∧ ∀ n, stop = some n → Reaches fetch context entry n := by
  induction spells with
  | here a => exact ⟨nofun, fun n same => Option.some.inj same ▸ reaches⟩
  | @on a fetched rest stop found goesOn later ih =>
      obtain ⟨inRest, stops⟩ := ih (reaches.next found goesOn)
      refine ⟨?_, stops⟩
      intro own member
      rcases List.mem_append.mp member with here | later
      · exact ⟨a, fetched, reaches, found, here⟩
      · exact inRest own later
  | @ends a fetched found ends =>
      exact ⟨fun own member => ⟨a, fetched, reaches, found, member⟩, nofun⟩

end Reconstruction

end Drob
