import SandboxVm.Proofs.GuardedLoading

namespace SandboxVm.Proofs.InstructionCodec

open SandboxVm.Proofs.VerificationScan
open SandboxVm.Proofs.HeaderBounds
open SandboxVm.Proofs.GuardedLoading

theorem toBytes_ofBytes (b₀ b₁ b₂ b₃ : UInt8) :
    Word.toBytes (Word.ofBytes b₀ b₁ b₂ b₃) = [b₀, b₁, b₂, b₃] := by
  have h₀ := b₀.toNat_lt
  have h₁ := b₁.toNat_lt
  have h₂ := b₂.toNat_lt
  have h₃ := b₃.toNat_lt
  simp only [Word.toBytes, Word.ofBytes, UInt32.toUInt32_toInt32, List.cons.injEq,
    ← UInt8.toNat_inj, UInt32.toNat_toUInt8, UInt32.toNat_shiftRight, UInt32.toNat_add,
    UInt32.toNat_shiftLeft, UInt8.toNat_toUInt32, Nat.shiftLeft_eq, Nat.shiftRight_eq_div_pow,
    UInt32.reduceToNat, Nat.reduceMod, Nat.reducePow, and_true]
  omega

theorem ofBytes_toBytes (w : Word) (rest : List UInt8) :
    Instruction.readOperand 4 (Word.toBytes w ++ rest) = some (w, rest) := by
  simp only [Word.toBytes, List.cons_append, List.nil_append, Instruction.readOperand,
    Word.ofBytes, sum_of_bytes]
  rfl

theorem toByte_of_index : ∀ i : Fin Opcode.all.size, (Opcode.all[i]).toByte.toNat = i := by
  decide

theorem toByte_of_ofByte? {b : UInt8} {op : Opcode} (h : Opcode.ofByte? b = some op) :
    op.toByte = b := by
  obtain ⟨hlt, rfl⟩ := Array.getElem?_eq_some_iff.mp h
  exact UInt8.toNat_inj.mp (toByte_of_index ⟨b.toNat, hlt⟩)

/-- The instruction that is read back: an operand without bytes is lost, and one of a
single byte is cut down to it. -/
def stored (inst : Instruction) : Instruction :=
  ⟨inst.op, match inst.op.operandWidth with
    | 0 => 0
    | 1 => Int32.ofInt (inst.operand.toInt % 256)
    | _ => inst.operand⟩

theorem lowByte_eq (w : Word) :
    w.toUInt32.toUInt8.toUInt32.toInt32 = Int32.ofInt (w.toInt % 256) := by
  have hword : w.toInt = (w.toUInt32.toNat : Int).bmod (2 ^ 32) :=
    BitVec.toInt_eq_toNat_bmod w.toBitVec
  have hlow : w.toInt % 256 = (w.toUInt32.toNat % 256 : Nat) := by
    rw [hword, Int.bmod_def]
    split <;> omega
  have hbyte : w.toUInt32.toUInt8.toUInt32.toInt32.toInt =
      ((w.toUInt32.toNat % 256 : Nat) : Int).bmod (2 ^ 32) :=
    BitVec.toInt_eq_toNat_bmod w.toUInt32.toUInt8.toUInt32.toBitVec
  rw [← Int32.toInt_inj, hbyte, hlow, Int32.toInt_ofInt]
  rfl

theorem read_encode (inst : Instruction) (rest : List UInt8) :
    Instruction.read (inst.encode ++ rest) = .ok (stored inst, rest) := by
  have hoperand : Instruction.readOperand inst.op.operandWidth (inst.operandBytes ++ rest) =
      some ((stored inst).operand, rest) := by
    rcases operandWidth_cases inst.op with hwidth | hwidth | hwidth
    · simp only [Instruction.operandBytes, stored, hwidth]
      rfl
    · simp only [Instruction.operandBytes, stored, hwidth, ← lowByte_eq]
      rfl
    · simp only [Instruction.operandBytes, stored, hwidth]
      exact ofBytes_toBytes inst.operand rest
  simp only [Instruction.encode, List.cons_append, Instruction.read, Opcode.ofByte?_toByte,
    hoperand]
  rfl

theorem operandBytes_of_readOperand {op : Opcode} {operand : Word} {bytes rest : List UInt8}
    (h : Instruction.readOperand op.operandWidth bytes = some (operand, rest)) :
    bytes = Instruction.operandBytes ⟨op, operand⟩ ++ rest := by
  unfold Instruction.operandBytes
  generalize op.operandWidth = width at h
  unfold Instruction.readOperand at h
  split at h <;> simp only [Option.some.injEq, Prod.mk.injEq, reduceCtorEq] at h
  all_goals obtain ⟨rfl, rfl⟩ := h
  · rfl
  · simp
  · simp [toBytes_ofBytes]

theorem encode_of_read {bytes rest : List UInt8} {inst : Instruction}
    (h : Instruction.read bytes = .ok (inst, rest)) : bytes = inst.encode ++ rest := by
  cases bytes with
  | nil => cases h
  | cons b tail =>
      simp only [Instruction.read] at h
      split at h
      · cases h
      · rename_i op hop
        split at h
        · cases h
        · rename_i operand rest' hoperand
          cases h
          rw [Instruction.encode, List.cons_append, toByte_of_ofByte? hop,
            ← operandBytes_of_readOperand hoperand]

theorem encodeAll_cons (inst : Instruction) (is : List Instruction) :
    encodeAll (inst :: is) = inst.encode ++ encodeAll is := rfl

theorem encodeAll_of_readAll {count : Nat} {bytes : List UInt8} {index offset : Nat}
    {done is : List Instruction} (h : Instruction.readAll count bytes index offset done = .ok is) :
    ∃ read, is = done.reverse ++ read ∧ encodeAll read = bytes := by
  induction count generalizing bytes index offset done with
  | zero =>
      cases bytes with
      | nil =>
          cases h
          exact ⟨[], by simp, rfl⟩
      | cons b rest => cases h
  | succ count ih =>
      rw [Instruction.readAll] at h
      split at h
      · cases h
      · cases h
      · rename_i inst rest hread
        obtain ⟨read, rfl, hrest⟩ := ih h
        refine ⟨inst :: read, by simp, ?_⟩
        rw [encodeAll_cons, hrest, encode_of_read hread]

theorem readAll_encodeAll (is : List Instruction) (index offset : Nat) (done : List Instruction) :
    Instruction.readAll is.length (encodeAll is) index offset done =
      .ok (done.reverse ++ is.map stored) := by
  induction is generalizing index offset done with
  | nil => simp [encodeAll, Instruction.readAll]
  | cons inst is ih =>
      simp only [List.length_cons, encodeAll_cons, Instruction.readAll, read_encode, ih,
        List.reverse_cons, List.map_cons, List.append_assoc, List.cons_append, List.nil_append]

theorem encode_jump {op : Opcode} (h : op = .jump) (operand operand' : Word) :
    Instruction.encode ⟨op, operand⟩ = Instruction.encode ⟨op, operand'⟩ := by
  subst h
  rfl

theorem encodeAll_annotate (depth : Int) (prev? : Option Instruction) (is : List Instruction) :
    encodeAll ((annotate depth prev? is).map (·.toInstruction)) = encodeAll is := by
  induction is generalizing depth prev? with
  | nil => rfl
  | cons inst is ih =>
      simp only [annotate, List.map_cons, encodeAll_cons, ih]
      congr 1
      split
      · split
        · rename_i prev hfold
          exact encode_jump hfold.1 _ _
        · rfl
      · rfl

/-- The constant that an instruction pushes. -/
def constant? (inst? : Option Instruction) : Option Word :=
  inst?.bind fun inst => if inst.op = .const then some inst.operand else none

/-- The instruction in front of index `i`, where `prev?` is the one in front of all. -/
def before? (prev? : Option Instruction) (is : List Instruction) : Nat → Option Instruction
  | 0 => prev?
  | i + 1 => is[i]?

/-- A `jump` behind a constant takes it for its target. -/
def folded (prev? : Option Instruction) (inst : Instruction) : Instruction :=
  ⟨inst.op, if inst.op = .jump then (constant? prev?).getD inst.operand else inst.operand⟩

theorem constant?_folded (prev? : Option Instruction) (inst : Instruction) :
    constant? (some (folded prev? inst)) = constant? (some inst) := by
  by_cases hjump : inst.op = .jump
  · simp [constant?, folded, hjump]
  · simp [constant?, folded, hjump]

theorem annotate_cons (depth : Int) (prev? : Option Instruction) (inst : Instruction)
    (is : List Instruction) :
    annotate depth prev? (inst :: is) =
      { toInstruction := folded prev? inst, depth := depth } ::
        annotate (depth + inst.op.stackDelta) (some (folded prev? inst)) is := by
  cases prev? with
  | none =>
      have hfolded : folded none inst = inst := by simp [folded, constant?]
      rw [hfolded]
      rfl
  | some prev =>
      have hfolded : folded (some prev) inst = ⟨inst.op,
          if inst.op = .jump ∧ prev.op = .const then prev.operand else inst.operand⟩ := by
        by_cases hjump : inst.op = .jump
        · by_cases hconst : prev.op = .const
          · simp [folded, constant?, hjump, hconst]
          · simp [folded, constant?, hjump, hconst]
        · simp [folded, hjump]
      rw [hfolded]
      rfl

theorem folded_before? (prev? : Option Instruction) (inst : Instruction) (is : List Instruction)
    (i : Nat) (other : Instruction) :
    folded (before? (some (folded prev? inst)) is i) other =
      folded (before? prev? (inst :: is) (i + 1)) other := by
  cases i with
  | zero =>
      have hconstant := constant?_folded prev? inst
      simp only [before?, List.getElem?_cons_zero]
      rw [folded, hconstant]
      rfl
  | succ i => rfl

theorem annotate_getElem? (depth : Int) (prev? : Option Instruction) (is : List Instruction)
    (i : Nat) :
    (annotate depth prev? is)[i]? = is[i]?.map fun inst =>
      { toInstruction := folded (before? prev? is i) inst
        depth := depth + ((is.take i).map (·.op.stackDelta)).sum } := by
  induction is generalizing depth prev? i with
  | nil => simp [annotate]
  | cons inst is ih =>
      rw [annotate_cons]
      cases i with
      | zero => simp [before?]
      | succ i =>
          simp only [List.getElem?_cons_succ, ih, folded_before?, List.take_succ_cons,
            List.map_cons, List.sum_cons, Int.add_assoc]

/-- The instruction `inst` at index `i` of `is` as it is decoded. -/
def decoded (is : List Instruction) (i : Nat) (inst : Instruction) : AnnotatedInstruction where
  op := inst.op
  operand := match inst.op.operandWidth with
    | 0 => if inst.op = .jump then (constant? (before? none is i)).getD 0 else 0
    | 1 => Int32.ofInt (inst.operand.toInt % 256)
    | _ => inst.operand
  depth := ((is.take i).map (·.op.stackDelta)).sum
  isTarget := false
  computed := false

/-- The code that a list of instructions is decoded to. -/
def decodedAll (is : List Instruction) : Code := (annotate 0 none (is.map stored)).toArray

theorem constant?_stored (inst : Instruction) :
    constant? (some (stored inst)) = constant? (some inst) := by
  by_cases hconst : inst.op = .const
  · simp [constant?, stored, hconst, Opcode.operandWidth]
  · simp [constant?, stored, hconst]

theorem folded_stored (is : List Instruction) (i : Nat) (inst : Instruction) :
    folded (before? none (is.map stored) i) (stored inst) =
      (decoded is i inst).toInstruction := by
  have hconstant : constant? (before? none (is.map stored) i) = constant? (before? none is i) := by
    cases i with
    | zero => rfl
    | succ i =>
        simp only [before?, List.getElem?_map]
        cases is[i]? with
        | none => rfl
        | some prev => exact constant?_stored prev
  by_cases hjump : inst.op = .jump
  · simp [folded, decoded, stored, hjump, hconstant, Opcode.operandWidth]
  · simp [folded, decoded, stored, hjump]

theorem decodedAll_getElem? {is : List Instruction} {i : Nat} {inst : Instruction}
    (h : is[i]? = some inst) : (decodedAll is)[i]? = some (decoded is i inst) := by
  have hops : ((is.map stored).take i).map (·.op.stackDelta) =
      (is.take i).map (·.op.stackDelta) := by
    rw [← List.map_take, List.map_map]
    rfl
  simp only [decodedAll, List.getElem?_toArray, annotate_getElem?, List.getElem?_map, h, hops,
    Option.map_some, folded_stored, Int.zero_add]
  rfl

theorem size_decodedAll (is : List Instruction) : (decodedAll is).size = is.length := by
  simp [decodedAll, length_annotate]

theorem decode_encodeAll (is : List Instruction) :
    decode (encodeAll is) is.length = .ok (decodedAll is) := by
  rw [decode, readAll_encodeAll]
  rfl

theorem length_encodeAll_le (is : List Instruction) : (encodeAll is).length ≤ 5 * is.length := by
  induction is with
  | nil => exact Nat.le_refl 0
  | cons inst is ih =>
      have hwidth := operandWidth_cases inst.op
      rw [encodeAll_cons, List.length_append, Instruction.length_encode, List.length_cons]
      omega

theorem guardedDecode_encodeAll {is : List Instruction} (h : is.length < 2 ^ 28) :
    guardedDecode (encodeAll is) is.length = some (.ok (decodedAll is)) := by
  have hbytes := length_encodeAll_le is
  have hreadable := length_readable_le is.length (encodeAll is)
  have hhold : canHold is.length = true := by
    simp only [canHold, decide_eq_true_eq]
    omega
  rw [guardedDecode_eq (by omega) hhold, decode_encodeAll, provided_eq]
  exact depthFits_of_length (by omega) (by omega)

/-- What is decoded encodes to the bytes it was decoded from; what is encoded decodes
to the instructions it was encoded from, with their depths and known targets. -/
theorem encoding_and_decoding_inverse :
    (∀ (bytes : List UInt8) (count : Nat) (code : Code), decode bytes count = .ok code →
      encodeAll (code.toList.map (·.toInstruction)) = bytes) ∧
    ∀ is : List Instruction, is.length < 2 ^ 28 →
      ∃ code, guardedDecode (encodeAll is) is.length = some (.ok code) ∧
        decode (encodeAll is) is.length = .ok code ∧ code.size = is.length ∧
        ∀ i inst, is[i]? = some inst → code[i]? = some (decoded is i inst) := by
  constructor
  · intro bytes count code h
    obtain ⟨is, his, rfl⟩ := map_eq_ok.mp h
    obtain ⟨read, rfl, hread⟩ := encodeAll_of_readAll his
    rw [encodeAll_annotate]
    exact hread
  · intro is hlength
    exact ⟨decodedAll is, guardedDecode_encodeAll hlength, decode_encodeAll is, size_decodedAll is,
      fun i inst hinst => decodedAll_getElem? hinst⟩

/-- Operands are lost, cut down to a byte, or taken from the constant in front. -/
example : (decodedAll [⟨.const, 7⟩, ⟨.jump, 3⟩, ⟨.arg, -56⟩, ⟨.push, 5⟩]).toList.map
    (·.operand) = [7, 7, 200, 0] := by decide

end SandboxVm.Proofs.InstructionCodec
