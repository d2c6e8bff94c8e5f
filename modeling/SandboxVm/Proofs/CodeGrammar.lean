import SandboxVm.Proofs.InstructionCodec

namespace SandboxVm.Proofs.CodeGrammar

open SandboxVm.Proofs.VerificationScan
open SandboxVm.Proofs.GuardedLoading
open SandboxVm.Proofs.InstructionCodec

/-- A well-formed encoding of one instruction. -/
def IsEncoding (bytes : List UInt8) : Prop :=
  ∃ (op : Opcode) (operand : List UInt8),
    bytes = op.toByte :: operand ∧ operand.length = op.operandWidth

/-- The concatenations of `count` well-formed encodings. -/
inductive Encodings : (count : Nat) → (bytes : List UInt8) → Prop where
  | nil : Encodings 0 []
  | cons {count : Nat} {first rest : List UInt8} :
      IsEncoding first → Encodings count rest → Encodings (count + 1) (first ++ rest)

/-- The bytes end in front of an encoding or inside it. -/
def CutShort (bytes : List UInt8) : Prop :=
  bytes = [] ∨ ∃ (op : Opcode) (operand : List UInt8),
    bytes = op.toByte :: operand ∧ operand.length < op.operandWidth

def StartsUnknown (byte : UInt8) (bytes : List UInt8) : Prop :=
  bytes.head? = some byte ∧ ∀ op : Opcode, op.toByte ≠ byte

/-- The first `index` instructions are well formed and fill the first `offset` bytes,
and the bytes behind them are such as `fault` says. -/
def FaultAt (bytes : List UInt8) (index offset : Nat) (fault : List UInt8 → Prop) : Prop :=
  ∃ front rest, bytes = front ++ rest ∧ Encodings index front ∧ front.length = offset ∧ fault rest

theorem ofByte?_eq_none_iff {b : UInt8} :
    Opcode.ofByte? b = none ↔ ∀ op : Opcode, op.toByte ≠ b := by
  constructor
  · rintro h op rfl
    rw [Opcode.ofByte?_toByte] at h
    cases h
  · intro h
    rw [Option.eq_none_iff_forall_ne_some]
    intro op hop
    exact h op (toByte_of_ofByte? hop)

theorem length_operandBytes (inst : Instruction) :
    inst.operandBytes.length = inst.op.operandWidth := by
  have h := inst.length_encode
  rw [Instruction.encode, List.length_cons] at h
  omega

theorem isEncoding_encode (inst : Instruction) : IsEncoding inst.encode :=
  ⟨inst.op, inst.operandBytes, rfl, length_operandBytes inst⟩

theorem readOperand_eq_none_iff (op : Opcode) (bytes : List UInt8) :
    Instruction.readOperand op.operandWidth bytes = none ↔ bytes.length < op.operandWidth := by
  rcases operandWidth_cases op with hwidth | hwidth | hwidth <;> rw [hwidth]
  · simp [Instruction.readOperand]
  · cases bytes <;> simp [Instruction.readOperand]
  · rcases bytes with _ | ⟨b₀, _ | ⟨b₁, _ | ⟨b₂, _ | ⟨b₃, rest⟩⟩⟩⟩ <;>
      simp [Instruction.readOperand]

theorem read_append {first : List UInt8} (h : IsEncoding first) (rest : List UInt8) :
    ∃ inst, Instruction.read (first ++ rest) = .ok (inst, rest) ∧
      first.length = 1 + inst.op.operandWidth := by
  obtain ⟨op, operand, rfl, hlength⟩ := h
  cases hread : Instruction.readOperand op.operandWidth (operand ++ rest) with
  | none =>
      have hshort := (readOperand_eq_none_iff op _).mp hread
      rw [List.length_append] at hshort
      omega
  | some result =>
      obtain ⟨w, left⟩ := result
      have hsplit := operandBytes_of_readOperand hread
      have hsame : operand.length = (Instruction.operandBytes ⟨op, w⟩).length := by
        rw [hlength, length_operandBytes]
      obtain rfl := (List.append_inj hsplit hsame).2
      refine ⟨⟨op, w⟩, ?_, ?_⟩
      · simp only [List.cons_append, Instruction.read, Opcode.ofByte?_toByte, hread]
      · rw [List.length_cons, hlength, Nat.add_comm]

theorem read_eq_ended_iff (bytes : List UInt8) :
    Instruction.read bytes = .error .ended ↔ CutShort bytes := by
  constructor
  · intro h
    cases bytes with
    | nil => exact .inl rfl
    | cons b tail =>
        rw [Instruction.read] at h
        split at h
        · cases h
        · rename_i op hop
          split at h
          · rename_i hoperand
            refine .inr ⟨op, tail, ?_, (readOperand_eq_none_iff op tail).mp hoperand⟩
            rw [toByte_of_ofByte? hop]
          · cases h
  · rintro (rfl | ⟨op, operand, rfl, hshort⟩)
    · rfl
    · simp only [Instruction.read, Opcode.ofByte?_toByte,
        (readOperand_eq_none_iff op operand).mpr hshort]

theorem read_eq_unknown_iff (bytes : List UInt8) (byte : UInt8) :
    Instruction.read bytes = .error (.unknown byte) ↔ StartsUnknown byte bytes := by
  rw [StartsUnknown, ← ofByte?_eq_none_iff]
  cases bytes with
  | nil => simp [Instruction.read]
  | cons b tail =>
      rw [Instruction.read]
      split
      · rename_i hunknown
        simp only [Except.error.injEq, ReadError.unknown.injEq, List.head?_cons, Option.some.injEq]
        constructor
        · rintro rfl
          exact ⟨rfl, hunknown⟩
        · exact And.left
      · rename_i op hop
        constructor
        · intro h
          split at h <;> cases h
        · rintro ⟨hhead, hunknown⟩
          cases hhead
          rw [hop] at hunknown
          cases hunknown

theorem readAll_append {i : Nat} {front : List UInt8} (hfront : Encodings i front) (count : Nat)
    (rest : List UInt8) (index offset : Nat) (done : List Instruction) :
    ∃ read, Instruction.readAll (i + count) (front ++ rest) index offset done =
      Instruction.readAll count rest (index + i) (offset + front.length) (read ++ done) := by
  induction hfront generalizing index offset done with
  | nil => exact ⟨[], by simp⟩
  | @cons i first front hfirst _ ih =>
      obtain ⟨inst, hread, hlength⟩ := read_append hfirst (front ++ rest)
      obtain ⟨read, hrest⟩ := ih (index + 1) (offset + 1 + inst.op.operandWidth) (inst :: done)
      refine ⟨read ++ [inst], ?_⟩
      rw [List.append_assoc, Nat.succ_add, Instruction.readAll, hread]
      dsimp only
      rw [hrest, List.length_append, hlength]
      congr 1
      · omega
      · omega
      · simp

theorem exists_front (count : Nat) (bytes : List UInt8) :
    ∃ i front rest, bytes = front ++ rest ∧ Encodings i front ∧
      (i = count ∨ i < count ∧ (CutShort rest ∨ ∃ byte, StartsUnknown byte rest)) := by
  induction count generalizing bytes with
  | zero => exact ⟨0, [], bytes, rfl, .nil, .inl rfl⟩
  | succ count ih =>
      cases hread : Instruction.read bytes with
      | error e =>
          refine ⟨0, [], bytes, rfl, .nil, .inr ⟨Nat.succ_pos count, ?_⟩⟩
          cases e with
          | ended => exact .inl ((read_eq_ended_iff bytes).mp hread)
          | unknown byte => exact .inr ⟨byte, (read_eq_unknown_iff bytes byte).mp hread⟩
      | ok result =>
          obtain ⟨inst, left⟩ := result
          obtain ⟨i, front, rest, rfl, hfront, hplace⟩ := ih left
          refine ⟨i + 1, inst.encode ++ front, rest, ?_,
            .cons (isEncoding_encode inst) hfront, ?_⟩
          · rw [encode_of_read hread, List.append_assoc]
          · rcases hplace with hcount | ⟨hlt, hfault⟩
            · exact .inl (by rw [hcount])
            · exact .inr ⟨Nat.succ_lt_succ hlt, hfault⟩

theorem decode_eq_error_iff {bytes : List UInt8} {count : Nat} {e : DecodeError} :
    decode bytes count = .error e ↔ Instruction.readAll count bytes 0 0 [] = .error e := by
  rw [decode]
  cases Instruction.readAll count bytes 0 0 [] <;> simp [Except.map]

section

variable {i count : Nat} {front rest : List UInt8} (hfront : Encodings i front)

include hfront

theorem readAll_of_front (rest : List UInt8) (hcount : i ≤ count) :
    ∃ done, Instruction.readAll count (front ++ rest) 0 0 [] =
      Instruction.readAll (count - i) rest i front.length done := by
  obtain ⟨read, hread⟩ := readAll_append hfront (count - i) rest 0 0 []
  rw [Nat.add_sub_cancel' hcount, Nat.zero_add, Nat.zero_add] at hread
  exact ⟨_, hread⟩

theorem decode_of_cutShort (hcount : i < count) (hrest : CutShort rest) :
    decode (front ++ rest) count = .error (.truncated i front.length) := by
  obtain ⟨left, hleft⟩ := Nat.exists_eq_add_of_lt hcount
  obtain ⟨done, hread⟩ := readAll_of_front hfront rest hcount.le
  rw [decode_eq_error_iff, hread, show count - i = left + 1 by omega, Instruction.readAll,
    (read_eq_ended_iff rest).mpr hrest]

theorem decode_of_startsUnknown {byte : UInt8} (hcount : i < count)
    (hrest : StartsUnknown byte rest) :
    decode (front ++ rest) count = .error (.badOpcode i front.length byte) := by
  obtain ⟨left, hleft⟩ := Nat.exists_eq_add_of_lt hcount
  obtain ⟨done, hread⟩ := readAll_of_front hfront rest hcount.le
  rw [decode_eq_error_iff, hread, show count - i = left + 1 by omega, Instruction.readAll,
    (read_eq_unknown_iff rest byte).mpr hrest]

theorem decode_of_whole : ∃ code, decode front i = .ok code := by
  obtain ⟨done, hread⟩ := readAll_of_front hfront [] le_rfl
  rw [List.append_nil, Nat.sub_self, Instruction.readAll] at hread
  exact ⟨_, map_eq_ok.mpr ⟨_, hread, rfl⟩⟩

theorem decode_of_trailing (hrest : 0 < rest.length) :
    decode (front ++ rest) i = .error (.trailing rest.length) := by
  obtain ⟨done, hread⟩ := readAll_of_front hfront rest le_rfl
  obtain ⟨b, tail, rfl⟩ := List.exists_cons_of_length_pos hrest
  rw [decode_eq_error_iff, hread, Nat.sub_self, Instruction.readAll]

end

/-- The ways in which decoding can end, each with what it says of the bytes. -/
theorem decode_cases (bytes : List UInt8) (count : Nat) :
    (Encodings count bytes ∧ ∃ code, decode bytes count = .ok code) ∨
    (∃ index offset, index < count ∧ FaultAt bytes index offset CutShort ∧
      decode bytes count = .error (.truncated index offset)) ∨
    (∃ index offset byte, index < count ∧ FaultAt bytes index offset (StartsUnknown byte) ∧
      decode bytes count = .error (.badOpcode index offset byte)) ∨
    ∃ front rest, bytes = front ++ rest ∧ Encodings count front ∧ 0 < rest.length ∧
      decode bytes count = .error (.trailing rest.length) := by
  obtain ⟨i, front, rest, rfl, hfront, rfl | ⟨hlt, hrest | ⟨byte, hrest⟩⟩⟩ :=
    exists_front count bytes
  · cases rest with
    | nil =>
        rw [List.append_nil]
        exact .inl ⟨hfront, decode_of_whole hfront⟩
    | cons b tail =>
        have hpos : 0 < (b :: tail).length := Nat.succ_pos _
        exact .inr (.inr (.inr ⟨front, _, rfl, hfront, hpos, decode_of_trailing hfront hpos⟩))
  · exact .inr (.inl ⟨i, _, hlt, ⟨front, rest, rfl, hfront, rfl, hrest⟩,
      decode_of_cutShort hfront hlt hrest⟩)
  · exact .inr (.inr (.inl ⟨i, _, byte, hlt, ⟨front, rest, rfl, hfront, rfl, hrest⟩,
      decode_of_startsUnknown hfront hlt hrest⟩))

theorem guardedDecode_of_lt {bytes : List UInt8} {count : Nat} (hcount : count < 2 ^ 28)
    (hbytes : bytes.length < 2 ^ 63) :
    guardedDecode bytes count = some (decode bytes count) := by
  have hhold : canHold count = true := by
    simp only [canHold, decide_eq_true_eq]
    omega
  have hreadable := length_readable_le count bytes
  rw [guardedDecode_eq hbytes hhold, provided_eq]
  exact depthFits_of_length (by omega) (by omega)

/-- Decoding accepts a region just if it is a concatenation of `count` encodings. Otherwise
it says where the first place is at which no encoding stands, or how many bytes stand
behind the last of them. Nothing overflows on the way. -/
theorem decode_follows_grammar (bytes : List UInt8) (count : Nat) (hcount : count < 2 ^ 28) :
    ((∃ code, decode bytes count = .ok code) ↔ Encodings count bytes) ∧
    (∀ index offset, decode bytes count = .error (.truncated index offset) ↔
      index < count ∧ FaultAt bytes index offset CutShort) ∧
    (∀ index offset byte, decode bytes count = .error (.badOpcode index offset byte) ↔
      index < count ∧ FaultAt bytes index offset (StartsUnknown byte)) ∧
    (∀ extra, decode bytes count = .error (.trailing extra) ↔
      0 < extra ∧ ∃ front rest, bytes = front ++ rest ∧ Encodings count front ∧
        rest.length = extra) ∧
    (bytes.length < 2 ^ 63 → guardedDecode bytes count = some (decode bytes count)) := by
  have hcases := decode_cases bytes count
  refine ⟨⟨?_, decode_of_whole⟩, fun index offset => ⟨?_, ?_⟩, fun index offset byte => ⟨?_, ?_⟩,
    fun extra => ⟨?_, ?_⟩, guardedDecode_of_lt hcount⟩
  · grind
  · grind
  · rintro ⟨hlt, front, rest, rfl, hfront, rfl, hrest⟩
    exact decode_of_cutShort hfront hlt hrest
  · grind
  · rintro ⟨hlt, front, rest, rfl, hfront, rfl, hrest⟩
    exact decode_of_startsUnknown hfront hlt hrest
  · grind
  · rintro ⟨hpos, front, rest, rfl, hfront, rfl⟩
    exact decode_of_trailing hfront hpos

theorem decode_cut_operand : 2 < 2 ^ 28 ∧ decode [6, 33] 2 = .error (.truncated 1 1) := by
  have hfront : Encodings 1 [6] := .cons ⟨.push, [], rfl, rfl⟩ .nil
  have hrest : CutShort [33] := .inr ⟨.arg, [], rfl, Nat.one_pos⟩
  have hcount : 2 < 2 ^ 28 := by decide
  refine ⟨hcount, ((decode_follows_grammar [6, 33] 2 hcount).2.1 1 1).mpr ⟨Nat.one_lt_two, ?_⟩⟩
  exact ⟨[6], [33], rfl, hfront, rfl, hrest⟩

end SandboxVm.Proofs.CodeGrammar
