import SandboxVm.Instruction
import SandboxVm.Proofs.TextLines

namespace SandboxVm.Proofs.InstructionText

open SandboxVm.Proofs.TextLines

theorem mem_all (op : Opcode) : op ∈ Opcode.all :=
  Array.mem_of_getElem? (Opcode.ofByte?_toByte op)

theorem mnemonics_nodup : (Opcode.all.toList.map Opcode.mnemonic).Nodup := by decide

theorem mnemonic_injective {op op' : Opcode} (h : op.mnemonic = op'.mnemonic) : op = op' :=
  List.inj_on_of_nodup_map mnemonics_nodup (mem_all op).val (mem_all op').val h

theorem blank_not_mem_mnemonic (op : Opcode) : ' ' ∉ op.mnemonic.toList := by
  have hall : ∀ op ∈ Opcode.all, ' ' ∉ op.mnemonic.toList := by decide
  exact hall op (mem_all op)

theorem oneLine_mnemonic (op : Opcode) : OneLine op.mnemonic := by
  have hall : ∀ op ∈ Opcode.all, OneLine op.mnemonic := by decide
  exact hall op (mem_all op)

/-- What the text of an instruction shows of its operand. -/
def operandText (inst : Instruction) : String :=
  if inst.op.operandWidth = 0 then
    if inst.op = .jump ∧ inst.operand ≠ 0 then " ; -> " ++ toString inst.operand.toInt else ""
  else " " ++ toString inst.operand.toInt

theorem text_eq_append (inst : Instruction) : inst.text = inst.op.mnemonic ++ operandText inst := by
  unfold Instruction.text operandText
  split
  · split
    · rw [String.append_assoc]
    · rw [String.append_empty]
  · rw [String.append_assoc]

theorem operandText_cases (inst : Instruction) :
    operandText inst = "" ∨ ∃ rest, operandText inst = " " ++ rest := by
  unfold operandText
  split
  · split
    · exact .inr ⟨"; -> " ++ toString inst.operand.toInt, by rw [← String.append_assoc]; rfl⟩
    · exact .inl rfl
  · exact .inr ⟨_, rfl⟩

theorem takeWhile_text (inst : Instruction) :
    inst.text.toList.takeWhile (· != ' ') = inst.op.mnemonic.toList := by
  have hmnemonic : ∀ c ∈ inst.op.mnemonic.toList, (c != ' ') = true := by
    intro c hc
    refine bne_iff_ne.mpr fun hblank => blank_not_mem_mnemonic inst.op (hblank ▸ hc)
  rw [text_eq_append, String.toList_append, List.takeWhile_append_of_pos hmnemonic]
  rcases operandText_cases inst with hempty | ⟨rest, hrest⟩
  · rw [hempty]
    exact List.append_nil _
  · rw [hrest, String.toList_append]
    exact List.append_nil _

theorem oneLine_text (inst : Instruction) : OneLine inst.text := by
  have hnumber := oneLine_int inst.operand.toInt
  rw [text_eq_append]
  refine (oneLine_mnemonic inst.op).append ?_
  unfold operandText
  split
  · split
    · exact OneLine.append (by decide) hnumber
    · decide
  · exact OneLine.append (by decide) hnumber

/-- An operand without bytes is zero, unless it is the target of a jump. -/
def Plain (inst : Instruction) : Prop :=
  inst.op.operandWidth = 0 → inst.op ≠ .jump → inst.operand = 0

theorem operandText_jump (w : Word) :
    operandText ⟨.jump, w⟩ = if w = 0 then "" else " ; -> " ++ toString w.toInt := by
  by_cases hw : w = 0
  · simp [operandText, Opcode.operandWidth, hw]
  · simp [operandText, Opcode.operandWidth, hw]

theorem operand_eq_of_operandText_eq {op : Opcode} {operand operand' : Word}
    (hplain : Plain ⟨op, operand⟩) (hplain' : Plain ⟨op, operand'⟩)
    (h : operandText ⟨op, operand⟩ = operandText ⟨op, operand'⟩) : operand = operand' := by
  have hnumbers (mark : String)
      (h : mark ++ toString operand.toInt = mark ++ toString operand'.toInt) : operand = operand' :=
    Int32.toInt_inj.mp (int_eq_of_toString_eq (eq_of_append_eq h rfl).2)
  by_cases hwidth : op.operandWidth = 0
  · by_cases hjump : op = .jump
    · subst hjump
      rw [operandText_jump, operandText_jump] at h
      split at h <;> split at h <;> rename_i hzero hzero'
      · exact hzero.trans hzero'.symm
      · simp at h
      · simp at h
      · exact hnumbers _ h
    · exact (hplain hwidth hjump).trans (hplain' hwidth hjump).symm
  · simp only [operandText, hwidth, if_false] at h
    exact hnumbers _ h

theorem text_injective {inst inst' : Instruction} (hplain : Plain inst) (hplain' : Plain inst')
    (h : inst.text = inst'.text) : inst = inst' := by
  obtain ⟨op, operand⟩ := inst
  obtain ⟨op', operand'⟩ := inst'
  have hmnemonic := takeWhile_text ⟨op, operand⟩
  rw [h, takeWhile_text, String.toList_inj] at hmnemonic
  obtain rfl := mnemonic_injective hmnemonic
  rw [text_eq_append, text_eq_append] at h
  have hoperand := operand_eq_of_operandText_eq hplain hplain' (eq_of_append_eq h rfl).2
  rw [hoperand]

end SandboxVm.Proofs.InstructionText
