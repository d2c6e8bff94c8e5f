import SandboxVm.Opcode
import SandboxVm.Word

namespace SandboxVm

/-- An opcode and its operand. Opcodes without operand bytes carry an operand
too: for a `jump` it is the target known from the code in front of it. -/
structure Instruction where
  op : Opcode
  operand : Word := 0
  deriving DecidableEq

namespace Instruction

/-- The operand bytes: none, the low byte, or the whole word. -/
def operandBytes (i : Instruction) : List UInt8 :=
  match i.op.operandWidth with
  | 0 => []
  | 1 => [i.operand.toUInt32.toUInt8]
  | _ => Word.toBytes i.operand

/-- The bytes of an instruction: its opcode and its operand. -/
def encode (i : Instruction) : List UInt8 :=
  i.op.toByte :: i.operandBytes

/-- The assembly text of an instruction. A jump with a known target other than
zero shows it in a comment. -/
def text (i : Instruction) : String :=
  if i.op.operandWidth = 0 then
    if i.op = .jump ∧ i.operand ≠ 0 then
      i.op.mnemonic ++ " ; -> " ++ toString i.operand.toInt
    else i.op.mnemonic
  else i.op.mnemonic ++ " " ++ toString i.operand.toInt

theorem length_encode (i : Instruction) : i.encode.length = 1 + i.op.operandWidth := by
  obtain ⟨op, operand⟩ := i
  cases op <;> simp [encode, operandBytes, Opcode.operandWidth]

end Instruction

/-- The bytes of a code region. -/
def encodeAll (is : List Instruction) : List UInt8 :=
  is.flatMap Instruction.encode

/-- An instruction of a module with what is known about it statically. -/
structure AnnotatedInstruction extends Instruction where
  /-- Size in bytes of the operand stack in front of the instruction, along the code. -/
  depth : Int := 0
  /-- Whether some jump may land here. -/
  isTarget : Bool := false
  /-- For a `jump`: its target is known only when it runs. For an `enter`: its
  procedure contains such a jump. -/
  computed : Bool := false
  deriving DecidableEq

/-- The instructions of a module, addressed by index. -/
abbrev Code := Array AnnotatedInstruction

namespace Code

/-- The constant pushed by the instruction just in front of index `i`. -/
def constantBefore? (code : Code) (i : Nat) : Option Word :=
  match i with
  | 0 => none
  | j + 1 =>
    match code[j]? with
    | some prev => if prev.op = .const then some prev.operand else none
    | none => none

/-- Whether the instruction at index `i` is a jump to a constant. -/
def isStaticJump (code : Code) (i : Nat) : Bool :=
  match code[i]? with
  | some inst => inst.op = .jump && (code.constantBefore? i).isSome
  | none => false

end Code

end SandboxVm
