import SandboxVm.Instruction
import SandboxVm.Text.Numeral

/-!
Reading a code region. Decoding keeps track of the operand-stack depth along
the code, whatever the control flow, and gives a jump after a constant its target.
-/

namespace SandboxVm

/-- What is wrong with a code region. -/
inductive DecodeError where
  | badOpcode (index offset : Nat) (byte : UInt8)
  /-- The region ends inside an instruction or before it. -/
  | truncated (index offset : Nat)
  /-- Bytes are left after the last instruction. -/
  | trailing (extra : Nat)
  deriving DecidableEq

namespace DecodeError

def message : DecodeError → String
  | badOpcode index offset byte =>
    "bad opcode " ++ Text.hexPadded 2 byte.toNat ++ " at instruction " ++ toString index
      ++ " (byte offset " ++ toString offset ++ ")"
  | truncated index offset =>
    "code truncated at instruction " ++ toString index
      ++ " (byte offset " ++ toString offset ++ ")"
  | trailing extra => toString extra ++ " trailing bytes after the last instruction"

end DecodeError

/-- Why no instruction could be read from the front of a byte list. -/
inductive ReadError where
  | ended
  | unknown (byte : UInt8)
  deriving DecidableEq

namespace Instruction

/-- Read an operand of the given width and return the bytes after it. A single
byte is read as unsigned. -/
def readOperand : Nat → List UInt8 → Option (Word × List UInt8)
  | 0, bytes => some (0, bytes)
  | 1, b :: rest => some (b.toUInt32.toInt32, rest)
  | 4, b₀ :: b₁ :: b₂ :: b₃ :: rest => some (Word.ofBytes b₀ b₁ b₂ b₃, rest)
  | _, _ => none

/-- Read one instruction and return the bytes after it. -/
def read : List UInt8 → Except ReadError (Instruction × List UInt8)
  | [] => .error .ended
  | b :: rest =>
    match Opcode.ofByte? b with
    | none => .error (.unknown b)
    | some op =>
      match readOperand op.operandWidth rest with
      | none => .error .ended
      | some (operand, rest) => .ok (⟨op, operand⟩, rest)

/-- Read `count` instructions that fill the whole byte list. `index` and
`offset` are the position of the first one, for error reports. -/
def readAll : (count : Nat) → (bytes : List UInt8) → (index offset : Nat) →
    (done : List Instruction) → Except DecodeError (List Instruction)
  | 0, [], _, _, done => .ok done.reverse
  | 0, bytes@(_ :: _), _, _, _ => .error (.trailing bytes.length)
  | count + 1, bytes, index, offset, done =>
    match read bytes with
    | .error .ended => .error (.truncated index offset)
    | .error (.unknown b) => .error (.badOpcode index offset b)
    | .ok (inst, rest) =>
      readAll count rest (index + 1) (offset + 1 + inst.op.operandWidth) (inst :: done)

end Instruction

/-- Annotate instructions with their depth along the code, starting at `depth`
after the instruction `prev?`. A jump just after a `const` takes the constant as
its operand. -/
def annotate (depth : Int) (prev? : Option Instruction) :
    List Instruction → List AnnotatedInstruction
  | [] => []
  | inst :: rest =>
    let operand :=
      match prev? with
      | some prev => if inst.op = .jump ∧ prev.op = .const then prev.operand else inst.operand
      | none => inst.operand
    let inst : Instruction := ⟨inst.op, operand⟩
    { toInstruction := inst, depth := depth } ::
      annotate (depth + inst.op.stackDelta) (some inst) rest

/-- The operand-stack depth behind the last instruction. -/
def finalDepth (code : Code) : Int :=
  match code.back? with
  | some last => last.depth + last.op.stackDelta
  | none => 0

/-- Whether the space for `count` instructions of twelve bytes each can be addressed. -/
def canHold (count : Nat) : Bool := 12 * count < 0x8000000000000000

/-- Decode a code region that holds exactly `count` instructions. -/
def decode (bytes : List UInt8) (count : Nat) : Except DecodeError Code :=
  (Instruction.readAll count bytes 0 0 []).map fun is => (annotate 0 none is).toArray

end SandboxVm
