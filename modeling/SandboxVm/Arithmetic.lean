import SandboxVm.Opcode
import SandboxVm.Word

/-!
What the comparison, arithmetic and conversion opcodes compute.
-/

namespace SandboxVm

/-- The single-precision float with the bits of a word. -/
def Word.toFloat (w : Word) : Float32 :=
  Float32.ofBits w.toUInt32

/-- The word with the bits of a single-precision float. -/
def Word.ofFloat (x : Float32) : Word :=
  x.toBits.toInt32

/-- Whether the condition holds of two operands, the older one first. -/
def Comparison.holds : Comparison → Word → Word → Bool
  | .eq, a, b => a == b
  | .ne, a, b => a != b
  | .lti, a, b => a < b
  | .lei, a, b => a ≤ b
  | .gti, a, b => b < a
  | .gei, a, b => b ≤ a
  | .ltu, a, b => a.toUInt32 < b.toUInt32
  | .leu, a, b => a.toUInt32 ≤ b.toUInt32
  | .gtu, a, b => b.toUInt32 < a.toUInt32
  | .geu, a, b => b.toUInt32 ≤ a.toUInt32
  | .eqf, a, b => Word.toFloat a == Word.toFloat b
  | .nef, a, b => !(Word.toFloat a == Word.toFloat b)
  | .ltf, a, b => Word.toFloat a < Word.toFloat b
  | .lef, a, b => Word.toFloat a ≤ Word.toFloat b
  | .gtf, a, b => Word.toFloat b < Word.toFloat a
  | .gef, a, b => Word.toFloat b ≤ Word.toFloat a

/-- The result of a unary operation. Negating a float flips its sign bit, so a
NaN keeps its payload; conversion to an integer saturates and takes NaN to zero. -/
def UnaryOp.apply : UnaryOp → Word → Word
  | .signExtend8, a => a.toInt8.toInt32
  | .signExtend16, a => a.toInt16.toInt32
  | .negate, a => -a
  | .complement, a => ~~~a
  | .negateFloat, a => (a.toUInt32 ^^^ 0x80000000).toInt32
  | .intToFloat, a => Word.ofFloat a.toFloat32
  | .floatToInt, a => (Word.toFloat a).toInt32

/-- The result of a binary operation, the older operand first. Integers wrap
around and shift amounts are taken modulo 32. -/
def BinaryOp.apply : BinaryOp → Word → Word → Word
  | .add, a, b => a + b
  | .sub, a, b => a - b
  | .mulSigned, a, b => a * b
  | .mulUnsigned, a, b => a * b
  | .and, a, b => a &&& b
  | .or, a, b => a ||| b
  | .xor, a, b => a ^^^ b
  | .shiftLeft, a, b => a <<< b
  | .shiftRightSigned, a, b => a >>> b
  | .shiftRightUnsigned, a, b => (a.toUInt32 >>> b.toUInt32).toInt32
  | .addFloat, a, b => Word.ofFloat (Word.toFloat a + Word.toFloat b)
  | .subFloat, a, b => Word.ofFloat (Word.toFloat a - Word.toFloat b)
  | .divFloat, a, b => Word.ofFloat (Word.toFloat a / Word.toFloat b)
  | .mulFloat, a, b => Word.ofFloat (Word.toFloat a * Word.toFloat b)

/-- The quotient or remainder, rounded toward zero; nothing for a zero divisor.
The one quotient out of range wraps around. -/
def DivisionOp.apply? (op : DivisionOp) (a b : Word) : Option Word :=
  if b == 0 then none
  else some <| match op with
    | .divSigned => a / b
    | .divUnsigned => (a.toUInt32 / b.toUInt32).toInt32
    | .remSigned => a % b
    | .remUnsigned => (a.toUInt32 % b.toUInt32).toInt32

end SandboxVm
