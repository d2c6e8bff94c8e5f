/-!
The instruction set: sixty opcodes of one byte each, grouped by what they do to
the operand stack, with their mnemonics, operand widths and stack effects.
-/

namespace SandboxVm

/-- The conditions of the two-operand branches: on words read as signed, as
unsigned (suffix `u`), or as single-precision floats (suffix `f`). -/
inductive Comparison where
  | eq | ne | lti | lei | gti | gei | ltu | leu | gtu | geu
  | eqf | nef | ltf | lef | gtf | gef
  deriving DecidableEq, Repr

/-- The number of bytes a load or a store touches. -/
inductive Width where
  | one | two | four
  deriving DecidableEq, Repr

def Width.bytes : Width → Nat
  | .one => 1
  | .two => 2
  | .four => 4

/-- Operations that replace the top operand. -/
inductive UnaryOp where
  | signExtend8 | signExtend16 | negate | complement
  | negateFloat | intToFloat | floatToInt
  deriving DecidableEq, Repr

/-- Operations that replace the two top operands and never fail. -/
inductive BinaryOp where
  | add | sub | mulSigned | mulUnsigned | and | or | xor
  | shiftLeft | shiftRightSigned | shiftRightUnsigned
  | addFloat | subFloat | divFloat | mulFloat
  deriving DecidableEq, Repr

/-- Operations that replace the two top operands and refuse a zero divisor. -/
inductive DivisionOp where
  | divSigned | divUnsigned | remSigned | remUnsigned
  deriving DecidableEq, Repr

/-- The operations of the machine, those that differ only in what they compute in one family. -/
inductive Opcode where
  | undef
  | ignore
  | breakpoint
  | enter
  | leave
  | call
  | push
  | pop
  | const
  | localAddress
  | jump
  | branch (condition : Comparison)
  | load (width : Width)
  | store (width : Width)
  | arg
  | blockCopy
  | unary (op : UnaryOp)
  | binary (op : BinaryOp)
  | division (op : DivisionOp)
  deriving DecidableEq, Repr

namespace Opcode

/-- Every opcode, in the order of its encoding. -/
def all : Array Opcode := #[
  undef, ignore, breakpoint, enter, leave, call, push, pop, const, localAddress, jump,
  branch .eq, branch .ne, branch .lti, branch .lei, branch .gti, branch .gei,
  branch .ltu, branch .leu, branch .gtu, branch .geu,
  branch .eqf, branch .nef, branch .ltf, branch .lef, branch .gtf, branch .gef,
  load .one, load .two, load .four, store .one, store .two, store .four,
  arg, blockCopy,
  unary .signExtend8, unary .signExtend16, unary .negate,
  binary .add, binary .sub,
  division .divSigned, division .divUnsigned, division .remSigned, division .remUnsigned,
  binary .mulSigned, binary .mulUnsigned,
  binary .and, binary .or, binary .xor, unary .complement,
  binary .shiftLeft, binary .shiftRightSigned, binary .shiftRightUnsigned,
  unary .negateFloat,
  binary .addFloat, binary .subFloat, binary .divFloat, binary .mulFloat,
  unary .intToFloat, unary .floatToInt]

def count : Nat := all.size

/-- The opcode that a byte encodes. -/
def ofByte? (b : UInt8) : Option Opcode := all[b.toNat]?

/-- The byte that encodes an opcode. -/
def toByte : Opcode → UInt8
  | undef => 0
  | ignore => 1
  | breakpoint => 2
  | enter => 3
  | leave => 4
  | call => 5
  | push => 6
  | pop => 7
  | const => 8
  | localAddress => 9
  | jump => 10
  | branch .eq => 11
  | branch .ne => 12
  | branch .lti => 13
  | branch .lei => 14
  | branch .gti => 15
  | branch .gei => 16
  | branch .ltu => 17
  | branch .leu => 18
  | branch .gtu => 19
  | branch .geu => 20
  | branch .eqf => 21
  | branch .nef => 22
  | branch .ltf => 23
  | branch .lef => 24
  | branch .gtf => 25
  | branch .gef => 26
  | load .one => 27
  | load .two => 28
  | load .four => 29
  | store .one => 30
  | store .two => 31
  | store .four => 32
  | arg => 33
  | blockCopy => 34
  | unary .signExtend8 => 35
  | unary .signExtend16 => 36
  | unary .negate => 37
  | binary .add => 38
  | binary .sub => 39
  | division .divSigned => 40
  | division .divUnsigned => 41
  | division .remSigned => 42
  | division .remUnsigned => 43
  | binary .mulSigned => 44
  | binary .mulUnsigned => 45
  | binary .and => 46
  | binary .or => 47
  | binary .xor => 48
  | unary .complement => 49
  | binary .shiftLeft => 50
  | binary .shiftRightSigned => 51
  | binary .shiftRightUnsigned => 52
  | unary .negateFloat => 53
  | binary .addFloat => 54
  | binary .subFloat => 55
  | binary .divFloat => 56
  | binary .mulFloat => 57
  | unary .intToFloat => 58
  | unary .floatToInt => 59

/-- The name of an opcode in a listing. -/
def mnemonic : Opcode → String
  | undef => "undef"
  | ignore => "ignore"
  | breakpoint => "break"
  | enter => "enter"
  | leave => "leave"
  | call => "call"
  | push => "push"
  | pop => "pop"
  | const => "const"
  | localAddress => "local"
  | jump => "jump"
  | branch .eq => "eq"
  | branch .ne => "ne"
  | branch .lti => "lti"
  | branch .lei => "lei"
  | branch .gti => "gti"
  | branch .gei => "gei"
  | branch .ltu => "ltu"
  | branch .leu => "leu"
  | branch .gtu => "gtu"
  | branch .geu => "geu"
  | branch .eqf => "eqf"
  | branch .nef => "nef"
  | branch .ltf => "ltf"
  | branch .lef => "lef"
  | branch .gtf => "gtf"
  | branch .gef => "gef"
  | load .one => "load1"
  | load .two => "load2"
  | load .four => "load4"
  | store .one => "store1"
  | store .two => "store2"
  | store .four => "store4"
  | arg => "arg"
  | blockCopy => "block_copy"
  | unary .signExtend8 => "sex8"
  | unary .signExtend16 => "sex16"
  | unary .negate => "negi"
  | binary .add => "add"
  | binary .sub => "sub"
  | division .divSigned => "divi"
  | division .divUnsigned => "divu"
  | division .remSigned => "modi"
  | division .remUnsigned => "modu"
  | binary .mulSigned => "muli"
  | binary .mulUnsigned => "mulu"
  | binary .and => "band"
  | binary .or => "bor"
  | binary .xor => "bxor"
  | unary .complement => "bcom"
  | binary .shiftLeft => "lsh"
  | binary .shiftRightSigned => "rshi"
  | binary .shiftRightUnsigned => "rshu"
  | unary .negateFloat => "negf"
  | binary .addFloat => "addf"
  | binary .subFloat => "subf"
  | binary .divFloat => "divf"
  | binary .mulFloat => "mulf"
  | unary .intToFloat => "cvif"
  | unary .floatToInt => "cvfi"

/-- The mnemonic in camel case: every part between underscores capitalised. -/
def title (op : Opcode) : String :=
  let rec go : Bool → List Char → List Char
    | _, [] => []
    | _, '_' :: cs => go true cs
    | true, c :: cs => c.toUpper :: go false cs
    | false, c :: cs => c :: go false cs
  String.ofList (go true op.mnemonic.toList)

def ofMnemonic? (s : String) : Option Opcode :=
  all.find? fun op => op.mnemonic == s

/-- The number of operand bytes that follow the opcode byte. -/
def operandWidth : Opcode → Nat
  | enter | leave | const | localAddress | branch _ | blockCopy => 4
  | arg => 1
  | _ => 0

/-- How many bytes the operand stack grows by. -/
def stackDelta : Opcode → Int
  | push | const | localAddress => 4
  | leave | pop | jump | arg | binary _ | division _ => -4
  | branch _ | store _ | blockCopy => -8
  | _ => 0

/-- Whether the opcode is a conditional jump. -/
def isBranch : Opcode → Bool
  | branch _ => true
  | _ => false

def loadWidth? : Opcode → Option Width
  | load w => some w
  | _ => none

@[simp] theorem ofByte?_toByte (op : Opcode) : ofByte? op.toByte = some op := by
  cases op <;> first | rfl | (rename_i x; cases x <;> rfl)

end Opcode

end SandboxVm
