import SandboxVm.Module

/-!
Translation of procedures to compiled code, as far as it decides whether a module
can be compiled. The number of operands is followed through the body of a
procedure, and a block of compiled code starts wherever control may arrive
otherwise than from the instruction in front.
-/

namespace SandboxVm

namespace Opcode

/-- The number of operands an opcode takes off the stack. -/
def pops : Opcode → Nat
  | leave | call | pop | jump | load _ | arg | unary _ => 1
  | branch _ | store _ | blockCopy | binary _ | division _ => 2
  | _ => 0

/-- The number of operands an opcode puts on the stack. -/
def pushes : Opcode → Nat
  | call | push | const | localAddress | load _ | unary _ | binary _ | division _ => 1
  | _ => 0

/-- Whether a block of compiled code is closed behind an opcode. -/
def endsBlock : Opcode → Bool
  | branch _ | jump | leave => true
  | _ => false

end Opcode

/-- Why a procedure cannot be translated. -/
inductive TranslationError where
  /-- An instruction takes more operands than there are. -/
  | underflow
  /-- Operands are left where a block starts. -/
  | liveOperands (index : Nat)
  /-- Control goes to an instruction at which no block starts. -/
  | noBlock (index : Nat)
  | nestedEnter (index : Nat)
  /-- The last block is not closed. -/
  | openEnd
  deriving DecidableEq

def TranslationError.message : TranslationError → String
  | underflow => "operand stack underflow"
  | liveOperands index => "operands live across the block boundary at " ++ toString index
  | noBlock index => "no block starts at " ++ toString index
  | nestedEnter index => "nested `enter` at " ++ toString index
  | openEnd => "procedure does not end in `leave`"

namespace Native

/-- The instructions of a procedure after its `enter`. -/
def body (code : Code) (p : Procedure) : List AnnotatedInstruction :=
  (code.extract (p.start + 1) (p.last + 1)).toList

/-- Whether a block starts at an index: it is that of a jump target, or control does
not just fall through from the instruction in front. -/
def startsBlock (code : Code) (p : Procedure) (index : Nat) : Bool :=
  p.start < index && index ≤ p.last &&
    (code[index]?.any (·.isTarget) || code[index - 1]?.any (·.op.endsBlock))

/-- What the translator knows between two instructions. -/
structure Progress where
  height : Nat := 0
  /-- Whether the block that was started last is closed. -/
  filled : Bool := false
  deriving DecidableEq

/-- Control can only be transferred to the start of a block. -/
def requireBlock (code : Code) (p : Procedure) (index : Nat) : Except TranslationError Unit :=
  if startsBlock code p index then .ok () else .error (.noBlock index)

/-- The index that an operand names, as a number of 64 bits. -/
def blockIndex (operand : Word) : Nat := operand.toInt64.toUInt64.toNat

/-- Where the computed jumps of a procedure may go. -/
def computedTargets (code : Code) (p : Procedure) : List Nat :=
  (List.range' (p.start + 1) (p.last - p.start)).filter fun index =>
    code[index]?.any fun inst => inst.isTarget && inst.op != .enter

/-- Require a block wherever control may go from an instruction, unless it just falls
through. -/
def requireTargets (code : Code) (p : Procedure) (index : Nat) (inst : AnnotatedInstruction) :
    Except TranslationError Unit :=
  match inst.op with
  | .jump =>
    if inst.computed then (computedTargets code p).forM (requireBlock code p)
    else requireBlock code p (blockIndex inst.operand)
  | .branch _ => do
    requireBlock code p (blockIndex inst.operand)
    requireBlock code p (index + 1)
  | _ => .ok ()

/-- Start the block at an index if there is one. -/
def openBlock (code : Code) (p : Procedure) (index : Nat) (t : Progress) :
    Except TranslationError Progress :=
  if startsBlock code p index then
    if t.height = 0 then .ok { t with filled := false } else .error (.liveOperands index)
  else .ok t

/-- Translate an instruction as far as it can fail: the operands it takes have to be there, and
its targets have to start blocks. -/
def translateInstruction (code : Code) (p : Procedure) (index : Nat) (t : Progress)
    (inst : AnnotatedInstruction) : Except TranslationError Progress :=
  if inst.op = .enter then .error (.nestedEnter index)
  else if t.height < inst.op.pops then .error .underflow
  else do
    requireTargets code p index inst
    return {
      height := t.height - inst.op.pops + inst.op.pushes
      filled := t.filled || inst.op.endsBlock }

/-- Translate instructions of a procedure, the first of which stands at `index`. -/
def translateFrom (code : Code) (p : Procedure) (index : Nat) (t : Progress) :
    List AnnotatedInstruction → Except TranslationError Progress
  | [] => .ok t
  | inst :: rest => do
    let t ← openBlock code p index t
    let t ← translateInstruction code p index t inst
    translateFrom code p (index + 1) t rest

/-- Translate a procedure from behind its `enter` to its end. -/
def translate (code : Code) (p : Procedure) : Except TranslationError Unit := do
  let t ← translateFrom code p (p.start + 1) {} (body code p)
  if t.filled then return () else throw .openEnd

/-- Why a procedure cannot be translated, if it cannot. -/
def refusal? (code : Code) (p : Procedure) : Option TranslationError :=
  match translate code p with
  | .ok _ => none
  | .error e => some e

/-- The first procedure that cannot be compiled, and why it cannot. -/
def firstRefused? (m : Module) : Option (Procedure × TranslationError) :=
  m.procedures.toList.findSome? fun p => (refusal? m.code p).map fun e => (p, e)

end Native

end SandboxVm
