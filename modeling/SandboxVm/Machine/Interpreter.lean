import SandboxVm.Arithmetic
import SandboxVm.Machine.Engine

/-!
Interpretation of verified code. All frames share one operand stack, and return
indices are kept on a stack of their own.
-/

namespace SandboxVm

/-- A procedure being interpreted. Its return index is kept out of reach of the
module; the copy in the arena is never read. -/
structure Frame where
  /-- Where the caller goes on; nothing for the entry procedure. -/
  returnTo : Option Nat
  procedure : Procedure

/-- The state of interpreted code: one call into an instance. -/
structure Activation where
  pc : Nat
  ps : Word
  /-- The number of operand slots in use. -/
  sp : Nat
  /-- The procedures in progress, innermost first. -/
  frames : List Frame

namespace Interpreter

/-- The store after an instruction, and what the code does next. -/
abbrev Outcome := Store × Move Activation

/-- Go on with the next instruction. -/
def advance (a : Activation) : Move Activation :=
  .proceed { a with pc := a.pc + 1 }

/-- Go on at an instruction index, which is never negative in verified code. -/
def goTo (a : Activation) (target : Word) : Move Activation :=
  if target < 0 then .crash else .proceed { a with pc := target.toInt.toNat }

/-- Push an operand and go on with the next instruction. -/
def push (s : Store) (a : Activation) (value : Word) : Outcome :=
  if a.sp < s.operands.size then
    (s.setOperand a.sp value, .proceed { a with pc := a.pc + 1, sp := a.sp + 1 })
  else (s, .crash)

/-- Take the top operand and go on with it. -/
@[inline] def withTop (s : Store) (a : Activation) (k : Word → Outcome) : Outcome :=
  match a.sp with
  | 0 => (s, .crash)
  | sp + 1 =>
    match s.operand? sp with
    | some top => k top
    | none => (s, .crash)

/-- Take the two top operands, the older one first, and go on with them. -/
@[inline] def withTopTwo (s : Store) (a : Activation) (k : Word → Word → Outcome) : Outcome :=
  match a.sp with
  | sp + 2 =>
    match s.operand? sp, s.operand? (sp + 1) with
    | some x, some y => k x y
    | _, _ => (s, .crash)
  | _ => (s, .crash)

/-- Enter the procedure at an instruction index. -/
def enterProcedure (p : Program) (s : Store) (a : Activation) (target : Nat)
    (returnTo : Option Nat) : Outcome :=
  match p.image.procedureAt? target with
  | none => (s, .trap a .badCallTarget)
  | some procedure =>
    match s.enterCall? p target with
    | none => (s, .trap a .callStackExhausted)
    | some s => (s, .proceed { a with pc := target, frames := ⟨returnTo, procedure⟩ :: a.frames })

/-- Call a procedure, or for a negative target a host service. -/
def call (p : Program) (s : Store) (a : Activation) (target : Word) : Outcome :=
  let returnTo := a.pc + 1
  let s := s.write .four a.ps (Int32.ofNat returnTo)
  if target < 0 then
    let id := (-1 - target).toUInt32
    let s := s.write .four (a.ps + 4) id.toInt32
    -- The service may call the module again, below this frame and above these operands.
    ({ s with programStack := a.ps - 4, operandTop := a.sp }, .syscall a id a.ps)
  else enterProcedure p s { a with sp := a.sp - 1 } target.toInt.toNat (some returnTo)

/-- Return from the current procedure. -/
def leave (s : Store) (a : Activation) (frameSize : Word) : Outcome :=
  let s := s.leaveCall
  match a.frames with
  | { returnTo := some pc, .. } :: frames =>
    (s, .proceed { a with pc, frames, ps := a.ps + frameSize })
  | _ =>
    match a.sp with
    | 0 => (s, .crash)
    | sp + 1 =>
      match s.operand? sp with
      | some value => (s, .finish value)
      | none => (s, .crash)

/-- Execute an instruction. The code breaks down if it reaches outside the operand stack. -/
def execute (p : Program) (s : Store) (a : Activation) (inst : AnnotatedInstruction) : Outcome :=
  match inst.op with
  | .undef => (s, .trap a .undefinedInstruction)
  | .ignore => (s, advance a)
  | .breakpoint => ({ s with breakpoints := s.breakpoints + 1 }, advance a)
  | .enter =>
    let ps := a.ps - inst.operand
    if ps < p.stackBottom then (s, .trap a .stackOverflow)
    else (s, .proceed { a with ps, pc := a.pc + 1 })
  | .leave => leave s a inst.operand
  | .call => withTop s a fun target => call p s a target
  | .push => push s a 0
  | .pop => withTop s a fun _ => (s, .proceed { a with pc := a.pc + 1, sp := a.sp - 1 })
  | .const => push s a inst.operand
  | .localAddress => push s a (a.ps + inst.operand)
  | .jump => withTop s a fun target =>
    let a := { a with sp := a.sp - 1 }
    if inst.computed then
      match a.frames with
      | frame :: _ =>
        if p.image.isJumpTarget frame.procedure target then (s, goTo a target)
        else (s, .trap a .badJumpTarget)
      | [] => (s, .trap a .badJumpTarget)
    else (s, goTo a target)
  | .branch condition => withTopTwo s a fun x y =>
    let a := { a with sp := a.sp - 2 }
    if condition.holds x y then (s, goTo a inst.operand) else (s, advance a)
  | .load width => withTop s a fun addr =>
    (s.setOperand (a.sp - 1) (s.arena.load width addr), advance a)
  | .store width => withTopTwo s a fun addr value =>
    (s.write width addr value, .proceed { a with pc := a.pc + 1, sp := a.sp - 2 })
  | .arg => withTop s a fun value =>
    (s.write .four (a.ps + inst.operand) value, .proceed { a with pc := a.pc + 1, sp := a.sp - 1 })
  | .blockCopy => withTopTwo s a fun dest src =>
    ({ s with arena := s.arena.blockCopy dest src inst.operand },
      .proceed { a with pc := a.pc + 1, sp := a.sp - 2 })
  | .unary op => withTop s a fun x => (s.setOperand (a.sp - 1) (op.apply x), advance a)
  | .binary op => withTopTwo s a fun x y =>
    (s.setOperand (a.sp - 2) (op.apply x y), .proceed { a with pc := a.pc + 1, sp := a.sp - 1 })
  | .division op => withTopTwo s a fun x y =>
    match op.apply? x y with
    | some value =>
      (s.setOperand (a.sp - 2) value, .proceed { a with pc := a.pc + 1, sp := a.sp - 1 })
    | none => (s, .trap a .integerDivisionByZero)

/-- Log and execute the next instruction. -/
def step (p : Program) (s : Store) (a : Activation) : Outcome :=
  match p.image.code[a.pc]? with
  | none => (s, .crash)
  | some inst =>
    let s := s.note .trace fun _ =>
      Text.padLeft 6 (toString a.pc) ++ " " ++ Text.padLeft 4 (toString a.sp) ++ ": " ++ inst.text
    execute p s a inst

/-- Begin a call: enter the first procedure. -/
def start (p : Program) (s : Store) (frame : Word) : Outcome :=
  enterProcedure p s { pc := 0, ps := frame, sp := s.operandTop, frames := [] } 0 none

/-- The result of a host service takes the place of the call target. -/
def resume (s : Store) (a : Activation) (value : Word) : Store × Activation :=
  (s.setOperand (a.sp - 1) value, { a with pc := a.pc + 1 })

/-- A trap is logged and located at the instruction that raised it. -/
def trapped (p : Program) (s : Store) (a : Activation) (trap : Trap) : Store × Failure :=
  let s := s.note .debug fun _ =>
    p.image.name ++ ": " ++ trap.message ++ " at instruction " ++ toString a.pc
  (s, (Failure.ofTrap trap).addContext (.site (s.site p (some a.pc))))

/-- A failure of a host service is located at the call, unless a call inside
the service has located it already. -/
def rejected (p : Program) (s : Store) (a : Activation) (failure : Failure) : Store × Failure :=
  if failure.isLocated then (s, failure)
  else (s, failure.addContext (.site (s.site p (some a.pc))))

end Interpreter

/-- Interpreted code, which masks the addresses of the host. -/
instance interpreter : Engine Activation where
  access := .masked
  start := Interpreter.start
  step := Interpreter.step
  resume := Interpreter.resume
  trapped := Interpreter.trapped
  rejected := Interpreter.rejected

end SandboxVm
