import SandboxVm.Arithmetic
import SandboxVm.Machine.Engine

/-!
The behaviour of compiled code. Each procedure has operands of its own; a call
that fails returns from its procedures one by one; the host's addresses are not
masked.
-/

namespace SandboxVm

namespace Native

/-- A compiled procedure in progress. Each has operands of its own. -/
structure Frame where
  procedure : Procedure
  pc : Nat
  ps : Word
  /-- The operands, the latest first. -/
  operands : List Word

/-- The state of compiled code: one call into an instance. -/
structure Activation where
  /-- The procedures in progress, innermost first. -/
  frames : List Frame

/-- The store after an instruction, and what the code does next. -/
abbrev Outcome := Store × Move Activation

/-- Enter the procedure at an instruction index, called from a frame at `ps`. -/
def enterProcedure (p : Program) (s : Store) (callers : List Frame) (target : Nat) (ps : Word) :
    Outcome :=
  match p.image.procedureAt? target with
  | none => (s, .trap ⟨callers⟩ .badCallTarget)
  | some procedure =>
    match s.enterCall? p target with
    | none => (s, .trap ⟨callers⟩ .callStackExhausted)
    | some s =>
      let ps := ps - procedure.frameSize
      let a : Activation := ⟨{ procedure, pc := target + 1, ps, operands := [] } :: callers⟩
      if ps < p.stackBottom then (s, .trap a .stackOverflow) else (s, .proceed a)

/-- The quotient or remainder for a divisor other than zero. The one signed quotient out of range
is avoided: the divisor -1 is replaced by 1, and for a quotient the dividend is negated. -/
def divide (op : DivisionOp) (a b : Word) : Word :=
  let divisor := if b == -1 then 1 else b
  match op with
  | .divUnsigned => (a.toUInt32 / b.toUInt32).toInt32
  | .remUnsigned => (a.toUInt32 % b.toUInt32).toInt32
  | .divSigned => if b == -1 then -a else a / divisor
  | .remSigned => a % divisor

/-- Execute an instruction in the innermost frame `f`. -/
def execute (p : Program) (s : Store) (f : Frame) (callers : List Frame)
    (inst : AnnotatedInstruction) : Outcome :=
  let next (s : Store) (operands : List Word) : Outcome :=
    (s, .proceed ⟨{ f with pc := f.pc + 1, operands } :: callers⟩)
  let goTo (target : Nat) (operands : List Word) : Outcome :=
    (s, .proceed ⟨{ f with pc := target, operands } :: callers⟩)
  let trap (t : Trap) : Outcome := (s, .trap ⟨f :: callers⟩ t)
  match inst.op, f.operands with
  | .undef, _ => trap .undefinedInstruction
  | .ignore, operands => next s operands
  | .breakpoint, operands => next s operands
  | .leave, value :: _ =>
    let s := s.leaveCall
    match callers with
    | [] => (s, .finish value)
    | caller :: callers =>
      (s, .proceed ⟨{ caller with operands := value :: caller.operands } :: callers⟩)
  | .call, target :: operands =>
    let caller := { f with pc := f.pc + 1, operands }
    let s := s.write .four f.ps (Int32.ofNat (f.pc + 1))
    if target < 0 then
      let id := (-1 - target).toUInt32
      let s := s.write .four (f.ps + 4) id.toInt32
      ({ s with programStack := f.ps - 4 }, .syscall ⟨caller :: callers⟩ id f.ps)
    else enterProcedure p s (caller :: callers) target.toInt.toNat f.ps
  | .push, operands => next s (0 :: operands)
  | .pop, _ :: operands => next s operands
  | .const, operands => next s (inst.operand :: operands)
  | .localAddress, operands => next s ((f.ps + inst.operand) :: operands)
  | .jump, target :: operands =>
    if inst.computed then
      if p.image.isJumpTarget f.procedure target then goTo target.toInt.toNat operands
      else trap .badJumpTarget
    else goTo inst.operand.toInt.toNat operands
  | .branch condition, y :: x :: operands =>
    if condition.holds x y then goTo inst.operand.toInt.toNat operands else next s operands
  | .load width, addr :: operands => next s (s.arena.load width addr :: operands)
  | .store width, value :: addr :: operands => next (s.write width addr value) operands
  | .arg, value :: operands => next (s.write .four (f.ps + inst.operand) value) operands
  | .blockCopy, src :: dest :: operands =>
    next { s with arena := s.arena.blockCopy dest src inst.operand } operands
  | .unary op, x :: operands => next s (op.apply x :: operands)
  | .binary op, y :: x :: operands => next s (op.apply x y :: operands)
  | .division op, y :: x :: operands =>
    if y == 0 then trap .integerDivisionByZero else next s (divide op x y :: operands)
  | _, _ => (s, .crash)

/-- Execute the next instruction of the innermost procedure. -/
def step (p : Program) (s : Store) (a : Activation) : Outcome :=
  match a.frames with
  | [] => (s, .crash)
  | f :: callers =>
    match p.image.code[f.pc]? with
    | none => (s, .crash)
    | some inst => execute p s f callers inst

/-- Begin a call: enter the first procedure. -/
def start (p : Program) (s : Store) (frame : Word) : Outcome :=
  enterProcedure p s [] 0 frame

/-- The result of a host service becomes the top operand of its caller. -/
def resume (s : Store) (a : Activation) (value : Word) : Store × Activation :=
  match a.frames with
  | [] => (s, a)
  | f :: callers => (s, ⟨{ f with operands := value :: f.operands } :: callers⟩)

/-- Give up a call: the failure is located, unless it is already, by the
procedures in progress, which then return one by one. -/
def rejected (p : Program) (s : Store) (a : Activation) (failure : Failure) : Store × Failure :=
  let site := s.site p none
  let s := s.leaveCalls a.frames.length
  if failure.isLocated then (s, failure)
  else
    (s.note .debug fun _ => p.image.name ++ ": " ++ failure.summary,
      failure.addContext (.site site))

end Native

/-- Compiled code, which checks the addresses of the host. -/
instance compiledCode : Engine Native.Activation where
  access := .checked
  start := Native.start
  step := Native.step
  resume := Native.resume
  trapped p s a trap := Native.rejected p s a (Failure.ofTrap trap)
  rejected := Native.rejected

end SandboxVm
