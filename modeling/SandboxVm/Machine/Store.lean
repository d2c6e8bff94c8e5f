import SandboxVm.Failure
import SandboxVm.Journal

namespace SandboxVm

/-- What stays the same while an instance runs. -/
structure Program where
  image : Module
  stackBottom : Word
  maxCallDepth : Nat

/-- What changes while an instance runs, host data apart. -/
structure Store where
  arena : Arena
  /-- The address below which the next call builds its frame. -/
  programStack : Word
  /-- The number of calls into the instance in progress. -/
  callLevel : Nat := 0
  trace : CallTrace
  /-- The operand stack, shared by all interpreted frames. -/
  operands : Array Word
  /-- The number of operand slots taken by suspended code. -/
  operandTop : Nat := 0
  breakpoints : Nat := 0
  journal : Journal := {}

namespace Store

/-- Record a message in the journal, which is only worded if it is kept. -/
@[inline] def note (s : Store) (level : LogLevel) (message : Unit → String) : Store :=
  if s.journal.keeps level then { s with journal := s.journal.add ⟨level, message ()⟩ } else s

/-- Store to the arena. -/
def write (s : Store) (width : Width) (addr value : Word) : Store :=
  { s with arena := s.arena.store width addr value }

/-- The operand in a slot, if there is such a slot. -/
def operand? (s : Store) (slot : Nat) : Option Word := s.operands[slot]?

/-- Replace the operand in a slot. -/
def setOperand (s : Store) (slot : Nat) (value : Word) : Store :=
  { s with operands := s.operands.setIfInBounds slot value }

/-- Record a call to a procedure, unless there are too many in progress. -/
def enterCall? (s : Store) (p : Program) (target : Nat) : Option Store :=
  if p.maxCallDepth ≤ s.trace.depth then none
  else some { s with trace := s.trace.push target }

/-- Record the return from the innermost procedure. -/
def leaveCall (s : Store) : Store := { s with trace := s.trace.pop }

/-- Record the return from `n` procedures, one by one. -/
def leaveCalls (s : Store) : (n : Nat) → Store
  | 0 => s
  | n + 1 => s.leaveCall.leaveCalls n

/-- The site of a failure at this moment. -/
def site (s : Store) (p : Program) (pc : Option Nat) : TrapSite :=
  { moduleName := p.image.name, pc, frames := s.trace.entries.toList }

end Store

end SandboxVm
