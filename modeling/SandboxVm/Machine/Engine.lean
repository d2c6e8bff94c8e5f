import SandboxVm.Machine.Store

/-!
The interface between the machine, which knows about calls, host services and
failures, and a way of executing instructions.
-/

namespace SandboxVm

/-- What running code does next. `α` is the state of the running code. -/
inductive Move (α : Type) where
  | proceed (a : α)
  /-- Wait for the host service with an id, whose arguments are in the frame at an address. -/
  | syscall (a : α) (id : UInt32) (frame : Word)
  | finish (value : Word)
  | trap (a : α) (trap : Trap)
  /-- The machine itself breaks down. -/
  | crash

/-- A way to run module code. `α` is the state of the code of one call into an
instance, from its entry to its return. -/
class Engine (α : Type) where
  access : HostAccess
  start : Program → Store → (frame : Word) → Store × Move α
  step : Program → Store → α → Store × Move α
  resume : Store → α → Word → Store × α
  /-- Give up a call because of a trap. -/
  trapped : Program → Store → α → Trap → Store × Failure
  /-- Give up a call because a host service failed. -/
  rejected : Program → Store → α → Failure → Store × Failure

end SandboxVm
