import SandboxVm.Arena
import SandboxVm.CallTrace
import SandboxVm.Text.Numeral

/-!
Failed calls: a cause at the root, and around it the contexts that were added
on the way out, one of which says where in the module the call failed.
-/

namespace SandboxVm

/-- Faults of running module code. -/
inductive Trap where
  | undefinedInstruction
  | stackOverflow
  | callStackExhausted
  | badCallTarget
  | badJumpTarget
  | integerDivisionByZero
  | unknownSyscall (id : UInt32)
  deriving DecidableEq

def Trap.message : Trap → String
  | undefinedInstruction => "undefined instruction executed"
  | stackOverflow => "program stack overflow"
  | callStackExhausted => "call stack exhausted"
  | badCallTarget => "bad call target"
  | badJumpTarget => "bad jump target"
  | integerDivisionByZero => "integer divide by zero"
  | unknownSyscall id => "unknown syscall " ++ toString id.toNat

/-- Where a call failed. -/
structure TrapSite where
  moduleName : String
  /-- The instruction being executed, when known. -/
  pc : Option Nat
  /-- The recorded procedures on the call stack, outermost first. -/
  frames : List Nat
  deriving DecidableEq

namespace TrapSite

/-- The lines of a call stack, innermost procedure first. -/
def frameLines (i : Nat) : List Nat → String
  | [] => ""
  | frame :: rest =>
    "\n  " ++ Text.padLeft 3 (toString i) ++ ": procedure @" ++ toString frame
      ++ frameLines (i + 1) rest

/-- The message of a site: the module, the instruction and the call stack. -/
def message (s : TrapSite) : String :=
  "module `" ++ s.moduleName ++ "`"
    ++ (match s.pc with
        | some pc => " trapped at instruction " ++ toString pc
        | none => "")
    ++ (if s.frames.isEmpty then "" else "\ncall stack:" ++ frameLines 0 s.frames.reverse)

end TrapSite

/-- The root of a failed call. -/
inductive Cause where
  | trap (trap : Trap)
  | access (error : AccessError)
  | host (message : String)
  deriving DecidableEq

def Cause.message : Cause → String
  | trap t => t.message
  | access e => e.message
  | host m => m

/-- What was added to a failure on its way out. -/
inductive Context where
  | site (site : TrapSite)
  | note (text : String)
  deriving DecidableEq

def Context.message : Context → String
  | site s => s.message
  | note t => t

/-- A failed call: its cause and the contexts around it, outermost first. -/
structure Failure where
  contexts : List Context := []
  cause : Cause
  deriving DecidableEq

namespace Failure

/-- A failure with nothing around its cause. -/
def ofTrap (t : Trap) : Failure := { cause := .trap t }

def ofMessage (m : String) : Failure := { cause := .host m }

def addContext (f : Failure) (c : Context) : Failure := { f with contexts := c :: f.contexts }

/-- The outermost site of a failure. -/
def site? (f : Failure) : Option TrapSite :=
  f.contexts.findSome? fun
    | .site s => some s
    | .note _ => none

/-- Whether the failure has been located. -/
def isLocated (f : Failure) : Bool := f.site?.isSome

/-- The messages of a failure, outermost first. -/
def chain (f : Failure) : List String :=
  f.contexts.map Context.message ++ [f.cause.message]

/-- The outermost message of a failure. -/
def summary (f : Failure) : String :=
  match f.contexts with
  | c :: _ => c.message
  | [] => f.cause.message

end Failure

end SandboxVm
