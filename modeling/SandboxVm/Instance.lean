import SandboxVm.Machine.Basic
import SandboxVm.Machine.Interpreter
import SandboxVm.Machine.Native
import SandboxVm.Machine.Translation
import SandboxVm.Settings

/-!
A running module with its own memory and host data.
-/

namespace SandboxVm

/-- A module being run, with host data of type `δ`. -/
structure Instance (δ : Type) where
  program : Program
  syscalls : Syscalls δ
  compiled : Bool
  store : Store
  data : δ

/-- How a call of an instance by the host ends. -/
inductive CallResult where
  | returned (value : Word)
  | failed (failure : Failure)
  /-- The program broke down; the instance is not to be used again. -/
  | crashed
  /-- The call took more steps than it was given. -/
  | unfinished

namespace Instance

variable {δ : Type}

/-- What the choice between compiled and interpreted code comes to. -/
structure Backend where
  compiled : Bool
  records : List LogRecord

/-- Choose how to run a module. `canCompile` says whether compiled code is
supported at all. -/
def chooseBackend (canCompile : Bool) (settings : Settings) (m : Module) : Backend :=
  match settings.strategy, canCompile with
  | .interpreter, _ | .auto, false => ⟨false, []⟩
  | .native, false =>
    ⟨false, [⟨.warn, "the cranelift strategy was requested but support for it is not compiled in; "
      ++ "interpreting"⟩]⟩
  | .auto, true | .native, true =>
    match Native.firstRefused? m with
    | none =>
      ⟨true, [⟨.trace, m.name ++ ": compiled " ++ toString m.procedures.size ++ " procedures"⟩,
        ⟨.debug, m.name ++ ": compiled to native code"⟩]⟩
    | some (p, e) =>
      ⟨false, [⟨.warn, m.name ++ ": native compilation failed, interpreting: "
        ++ "failed to translate procedure " ++ toString p.start ++ ": " ++ e.message⟩]⟩

/-- Make an instance of a module. If the space for its call trace cannot be
addressed, the program breaks down with what has been logged so far. -/
def create (canCompile : Bool) (settings : Settings) (m : Module) (syscalls : Syscalls δ)
    (data : δ) (journal : Journal) : Except Journal (Instance δ) :=
  let arena := Arena.ofModule m
  let backend := chooseBackend canCompile settings m
  let journal := journal.noteAll (Arena.allocatedRecord m :: backend.records)
  match CallTrace.empty? settings.callTraceCapacity with
  | none => .error journal
  | some trace => .ok {
      program := {
        image := m
        stackBottom := Int32.ofNat arena.size - Int32.ofNat programStackSize
        maxCallDepth := settings.maxCallDepth }
      syscalls
      compiled := backend.compiled
      store := {
        programStack := Int32.ofNat arena.size
        arena
        trace
        operands := Array.replicate ((settings.maxCallDepth + 1) * maxOperandSlots) 0
        journal }
      data }

def name (i : Instance δ) : String := i.program.image.name

/-- Call the entry procedure with the engine of `α`. -/
@[specialize] def callWith (α : Type) [Engine α] (i : Instance δ) (fuel : Nat) (args : List Word) :
    Instance δ × CallResult :=
  let { program, syscalls, compiled, store, data } := i
  let first : Transition δ α := Machine.call program syscalls store data [] args
  match Machine.run program syscalls fuel first with
  | .next s => ({ program, syscalls, compiled, store := s.store, data := s.data }, .unfinished)
  | .crashed store data => ({ program, syscalls, compiled, store, data }, .crashed)
  | .done store data (.ok value) =>
    ({ program, syscalls, compiled, store, data }, .returned value)
  | .done store data (.error failure) =>
    ({ program, syscalls, compiled, store, data }, .failed failure)

/-- Call the entry procedure of an instance, for at most `fuel` steps. -/
def call (i : Instance δ) (fuel : Nat) (args : List Word) : Instance δ × CallResult :=
  if i.compiled then i.callWith Native.Activation fuel args
  else i.callWith Activation fuel args

def summary (i : Instance δ) : String :=
  "Vm \x7b module: " ++ Text.quoted i.name
    ++ ", compiled: " ++ (if i.compiled then "true" else "false")
    ++ ", program_stack: " ++ toString i.store.programStack.toInt
    ++ ", call_level: " ++ toString i.store.callLevel ++ ", .. \x7d"

end Instance

end SandboxVm
