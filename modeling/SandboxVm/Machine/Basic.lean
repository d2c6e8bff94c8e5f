import SandboxVm.Host.Syscalls
import SandboxVm.Machine.Engine

/-!
Calls into an instance as a step machine. A state has the innermost call, which
either executes code or waits for a host service, and around it the calls that
wait for a service of theirs to go on. What a call has to restore is saved when
it starts and put back when it is over, whether it succeeds or not.
-/

namespace SandboxVm

/-- The most arguments of a call into an instance. -/
def maxCallArgs : Nat := 13

/-- Size in bytes of the frame built for a call into an instance: a return
marker, a syscall id and the arguments. -/
def entryFrameSize : Nat := 8 + 4 * maxCallArgs

/-- What a call into an instance restores when it is over. -/
structure Bracket where
  programStack : Word
  traceDepth : Nat
  operandTop : Nat

/-- What a call that starts now has to restore. -/
def Store.bracket (s : Store) : Bracket :=
  { programStack := s.programStack, traceDepth := s.trace.depth, operandTop := s.operandTop }

/-- Put back what a call has saved. -/
def Store.conclude (s : Store) (b : Bracket) : Store :=
  { s with
    callLevel := s.callLevel - 1
    operandTop := b.operandTop
    trace := s.trace.truncate b.traceDepth
    programStack := b.programStack }

/-- Write words to ascending addresses. -/
def Store.writeWords (s : Store) (addr : Word) : List Word → Store
  | [] => s
  | w :: ws => (s.write .four addr w).writeWords (addr + 4) ws

/-- The words of an entry frame. Missing arguments are zero. -/
def entryFrame (args : List Word) : List Word :=
  -1 :: 0 :: (args ++ List.replicate (maxCallArgs - args.length) 0)

/-- A call waiting for a call that a host service made in its name. -/
structure Suspended (δ α : Type) where
  activation : α
  bracket : Bracket
  /-- How the host service goes on. -/
  next : Except Failure Word → Service δ Word

/-- What the innermost call into an instance is doing. -/
inductive Control (δ α : Type) where
  /-- It executes module code. -/
  | running (a : α)
  /-- It waits for a host service. -/
  | serving (a : α) (service : Service δ Word)

/-- The state of a machine between two steps. -/
structure State (δ α : Type) where
  store : Store
  data : δ
  control : Control δ α
  bracket : Bracket
  /-- The calls around the innermost one. -/
  outer : List (Suspended δ α)

/-- What a step leads to. -/
inductive Transition (δ α : Type) where
  | next (s : State δ α)
  | done (store : Store) (data : δ) (result : Except Failure Word)
  | crashed (store : Store) (data : δ)

namespace Machine

variable {δ α : Type}

/-- Hand the result of a call to whoever made it. -/
def deliver (store : Store) (data : δ) (result : Except Failure Word) :
    List (Suspended δ α) → Transition δ α
  | [] => .done store data result
  | caller :: outer =>
    .next {
      store, data, outer
      control := .serving caller.activation (caller.next result)
      bracket := caller.bracket }

/-- End the innermost call with a result. -/
def conclude (store : Store) (data : δ) (bracket : Bracket) (outer : List (Suspended δ α))
    (result : Except Failure Word) : Transition δ α :=
  deliver (store.conclude bracket) data result outer

variable [Engine α]

/-- The arguments of a syscall in the frame at an address. -/
def syscallArgs (arena : Arena) (frame : Word) (arity : Nat) : List Word :=
  (List.range arity).map fun i => arena.load .four (frame + 8 + 4 * Int32.ofNat i)

/-- Carry out a move of the innermost call. -/
@[specialize] def perform (p : Program) (syscalls : Syscalls δ) (data : δ) (bracket : Bracket)
    (outer : List (Suspended δ α)) (store : Store) : Move α → Transition δ α
  | .proceed a => .next { store, data, control := .running a, bracket, outer }
  | .finish value => conclude store data bracket outer (.ok value)
  | .crash => .crashed store data
  | .trap a t =>
    let (store, failure) := Engine.trapped p store a t
    conclude store data bracket outer (.error failure)
  | .syscall a id frame =>
    match syscalls.find? id with
    | none =>
      let (store, failure) := Engine.rejected p store a (Failure.ofTrap (.unknownSyscall id))
      conclude store data bracket outer (.error failure)
    | some syscall =>
      let args := syscallArgs store.arena frame syscall.arity
      let store := store.note .trace fun _ =>
        "syscall " ++ toString id.toNat ++ " `" ++ syscall.name ++ "` ["
          ++ ", ".intercalate (args.map fun w => toString w.toInt) ++ "]"
      .next { store, data, control := .serving a (syscall.service args), bracket, outer }

/-- Call an instance. Too many arguments are refused without any effect; a call
whose entry frame does not fit on the program stack fails at once. -/
@[specialize] def call (p : Program) (syscalls : Syscalls δ) (store : Store) (data : δ)
    (outer : List (Suspended δ α)) (args : List Word) : Transition δ α :=
  if maxCallArgs < args.length then
    deliver store data (.error (Failure.ofMessage (toString args.length ++ " arguments passed to `"
      ++ p.image.name ++ "`, at most " ++ toString maxCallArgs ++ " are supported"))) outer
  else
    -- Saved before anything changes, so that a call that fails restores it too.
    let bracket := store.bracket
    let store := { store with callLevel := store.callLevel + 1 }
    let frame := store.programStack - Int32.ofNat entryFrameSize
    if frame < p.stackBottom then
      let failure := (Failure.ofTrap .stackOverflow).addContext (.site (store.site p none))
      conclude store data bracket outer (.error failure)
    else
      let store := store.writeWords frame (entryFrame args)
      let (store, move) := Engine.start p store frame
      perform p syscalls data bracket outer store move

/-- Carry out the next request of a host service. A service that calls the instance waits in
front of the other waiting calls. -/
@[specialize] def serve (p : Program) (syscalls : Syscalls δ) (store : Store) (data : δ)
    (bracket : Bracket) (outer : List (Suspended δ α)) (a : α) : Service δ Word → Transition δ α
  | .result value =>
    let (store, a) := Engine.resume store a value
    .next { store, data, control := .running a, bracket, outer }
  | .fail failure =>
    let (store, failure) := Engine.rejected p store a failure
    conclude store data bracket outer (.error failure)
  | .crash => .crashed store data
  | .getData next => .next { store, data, control := .serving a (next data), bracket, outer }
  | .modifyData f next =>
    .next { store, data := f data, control := .serving a next, bracket, outer }
  | .arenaSize next =>
    .next { store, data, control := .serving a (next store.arena.size), bracket, outer }
  | .read addr len next =>
    let result := store.arena.hostRead (Engine.access α) addr len
    .next { store, data, control := .serving a (next result), bracket, outer }
  | .write addr bytes next =>
    let (result, arena) := store.arena.hostWrite (Engine.access α) addr bytes
    .next {
      store := { store with arena }, data, control := .serving a (next result), bracket, outer }
  | .readCString addr next =>
    let result := store.arena.hostCString (Engine.access α) addr
    .next { store, data, control := .serving a (next result), bracket, outer }
  | .moduleName next =>
    .next { store, data, control := .serving a (next p.image.name), bracket, outer }
  | .callTrace next =>
    .next { store, data, control := .serving a (next store.trace), bracket, outer }
  | .reenter args next =>
    call p syscalls store data (⟨a, bracket, next⟩ :: outer) args

/-- Take a step of the innermost call: execute an instruction, or serve a request. -/
@[specialize] def step (p : Program) (syscalls : Syscalls δ) (s : State δ α) : Transition δ α :=
  match s with
  | { store, data, control := .running a, bracket, outer } =>
    let (store, move) := Engine.step p store a
    perform p syscalls data bracket outer store move
  | { store, data, control := .serving a service, bracket, outer } =>
    serve p syscalls store data bracket outer a service

/-- Take steps until the outermost call is over, at most `fuel` of them. -/
@[specialize] def run (p : Program) (syscalls : Syscalls δ) :
    (fuel : Nat) → Transition δ α → Transition δ α
  | 0, t => t
  | fuel + 1, .next s => run p syscalls fuel (step p syscalls s)
  | _ + 1, t => t

end Machine

end SandboxVm
