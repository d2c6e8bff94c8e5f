import SandboxVm.Instance

namespace SandboxVm.Proofs.Observation

variable {δ α : Type}

def contextWithoutPc : Context → Context
  | .site s => .site { s with pc := none }
  | .note text => .note text

def withoutPc (f : Failure) : Failure :=
  { f with contexts := f.contexts.map contextWithoutPc }

theorem withoutPc_addContext (f : Failure) (c : Context) :
    withoutPc (f.addContext c) = (withoutPc f).addContext (contextWithoutPc c) := rfl

theorem isLocated_withoutPc (f : Failure) : (withoutPc f).isLocated = f.isLocated := by
  obtain ⟨contexts, cause⟩ := f
  simp only [withoutPc, Failure.isLocated, Failure.site?]
  induction contexts with
  | nil => rfl
  | cons c contexts ih =>
      cases c with
      | site s => rfl
      | note text => exact ih

def resultWithoutPc : Except Failure Word → Except Failure Word
  | .ok value => .ok value
  | .error failure => .error (withoutPc failure)

def withoutPast (t : CallTrace) : CallTrace := { t with previousDepth := 0 }

/-- The services ask for the same things and come to the same, as long as the
failures and records of calls that they are told differ only in what is not seen. -/
inductive Twin : Service δ Word → Service δ Word → Prop where
  | result (value : Word) : Twin (.result value) (.result value)
  | fail {f f' : Failure} (h : withoutPc f = withoutPc f') : Twin (.fail f) (.fail f')
  | crash : Twin .crash .crash
  | getData {next next' : δ → Service δ Word} (h : ∀ d, Twin (next d) (next' d)) :
      Twin (.getData next) (.getData next')
  | modifyData (f : δ → δ) {next next' : Service δ Word} (h : Twin next next') :
      Twin (.modifyData f next) (.modifyData f next')
  | arenaSize {next next' : Nat → Service δ Word} (h : ∀ n, Twin (next n) (next' n)) :
      Twin (.arenaSize next) (.arenaSize next')
  | read (addr : Word) (len : Nat) {next next' : Except AccessError ByteArray → Service δ Word}
      (h : ∀ r, Twin (next r) (next' r)) : Twin (.read addr len next) (.read addr len next')
  | write (addr : Word) (bytes : ByteArray) {next next' : Except AccessError Unit → Service δ Word}
      (h : ∀ r, Twin (next r) (next' r)) : Twin (.write addr bytes next) (.write addr bytes next')
  | readCString (addr : Word) {next next' : Except AccessError ByteArray → Service δ Word}
      (h : ∀ r, Twin (next r) (next' r)) :
      Twin (.readCString addr next) (.readCString addr next')
  | moduleName {next next' : String → Service δ Word} (h : ∀ n, Twin (next n) (next' n)) :
      Twin (.moduleName next) (.moduleName next')
  | callTrace {next next' : CallTrace → Service δ Word}
      (h : ∀ t t', withoutPast t = withoutPast t' → Twin (next t) (next' t')) :
      Twin (.callTrace next) (.callTrace next')
  | reenter (args : List Word) {next next' : Except Failure Word → Service δ Word}
      (h : ∀ r r', resultWithoutPc r = resultWithoutPc r' → Twin (next r) (next' r')) :
      Twin (.reenter args next) (.reenter args next')

def Discreet (syscalls : Syscalls δ) : Prop :=
  ∀ id syscall, syscalls.find? id = some syscall →
    ∀ args, Twin (syscall.service args) (syscall.service args)

/-- A request of a service for memory starts inside the arena. -/
def InArena (arena : Arena) : Service δ Word → Prop
  | .read addr _ _ | .write addr _ _ | .readCString addr _ => addr.toUInt32.toNat < arena.size
  | _ => True

structure Dispatch where
  id : UInt32
  args : List Word
  /-- The number of procedures in progress. -/
  depth : Nat
  /-- The number of calls into the instance in progress. -/
  level : Nat
  deriving DecidableEq

/-- The host service that a move asks for. -/
def dispatchOf? (syscalls : Syscalls δ) : Store × Move α → Option Dispatch
  | (store, .syscall _ id frame) =>
    (syscalls.find? id).map fun syscall =>
      ⟨id, Machine.syscallArgs store.arena frame syscall.arity, store.trace.depth, store.callLevel⟩
  | _ => none

/-- The host service that the next step asks for. -/
def dispatch? [Engine α] (p : Program) (syscalls : Syscalls δ) (s : State δ α) : Option Dispatch :=
  match s.control with
  | .serving _ _ => none
  | .running a => dispatchOf? syscalls (Engine.step p s.store a)

def dispatches [Engine α] (p : Program) (syscalls : Syscalls δ) :
    (fuel : Nat) → Transition δ α → List Dispatch
  | 0, _ => []
  | fuel + 1, .next s =>
    (dispatch? p syscalls s).toList ++ dispatches p syscalls fuel (Machine.step p syscalls s)
  | _ + 1, _ => []

/-- The call of an instance with arguments, as its engine begins it. -/
def firstOf (α : Type) [Engine α] (i : Instance δ) (args : List Word) : Transition δ α :=
  Machine.call i.program i.syscalls i.store i.data [] args

/-- The host services that a call of an instance asks for in at most `fuel` steps. -/
def dispatched (i : Instance δ) (fuel : Nat) (args : List Word) : List Dispatch :=
  if i.compiled then dispatches i.program i.syscalls fuel (firstOf Native.Activation i args)
  else dispatches i.program i.syscalls fuel (firstOf Activation i args)

/-- What is seen of a call that is over. -/
structure Report (δ : Type) where
  result : CallResult
  arena : Arena
  data : δ
  dispatched : List Dispatch

def callResultWithoutPc : CallResult → CallResult
  | .failed failure => .failed (withoutPc failure)
  | result => result

def report (i : Instance δ) (fuel : Nat) (args : List Word) : Report δ where
  result := callResultWithoutPc (i.call fuel args).2
  arena := (i.call fuel args).1.store.arena
  data := (i.call fuel args).1.data
  dispatched := dispatched i fuel args

/-- The host makes the calls one after another: `reports` is what it sees of those
that are over, and `pending` the services that the call in progress has asked for. -/
inductive Session : Instance δ → (calls : List (List Word)) → (reports : List (Report δ)) →
    (pending : List Dispatch) → Prop where
  | nil (i : Instance δ) : Session i [] [] []
  | pending (i : Instance δ) (args : List Word) (calls : List (List Word)) (fuel : Nat) :
      Session i (args :: calls) [] (dispatched i fuel args)
  | crashed {i : Instance δ} {args : List Word} (calls : List (List Word)) {fuel : Nat}
      (h : (i.call fuel args).2 = .crashed) :
      Session i (args :: calls) [report i fuel args] []
  | call {i : Instance δ} {args : List Word} {calls : List (List Word)} {fuel : Nat}
      {reports : List (Report δ)} {pending : List Dispatch}
      (hcrashed : (i.call fuel args).2 ≠ .crashed) (hover : (i.call fuel args).2 ≠ .unfinished)
      (h : Session (i.call fuel args).1 calls reports pending) :
      Session i (args :: calls) (report i fuel args :: reports) pending

/-- While an interpreted instance carries out the calls, its host services reach
memory inside the arena only. -/
def StaysInArena (i : Instance δ) : List (List Word) → Prop
  | [] => True
  | args :: calls =>
    (∀ fuel s a service,
      Machine.run i.program i.syscalls fuel (firstOf Activation i args) = .next s →
      s.control = .serving a service → InArena s.store.arena service) ∧
    ∀ fuel, (i.call fuel args).2 ≠ .crashed → (i.call fuel args).2 ≠ .unfinished →
      StaysInArena (i.call fuel args).1 calls

end SandboxVm.Proofs.Observation
