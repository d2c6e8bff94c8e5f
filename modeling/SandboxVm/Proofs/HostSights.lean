import SandboxVm.Proofs.Observation

/-!
What host services are shown in a run: the arguments they are called with, the answers
to what they ask for, and the results of the calls they make.
-/

namespace SandboxVm.Proofs.HostSights

open SandboxVm.Proofs.Observation

variable {δ α : Type}

/-- Something that a host service is shown. -/
inductive Sight (δ : Type) where
  | args (id : UInt32) (args : List Word)
  | data (data : δ)
  | arenaSize (size : Nat)
  | bytes (result : Except AccessError ByteArray)
  | written (result : Except AccessError Unit)
  | moduleName (name : String)
  | trace (trace : CallTrace)
  /-- The result of a call that the service made. -/
  | returned (result : Except Failure Word)

def resultOf? : Transition δ α → Option (Except Failure Word)
  | .done _ _ result => some result
  | _ => none

section

variable [Engine α] (p : Program) (syscalls : Syscalls δ)

/-- What a service is shown at once when it asks for something. -/
def answer? (s : State δ α) : Service δ Word → Option (Sight δ)
  | .getData _ | .modifyData _ _ => some (.data s.data)
  | .arenaSize _ => some (.arenaSize s.store.arena.size)
  | .read addr len _ => some (.bytes (s.store.arena.hostRead (Engine.access α) addr len))
  | .write addr bytes _ => some (.written (s.store.arena.hostWrite (Engine.access α) addr bytes).1)
  | .readCString addr _ => some (.bytes (s.store.arena.hostCString (Engine.access α) addr))
  | .moduleName _ => some (.moduleName p.image.name)
  | .callTrace _ => some (.trace s.store.trace)
  | .reenter args _ =>
    (resultOf? (Machine.call (α := α) p syscalls s.store s.data [] args)).map .returned
  | .result _ | .fail _ | .crash => none

/-- The result that the innermost call has with the next step, for the service that made it. -/
def outcome? (s : State δ α) : Option (Sight δ) :=
  if s.outer.isEmpty then none
  else (resultOf? (Machine.step p syscalls { s with outer := [] })).map .returned

/-- What a service is shown when the next step asks for it. -/
def asked? (s : State δ α) : Option (Sight δ) :=
  (dispatch? p syscalls s).map fun d => .args d.id d.args

/-- What host services are shown in the next step. -/
def sights (s : State δ α) : List (Sight δ) :=
  (match s.control with
    | .running _ => asked? p syscalls s
    | .serving _ service => answer? p syscalls s service).toList ++
  (outcome? p syscalls s).toList

/-- What host services are shown in at most `fuel` steps, in order. -/
def sightsIn : (fuel : Nat) → Transition δ α → List (Sight δ)
  | 0, _ => []
  | fuel + 1, .next s => sights p syscalls s ++ sightsIn fuel (Machine.step p syscalls s)
  | _ + 1, _ => []

end

/-- What host services are shown in a call of an instance, in at most `fuel` steps. -/
def shown (i : Instance δ) (fuel : Nat) (args : List Word) : List (Sight δ) :=
  if i.compiled then sightsIn i.program i.syscalls fuel (firstOf Native.Activation i args)
  else sightsIn i.program i.syscalls fuel (firstOf Activation i args)

end SandboxVm.Proofs.HostSights
