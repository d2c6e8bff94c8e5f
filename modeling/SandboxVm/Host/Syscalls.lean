import SandboxVm.Host.Service

namespace SandboxVm

/-- The most arguments of a host service. -/
def maxSyscallArgs : Nat := 16

/-- A host service that modules can call. -/
structure Syscall (δ : Type) where
  id : UInt32
  name : String
  arity : Nat
  service : List Word → Service δ Word

/-- Why a syscall is not defined. -/
inductive DefineError where
  | tooManyArgs (name : String) (arity : Nat)
  | duplicate (id : UInt32) (existing : String)

def DefineError.message : DefineError → String
  | tooManyArgs name arity =>
    "syscall `" ++ name ++ "` takes " ++ toString arity ++ " arguments, at most "
      ++ toString maxSyscallArgs ++ " are supported"
  | duplicate id existing =>
    "syscall " ++ toString id.toNat ++ " is already defined as `" ++ existing ++ "`"

/-- The syscalls of an instance, in ascending order of their ids. -/
structure Syscalls (δ : Type) where
  entries : List (Syscall δ) := []

namespace Syscalls

variable {δ : Type}

/-- The syscall with an id. -/
def find? (t : Syscalls δ) (id : UInt32) : Option (Syscall δ) :=
  t.entries.find? fun s => s.id == id

/-- Insert a syscall in front of the first one with a greater id. -/
def insertOrdered (s : Syscall δ) : List (Syscall δ) → List (Syscall δ)
  | [] => [s]
  | t :: rest => if s.id < t.id then s :: t :: rest else t :: insertOrdered s rest

/-- Define a syscall, unless it takes too many arguments or its id is taken. -/
def define (t : Syscalls δ) (s : Syscall δ) : Except DefineError (Syscalls δ) :=
  if maxSyscallArgs < s.arity then .error (.tooManyArgs s.name s.arity)
  else
    match t.find? s.id with
    | some existing => .error (.duplicate s.id existing.name)
    | none => .ok ⟨insertOrdered s t.entries⟩

/-- Define syscalls one after another, up to the first one that is refused. -/
def defineAll (t : Syscalls δ) : List (Syscall δ) → Except DefineError (Syscalls δ)
  | [] => .ok t
  | s :: rest => do (← t.define s).defineAll rest

/-- The table as text: each id with the name and arity of its syscall. -/
def summary (t : Syscalls δ) : String :=
  "\x7b" ++ ", ".intercalate (t.entries.map fun s =>
    toString s.id.toNat ++ ": " ++ s.name ++ "/" ++ toString s.arity) ++ "\x7d"

end Syscalls

end SandboxVm
