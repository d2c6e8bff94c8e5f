import SandboxVm.Failure

/-!
Host services as trees of requests. A service asks the instance that called it
for one thing at a time, and may call the instance again; the machine answers
each request, so that a service is plain data without effects of its own.
-/

namespace SandboxVm

/-- What a host service does when a module calls it: a finite tree of requests
to the calling instance, whose host data has type `δ`. -/
inductive Service (δ : Type) (α : Type) where
  | result (value : α)
  /-- The service fails, and with it the call it serves. -/
  | fail (failure : Failure)
  /-- The service breaks down, and with it the whole program. -/
  | crash
  | getData (next : δ → Service δ α)
  | modifyData (f : δ → δ) (next : Service δ α)
  | arenaSize (next : Nat → Service δ α)
  | read (addr : Word) (len : Nat) (next : Except AccessError ByteArray → Service δ α)
  | write (addr : Word) (bytes : ByteArray) (next : Except AccessError Unit → Service δ α)
  | readCString (addr : Word) (next : Except AccessError ByteArray → Service δ α)
  | moduleName (next : String → Service δ α)
  | callTrace (next : CallTrace → Service δ α)
  /-- Call the instance again, below the call being served. -/
  | reenter (args : List Word) (next : Except Failure Word → Service δ α)

namespace Service

variable {δ α β : Type}

/-- Go on with the result of a service. -/
def bind (s : Service δ α) (f : α → Service δ β) : Service δ β :=
  match s with
  | result value => f value
  | fail failure => fail failure
  | crash => crash
  | getData next => getData fun d => (next d).bind f
  | modifyData g next => modifyData g (next.bind f)
  | arenaSize next => arenaSize fun n => (next n).bind f
  | read addr len next => read addr len fun r => (next r).bind f
  | write addr bytes next => write addr bytes fun r => (next r).bind f
  | readCString addr next => readCString addr fun r => (next r).bind f
  | moduleName next => moduleName fun n => (next n).bind f
  | callTrace next => callTrace fun t => (next t).bind f
  | reenter args next => reenter args fun r => (next r).bind f

instance : Monad (Service δ) where
  pure := result
  bind := bind

/-- A result, or a failed access as a failure of the service. -/
def ofAccess : Except AccessError α → Service δ α
  | .ok value => result value
  | .error e => fail { cause := .access e }

/-- Read bytes, or fail. -/
def readBytes (addr : Word) (len : Nat) : Service δ ByteArray := read addr len ofAccess

/-- Write bytes, or fail. -/
def writeBytes (addr : Word) (bytes : ByteArray) : Service δ Unit := write addr bytes ofAccess

/-- Change bytes in place, or fail. -/
def updateBytes (addr : Word) (len : Nat) (f : ByteUpdate) : Service δ Unit := do
  let old ← readBytes addr len
  writeBytes addr (f.apply old)

/-- Read a word, or fail. -/
def readWord (addr : Word) : Service δ Word :=
  read addr 4 fun r => ofAccess (r.map Word.ofByteArray)

def writeWord (addr value : Word) : Service δ Unit := writeBytes addr (Word.toByteArray value)

/-- Read the bytes in front of the next zero byte, or fail. -/
def cString (addr : Word) : Service δ ByteArray := readCString addr ofAccess

end Service

end SandboxVm
