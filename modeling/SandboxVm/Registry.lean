import Std.Data.ExtTreeMap
import SandboxVm.Instance

/-!
Named instances, at most one for a name.
-/

namespace SandboxVm

/-- Where module images come from. -/
structure ImageSource where
  /-- The path an image is known by, for messages. -/
  path : String → String
  /-- The image of a module, or the reason there is none. -/
  read : String → Except String Image
  announces : Bool

namespace ImageSource

/-- Files named for their modules in a directory. -/
def directory (dir : String) (readFile? : String → Except String Image) : ImageSource :=
  let path (name : String) := Text.Path.join dir (name ++ ".qvm")
  { path, read := fun name => readFile? (path name), announces := true }

/-- The image of a module with the log of reading it. -/
def fetch (source : ImageSource) (name : String) (journal : Journal) :
    Except LoadError Image × Journal :=
  let journal :=
    if source.announces then
      journal.note .debug fun _ => "loading `" ++ name ++ "` from " ++ source.path name
    else journal
  ((source.read name).mapError (.unreadable (source.path name)), journal)

/-- Load a module with the log of it. -/
def load (source : ImageSource) (name : String) (journal : Journal) :
    Except LoadError Module × Journal :=
  match source.fetch name journal with
  | (.error e, journal) => (.error e, journal)
  | (.ok image, journal) =>
    let journal :=
      if journal.keeps .debug then journal.noteAll (Module.loadRecords name image) else journal
    (Module.load name image, journal)

end ImageSource

/-- The running instances, at most one for a name. -/
structure Registry (δ : Type) where
  settings : Settings := {}
  /-- Whether compiled code is supported. -/
  canCompile : Bool := false
  instances : Std.ExtTreeMap String (Instance δ) := {}
  journal : Journal := {}

/-- How a creation ends. -/
inductive CreateOutcome where
  | running
  | failed (error : LoadError)
  /-- The instance could not be set up at all. -/
  | crashed

/-- How a restart ends. -/
inductive RestartOutcome where
  | restarted
  | notRunning
  | failed (error : LoadError)
  | crashed

/-- The messages of a failed restart, outermost first. -/
def RestartOutcome.chain (name : String) : RestartOutcome → List String
  | notRunning => ["module `" ++ name ++ "` is not running"]
  | failed e => ("failed to restart `" ++ name ++ "`") :: e.chain
  | restarted | crashed => []

namespace Registry

variable {δ : Type}

def get? (r : Registry δ) (name : String) : Option (Instance δ) := r.instances[name]?

/-- The names of the instances in ascending order. -/
def names (r : Registry δ) : List String := r.instances.keys

/-- Make an instance of a module under a name and log a message about it. The
result says whether that succeeded. -/
def install (r : Registry δ) (name : String) (m : Module) (syscalls : Syscalls δ) (data : δ)
    (message : Instance δ → String) : Registry δ × Bool :=
  match Instance.create r.canCompile r.settings m syscalls data r.journal with
  | .error journal => ({ r with journal }, false)
  | .ok i =>
    ({ r with
        journal := i.store.journal.note .info fun _ => message i
        instances := r.instances.insert name { i with store := { i.store with journal := {} } } },
      true)

/-- Create the instance of a name. One that is running already is kept, and the
new syscalls and data are dropped. -/
def create (r : Registry δ) (source : ImageSource) (name : String) (syscalls : Syscalls δ)
    (data : δ) : Registry δ × CreateOutcome :=
  if r.instances.contains name then
    ({ r with journal := r.journal.note .debug fun _ => "`" ++ name ++ "` is already running" },
      .running)
  else
    match source.load name r.journal with
    | (.error e, journal) => ({ r with journal }, .failed e)
    | (.ok m, journal) =>
      let r := { r with journal }
      let message (i : Instance δ) :=
        "`" ++ name ++ "` loaded (" ++ (if i.compiled then "compiled" else "interpreted") ++ ")"
      match r.install name m syscalls data message with
      | (r, true) => (r, .running)
      | (r, false) => (r, .crashed)

/-- Create the instance of a name that may be missing: a failure is only logged. -/
def createOptional (r : Registry δ) (source : ImageSource) (name : String) (syscalls : Syscalls δ)
    (data : δ) : Registry δ × CreateOutcome :=
  match r.create source name syscalls data with
  | (r, .failed e) =>
    let journal := r.journal.note .warn fun _ =>
      "optional module `" ++ name ++ "` not loaded: " ++ ": ".intercalate e.chain
    ({ r with journal }, .failed e)
  | result => result

/-- Replace a running instance by a fresh one of the same name, with the same
syscalls and host data. If the image does not load, the old one is put back. -/
def restart (r : Registry δ) (source : ImageSource) (name : String) :
    Registry δ × RestartOutcome :=
  match r.get? name with
  | none => (r, .notRunning)
  | some old =>
    let r := { r with instances := r.instances.erase name }
    match source.load name r.journal with
    | (.error e, journal) =>
      ({ r with journal, instances := r.instances.insert name old }, .failed e)
    | (.ok m, journal) =>
      let r := { r with journal }
      match r.install name m old.syscalls old.data fun _ => "`" ++ name ++ "` restarted" with
      | (r, true) => (r, .restarted)
      | (r, false) => (r, .crashed)

/-- Remove the instance of a name and return its data. -/
def free (r : Registry δ) (name : String) : Registry δ × Option δ :=
  match r.get? name with
  | none => (r, none)
  | some i =>
    ({ r with
        instances := r.instances.erase name
        journal := r.journal.note .debug fun _ => "`" ++ name ++ "` freed" },
      some i.data)

/-- Remove all instances, in ascending order of their names. -/
def freeAll (r : Registry δ) : Registry δ :=
  r.names.foldl (fun r name => (r.free name).1) r

/-- Call the instance of a name, if there is one. -/
def call (r : Registry δ) (fuel : Nat) (name : String) (args : List Word) :
    Registry δ × Option CallResult :=
  match r.get? name with
  | none => (r, none)
  | some i =>
    let { settings, canCompile, instances, journal } := r
    let instances := instances.erase name
    -- The instance has the journal of the registry for the time of the call.
    let (i, result) := { i with store := { i.store with journal } }.call fuel args
    ({ settings, canCompile
       journal := i.store.journal
       instances := instances.insert name { i with store := { i.store with journal := {} } } },
      some result)

def modifyData (r : Registry δ) (name : String) (f : δ → δ) : Registry δ :=
  match r.get? name with
  | none => r
  | some i => { r with instances := r.instances.insert name { i with data := f i.data } }

end Registry

end SandboxVm
