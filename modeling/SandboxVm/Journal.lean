/-!
Log records, collected in order up to a limit.
-/

namespace SandboxVm

/-- How much a log record matters, the most urgent first. -/
inductive LogLevel where
  | error | warn | info | debug | trace
  deriving DecidableEq

namespace LogLevel

/-- The rank of a level; less is more urgent. -/
def rank : LogLevel → Nat
  | error => 1
  | warn => 2
  | info => 3
  | debug => 4
  | trace => 5

def label : LogLevel → String
  | error => "ERROR"
  | warn => "WARN"
  | info => "INFO"
  | debug => "DEBUG"
  | trace => "TRACE"

end LogLevel

/-- A message in the log. -/
structure LogRecord where
  level : LogLevel
  message : String
  deriving DecidableEq

/-- A bounded log. Nothing is recorded without a threshold, and nothing once the
log is full. -/
structure Journal where
  /-- The least urgent level that is recorded. -/
  threshold : Option LogLevel := none
  capacity : Nat := 600
  records : Array LogRecord := #[]

namespace Journal

/-- Whether a record of this level would be kept. -/
def keeps (j : Journal) (level : LogLevel) : Bool :=
  match j.threshold with
  | some t => level.rank ≤ t.rank && j.records.size < j.capacity
  | none => false

/-- Append a record, whatever its level. -/
def add (j : Journal) (r : LogRecord) : Journal := { j with records := j.records.push r }

/-- Record a message, which is only worded if it is kept. -/
@[inline] def note (j : Journal) (level : LogLevel) (message : Unit → String) : Journal :=
  if j.keeps level then j.add ⟨level, message ()⟩ else j

def noteAll (j : Journal) (records : List LogRecord) : Journal :=
  records.foldl (fun j r => j.note r.level fun _ => r.message) j

end Journal

end SandboxVm
