import SandboxVm.Text.Quoted
import SandboxVm.Toml.Document

/-!
The settings of instances and their form in a settings file.
-/

namespace SandboxVm

/-- How module code is run. -/
inductive Strategy where
  /-- Compiled where that is possible. -/
  | auto
  /-- Always interpreted. -/
  | interpreter
  /-- Compiled, and interpreted with a warning where that is not supported. -/
  | native
  deriving DecidableEq

namespace Strategy

/-- The name of a strategy in a document. -/
def key : Strategy → String
  | auto => "auto"
  | interpreter => "interpreter"
  | native => "cranelift"

def title : Strategy → String
  | auto => "Auto"
  | interpreter => "Interpreter"
  | native => "Cranelift"

def ofKey? (s : String) : Option Strategy :=
  [auto, interpreter, native].find? fun t => t.key == s

end Strategy

/-- The greatest limit on nested procedure calls. -/
def maxCallDepthLimit : Nat := 4096

/-- How instances are set up. -/
structure Settings where
  strategy : Strategy := .auto
  callTraceCapacity : Nat := 32
  maxCallDepth : Nat := 1024
  moduleDir : String := "vm"
  deriving DecidableEq

namespace Settings

/-- Limit nested procedure calls, to at least one and at most the greatest limit. -/
def withMaxCallDepth (s : Settings) (n : Nat) : Settings :=
  { s with maxCallDepth := max 1 (min n maxCallDepthLimit) }

/-- Whether the limit on nested calls is one that instances can have. -/
def isValid (s : Settings) : Bool :=
  1 ≤ s.maxCallDepth && s.maxCallDepth ≤ maxCallDepthLimit

def summary (s : Settings) : String :=
  "Config \x7b strategy: " ++ s.strategy.title
    ++ ", call_trace_capacity: " ++ toString s.callTraceCapacity
    ++ ", max_call_depth: " ++ toString s.maxCallDepth
    ++ ", module_dir: " ++ Text.quoted s.moduleDir ++ " \x7d"

/-- The strategy a value of a document means: its name, or a table with its name
as the only key and nothing in it. -/
def readStrategy? : Toml.Value → Option Strategy
  | .string s => Strategy.ofKey? s
  | .table _ [(key, .table _ [])] => Strategy.ofKey? key
  | .table _ [(key, .array _ [])] => Strategy.ofKey? key
  | _ => none

def readSize? : Toml.Value → Option Nat
  | .integer (some n) => if 0 ≤ n ∧ n < 0x10000000000000000 then some n.toNat else none
  | _ => none

def readText? : Toml.Value → Option String
  | .string s => some s
  | _ => none

def keys : List String := ["strategy", "call-trace-capacity", "max-call-depth", "module-dir"]

/-- Change the setting of a key, if the value is of its kind. -/
def set? (s : Settings) (key : String) (v : Toml.Value) : Option Settings :=
  match key with
  | "strategy" => (readStrategy? v).map fun strategy => { s with strategy }
  | "call-trace-capacity" => (readSize? v).map fun n => { s with callTraceCapacity := n }
  | "max-call-depth" => (readSize? v).map fun n => { s with maxCallDepth := n }
  | "module-dir" => (readText? v).map fun dir => { s with moduleDir := dir }
  | _ => none

/-- Change several settings, of which later ones count. -/
def setAll? (s : Settings) : List (String × Toml.Value) → Option Settings
  | [] => some s
  | (key, v) :: rest => (s.set? key v).bind fun s => s.setAll? rest

/-- The settings of a section: a table by key, or an array by position. -/
def ofSection? : Toml.Value → Option Settings
  | .table _ entries => setAll? {} entries
  | .array _ items => setAll? {} (keys.zip items)
  | _ => none

end Settings

/-- Why settings are refused. -/
inductive SettingsError where
  /-- The file could not be read as text. -/
  | unreadable (path reason : String)
  | malformed
  /-- The limit on nested calls is out of range. -/
  | badCallDepth
  deriving DecidableEq

namespace SettingsError

/-- The message of a refusal. For a document that cannot be understood only that is said. -/
def message : SettingsError → String
  | unreadable path _ => "failed to read config file: " ++ path
  | malformed => "malformed settings"
  | badCallDepth => "max-call-depth must be between 1 and " ++ toString maxCallDepthLimit

end SettingsError

namespace Settings

/-- Read settings from the text of a document, which has them in its only section. -/
def ofText (text : String) : Except SettingsError Settings :=
  match Toml.parse? text with
  | some [("vm", v)] =>
    match ofSection? v with
    | some s => if s.isValid then .ok s else .error .badCallDepth
    | none => .error .malformed
  | _ => .error .malformed

/-- Read settings from the contents of a file, or the reason it could not be read. -/
def ofFile (path : String) (contents : Except String ByteArray) : Except SettingsError Settings :=
  match contents with
  | .error reason => .error (.unreadable path reason)
  | .ok bytes =>
    match String.fromUTF8? bytes with
    | some text => ofText text
    | none => .error (.unreadable path "stream did not contain valid UTF-8")

end Settings

end SandboxVm
