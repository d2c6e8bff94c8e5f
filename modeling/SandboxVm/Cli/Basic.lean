import SandboxVm.Cli.Console
import SandboxVm.Cli.Help
import SandboxVm.Instance
import SandboxVm.Listing

/-!
What the program does for each command, as a function of the files it reads.
-/

namespace SandboxVm.Cli

/-- How the program ends: its exit code and what it has printed. -/
structure Exit where
  code : Nat
  stdout : String := ""
  stderr : String := ""

/-- Text whose lines after the first are indented by `n` blanks. -/
def indented (n : Nat) (text : String) : String :=
  ("\n" ++ String.ofList (List.replicate n ' ')).intercalate (text.splitOn "\n")

def numberedCauses (i : Nat) : List String → String
  | [] => ""
  | cause :: rest =>
    "\n" ++ Text.padLeft 5 (toString i) ++ ": " ++ indented 7 cause ++ numberedCauses (i + 1) rest

def errorReport : List String → String
  | [] => ""
  | outer :: causes =>
    "Error: " ++ outer ++
      (match causes with
        | [] => ""
        | [cause] => "\n\nCaused by:\n    " ++ indented 4 cause
        | causes => "\n\nCaused by:" ++ numberedCauses 0 causes) ++ "\n"

def Exit.ofError (chain : List String) : Exit := { code := 1, stderr := errorReport chain }

def Exit.ofCrash (stdout : String) : Exit := { code := 101, stdout }

/-- A file by its path, or the reason it cannot be read. -/
abbrev ReadFile := String → Except String ByteArray

def loadModule (read : ReadFile) (file : String) : Except LoadError Module := do
  let bytes ← (read file).mapError (.unreadable file)
  Module.load (Text.Path.fileStem file) bytes.data.toList

def settingsErrorChain (file : String) : SettingsError → List String
  | e@(.unreadable _ reason) => [e.message, reason]
  | e => ["failed to parse config file: " ++ file, e.message]

/-- The settings of a run: those of a file, or the defaults. -/
def loadSettings (read : ReadFile) (config? : Option String) (interpret : Bool) :
    Except (List String) Settings := do
  let settings ← match config? with
    | some file => (Settings.ofFile file (read file)).mapError (settingsErrorChain file)
    | none => pure {}
  return if interpret then { settings with strategy := .interpreter } else settings

/-- Make the instance for a run, or the end of the program if that fails. -/
def prepare (canCompile : Bool) (read : ReadFile) (file : String) (config? : Option String)
    (interpret : Bool) (console : Console) : Except Exit (Instance Console) := do
  let settings ← (loadSettings read config? interpret).mapError Exit.ofError
  let m ← (loadModule read file).mapError fun e => Exit.ofError e.chain
  (Instance.create canCompile settings m Console.syscalls console {}).mapError fun _ =>
    Exit.ofCrash ""

def conclude (file : String) (printed : String) : CallResult → Exit
  | .returned value => { code := 0, stdout := printed ++ toString value.toInt ++ "\n" }
  | .failed failure =>
    { Exit.ofError (("failed to run `" ++ file ++ "`") :: failure.chain) with stdout := printed }
  | .crashed | .unfinished => Exit.ofCrash printed

/-- Carry out a command. A run takes at most `fuel` steps. -/
def Command.execute (canCompile : Bool) (read : ReadFile) (fuel : Nat) : Command → Exit
  | .verify file =>
    match loadModule read file with
    | .error e => Exit.ofError e.chain
    | .ok m =>
      { code := 0
        stdout := file ++ ": ok, " ++ toString m.code.size ++ " instructions, "
          ++ toString m.procedures.size ++ " procedures\n" }
  | .disas file depths header =>
    match loadModule read file with
    | .error e => Exit.ofError e.chain
    | .ok m => { code := 0, stdout := listing { depths, header } m }
  | .run file args config? interpret =>
    match prepare canCompile read file config? interpret {} with
    | .error exit => exit
    | .ok i =>
      let (i, result) := i.call fuel args
      conclude file i.data.output result

/-- What the program does for its arguments. -/
def respond (canCompile : Bool) (read : ReadFile) (fuel : Nat) (args : List String) : Exit :=
  match Request.ofArgs args with
  | .command c => c.execute canCompile read fuel
  | .help topic => { code := 0, stdout := topic.text }
  | .version => { code := 0, stdout := versionText }
  | .usage => { code := 2, stderr := Topic.top.text }

end SandboxVm.Cli
