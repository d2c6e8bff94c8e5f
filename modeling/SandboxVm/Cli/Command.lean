import SandboxVm.Text.Numeral
import SandboxVm.Word

/-!
The arguments of the program.
-/

namespace SandboxVm.Cli

/-- What the command line can ask for. -/
inductive Command where
  | verify (file : String)
  | disas (file : String) (depths header : Bool)
  | run (file : String) (args : List Word) (config? : Option String) (interpret : Bool)

inductive Topic where
  | top | verify | disas | run | help
  deriving DecidableEq

/-- What the arguments of the program ask for. -/
inductive Request where
  | command (c : Command)
  | help (topic : Topic)
  | version
  | usage

structure Form where
  topic : Topic
  /-- Names that may be given once, without a value. -/
  flags : List String := []
  /-- Names that may be given once, with a value. -/
  options : List String := []
  /-- Whether numbers may follow the file. -/
  numbers : Bool := false

structure Given where
  flags : List String := []
  options : List (String × String) := []
  file? : Option String := none
  numbers : List Word := []

/-- Whether the text after a hyphen looks like a number: digits, with at most one
point and one exponent mark after the first digit. -/
def looksNumeric (cs : List Char) : Bool :=
  let rec go : (first seenPoint seenMark : Bool) → List Char → Bool
    | _, _, _, [] => true
    | first, seenPoint, seenMark, c :: rest =>
      if c.isDigit then go false seenPoint seenMark rest
      else if c == '.' then !seenPoint && !seenMark && !first && go false true seenMark rest
      else if c == 'e' || c == 'E' then
        !seenMark && !first && !rest.isEmpty && go false seenPoint true rest
      else false
  !cs.isEmpty && go true false false cs

/-- Whether an argument could be an option: it starts with a hyphen that is not all of it. -/
def isHyphenated (arg : String) : Bool := arg.startsWith "-" && arg != "-"

/-- Split a long argument at its equals sign. -/
def splitValue (cs : List Char) : String × Option String :=
  let name := cs.takeWhile (· != '=')
  match cs.drop name.length with
  | _ :: value => (String.ofList name, some (String.ofList value))
  | [] => (String.ofList name, none)

/-- Whether the text after a hyphen is a negative number where one is expected:
numbers follow the file. -/
def Given.expectsNegative (g : Given) (form : Form) (cs : List Char) : Bool :=
  form.numbers && g.file?.isSome && looksNumeric cs

/-- Take an argument that is no option: the file first, then numbers. -/
def Given.addPositional? (g : Given) (form : Form) (arg : String) : Option Given :=
  match g.file? with
  | none => if arg == "" then none else some { g with file? := some arg }
  | some _ =>
    if form.numbers then
      (Text.decimalWord? arg).map fun n => { g with numbers := g.numbers ++ [n] }
    else none

/-- Take an option with its value. -/
def Given.addOption? (g : Given) (name value : String) : Option Given :=
  if value == "" || (g.options.lookup name).isSome then none
  else some { g with options := g.options ++ [(name, value)] }

/-- Read the arguments of a subcommand. The first one that is not understood, and
the first request for help, decide. After `--` nothing is an option. -/
def Given.read (form : Form) (g : Given) (onlyPositional : Bool) :
    List String → Except Request Given
  | [] => .ok g
  | arg :: rest =>
    let positional : Except Request Given :=
      match g.addPositional? form arg with
      | some g => Given.read form g onlyPositional rest
      | none => .error .usage
    if onlyPositional then positional
    else
      match arg.toList with
      | ['-', '-'] => Given.read form g true rest
      | '-' :: '-' :: long =>
        match splitValue long with
        | ("help", none) => .error (.help form.topic)
        | (name, none) =>
          if form.flags.contains name then
            if g.flags.contains name then .error .usage
            else Given.read form { g with flags := g.flags ++ [name] } false rest
          else if form.options.contains name then
            match rest with
            | value :: rest =>
              if isHyphenated value && !g.expectsNegative form (value.toList.drop 1) then
                .error .usage
              else
                match g.addOption? name value with
                | some g => Given.read form g false rest
                | none => .error .usage
            | [] => .error .usage
          else .error .usage
        | (name, some value) =>
          if form.options.contains name then
            match g.addOption? name value with
            | some g => Given.read form g false rest
            | none => .error .usage
          else .error .usage
      | '-' :: c :: short =>
        if g.expectsNegative form (c :: short) then positional
        else if c == 'h' then .error (.help form.topic)
        else .error .usage
      | _ => positional

def verifyForm : Form := { topic := .verify }

def disasForm : Form := { topic := .disas, flags := ["no-depths", "no-header"] }

def runForm : Form :=
  { topic := .run, flags := ["interpret"], options := ["config"], numbers := true }

/-- Read the arguments of a subcommand and make the command from them. -/
def readCommand (form : Form) (args : List String) (make : Given → String → Command) : Request :=
  match Given.read form {} false args with
  | .error request => request
  | .ok g =>
    match g.file? with
    | some file => .command (make g file)
    | none => .usage

def topicOf? : String → Option Topic
  | "verify" => some .verify
  | "disas" => some .disas
  | "run" => some .run
  | "help" => some .help
  | _ => none

/-- What is asked for by the arguments. -/
def Request.ofArgs : List String → Request
  | [] => .usage
  | "verify" :: rest => readCommand verifyForm rest fun _ file => .verify file
  | "disas" :: rest => readCommand disasForm rest fun g file =>
    .disas file (!g.flags.contains "no-depths") (!g.flags.contains "no-header")
  | "run" :: rest => readCommand runForm rest fun g file =>
    .run file g.numbers (g.options.lookup "config") (g.flags.contains "interpret")
  | ["help"] => .help .top
  | ["help", name] => ((topicOf? name).map Request.help).getD .usage
  | "--help" :: _ => .help .top
  | "--version" :: _ => .version
  | arg :: _ =>
    match arg.toList with
    | '-' :: 'h' :: _ => .help .top
    | '-' :: 'V' :: _ => .version
    | _ => .usage

end SandboxVm.Cli
