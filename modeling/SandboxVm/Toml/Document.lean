import SandboxVm.Toml.Text

/-!
The grammar of a settings document.
-/

namespace SandboxVm.Toml

/-- A reader of the text of a document. -/
abbrev Reader := StateT (List Char) Option

namespace Reader

def blanks : Reader Unit := modify fun cs => cs.dropWhile isBlank

def accept (c : Char) : Reader Bool := modifyGet fun
  | d :: rest => if d == c then (true, rest) else (false, d :: rest)
  | [] => (false, [])

/-- Take this character, or fail. -/
def expect (c : Char) : Reader Unit := do
  unless ← accept c do failure

def comment : Reader Unit := do
  if ← accept '#' then modify fun cs => cs.dropWhile isPlain

/-- Read the end of a line: blanks, a comment, and a line break or the end of the text. -/
def lineEnd : Reader Unit := do
  blanks
  comment
  match ← get with
  | [] => pure ()
  | cs =>
    match newline? cs with
    | some rest => set rest
    | none => failure

/-- Skip blanks, comments and line breaks. -/
def gap : (fuel : Nat) → Reader Unit
  | 0 => pure ()
  | fuel + 1 => do
    blanks
    comment
    match newline? (← get) with
    | some rest =>
      set rest
      gap fuel
    | none => pure ()

/-- Whether a character may stand in a key without quotes. -/
def isBareKey (c : Char) : Bool := c.isAlphanum || c == '_' || c == '-'

/-- Read one part of a key. -/
def keyPart : Reader String := do
  let cs ← get
  match quotedLine? cs with
  | some (s, rest) =>
    set rest
    pure s
  | none =>
    let part := cs.takeWhile isBareKey
    if part.isEmpty then failure
    else
      set (cs.drop part.length)
      pure (String.ofList part)

/-- The most parts a key may have, and the most arrays and tables in braces that
may stand inside each other. -/
def maxNesting : Nat := 80

/-- Read a key of one or more parts divided by dots, at most `room` of them. -/
def keyParts : (room : Nat) → Reader (List String)
  | 0 => failure
  | room + 1 => do
    blanks
    let part ← keyPart
    blanks
    if ← accept '.' then return part :: (← keyParts room) else return [part]

def key : Reader (List String) := keyParts maxNesting

/-- Whether a character opens a quoted text. -/
def isQuote (c : Char) : Bool := c == '"' || c == '\''

/-- Whether a character may stand in a value without quotes. Only what divides
values, keys and lines may not. -/
def isScalarChar (c : Char) : Bool := !"=,[]\x7b\x7d# \t\r\n".toList.contains c

/-- The text of a value without quotes: words and the blanks between them. A word
after blanks does not start with a quote. `skipped` are the blanks just read,
which are left out if no word follows. -/
def scalarText (skipped : List Char) : List Char → List Char
  | [] => []
  | c :: rest =>
    if isBlank c then scalarText (skipped ++ [c]) rest
    else if isScalarChar c && (skipped.isEmpty || !isQuote c) then
      skipped ++ c :: scalarText [] rest
    else []

def scalar : Reader Value := do
  let cs ← get
  let text := scalarText [] cs
  set (cs.drop text.length)
  match scalar? text with
  | some v => pure v
  | none => failure

mutual

/-- Read a value, inside which there is `room` for nested ones. -/
def value (room : Nat) : (fuel : Nat) → Reader Value
  | 0 => failure
  | fuel + 1 => do
    let cs ← get
    match cs, room with
    | '[' :: rest, room + 1 =>
      set rest
      return .array false (← items room fuel)
    | '\x7b' :: rest, room + 1 =>
      set rest
      return .table .inline (← fields room [] fuel)
    | c :: _, _ =>
      if isQuote c then
        match quotedText? cs with
        | some (s, rest) =>
          set rest
          return .string s
        | none => failure
      else scalar
    | [], _ => failure

def items (room : Nat) : (fuel : Nat) → Reader (List Value)
  | 0 => failure
  | fuel + 1 => do
    gap (← get).length
    if ← accept ']' then return []
    let v ← value room fuel
    gap (← get).length
    if ← accept ',' then return v :: (← items room fuel)
    expect ']'
    return [v]

/-- Read the entries of a table after its opening brace, added to those read.
Lines may end anywhere but inside a key. -/
def fields (room : Nat) (entries : Entries) : (fuel : Nat) → Reader Entries
  | 0 => failure
  | fuel + 1 => do
    gap (← get).length
    if ← accept '\x7d' then return entries
    let path ← key
    gap (← get).length
    expect '='
    gap (← get).length
    let v ← value room fuel
    match entries.insert? v path with
    | none => failure
    | some entries =>
      gap (← get).length
      if ← accept ',' then fields room entries fuel
      else
        expect '\x7d'
        return entries

end

/-- Read the lines of a document. Keys are added to the table at `path`, which
the latest header named. -/
def lines (root : Entries) (path : List String) : (fuel : Nat) → Reader Entries
  | 0 => failure
  | fuel + 1 => do
    blanks
    match ← get with
    | [] => return root
    | '[' :: '[' :: rest =>
      set rest
      let path ← key
      expect ']'
      expect ']'
      lineEnd
      match root.openPath? Entries.freshItem path with
      | some root => lines root path fuel
      | none => failure
    | '[' :: rest =>
      set rest
      let path ← key
      expect ']'
      lineEnd
      match root.openPath? Entries.freshTable path with
      | some root => lines root path fuel
      | none => failure
    | c :: _ =>
      if c == '#' || c == '\n' || c == '\r' then
        lineEnd
        lines root path fuel
      else
        let keyPath ← key
        expect '='
        blanks
        let v ← value maxNesting (← get).length
        lineEnd
        match root.modifyAt? (fun entries => entries.insert? v keyPath) path with
        | some root => lines root path fuel
        | none => failure

end Reader

/-- The entries of a document. A byte order mark in front of it is skipped. -/
def parse? (text : String) : Option Entries :=
  let cs := match text.toList with
    | '\ufeff' :: rest => rest
    | cs => cs
  ((Reader.lines [] [] (cs.length + 1)).run cs).map (·.1)

end SandboxVm.Toml
