import SandboxVm.Toml.Scalar

/-!
Quoted texts.
-/

namespace SandboxVm.Toml

def isBlank (c : Char) : Bool := c == ' ' || c == '\t'

/-- Characters that may stand in text as they are; control characters other than
the tab may not. -/
def isPlain (c : Char) : Bool := c == '\t' || (0x20 ≤ c.toNat && c.toNat != 0x7f)

/-- The character that a backslash and a letter stand for. -/
def escape? : Char → Option Char
  | 'b' => some '\x08'
  | 't' => some '\t'
  | 'n' => some '\n'
  | 'f' => some '\x0c'
  | 'r' => some '\r'
  | 'e' => some '\x1b'
  | '"' => some '"'
  | '\\' => some '\\'
  | _ => none

def hexChar? (cs : List Char) : Option Char := do
  let n := ofDigits 16 (← cs.mapM hexValue?)
  if h : n.isValidChar then some (Char.ofNatAux n h) else none

/-- Read what follows a backslash: the character it stands for and the rest. -/
def readEscape? : List Char → Option (Char × List Char)
  | 'u' :: a :: b :: c :: d :: rest => (hexChar? [a, b, c, d]).map (·, rest)
  | 'U' :: a :: b :: c :: d :: e :: f :: g :: h :: rest =>
    (hexChar? [a, b, c, d, e, f, g, h]).map (·, rest)
  | 'x' :: a :: b :: rest => (hexChar? [a, b]).map (·, rest)
  | c :: rest => (escape? c).map (·, rest)
  | [] => none

/-- The text after a line break. -/
def newline? : List Char → Option (List Char)
  | '\n' :: rest => some rest
  | '\r' :: '\n' :: rest => some rest
  | _ => none

/-- Read the body of a quoted text in which escapes count, up to its closing
quote. `fuel` bounds the number of characters. -/
def basicBody? (done : List Char) : (fuel : Nat) → List Char → Option (String × List Char)
  | 0, _ => none
  | _ + 1, [] => none
  | fuel + 1, c :: rest =>
    if c == '"' then some (String.ofList done.reverse, rest)
    else if c == '\\' then do
      let (c, rest) ← readEscape? rest
      basicBody? (c :: done) fuel rest
    else if isPlain c then basicBody? (c :: done) fuel rest
    else none

/-- The text after all blanks and line breaks. -/
def skipBlankLines : List Char → List Char
  | '\r' :: '\n' :: rest => skipBlankLines rest
  | c :: rest => if isBlank c || c == '\n' then skipBlankLines rest else c :: rest
  | [] => []

/-- The text after a backslash that ends a line: all blanks and line breaks up
to the next character are skipped. -/
def continuation? (cs : List Char) : Option (List Char) :=
  (newline? (cs.dropWhile isBlank)).map skipBlankLines

/-- Read a closing mark of three quotes. Up to two more quotes in front of it
belong to the text. -/
def closing? (quote : Char) (done : List Char) (cs : List Char) : Option (String × List Char) :=
  let run := (cs.takeWhile (· == quote)).length
  if run < 3 then none
  else
    let extra := min (run - 3) 2
    some (String.ofList (List.replicate extra quote ++ done).reverse, cs.drop (3 + extra))

/-- Read the body of a text in three double quotes. -/
def multilineBasicBody? (done : List Char) :
    (fuel : Nat) → List Char → Option (String × List Char)
  | 0, _ => none
  | fuel + 1, cs =>
    match closing? '"' done cs with
    | some result => some result
    | none =>
      match cs with
      | [] => none
      | '\\' :: rest =>
        match continuation? rest with
        | some rest => multilineBasicBody? done fuel rest
        | none => do
          let (c, rest) ← readEscape? rest
          multilineBasicBody? (c :: done) fuel rest
      | '\n' :: rest => multilineBasicBody? ('\n' :: done) fuel rest
      | '\r' :: '\n' :: rest => multilineBasicBody? ('\n' :: '\r' :: done) fuel rest
      | c :: rest => if isPlain c then multilineBasicBody? (c :: done) fuel rest else none

/-- Read the body of a text in three single quotes. -/
def multilineLiteralBody? (done : List Char) :
    (fuel : Nat) → List Char → Option (String × List Char)
  | 0, _ => none
  | fuel + 1, cs =>
    match closing? '\'' done cs with
    | some result => some result
    | none =>
      match cs with
      | [] => none
      | '\n' :: rest => multilineLiteralBody? ('\n' :: done) fuel rest
      | '\r' :: '\n' :: rest => multilineLiteralBody? ('\n' :: '\r' :: done) fuel rest
      | c :: rest => if isPlain c then multilineLiteralBody? (c :: done) fuel rest else none

def literalBody? (cs : List Char) : Option (String × List Char) :=
  let body := cs.takeWhile fun c => isPlain c && c != '\''
  match cs.drop body.length with
  | '\'' :: rest => some (String.ofList body, rest)
  | _ => none

def skipNewline (cs : List Char) : List Char := (newline? cs).getD cs

def quotedLine? : List Char → Option (String × List Char)
  | '"' :: rest => basicBody? [] (rest.length + 1) rest
  | '\'' :: rest => literalBody? rest
  | _ => none

def quotedText? : List Char → Option (String × List Char)
  | '"' :: '"' :: '"' :: rest =>
    let rest := skipNewline rest
    multilineBasicBody? [] (rest.length + 1) rest
  | '\'' :: '\'' :: '\'' :: rest =>
    let rest := skipNewline rest
    multilineLiteralBody? [] (rest.length + 1) rest
  | cs => quotedLine? cs

end SandboxVm.Toml
