import SandboxVm.Toml.Value

/-!
Values written without quotes.
-/

namespace SandboxVm.Toml

def hexValue? (c : Char) : Option Nat :=
  if '0' ≤ c ∧ c ≤ '9' then some (c.toNat - 48)
  else if 'a' ≤ c ∧ c ≤ 'f' then some (c.toNat - 87)
  else if 'A' ≤ c ∧ c ≤ 'F' then some (c.toNat - 55)
  else none

def isDigitIn (base : Nat) (c : Char) : Bool :=
  match hexValue? c with
  | some d => d < base
  | none => false

def ofDigits (base : Nat) (ds : List Nat) : Nat :=
  ds.foldl (fun n d => base * n + d) 0

def isSign (c : Char) : Bool := c == '+' || c == '-'

/-- The text after a sign, if it starts with one. -/
def dropSign : List Char → List Char
  | c :: cs => if isSign c then cs else c :: cs
  | [] => []

/-- Whether each underscore has a digit on its right, and a digit on its left
too. `left` says whether an underscore may come first. -/
def underscoresFitAfter (isDigit : Char → Bool) (left : Bool) : List Char → Bool
  | [] => true
  | '_' :: rest => left && rest.head?.any isDigit && underscoresFitAfter isDigit false rest
  | c :: rest => underscoresFitAfter isDigit (isDigit c) rest

/-- Whether the underscores of a number stand between digits. -/
def underscoresFit (isDigit : Char → Bool) (cs : List Char) : Bool :=
  underscoresFitAfter isDigit false cs

/-- The number that digits make, underscores aside. -/
def digitsValue? (base : Nat) (cs : List Char) : Option Nat :=
  let ds := cs.filter (· != '_')
  if ds.isEmpty || !ds.all (isDigitIn base) then none
  else some (ofDigits base (ds.filterMap hexValue?))

/-- The number that a decimal text with an optional sign makes. -/
def decimalValue? (cs : List Char) : Option Int :=
  (digitsValue? 10 (dropSign cs)).map fun n => if cs.head? = some '-' then -(n : Int) else n

/-- An integer of which the digits in a base are given. There may be none. -/
def basedInteger? (base : Nat) (cs : List Char) : Option Value :=
  if (cs.all fun c => isDigitIn base c || c == '_') && underscoresFit (isDigitIn 16) cs then
    some (.integer ((digitsValue? base cs).map Int.ofNat))
  else none

/-- Take digits and underscores off the front: the digits and the text after them. -/
def splitDigits (cs : List Char) : List Char × List Char :=
  let run := cs.takeWhile fun c => c.isDigit || c == '_'
  (run.filter Char.isDigit, cs.drop run.length)

/-- Whether the text is a fraction, an exponent, both or neither. -/
def isFloatTail (cs : List Char) : Bool :=
  let isExponent : List Char → Bool
    | [] => true
    | c :: rest =>
      (c == 'e' || c == 'E') &&
        match splitDigits (dropSign rest) with
        | (ds, rest) => !ds.isEmpty && rest.isEmpty
  match cs with
  | '.' :: rest =>
    match splitDigits rest with
    | (ds, rest) => !ds.isEmpty && isExponent rest
  | cs => isExponent cs

/-- Whether the text is a float. Of several digits in front of the point the
first is not zero. -/
def isFloat (cs : List Char) : Bool :=
  let body := dropSign cs
  match splitDigits body with
  | (ds, rest) =>
    !ds.isEmpty && !(body.head? == some '0' && 1 < ds.length) && isFloatTail rest &&
      underscoresFit Char.isDigit cs

def twoDigits? (a b : Char) : Option Nat :=
  if a.isDigit ∧ b.isDigit then some (10 * (a.toNat - 48) + (b.toNat - 48)) else none

def daysIn (year month : Nat) : Nat :=
  if month = 2 then
    if year % 4 = 0 ∧ (year % 100 ≠ 0 ∨ year % 400 = 0) then 29 else 28
  else if month = 4 ∨ month = 6 ∨ month = 9 ∨ month = 11 then 30
  else 31

def readDate? : List Char → Option (List Char)
  | y₁ :: y₂ :: y₃ :: y₄ :: '-' :: m₁ :: m₂ :: '-' :: d₁ :: d₂ :: rest => do
    let century ← twoDigits? y₁ y₂
    let year ← twoDigits? y₃ y₄
    let month ← twoDigits? m₁ m₂
    let day ← twoDigits? d₁ d₂
    if 1 ≤ month ∧ month ≤ 12 ∧ 1 ≤ day ∧ day ≤ daysIn (100 * century + year) month then some rest
    else none
  | _ => none

/-- Read the seconds of a time, if there are any, and return the text after it. -/
def readSeconds? : List Char → Option (List Char)
  | ':' :: s₁ :: s₂ :: rest => do
    let second ← twoDigits? s₁ s₂
    if 60 < second then none
    else
      match rest with
      | '.' :: fraction =>
        if (fraction.takeWhile Char.isDigit).isEmpty then none
        else some (fraction.dropWhile Char.isDigit)
      | _ => some rest
  | rest => some rest

/-- Read an hour and a minute and return the text after them. -/
def readClock? : List Char → Option (List Char)
  | h₁ :: h₂ :: ':' :: m₁ :: m₂ :: rest => do
    let hour ← twoDigits? h₁ h₂
    let minute ← twoDigits? m₁ m₂
    if hour ≤ 23 ∧ minute ≤ 59 then some rest else none
  | _ => none

/-- Whether the text is an offset from universal time, or none at all. -/
def isOffset : List Char → Bool
  | [] | ['Z'] | ['z'] => true
  | '+' :: cs | '-' :: cs => readClock? cs == some []
  | _ => false

/-- Whether the text is a date, a time or both. -/
def isDateTime (cs : List Char) : Bool :=
  match readDate? cs with
  | some [] => true
  | some (c :: rest) =>
    (c == 'T' || c == 't' || c == ' ') &&
      match (readClock? rest).bind readSeconds? with
      | some offset => isOffset offset
      | none => false
  | none => (readClock? cs).bind readSeconds? == some []

/-- A number or a time, by what follows its first digits: nothing or an
underscore in an integer, a hyphen or a colon in a time, and a point or an
exponent somewhere in a float. Only a time has a space in it. -/
def numberOrTime? (cs : List Char) : Option Value :=
  let body := dropSign cs
  let hasLeadingZero := body.head? == some '0' && body.length != 1
  match body.dropWhile Char.isDigit with
  | [] =>
    if body.isEmpty || hasLeadingZero then none else some (.integer (decimalValue? cs))
  | c :: rest =>
    if c == '-' || c == ':' then if isDateTime cs then some .dateTime else none
    else if (c :: rest).contains ' ' then none
    else if (c :: rest).any fun c => c == '.' || c == 'e' || c == 'E' then
      if isFloat cs then some .float else none
    else if c == '_' && !hasLeadingZero && underscoresFit (isDigitIn 16) cs then
      some (.integer (decimalValue? cs))
    else none

/-- The value that unquoted text stands for. A base other than ten excludes a sign. -/
def scalar? (cs : List Char) : Option Value :=
  if cs = "true".toList then some (.boolean true)
  else if cs = "false".toList then some (.boolean false)
  else if dropSign cs = "inf".toList ∨ dropSign cs = "nan".toList then some .float
  else
    match cs with
    | '0' :: 'x' :: ds => basedInteger? 16 ds
    | '0' :: 'o' :: ds => basedInteger? 8 ds
    | '0' :: 'b' :: ds => basedInteger? 2 ds
    | cs => numberOrTime? cs

end SandboxVm.Toml
