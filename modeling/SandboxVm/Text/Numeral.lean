namespace SandboxVm.Text

/-- The text right-aligned in a column of at least `width` characters. -/
def padLeft (width : Nat) (s : String) : String :=
  String.ofList (List.replicate (width - s.length) ' ') ++ s

def hexDigits (n : Nat) : String :=
  String.ofList (Nat.toDigits 16 n)

/-- A number in lower-case hexadecimal after `0x`. -/
def hex (n : Nat) : String :=
  "0x" ++ hexDigits n

/-- A number in hexadecimal after `0x`, with at least `digits` digits. -/
def hexPadded (digits n : Nat) : String :=
  let ds := hexDigits n
  "0x" ++ String.ofList (List.replicate (digits - ds.length) '0') ++ ds

/-- A decimal number: an optional sign and at least one digit. -/
def decimal? (s : String) : Option Int :=
  let digits : List Char → Option Nat := fun cs =>
    if cs.isEmpty || !cs.all Char.isDigit then none
    else some (cs.foldl (fun n c => 10 * n + (c.toNat - '0'.toNat)) 0)
  match s.toList with
  | '-' :: cs => (digits cs).map fun n => -(n : Int)
  | '+' :: cs => (digits cs).map fun n => (n : Int)
  | cs => (digits cs).map fun n => (n : Int)

/-- A decimal number that fits in a word. -/
def decimalWord? (s : String) : Option Int32 :=
  (decimal? s).bind fun n =>
    if -2147483648 ≤ n && n ≤ 2147483647 then some (Int32.ofInt n) else none

end SandboxVm.Text
