import SandboxVm.Text.Numeral
import SandboxVm.Text.Printable

namespace SandboxVm.Text

/-- How a character stands inside a quoted text: quotes, backslashes and
characters that do not print are escaped. -/
def quotedChar (c : Char) : String :=
  match c with
  | '"' => "\\\""
  | '\\' => "\\\\"
  | '\n' => "\\n"
  | '\t' => "\\t"
  | '\r' => "\\r"
  | '\x00' => "\\0"
  | c =>
    if isPrintable c then String.singleton c
    else "\\u\x7b" ++ hexDigits c.toNat ++ "\x7d"

/-- A text in quotes, with escapes for what cannot be printed. -/
def quoted (s : String) : String :=
  "\"" ++ String.join (s.toList.map quotedChar) ++ "\""

end SandboxVm.Text
