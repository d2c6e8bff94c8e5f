import SandboxVm.Instruction
import SandboxVm.Text.Numeral

namespace SandboxVm.Assembly

/-- The parts of a character list between separators. -/
def splitAt (isSeparator : Char → Bool) : List Char → List (List Char)
  | [] => [[]]
  | c :: cs =>
    match isSeparator c, splitAt isSeparator cs with
    | true, parts => [] :: parts
    | false, part :: parts => (c :: part) :: parts
    | false, [] => [[c]]

/-- The maximal runs of non-blank characters. -/
def words (cs : List Char) : List (List Char) :=
  (splitAt Char.isWhitespace cs).filter fun w => !w.isEmpty

/-- One item: a mnemonic and an optional decimal operand. -/
def parseItem? (item : List (List Char)) : Option Instruction :=
  match item with
  | [name] => (Opcode.ofMnemonic? (String.ofList name)).map fun op => ⟨op, 0⟩
  | [name, operand] => do
    let op ← Opcode.ofMnemonic? (String.ofList name)
    let operand ← Text.decimalWord? (String.ofList operand)
    pure ⟨op, operand⟩
  | _ => none

/-- Read assembly text: items separated by semicolons, empty ones skipped. -/
def parse? (text : String) : Option (List Instruction) :=
  ((splitAt (· == ';') text.toList).map words).filter (fun ws => !ws.isEmpty)
    |>.mapM parseItem?

end SandboxVm.Assembly
