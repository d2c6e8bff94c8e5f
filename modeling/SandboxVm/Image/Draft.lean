import SandboxVm.Image.Header
import SandboxVm.Instruction

/-!
Making an image from instructions and data.
-/

namespace SandboxVm

/-- The contents of an image under construction. -/
structure Draft where
  instructions : List Instruction := []
  data : List Word := []
  literals : List UInt8 := []
  bss : Nat := 0
  /-- Present, even if empty, in an image of the second format. -/
  jumpTargets : Option (List Word) := none

namespace Draft

/-- The index of the next instruction. -/
def nextIndex (d : Draft) : Nat := d.instructions.length

/-- Append instructions to the code. -/
def addInstructions (d : Draft) (is : List Instruction) : Draft :=
  { d with instructions := d.instructions ++ is }

/-- Append words to the data. -/
def addData (d : Draft) (ws : List Word) : Draft :=
  { d with data := d.data ++ ws }

/-- Append bytes to the literals. -/
def addLiterals (d : Draft) (bytes : List UInt8) : Draft :=
  { d with literals := d.literals ++ bytes }

/-- Reserve more zeroed bytes, unless the total no longer fits in 32 bits. -/
def reserve? (d : Draft) (n : Nat) : Option Draft :=
  if d.bss + n < 0x100000000 then some { d with bss := d.bss + n } else none

/-- Add jump targets, which selects the second format. -/
def addJumpTargets (d : Draft) (ts : List Word) : Draft :=
  { d with jumpTargets := some (d.jumpTargets.getD [] ++ ts) }

/-- The format of the image: the second one has a table of jump targets. -/
def version (d : Draft) : Version :=
  if d.jumpTargets.isSome then .v2 else .v1

def codeBytes (d : Draft) : List UInt8 := encodeAll d.instructions

/-- The header, by which the regions follow one another without gaps. -/
def header (d : Draft) : Header :=
  let codeLength := d.codeBytes.length
  { version := d.version
    instructionCount := d.instructions.length
    codeOffset := d.version.headerSize
    codeLength
    dataOffset := d.version.headerSize + codeLength
    dataLength := 4 * d.data.length
    litLength := d.literals.length
    bssLength := d.bss
    jumpTableLength := 4 * (d.jumpTargets.getD []).length }

/-- The image with all that has been added. -/
def build (d : Draft) : Image :=
  Word.listToBytes d.header.toWords ++ d.codeBytes ++ Word.listToBytes d.data ++ d.literals ++
    Word.listToBytes (d.jumpTargets.getD [])

end Draft

end SandboxVm
