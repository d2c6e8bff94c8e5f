import SandboxVm.Text.Numeral
import SandboxVm.Word

/-!
The header of a module image: little-endian words that place the code, the
data, the literals and the jump table, which together fill the image.
-/

namespace SandboxVm

/-- A module image as a sequence of bytes. -/
abbrev Image := List UInt8

/-- The two image formats. The second one adds a list of jump targets. -/
inductive Version where
  | v1 | v2
  deriving DecidableEq

namespace Version

/-- The first word of an image. -/
def magic : Version → UInt32
  | v1 => 0x12721444
  | v2 => 0x12721445

def ofMagic? (m : UInt32) : Option Version :=
  if m = magic v1 then some v1 else if m = magic v2 then some v2 else none

def headerWords : Version → Nat
  | v1 => 8
  | v2 => 9

/-- The size of a header in bytes. -/
def headerSize (v : Version) : Nat := 4 * v.headerWords

def number : Version → Nat
  | v1 => 1
  | v2 => 2

end Version

/-- The largest total of data, literals and zeroed space. -/
def maxDataSize : Nat := 0x10000000

/-- What is wrong with the header of an image. -/
inductive HeaderError where
  | truncated
  | badMagic (magic : UInt32)
  | badInstructionCount
  | badCodeOffset
  | badCodeLength
  | badDataOffset
  | badDataLength
  | badLitLength
  | badBssLength
  | badJumpTableLength
  deriving DecidableEq

def HeaderError.message : HeaderError → String
  | truncated => "image is truncated"
  | badMagic m => "bad magic number " ++ Text.hexPadded 8 m.toNat
  | badInstructionCount => "bad instruction count"
  | badCodeOffset => "bad code offset"
  | badCodeLength => "bad code length"
  | badDataOffset => "bad data offset"
  | badDataLength => "bad data length"
  | badLitLength => "bad literal length"
  | badBssLength => "bad bss length"
  | badJumpTableLength => "bad jump table length"

/-- A validated image header. The code region is followed by data, literals and
the jump table, without gaps up to the end of the image. -/
structure Header where
  version : Version
  instructionCount : Nat
  codeOffset : Nat
  codeLength : Nat
  dataOffset : Nat
  dataLength : Nat
  litLength : Nat
  bssLength : Nat
  jumpTableLength : Nat
  deriving DecidableEq

namespace Header

/-- The word at index `i` of an image, read as signed; zero past its end. -/
def wordAt (image : Image) (i : Nat) : Word :=
  match image.drop (4 * i) with
  | b₀ :: b₁ :: b₂ :: b₃ :: _ => Word.ofBytes b₀ b₁ b₂ b₃
  | _ => 0

/-- The format of an image, if it is long enough for its header. -/
def readVersion (image : Image) : Except HeaderError Version :=
  if image.length < Version.v1.headerSize then .error .truncated
  else
    let magic := (wordAt image 0).toUInt32
    match Version.ofMagic? magic with
    | none => .error (.badMagic magic)
    | some version =>
      if image.length < version.headerSize then .error .truncated else .ok version

/-- The header fields as the signed numbers they are stored as. -/
structure Fields where
  instructionCount : Int
  codeOffset : Int
  codeLength : Int
  dataOffset : Int
  dataLength : Int
  litLength : Int
  bssLength : Int
  jumpTableLength : Int

/-- The fields stored in an image of the given format. -/
def readFields (version : Version) (image : Image) : Fields :=
  let field (i : Nat) : Int := (wordAt image i).toInt
  { instructionCount := field 1
    codeOffset := field 2
    codeLength := field 3
    dataOffset := field 4
    dataLength := field 5
    litLength := field 6
    bssLength := field 7
    jumpTableLength := match version with | .v1 => 0 | .v2 => field 8 }

/-- Where the literals end, and the jump table begins if there is one. -/
def Fields.litEnd (f : Fields) : Int := f.dataOffset + f.dataLength + f.litLength

/-- The first fault of the fields of an image of `length` bytes. -/
def Fields.fault? (f : Fields) (version : Version) (length : Int) : Option HeaderError :=
  if f.instructionCount < 0 then some .badInstructionCount
  else if f.codeOffset < version.headerSize ∨ length < f.codeOffset then some .badCodeOffset
  else if f.codeLength < 0 ∨ length < f.codeOffset + f.codeLength then some .badCodeLength
  else if f.codeLength < f.instructionCount then some .badInstructionCount
  else if f.dataOffset ≠ f.codeOffset + f.codeLength then some .badDataOffset
  else if f.dataLength < 0 ∨ f.dataLength % 4 ≠ 0 ∨ length < f.dataOffset + f.dataLength then
    some .badDataLength
  else if f.litLength < 0 ∨ length < f.litEnd then some .badLitLength
  -- The image ends with the literals, or with the jump table behind them.
  else if version = .v1 ∧ f.litEnd ≠ length then some .badLitLength
  else if version = .v2 ∧ (f.jumpTableLength < 0 ∨ f.jumpTableLength % 4 ≠ 0 ∨
      f.litEnd + f.jumpTableLength ≠ length) then some .badJumpTableLength
  else if f.bssLength < 0 ∨ (maxDataSize : Int) < f.dataLength + f.litLength + f.bssLength then
    some .badBssLength
  else none

/-- Read and validate the header of an image. -/
def parse (image : Image) : Except HeaderError Header := do
  let version ← readVersion image
  let f := readFields version image
  match f.fault? version image.length with
  | some e => .error e
  | none => .ok {
      version
      instructionCount := f.instructionCount.toNat
      codeOffset := f.codeOffset.toNat
      codeLength := f.codeLength.toNat
      dataOffset := f.dataOffset.toNat
      dataLength := f.dataLength.toNat
      litLength := f.litLength.toNat
      bssLength := f.bssLength.toNat
      jumpTableLength := f.jumpTableLength.toNat }

def size (h : Header) : Nat := h.version.headerSize

/-- The words of a header, as they are stored in an image. -/
def toWords (h : Header) : List Word :=
  let word (n : Nat) : Word := (UInt32.ofNat n).toInt32
  [h.version.magic.toInt32, word h.instructionCount, word h.codeOffset, word h.codeLength,
    word h.dataOffset, word h.dataLength, word h.litLength, word h.bssLength] ++
    match h.version with
    | .v1 => []
    | .v2 => [word h.jumpTableLength]

/-- The code region of an image with this header. -/
def codeRegion (h : Header) (image : Image) : List UInt8 :=
  (image.drop h.codeOffset).take h.codeLength

/-- The data region followed by the literals. -/
def dataRegion (h : Header) (image : Image) : List UInt8 :=
  (image.drop h.dataOffset).take (h.dataLength + h.litLength)

/-- The bytes of the jump table; none in the first format. -/
def jumpTableRegion (h : Header) (image : Image) : List UInt8 :=
  (image.drop (h.dataOffset + h.dataLength + h.litLength)).take h.jumpTableLength

/-- The size of data, literals and zeroed space together. -/
def staticSize (h : Header) : Nat := h.dataLength + h.litLength + h.bssLength

end Header

end SandboxVm
