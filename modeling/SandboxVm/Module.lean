import SandboxVm.Decoding
import SandboxVm.Image.Header
import SandboxVm.Journal
import SandboxVm.Text.Path
import SandboxVm.Verification

/-!
A module is an image whose header, code and structure have been accepted.
-/

namespace SandboxVm

/-- Why an image is refused. -/
inductive LoadError where
  /-- The image could not be read from where it was expected. -/
  | unreadable (path reason : String)
  | header (error : HeaderError)
  | decode (error : DecodeError)
  | verify (error : VerifyError)
  deriving DecidableEq

namespace LoadError

/-- Which stage of loading failed. -/
def summary : LoadError → String
  | unreadable path _ => "failed to read module image `" ++ path ++ "`"
  | header _ => "invalid module header"
  | decode _ => "invalid module code"
  | verify _ => "module failed verification"

/-- Why it failed. -/
def cause : LoadError → String
  | unreadable _ reason => reason
  | header e => e.message
  | decode e => e.message
  | verify e => e.message

/-- What failed and why, outermost first. -/
def chain (e : LoadError) : List String := [e.summary, e.cause]

end LoadError

/-- A module whose image, code and structure have all been accepted. -/
structure Module where
  name : String
  header : Header
  code : Code
  /-- Initialised data followed by literals. -/
  data : List UInt8
  /-- The targets of computed jumps, if the image lists them. -/
  jumpTable? : Option (List Word)
  procedures : Array Procedure

namespace Module

/-- The targets of computed jumps, which only images of the second format list. -/
def readJumpTable? (header : Header) (image : Image) : Option (List Word) :=
  match header.version with
  | .v1 => none
  | .v2 => some (Word.listOfBytes (header.jumpTableRegion image))

/-- Turn an image into a module, or say why it is refused. -/
def load (name : String) (image : Image) : Except LoadError Module := do
  let header ← (Header.parse image).mapError .header
  let code ← (SandboxVm.decode (header.codeRegion image) header.instructionCount).mapError .decode
  let jumpTable? := readJumpTable? header image
  let verified ← (SandboxVm.verify code header.staticSize jumpTable?).mapError .verify
  return {
    name
    header
    code := verified.code
    data := header.dataRegion image
    jumpTable?
    procedures := verified.procedures }

/-- The procedure that starts at an instruction index. -/
def procedureAt? (m : Module) (i : Nat) : Option Procedure :=
  Procedure.startingAt? m.procedures i

/-- The procedure around an instruction index. -/
def procedureContaining? (m : Module) (i : Nat) : Option Procedure :=
  Procedure.containing? m.procedures i

/-- Whether a computed jump may go to a target from inside a procedure. -/
def isJumpTarget (m : Module) (p : Procedure) (target : Word) : Bool :=
  let t := target.toInt.toNat
  0 ≤ target && p.contains t &&
    match m.code[t]? with
    | some inst => inst.isTarget && inst.op != .enter
    | none => false

/-- The size of what the image puts into the arena. -/
def staticSize (m : Module) : Nat := m.header.staticSize

end Module

/-! ### Log records of the stages of loading -/

/-- A one-line summary of all header fields. -/
def Header.summary (h : Header) : String :=
  let version := match h.version with | .v1 => "V1" | .v2 => "V2"
  "Header \x7b version: " ++ version
    ++ ", instruction_count: " ++ toString h.instructionCount
    ++ ", code_offset: " ++ toString h.codeOffset
    ++ ", code_length: " ++ toString h.codeLength
    ++ ", data_offset: " ++ toString h.dataOffset
    ++ ", data_length: " ++ toString h.dataLength
    ++ ", lit_length: " ++ toString h.litLength
    ++ ", bss_length: " ++ toString h.bssLength
    ++ ", jtrg_length: " ++ toString h.jumpTableLength ++ " \x7d"

/-- What decoding logs when it succeeds. -/
def decodedRecord (code : Code) : LogRecord :=
  ⟨.debug, "decoded " ++ toString code.size ++ " instructions, final depth "
    ++ toString (finalDepth code)⟩

/-- What verification logs when it succeeds. -/
def verifiedRecord (v : Verified) : LogRecord :=
  ⟨.debug, "verified " ++ toString v.code.size ++ " instructions in "
    ++ toString v.procedures.size ++ " procedures"⟩

/-- What loading an image logs: one record for each stage it gets past. -/
def Module.loadRecords (name : String) (image : Image) : List LogRecord :=
  match Header.parse image with
  | .error _ => []
  | .ok header =>
    ⟨.debug, name ++ ": " ++ header.summary⟩ ::
      match SandboxVm.decode (header.codeRegion image) header.instructionCount with
      | .error _ => []
      | .ok code =>
        decodedRecord code ::
          match SandboxVm.verify code header.staticSize (Module.readJumpTable? header image) with
          | .error _ => []
          | .ok v => [verifiedRecord v,
              ⟨.debug, name ++ ": loaded " ++ toString v.code.size ++ " instructions, "
                ++ toString v.procedures.size ++ " procedures, "
                ++ toString header.staticSize ++ " bytes of static data"⟩]

end SandboxVm
