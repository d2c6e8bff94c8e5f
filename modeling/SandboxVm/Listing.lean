import SandboxVm.Module

/-!
The text of a module: a line for each instruction, a label for each procedure.
-/

namespace SandboxVm

/-- What a listing shows beside the instructions. -/
structure ListingOptions where
  /-- The operand-stack depth in front of each instruction. -/
  depths : Bool := true
  header : Bool := true

namespace Listing

/-- The comment lines about the module as a whole. -/
def headerLines (m : Module) : List String :=
  ["; module `" ++ m.name ++ "`: version " ++ toString m.header.version.number ++ ", "
      ++ toString m.code.size ++ " instructions, " ++ toString m.procedures.size ++ " procedures",
    "; data " ++ toString m.header.dataLength ++ " bytes, literals "
      ++ toString m.header.litLength ++ " bytes, bss " ++ toString m.header.bssLength ++ " bytes"] ++
    match m.jumpTable? with
    | some targets => ["; " ++ toString targets.length ++ " jump table targets"]
    | none => []

/-- The label that introduces a procedure, after an empty line. -/
def labelLines (p : Procedure) : List String :=
  ["", "proc_" ++ toString p.start ++ ": ; frame " ++ toString p.frameSize.toInt
    ++ (if p.computed then ", computed jumps" else "")]

/-- The line of an instruction: index, depth, mark of a jump target, and text. -/
def instructionLine (options : ListingOptions) (i : Nat) (inst : AnnotatedInstruction) : String :=
  let marker := if inst.isTarget then "> " else "  "
  Text.padLeft 8 (toString i) ++ " "
    ++ (if options.depths then Text.padLeft 4 (toString inst.depth) ++ " " else "")
    ++ marker ++ inst.text

/-- The lines of the instructions from index `i` on, each procedure's label in
front of its first instruction. -/
def bodyLines (options : ListingOptions) (i : Nat) :
    List AnnotatedInstruction → List Procedure → List String
  | [], _ => []
  | inst :: rest, [] => instructionLine options i inst :: bodyLines options (i + 1) rest []
  | inst :: rest, p :: procs =>
    if p.start = i then
      labelLines p ++ instructionLine options i inst :: bodyLines options (i + 1) rest procs
    else instructionLine options i inst :: bodyLines options (i + 1) rest (p :: procs)

/-- All lines of a listing. -/
def lines (options : ListingOptions) (m : Module) : List String :=
  (if options.header then headerLines m else []) ++
    bodyLines options 0 m.code.toList m.procedures.toList

end Listing

/-- The text of a module's instructions, one line each. -/
def listing (options : ListingOptions) (m : Module) : String :=
  String.join ((Listing.lines options m).map (· ++ "\n"))

end SandboxVm
