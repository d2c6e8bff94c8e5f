import SandboxVm.Instruction
import SandboxVm.Procedure

/-!
The static rules that code has to keep before any of it runs: depths within
their limits, procedures from an `enter` to a `push; leave`, jumps inside a
procedure to a statement boundary, calls to the start of a procedure, and
constant addresses inside the frame or the static data.
-/

namespace SandboxVm

/-- Size in bytes of the program stack of an instance. Frames are smaller. -/
def programStackSize : Nat := 0x10000

/-- The most operands a procedure can have on the operand stack. -/
def maxOperandSlots : Nat := 30

/-- How many argument words above its own frame a procedure may load. -/
def maxProcedureArgs : Nat := 64

/-- The rules of verification that code can break. -/
inductive VerifyFault where
  | stackUnderflow
  | stackOverflow
  | missingProcEnd
  | badEntryFrame
  | badReturnFrame
  | badOpStackAtReturn
  | badOpStackAtJump
  | badOpStackAtCall
  | jumpOutOfRange
  | badJumpTarget
  | selfLoop
  | badCallTarget
  | explicitEntryCall
  | badArgAddress
  | missingProcFrame
  | badLocalAddress
  | badLoadAddress
  | missingFinalReturn
  deriving DecidableEq

def VerifyFault.message : VerifyFault → String
  | stackUnderflow => "operand stack underflow"
  | stackOverflow => "operand stack overflow"
  | missingProcEnd => "missing procedure end"
  | badEntryFrame => "bad entry frame"
  | badReturnFrame => "bad return frame"
  | badOpStackAtReturn => "bad operand stack at return"
  | badOpStackAtJump => "bad operand stack at jump"
  | badOpStackAtCall => "bad operand stack at call"
  | jumpOutOfRange => "jump target out of range"
  | badJumpTarget => "bad jump target"
  | selfLoop => "jump to itself"
  | badCallTarget => "bad call target"
  | explicitEntryCall => "explicit call to the entry point"
  | badArgAddress => "bad argument address"
  | missingProcFrame => "instruction outside of a procedure frame"
  | badLocalAddress => "bad local address"
  | badLoadAddress => "bad load address"
  | missingFinalReturn => "missing final return"

/-- A broken rule and the instruction it was found at. -/
structure VerifyError where
  index : Nat
  fault : VerifyFault
  deriving DecidableEq

def VerifyError.message (e : VerifyError) : String :=
  e.fault.message ++ " at instruction " ++ toString e.index

/-- Code that passed verification, with its jump annotations and procedures. -/
structure Verified where
  code : Code
  procedures : Array Procedure
  deriving DecidableEq

namespace Verification

/-- Non-empty code ends in a `leave`. -/
def checkFinalReturn (code : Code) : Except VerifyError Unit :=
  match code.back? with
  | some last =>
    if last.op = .leave then .ok () else .error ⟨code.size - 1, .missingFinalReturn⟩
  | none => .ok ()

/-- A depth is at least zero and below the limit of a procedure. -/
def checkDepth (index : Nat) (depth : Int) : Except VerifyError Unit :=
  if depth < 0 then .error ⟨index, .stackUnderflow⟩
  else if (4 * maxOperandSlots : Nat) ≤ depth then .error ⟨index, .stackOverflow⟩
  else .ok ()

/-- The depth is within its limits in front of every instruction and after it. -/
def checkDepths (index : Nat) : List AnnotatedInstruction → Except VerifyError Unit
  | [] => .ok ()
  | inst :: rest => do
    checkDepth index inst.depth
    checkDepth index (inst.depth + inst.op.stackDelta)
    checkDepths (index + 1) rest

/-- Whether a `push` and a `leave` end at index `e`. -/
def endsAt (code : Code) (e : Nat) : Bool :=
  match code[e - 1]?, code[e]? with
  | some a, some b => a.op == .push && b.op == .leave
  | _, _ => false

/-- The first index from `e` on at which a `push` and a `leave` end. -/
def firstEnd? (code : Code) (e : Nat) : Option Nat :=
  if e < code.size then
    if endsAt code e then some e else firstEnd? code (e + 1)
  else none
termination_by code.size - e

/-- The index of the `leave` that ends the procedure entered at `start`. -/
def procedureEnd? (code : Code) (start : Nat) : Option Nat :=
  firstEnd? code (start + 2)

/-- What the scan of the code has seen so far. -/
structure Scan where
  current? : Option Procedure := none
  closed : Array Procedure := #[]
  /-- Whether a computed jump stands outside all procedures. -/
  looseJump : Bool := false

/-- A known jump target lies in the same procedure, between statements, and is
not an `enter`. -/
def checkJumpTarget (code : Code) (current? : Option Procedure) (index : Nat) (target : Int) :
    Except VerifyError Unit :=
  let inRange : Bool :=
    match current? with
    | some p => (p.start : Int) ≤ target && target ≤ p.last
    | none => 0 ≤ target && target < code.size
  if !inRange then .error ⟨index, .jumpOutOfRange⟩
  else
    match code[target.toNat]? with
    | some dest =>
      if dest.depth ≠ 0 ∨ dest.op = .enter then .error ⟨index, .badJumpTarget⟩ else .ok ()
    | none => .error ⟨index, .jumpOutOfRange⟩

/-- Check the instruction at `index` and move the scan past it. -/
def Scan.advance (code : Code) (staticSize : Nat) (s : Scan) (index : Nat)
    (inst : AnnotatedInstruction) : Except VerifyError Scan :=
  match inst.op with
  | .enter =>
    -- Procedures do not nest: an `enter` inside of one means that its end is missing.
    match s.current?, procedureEnd? code index with
    | some _, _ | none, none => .error ⟨index, .missingProcEnd⟩
    | none, some last =>
      let size := inst.operand.toInt
      if inst.depth ≠ 0 ∨ size < 0 ∨ (programStackSize : Int) ≤ size ∨ size % 4 ≠ 0 then
        .error ⟨index, .badEntryFrame⟩
      else .ok { s with current? := some { start := index, last, frameSize := inst.operand } }
  | .leave =>
    match s.current? with
    | none => .error ⟨index, .missingProcFrame⟩
    | some p =>
      if inst.operand ≠ p.frameSize then .error ⟨index, .badReturnFrame⟩
      else if inst.depth ≠ 4 then .error ⟨index, .badOpStackAtReturn⟩
      -- Any `leave` returns, and only the last one ends the procedure.
      else if index = p.last then .ok { s with current? := none, closed := s.closed.push p }
      else .ok s
  | .branch _ =>
    if inst.depth ≠ 8 then .error ⟨index, .badOpStackAtJump⟩
    else (checkJumpTarget code s.current? index inst.operand.toInt).map fun _ => s
  | .jump =>
    if code.isStaticJump index then
      if inst.operand.toInt = index then .error ⟨index, .selfLoop⟩
      else if inst.depth ≠ 4 then .error ⟨index, .badOpStackAtJump⟩
      else (checkJumpTarget code s.current? index inst.operand.toInt).map fun _ => s
    else if inst.depth ≠ 4 then .error ⟨index, .badOpStackAtJump⟩
    else
      match s.current? with
      | some p => .ok { s with current? := some { p with computed := true } }
      | none => .ok { s with looseJump := true }
  | .call =>
    if inst.depth < 4 then .error ⟨index, .badOpStackAtCall⟩
    else
      match code.constantBefore? index with
      | none => .ok s
      | some target =>
        -- A host service, of which nothing is known before the module runs.
        if target < 0 then .ok s
        else
          match code[target.toInt.toNat]? with
          | some callee =>
            if callee.op ≠ .enter then .error ⟨index, .badCallTarget⟩
            else if target = 0 then .error ⟨index, .explicitEntryCall⟩
            else .ok s
          | none => .error ⟨index, .badCallTarget⟩
  | .arg =>
    match s.current? with
    | none => .error ⟨index, .missingProcFrame⟩
    | some p =>
      let offset := inst.operand.toInt
      if offset < 8 ∨ p.frameSize.toInt - 4 < offset ∨ offset % 4 ≠ 0 then
        .error ⟨index, .badArgAddress⟩
      else .ok s
  | .localAddress =>
    match s.current? with
    | none => .error ⟨index, .missingProcFrame⟩
    | some p =>
      -- An address is only checked where it is loaded from at once.
      match code[index + 1]?.bind fun next => next.op.loadWidth? with
      | none => .ok s
      | some width =>
        let offset := inst.operand.toInt
        if offset < 0 ∨ p.frameSize.toInt + 8 + 4 * maxProcedureArgs < offset + width.bytes then
          .error ⟨index, .badLocalAddress⟩
        else .ok s
  | .load width =>
    match code.constantBefore? index with
    | none => .ok s
    | some addr =>
      if addr < 0 ∨ (staticSize : Int) < addr.toInt + width.bytes then
        .error ⟨index, .badLoadAddress⟩
      else .ok s
  | _ => .ok s

/-- Scan the code from an index on. -/
def Scan.run (code : Code) (staticSize : Nat) (s : Scan) (index : Nat) :
    List AnnotatedInstruction → Except VerifyError Scan
  | [] => .ok s
  | inst :: rest => do (← s.advance code staticSize index inst).run code staticSize (index + 1) rest

/-- Every listed jump target is an instruction between statements. A target
outside the code is reported at the nearest instruction. -/
def checkJumpTable (code : Code) : List Word → Except VerifyError Unit
  | [] => .ok ()
  | target :: rest =>
    let t := target.toInt
    if 0 ≤ t ∧ t < code.size then
      match code[t.toNat]? with
      | some inst =>
        if inst.depth ≠ 0 then .error ⟨t.toNat, .badJumpTarget⟩ else checkJumpTable code rest
      | none => checkJumpTable code rest
    else .error ⟨min t.toNat (code.size - 1), .jumpOutOfRange⟩

/-- The targets of the branches and of the jumps to constants. -/
def staticTargets (code : Code) : List Nat :=
  code.toList.zipIdx.filterMap fun (inst, i) =>
    if inst.op.isBranch || code.isStaticJump i then some inst.operand.toInt.toNat else none

/-- For each of `size` indices, whether it is listed. -/
def marks (size : Nat) (indices : List Nat) : Array Bool :=
  indices.foldl (fun m i => m.setIfInBounds i true) (Array.replicate size false)

/-- Whether a computed jump may land on an instruction at `index` when the image
lists no targets: any instruction between statements may be meant, in a
procedure with computed jumps or, if there are such jumps, outside of all. -/
def mayBeComputedTarget (scan : Scan) (index : Nat) (inst : AnnotatedInstruction) : Bool :=
  inst.depth == 0 &&
    match Procedure.containing? scan.closed index with
    | some p => p.computed && index != p.start
    | none => scan.looseJump

/-- Fill in the jump annotations of code that passed all checks. -/
def annotateJumps (code : Code) (scan : Scan) (jumpTable? : Option (List Word)) : Code :=
  let listed := jumpTable?.elim [] fun ts => ts.map fun t => t.toInt.toNat
  let targets := marks code.size (staticTargets code ++ listed)
  code.mapIdx fun i inst =>
    -- Annotations that are there already stay.
    { inst with
      isTarget := inst.isTarget || targets.getD i false ||
        (jumpTable?.isNone && mayBeComputedTarget scan i inst)
      computed := inst.computed ||
        match inst.op with
        | .jump => !code.isStaticJump i
        | .enter => ((Procedure.startingAt? scan.closed i).map (·.computed)).getD false
        | _ => false }

end Verification

/-- Verify code against the rules of the sandbox. `staticSize` bounds constant
load addresses; the optional list gives the targets of computed jumps. -/
def verify (code : Code) (staticSize : Nat) (jumpTable? : Option (List Word)) :
    Except VerifyError Verified := do
  Verification.checkFinalReturn code
  Verification.checkDepths 0 code.toList
  let scan ← Verification.Scan.run code staticSize {} 0 code.toList
  Verification.checkJumpTable code (jumpTable?.getD [])
  return { code := Verification.annotateJumps code scan jumpTable?, procedures := scan.closed }

end SandboxVm
