import SandboxVm.Word

namespace SandboxVm

/-- A procedure: the instructions from an `enter` to its final `leave`. -/
structure Procedure where
  start : Nat
  last : Nat
  frameSize : Word
  /-- Whether the procedure contains a jump to a computed target. -/
  computed : Bool := false
  deriving DecidableEq

namespace Procedure

/-- Whether an instruction index lies in the procedure. -/
def contains (p : Procedure) (i : Nat) : Bool := p.start ≤ i && i ≤ p.last

/-- By bisection of `[lo, hi)`: the first position whose procedure starts after
index `i`, in an array ordered by start. -/
def upperBound (procs : Array Procedure) (i : Nat) (lo hi : Nat) : Nat :=
  if lo < hi then
    let mid := (lo + hi) / 2
    match procs[mid]? with
    | some p => if p.start ≤ i then upperBound procs i (mid + 1) hi else upperBound procs i lo mid
    | none => lo
  else lo
termination_by hi - lo
decreasing_by all_goals omega

/-- The last procedure that starts at or before index `i`. -/
def lastUpTo? (procs : Array Procedure) (i : Nat) : Option Procedure :=
  match upperBound procs i 0 procs.size with
  | 0 => none
  | n + 1 => procs[n]?

/-- The procedure that starts at an index, among procedures in code order. -/
def startingAt? (procs : Array Procedure) (i : Nat) : Option Procedure :=
  (lastUpTo? procs i).filter fun p => p.start == i

/-- The procedure around an index, among procedures in code order. -/
def containing? (procs : Array Procedure) (i : Nat) : Option Procedure :=
  (lastUpTo? procs i).filter fun p => p.contains i

end Procedure

end SandboxVm
