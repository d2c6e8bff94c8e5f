/-!
The call stack as it is recorded for diagnostics and for the limit on its depth.
-/

namespace SandboxVm

/-- A bounded record of the procedures on a call stack. The depth is exact;
procedures beyond the capacity are not recorded. -/
structure CallTrace where
  /-- Start indices of the recorded procedures, outermost first. -/
  entries : Array Nat := #[]
  capacity : Nat
  depth : Nat := 0
  /-- The depth before the latest call or return. -/
  previousDepth : Nat := 0
  deriving DecidableEq

namespace CallTrace

/-- An empty trace, if the space for its entries can be addressed. -/
def empty? (capacity : Nat) : Option CallTrace :=
  if 4 * capacity < 0x8000000000000000 then some { capacity } else none

/-- Record a call to the procedure that starts at an index. -/
def push (t : CallTrace) (procedure : Nat) : CallTrace :=
  { t with
    entries := if t.entries.size < t.capacity then t.entries.push procedure else t.entries
    previousDepth := t.depth
    -- Counted even where there is no room for an entry.
    depth := t.depth + 1 }

/-- Cut the trace down to a depth below the current one. -/
def truncate (t : CallTrace) (depth : Nat) : CallTrace :=
  if depth < t.depth then
    { t with entries := t.entries.shrink depth, previousDepth := t.depth, depth }
  else t

/-- Record the return of the innermost procedure. -/
def pop (t : CallTrace) : CallTrace := t.truncate (t.depth - 1)

end CallTrace

end SandboxVm
