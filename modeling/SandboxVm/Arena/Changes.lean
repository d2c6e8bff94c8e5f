import SandboxVm.Arena

namespace SandboxVm

/-- A maximal run of changed bytes. -/
structure ChangedRun where
  offset : Nat
  length : Nat
  sample : Array UInt8

/-- The changes between two states of an arena, in short. -/
structure Changes where
  count : Nat := 0
  runs : Array ChangedRun := #[]
  /-- A checksum of all changed offsets and new bytes. -/
  checksum : UInt32 := 2166136261
  current? : Option ChangedRun := none

namespace Changes

def maxRuns : Nat := 12

def maxSample : Nat := 32

/-- Feed one byte into the 32-bit FNV-1a checksum. -/
def mix (h : UInt32) (b : UInt8) : UInt32 := (h ^^^ b.toUInt32) * 16777619

/-- Feed a changed offset and its new byte into the checksum. -/
def mixChange (h : UInt32) (offset : Nat) (b : UInt8) : UInt32 :=
  let o := UInt32.ofNat offset
  mix (mix (mix (mix (mix h o.toUInt8) (o >>> 8).toUInt8) (o >>> 16).toUInt8) (o >>> 24).toUInt8) b

/-- End the current run. Only the first runs are kept. -/
def close (c : Changes) : Changes :=
  match c.current? with
  | none => c
  | some run =>
    { c with
      current? := none
      runs := if c.runs.size < maxRuns then c.runs.push run else c.runs }

def add (c : Changes) (offset : Nat) (b : UInt8) : Changes :=
  let run :=
    match c.current? with
    | none => { offset, length := 1, sample := #[b] }
    | some run =>
      { run with
        length := run.length + 1
        sample := if run.sample.size < maxSample then run.sample.push b else run.sample }
  { c with
    count := c.count + 1
    checksum := mixChange c.checksum offset b
    current? := some run }

/-- Compare two arenas from an offset on. -/
def scan (old new : Arena) (i : Nat) (c : Changes) : Changes :=
  if i < new.size then
    let b := new.byteAt i
    if old.byteAt i = b then
      match c.current? with
      | none => scan old new (i + 1) c
      | some _ => scan old new (i + 1) c.close
    else scan old new (i + 1) (c.add i b)
  else c.close
termination_by new.size - i

/-- The changes that lead from one arena to another of the same size. -/
def between (old new : Arena) : Changes := scan old new 0 {}

end Changes

end SandboxVm
