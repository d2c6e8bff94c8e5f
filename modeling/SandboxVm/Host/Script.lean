import SandboxVm.Host.Syscalls

/-!
Services that follow a script and report what they have seen, for trying out
the boundary between a module and its host.
-/

namespace SandboxVm

/-- The start of a piece of memory that a scripted service has seen. -/
structure Sample where
  length : Nat
  bytes : List UInt8

def Sample.maxBytes : Nat := 32

def Sample.ofBytes (bytes : ByteArray) : Sample :=
  { length := bytes.size, bytes := (bytes.extract 0 maxBytes).data.toList }

/-- What a scripted service can report. -/
inductive HostEvent where
  | args (args : List Word)
  | trace (moduleName : String) (trace : CallTrace)
  | caught (failure : Failure) (depth : Nat)
  | sample (sample : Sample)

/-- The host data of scripted services: what they reported, the latest first,
and a running total. -/
structure HostReport where
  events : List HostEvent := []
  tag : Int64 := 0

/-- The behaviours of scripted services. Arguments that are missing count as
zero. -/
inductive Script where
  | const (value : Word)
  | sum
  | fail (text : String)
  | crash
  | trap (trap : Trap)
  /-- Add the first argument to the running total and return its low word. -/
  | tag
  | args
  | trace
  /-- Call the instance again with fixed arguments or the service's own. -/
  | call (args? : Option (List Word))
  /-- The same, with a note around a failure. -/
  | callContext (args? : Option (List Word)) (note : String)
  /-- The same, with a failure reported and replaced by a value. -/
  | callCatch (args? : Option (List Word)) (value : Word)
  | size
  | slice
  | fill
  | read (length : Nat)
  | write (bytes : List UInt8)
  | readWord
  | writeWord
  | cString

namespace Script

open Service

def report (e : HostEvent) : Service HostReport Unit :=
  modifyData (fun d => { d with events := e :: d.events }) (result ())

def reportBytes (bytes : ByteArray) : Service HostReport Unit :=
  report (.sample (Sample.ofBytes bytes))

def length (w : Word) : Nat := w.toUInt32.toNat

/-- The service a script describes. -/
def service (script : Script) (args : List Word) : Service HostReport Word :=
  let a₀ := args.getD 0 0
  let a₁ := args.getD 1 0
  let a₂ := args.getD 2 0
  match script with
  | .const value => pure value
  | .sum => pure (args.foldl (· + ·) 0)
  | .fail text => .fail (Failure.ofMessage text)
  | .crash => .crash
  | .trap t => .fail (Failure.ofTrap t)
  | .tag =>
    modifyData (fun d => { d with tag := d.tag + a₀.toInt64 }) <|
      getData fun d => pure d.tag.toInt32
  | .args => do
    report (.args args)
    pure (Int32.ofNat args.length)
  | .trace =>
    moduleName fun name => callTrace fun trace => do
      report (.trace name trace)
      pure (Int32.ofNat trace.depth)
  | .call args? => reenter (args?.getD args) fun
    | .ok value => pure value
    | .error failure => .fail failure
  | .callContext args? note => reenter (args?.getD args) fun
    | .ok value => pure value
    | .error failure => .fail (failure.addContext (.note note))
  | .callCatch args? value => reenter (args?.getD args) fun
    | .ok value => pure value
    | .error failure => callTrace fun trace => do
      report (.caught failure trace.depth)
      pure value
  | .size => arenaSize fun n => pure (Int32.ofNat n)
  | .slice => do
    let bytes ← readBytes a₀ (length a₁)
    reportBytes bytes
    pure (Int32.ofNat bytes.size)
  | .fill => do
    updateBytes a₀ (length a₁) (.fill a₂.toUInt32.toUInt8)
    pure a₀
  | .read n => do
    let bytes ← readBytes a₀ n
    reportBytes bytes
    pure (Int32.ofNat n)
  | .write bytes => do
    writeBytes a₀ ⟨bytes.toArray⟩
    pure (Int32.ofNat bytes.length)
  | .readWord => Service.readWord a₀
  | .writeWord => do
    Service.writeWord a₀ a₁
    pure 0
  | .cString => do
    let bytes ← Service.cString a₀
    reportBytes bytes
    pure (Int32.ofNat bytes.size)

end Script

end SandboxVm
