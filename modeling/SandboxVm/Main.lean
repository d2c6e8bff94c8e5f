import SandboxVm.Cli.Basic

namespace SandboxVm.Cli

/-- The contents of a file, or the reason it cannot be read. -/
def readContents (path : String) : IO (Except String ByteArray) := do
  try
    return .ok (← IO.FS.readBinFile path)
  catch
    | .noFileOrDirectory .. => return .error "No such file or directory (os error 2)"
    | .inappropriateType .. => return .error "Is a directory (os error 21)"
    | e => return .error (toString e)

def Request.files : Request → List String
  | .command (.verify file) | .command (.disas file _ _) => [file]
  | .command (.run file _ config? _) => file :: config?.toList
  | _ => []

/-- Run until the call is over, printing along the way and keeping the clock. -/
partial def drive (i : Instance Console) (started : Nat) (t : Transition Console Activation) :
    IO (Console × CallResult) := do
  match Machine.run i.program i.syscalls 1000000 t with
  | .next s =>
    IO.print s.data.output
    let now ← IO.monoMsNow
    let data : Console := { elapsed := Int32.ofNat (now - started) }
    drive i started (.next { s with data })
  | .done _ data (.ok value) => return (data, .returned value)
  | .done _ data (.error failure) => return (data, .failed failure)
  | .crashed _ data => return (data, .crashed)

def finish (exit : Exit) : IO UInt32 := do
  IO.print exit.stdout
  IO.eprint exit.stderr
  return UInt32.ofNat exit.code

def perform (args : List String) : IO UInt32 := do
  let request := Request.ofArgs args
  let contents ← request.files.mapM fun path => do return (path, ← readContents path)
  let read : ReadFile := fun path => (contents.lookup path).getD (.error "")
  match request with
  | .command (.run file numbers config? interpret) =>
    match prepare false read file config? interpret {} with
    | .error exit => finish exit
    | .ok i =>
      let started ← IO.monoMsNow
      let first := Machine.call i.program i.syscalls i.store i.data [] numbers
      let (console, result) ← drive i started first
      finish (conclude file console.output result)
  | _ => finish (respond false read 0 args)

end SandboxVm.Cli

/-- Check, list or run a module image. -/
def main (args : List String) : IO UInt32 :=
  SandboxVm.Cli.perform args
