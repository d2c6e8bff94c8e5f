import SandboxVm.Host.Syscalls
import SandboxVm.Text.Utf8

namespace SandboxVm.Cli

/-- The host data of a module run from the command line. -/
structure Console where
  /-- What has been printed, the latest first. -/
  printed : List String := []
  /-- Milliseconds since the start. -/
  elapsed : Word := 0

namespace Console

def output (c : Console) : String := String.join c.printed.reverse

def textAt (addr : Word) : Service Console String := do
  let bytes ← Service.cString addr
  pure (Text.decodeLossy bytes.data.toList)

def printText (args : List Word) : Service Console Word := do
  let text ← textAt (args.getD 0 0)
  .modifyData (fun c => { c with printed := text :: c.printed }) (pure 0)

def milliseconds (_ : List Word) : Service Console Word := .getData fun c => pure c.elapsed

def raise (args : List Word) : Service Console Word := do
  let text ← textAt (args.getD 0 0)
  .fail (Failure.ofMessage ("module error: " ++ text))

/-- The services for modules run from the command line. -/
def syscalls : Syscalls Console where
  entries := [
    { id := 0, name := "print", arity := 1, service := printText },
    { id := 1, name := "milliseconds", arity := 0, service := milliseconds },
    { id := 2, name := "error", arity := 1, service := raise }]

end Console

end SandboxVm.Cli
