import SandboxVm.Cli.Command

namespace SandboxVm.Cli

def versionText : String := "qvm 0.1.0\n"

def Topic.lines : Topic → List String
  | .top => [
      "QVM module runtime",
      "",
      "Usage: qvm <COMMAND>",
      "",
      "Commands:",
      "  verify  Loads and verifies a module image",
      "  disas   Prints the verified instructions of a module image",
      "  run     Runs a module's entry point",
      "  help    Print this message or the help of the given subcommand(s)",
      "",
      "Options:",
      "  -h, --help     Print help",
      "  -V, --version  Print version"]
  | .verify => [
      "Loads and verifies a module image",
      "",
      "Usage: qvm verify <FILE>",
      "",
      "Arguments:",
      "  <FILE>  The module image",
      "",
      "Options:",
      "  -h, --help  Print help"]
  | .disas => [
      "Prints the verified instructions of a module image",
      "",
      "Usage: qvm disas [OPTIONS] <FILE>",
      "",
      "Arguments:",
      "  <FILE>  The module image",
      "",
      "Options:",
      "      --no-depths  Leave out operand-stack depths",
      "      --no-header  Leave out the header summary",
      "  -h, --help       Print help"]
  | .run => [
      "Runs a module's entry point",
      "",
      "Usage: qvm run [OPTIONS] <FILE> [ARGS]...",
      "",
      "Arguments:",
      "  <FILE>     The module image",
      "  [ARGS]...  Arguments to the entry point; the first is usually a command number",
      "",
      "Options:",
      "      --config <FILE>  Runtime configuration in TOML",
      "      --interpret      Always interpret, even when native code is available",
      "  -h, --help           Print help"]
  | .help => [
      "Print this message or the help of the given subcommand(s)",
      "",
      "Usage: qvm help [COMMAND]...",
      "",
      "Arguments:",
      "  [COMMAND]...  Print help for the subcommand(s)"]

def Topic.text (t : Topic) : String := String.join (t.lines.map (· ++ "\n"))

end SandboxVm.Cli
