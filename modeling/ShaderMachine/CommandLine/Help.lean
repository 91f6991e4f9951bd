import ShaderMachine.CommandLine.Arguments

/-!
# Help

The texts that explain the command line.
-/

namespace ShaderMachine.CommandLine

/-- The name and the version of the program. -/
def versionText : String := "shadevm 0.1.0\n"

/-- The overview of all verbs. -/
def overviewLines : List String := [
  "Run and inspect shader byte-code",
  "",
  "Usage: shadevm <COMMAND>",
  "",
  "Commands:",
  "  run     Execute one function of a program file",
  "  disasm  Print the instruction listing of a program file or raw .bin body",
  "  asm     Assemble text into a raw byte-code body",
  "  help    Print this message or the help of the given subcommand(s)",
  "",
  "Options:",
  "  -h, --help     Print help",
  "  -V, --version  Print version",
  "",
  "Set SHADEVM_TRACE=1 (or a filter such as shadevm::interp=trace) to log to stderr."]

/-- The arguments and options of a verb. -/
def verbLines : Verb → List String
  | .run => [
    "Execute one function of a program file",
    "",
    "Usage: shadevm run [OPTIONS] <FILE>",
    "",
    "Arguments:",
    "  <FILE>  Program manifest (.json, .toml, .yaml)",
    "",
    "Options:",
    "      --function <FUNCTION>    Function to run; defaults to \x60main\x60 or the only function",
    "      --args <ARGS>            Parameter slots, comma separated (ints, floats, 0x bits, true/false)",
    "      --inputs <INPUTS>        Input global slots, comma separated",
    "      --max-steps <MAX_STEPS>  Instruction budget; overrides SHADEVM_MAX_STEPS",
    "      --view <VIEW>            [default: int] [possible values: int, uint, float, bits]",
    "      --json                   Print a JSON object instead of plain lines",
    "  -h, --help                   Print help"]
  | .disasm => [
    "Print the instruction listing of a program file or raw .bin body",
    "",
    "Usage: shadevm disasm [OPTIONS] <FILE>",
    "",
    "Arguments:",
    "  <FILE>  ",
    "",
    "Options:",
    "      --function <FUNCTION>  ",
    "  -h, --help                 Print help"]
  | .asm => [
    "Assemble text into a raw byte-code body",
    "",
    "Usage: shadevm asm [OPTIONS] <FILE>",
    "",
    "Arguments:",
    "  <FILE>  ",
    "",
    "Options:",
    "  -o, --output <OUTPUT>  Output path; defaults to FILE with a .bin extension",
    "  -h, --help             Print help"]

/-- How to ask for help. -/
def helpLines : List String := [
  "Print this message or the help of the given subcommand(s)",
  "",
  "Usage: shadevm help [COMMAND]...",
  "",
  "Arguments:",
  "  [COMMAND]...  Print help for the subcommand(s)"]

def Topic.lines : Topic → List String
  | overview => overviewLines
  | verb v => verbLines v
  | help => helpLines

/-- The help on a topic. -/
def Topic.text (topic : Topic) : String := String.join (topic.lines.map fun line => line ++ "\n")

/-- What is said when the arguments make no sense. -/
def usageText : String := "error: invalid arguments\n\nFor more information, try '--help'.\n"

end ShaderMachine.CommandLine
