import Lipi.CommandLine.Arguments

/-!
# Help

The texts that explain the command line.
-/

namespace Lipi.CommandLine

/-- The program's name and version. -/
def versionText : String := "sutra 0.1.0\n"

/-- What a level is for. -/
def Level.about : Level → String
  | top => "Compile and run sutra programs"
  | run => "Compile a program and execute it"
  | compile => "Print the JavaScript generated for a program"

/-- The form of the arguments. -/
def Level.usage : Level → String
  | top => "sutra [OPTIONS] <COMMAND>"
  | run => "sutra run [OPTIONS] <path>"
  | compile => "sutra compile [OPTIONS] <path>"

/-- What the arguments other than options mean. -/
def Level.operands : Level → String
  | top => "Commands:\n" ++
    "  run      " ++ run.about ++ "\n" ++
    "  compile  " ++ compile.about ++ "\n" ++
    "  help     Print this message or the help of the given subcommand(s)\n"
  | run | compile => "Arguments:\n  <path>  Path to the .skt file\n"

/-- An option with what it does. -/
def Switch.describe : Switch → String
  | verbose => "  -v, --verbose...                     Increase logging verbosity (-v, -vv, -vvv)\n"
  | quiet => "  -q, --quiet                          Only log errors\n"
  | settingsFile => "      --config <config>                " ++
    "Configuration file layered over the defaults and sutra.toml\n"
  | loopTracking => "      --loop-tracking <loop-tracking>  " ++
    "How break/continue placement is checked [possible values: block-stack, counter]\n"
  | format => "  -f, --format <format>                " ++
    "Output format [default: js] [possible values: js, json]\n"
  | help => "  -h, --help                           Print help\n"
  | version => "  -V, --version                        Print version\n"

/-- The explanation of a level. -/
def helpText (level : Level) : String :=
  level.about ++ "\n\nUsage: " ++ level.usage ++ "\n\n" ++ level.operands ++ "\nOptions:\n" ++
    String.join (level.options.map Switch.describe)

end Lipi.CommandLine
