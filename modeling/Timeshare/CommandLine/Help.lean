import Timeshare.CommandLine.Options

/-!
# Help

What the program prints about itself, at length or in short, and its version.
-/

namespace Timeshare

namespace Help

def version : String := "process-simulator 0.1.0\n"

/-- What the help texts begin with. -/
def opening : String :=
  "Simulates process admission, round-robin scheduling and execution\n\n" ++
  "Usage: " ++ usageWith [] ++ "\n\n"

def summary : String :=
  opening ++
  "Arguments:\n" ++
  "  [SCRIPT]  Read commands from this file instead of standard input\n\n" ++
  "Options:\n" ++
  "      --core-dir <CORE_DIR>    Directory that receives `<name>.core` records. " ++
  "Without it each record\n" ++
  "                               is written next to its image\n" ++
  "      --output <OUTPUT>        Rendering for `plist` and `show` [default: human] " ++
  "[possible values:\n" ++
  "                               json, human]\n" ++
  "      --log-level <LOG_LEVEL>  Diagnostic log level written to stderr [default: warn]\n" ++
  "  -h, --help                   Print help (see more with '--help')\n" ++
  "  -V, --version                Print version\n"

def full : String :=
  opening ++
  "Arguments:\n" ++
  "  [SCRIPT]\n" ++
  "          Read commands from this file instead of standard input\n\n" ++
  "Options:\n" ++
  "      --core-dir <CORE_DIR>\n" ++
  "          Directory that receives `<name>.core` records. " ++
  "Without it each record is written next to\n" ++
  "          its image\n\n" ++
  "      --output <OUTPUT>\n" ++
  "          Rendering for `plist` and `show`\n\n" ++
  "          Possible values:\n" ++
  "          - json:  One JSON document per command\n" ++
  "          - human: Fixed-width tables and status reports\n" ++
  "          \n" ++
  "          [default: human]\n\n" ++
  "      --log-level <LOG_LEVEL>\n" ++
  "          Diagnostic log level written to stderr\n" ++
  "          \n" ++
  "          [default: warn]\n\n" ++
  "  -h, --help\n" ++
  "          Print help (see a summary with '-h')\n\n" ++
  "  -V, --version\n" ++
  "          Print version\n"

end Help

end Timeshare
