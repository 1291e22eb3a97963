import GenericTuring.CommandLine.Request

/-!
The usage lines and help texts of the command line.
-/

namespace GenericTuring.CommandLine

def programName : String := "gentm"

def versionNumber : String := "0.2.0"

def speaker : Option Command → String
  | none => programName
  | some c => programName ++ " " ++ c.word

def usage : Option Command → String
  | none => "usage: gentm [-h] [--version] [-v] <command> ...\n"
  | some .generate =>
    "usage: gentm generate [-h] [-o FILE] [--naming \x7bescape,ordinal\x7d] [--name NAME]\n" ++
    "                      [file]\n"
  | some .interactive => "usage: gentm interactive [-h] [--tape TEXT] [--max-steps N] [file]\n"
  | some .run => "usage: gentm run [-h] [--tape TEXT] [--max-steps N] [--trace] [file]\n"
  | some .check => "usage: gentm check [-h] [file]\n"

def explanation : Option Command → String
  | none =>
    "Compile, run and debug Turing machines with generic states.\n" ++
    "\n" ++
    "options:\n" ++
    "  -h, --help     show this help message and exit\n" ++
    "  --version      show program's version number and exit\n" ++
    "  -v, --verbose  Increase verbosity (-v info, -vv debug).\n" ++
    "\n" ++
    "commands:\n" ++
    "  <command>\n" ++
    "    generate     Emit turingmachinesimulator.com input\n" ++
    "    interactive  Run the machine in an interactive debugger\n" ++
    "    run          Run the machine on a tape\n" ++
    "    check        Parse and specialise without running\n" ++
    "\n" ++
    "examples:\n" ++
    "  gentm generate machine.tm -o machine.txt\n" ++
    "  gentm run machine.tm --tape 110\n" ++
    "  gentm interactive machine.tm --tape 110\n" ++
    "  gentm check machine.tm\n"
  | some .generate =>
    "positional arguments:\n" ++
    "  file                  Program file (default: '-' for stdin).\n" ++
    "\n" ++
    "options:\n" ++
    "  -h, --help            show this help message and exit\n" ++
    "  -o FILE, --output FILE\n" ++
    "                        Output file (\"-\" or omit for stdout).\n" ++
    "  --naming \x7bescape,ordinal\x7d\n" ++
    "                        How specialised states are named (default: escape).\n" ++
    "  --name NAME           Machine name written in the header.\n"
  | some .interactive =>
    "positional arguments:\n" ++
    "  file           Program file (default: '-' for stdin).\n" ++
    "\n" ++
    "options:\n" ++
    "  -h, --help     show this help message and exit\n" ++
    "\n" ++
    "runtime tuning:\n" ++
    "  --tape TEXT    Initial tape; spaces and _ are blank cells.\n" ++
    "  --max-steps N  Step cap (default: from RuntimeConfig).\n"
  | some .run =>
    "positional arguments:\n" ++
    "  file           Program file (default: '-' for stdin).\n" ++
    "\n" ++
    "options:\n" ++
    "  -h, --help     show this help message and exit\n" ++
    "  --trace        Print every applied transition.\n" ++
    "\n" ++
    "runtime tuning:\n" ++
    "  --tape TEXT    Initial tape; spaces and _ are blank cells.\n" ++
    "  --max-steps N  Step cap (default: from RuntimeConfig).\n"
  | some .check =>
    "positional arguments:\n" ++
    "  file        Program file (default: '-' for stdin).\n" ++
    "\n" ++
    "options:\n" ++
    "  -h, --help  show this help message and exit\n"

def helpText (command : Option Command) : String :=
  usage command ++ "\n" ++ explanation command

end GenericTuring.CommandLine
