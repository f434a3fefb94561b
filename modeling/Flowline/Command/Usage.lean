import Flowline.Command.Arguments

/-! What is shown where a command line asks for no command: the version, or how the commands are
used. Only a request is a success. -/

namespace Flowline.Command

def version : String := "weft 0.3.0"

def usage : String :=
  String.join [
    "Usage: weft [OPTIONS] <COMMAND>\n",
    "\nCommands:\n",
    "  run       Execute a workflow and stream its events\n",
    "  validate  Check a workflow and list its nodes in order\n",
    "  sign      Print a signed address of the model service\n",
    "  config    Show the configuration\n",
    "  help      Print this message\n",
    "\nOptions:\n",
    "  -c, --config <PATH>  Configuration file\n",
    "  -h, --help           Print this message\n",
    "  -V, --version        Print the version\n"]

namespace Refusal

/-- A request for help or for the version is met, so it is no failure. -/
def exitCode : Refusal → Nat
  | help | version => 0
  | misuse | bare => 2

def output : Refusal → String
  | help => usage
  | version => Command.version ++ "\n"
  | misuse | bare => ""

def errors : Refusal → String
  | misuse => "error: the arguments ask for no command\n\n" ++ usage
  | bare => usage
  | help | version => ""

end Refusal

end Flowline.Command
