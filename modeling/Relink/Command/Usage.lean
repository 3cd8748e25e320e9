import Relink.Version

/-!
# Usage

The text that is printed for those who ask for help.
-/

namespace Relink.Command

/-- What the program does, and how it is called. -/
def usage : String :=
  "Rewrite and check import specifiers in compiled package output

Usage: distfix [OPTIONS] [COMMAND]

Commands:
  version    Print version information
  transform  Rewrite import specifiers in the output directory
  compile    Compile the project with tsc, then transform its output
  clean      Delete the output directory
  declare    Bundle the type declarations into <out-dir>/index.d.ts with tsc
  prepare    Clean, then compile and transform, ready for publishing
  help       Print this message or the help of the given subcommand(s)

Options:
  -v, --verbose...     Increase logging verbosity (-v for DEBUG, -vv for TRACE)
      --json           Emit JSON formatted output (stable, machine-readable)
      --cwd <PATH>     Override the working directory
      --out-dir <DIR>  Compiler output directory, relative to the project root [env: DISTFIX_OUT_DIR=]
  -h, --help           Print help
  -V, --version        Print version"

end Relink.Command
