import JobShell.Text.Path

/-!
What the shell is asked to do on its command line.
-/
namespace JobShell

structure Options where
  /-- Print no prompt. -/
  quiet : Bool := false
  verbose : Bool := false
  /-- Hand the terminal to foreground jobs also when not interactive. -/
  monitor : Bool := false
  /-- A single line to run. -/
  command : Option String := none
  /-- The history file. -/
  history : Option String := none
  /-- A file to read lines from. -/
  script : Option String := none
  deriving DecidableEq, Repr

namespace Options

/-- The history file: as given, or in the home directory if there is one. -/
def historyPath (o : Options) (home : Option Path) : Option Path :=
  (o.history.map Path.ofText).or (home.map fun home => home.join ".jcsh_history")

/-- The least severe messages that are logged. -/
def logFilter (o : Options) : String := if o.verbose then "debug" else "warn"

end Options

end JobShell
