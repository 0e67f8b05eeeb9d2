import JobShell.Options
import JobShell.System.Program

/-!
What the shell leaves to others: reading its arguments, finding the home directory, and
editing lines at the terminal.
-/
namespace JobShell

/-- What editing a line comes to. -/
inductive Typed where
  | line (text : String)
  /-- The line was dropped with an interrupt. -/
  | interrupted
  | ended
  | failed (message : String)
  deriving DecidableEq, Repr

structure Editor where
  State : Type
  /-- Sets the editor up, if it can be used at all. -/
  start : Program (Except String State)
  /-- Reads a history file, if there is one. -/
  load : Path → State → Program State
  edit : (prompt : String) → State → Program (Typed × State)
  /-- Adds a line to the history. -/
  remember : String → State → Program State
  /-- Writes the history to a file, if that is possible. -/
  save : Path → State → Program Unit

structure Libraries where
  /-- The options that arguments spell, or what is done instead of running the shell. -/
  parse : List String → Except (Program Empty) Options
  /-- The home directory of the user, given the environment. -/
  home : Environment → Option Path
  editor : Editor

end JobShell
