import JobShell.CommandList.Builder
import JobShell.Errno
import JobShell.Text.Path

/-!
What can go wrong when a line is run, the message for each failure, and the exit
status that a command ends with when it fails that way. None of them ends the shell.
-/
namespace JobShell

/-- A program that could not be found. -/
def statusNotFound : Status := 127
/-- A program that was found but could not be run. -/
def statusNotExecutable : Status := 126
/-- Redirections, built-ins and processes that could not be started. -/
def statusFailure : Status := 1
/-- A line that is no command list. -/
def statusSyntax : Status := 2

def SyntaxError.message : SyntaxError → String
  | missingTarget op => s!"missing file name after `{op}`"
  | unexpected op => s!"unexpected `{op}`"
  | unsupported token => s!"`{token}` is not supported"

/-- Why the system refused a path: with an error number, or because the path holds a
NUL and so names nothing. -/
inductive PathError where
  | system (cause : Errno)
  | nul
  deriving DecidableEq, Repr

def PathError.message : PathError → String
  | system cause => cause.numbered
  | nul => "file name contained an unexpected NUL byte"

/-- Failures that the shell process itself meets. -/
inductive ShellError where
  | syntaxError (cause : SyntaxError)
  | processStart (command : String) (cause : Errno)
  | nulArgument (word : String)
  | changeDir (path : Path) (cause : PathError)
  | builtin (message : String)
  | terminal (cause : Errno)
  deriving DecidableEq, Repr

namespace ShellError

def message : ShellError → String
  | syntaxError cause => s!"syntax error: {cause.message}"
  | processStart command cause => s!"{command}: cannot start process: {cause.labelled}"
  | nulArgument word => s!"{word}: argument contains a NUL byte"
  | changeDir path cause => s!"cd: {path.shown}: {cause.message}"
  | builtin message => message
  | terminal cause => s!"terminal control: {cause.labelled}"

def status : ShellError → Status
  | syntaxError _ => statusSyntax
  | _ => statusFailure

end ShellError

/-- Failures while a command gets its descriptors and its program: in a new process
the process reports them and ends, for a built-in the shell does. -/
inductive SetupError where
  | notFound (program : String)
  | notExecutable (program : String) (cause : Errno)
  | redirect (path : String) (cause : Errno)
  | step (name : String) (cause : Errno)
  deriving DecidableEq, Repr

namespace SetupError

def message : SetupError → String
  | notFound program => s!"{program}: command not found"
  | notExecutable program cause => s!"{program}: {cause.labelled}"
  | redirect path cause => s!"{path}: {cause.labelled}"
  | step name cause => s!"{name}: {cause.labelled}"

def status : SetupError → Status
  | notFound _ => statusNotFound
  | notExecutable .. => statusNotExecutable
  | redirect .. | step .. => statusFailure

end SetupError

end JobShell
