import JobShell.Startup

/-!
The shell as a program: it reads its arguments, and its status is that of the process.
-/
namespace JobShell

/-- The command `jcsh [option...] [script]`. A pipe that nobody reads does not end the shell. -/
def commandLine (lib : Libraries) (args : List String) (environment : Environment) :
    Program Empty := do
  let _ ← Program.ask (.setDisposition Signal.sigpipe .ignore)
  match lib.parse args with
  | .error instead => instead
  | .ok options =>
    let (status, _) ← runShell lib options environment
    .exit status

end JobShell
