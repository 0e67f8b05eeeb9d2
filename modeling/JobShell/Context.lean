import JobShell.JobTable
import JobShell.System.Output
import JobShell.Terminal

/-!
What the shell remembers from one command to the next.
-/
namespace JobShell

structure Context where
  terminal : Terminal
  jobs : JobTable := {}
  /-- The working directory as of the last `cd`. -/
  cwd : Path
  /-- Status of the last foreground pipeline. -/
  lastStatus : Status := 0
  /-- Whether notices about jobs are printed. -/
  interactive : Bool := false
  environment : Environment := []
  /-- The home directory of the user, if one is known. -/
  home : Option Path := none
  deriving Repr

/-- The prompt of the shell with process number `pid`. -/
def Context.promptFor (ctx : Context) (pid : Pid) : String := s!"jcsh[{pid}]:{ctx.cwd.shown}:$ "

def Context.create (terminal : Terminal) (interactive : Bool) (environment : Environment)
    (home : Option Path) : Program Context := do
  let cwd ← Program.ask .workingDirectory
  return { terminal, interactive, environment, home, cwd := cwd.toOption.getD (.ofText "/") }

def complaint (message : String) : String := s!"jcsh: {message}\n"

def complain (message : String) : Program Unit := printText 2 (complaint message)

end JobShell
