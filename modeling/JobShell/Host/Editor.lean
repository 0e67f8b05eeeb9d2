import JobShell.Host.Arguments
import JobShell.Host.History
import JobShell.Libraries
import JobShell.Startup

/-!
The libraries of the shell on a host: its arguments, a home directory from the environment or
else the administrator's, and an editor that takes lines as the terminal hands them on.
-/
namespace JobShell.Host

/-- Shows the prompt and reads one line. -/
def editLine (prompt : String) (state : Source × History) :
    Program (Typed × Source × History) := do
  if !prompt.isEmpty then writeText 1 prompt
  match ← state.1.readLine with
  | (.ok none, source) => return (.ended, source, state.2)
  | (.ok (some line), source) => return (.line (History.withoutBreak line), source, state.2)
  | (.error e, source) => return (.failed e.message, source, state.2)

def editor : Editor where
  State := Source × History
  start := return .ok (.standard, {})
  load path state := return (state.1, ← loadHistory path.shown)
  edit := editLine
  remember line state := return (state.1, state.2.add line)
  save path state := saveHistory state.2 path.shown

/-- The home directory. An empty name in the environment counts as none. -/
def home (environment : Environment) : Option Path :=
  match environment.lookup "HOME" with
  | some path => if path.isEmpty then some (.ofText "/root") else some (.ofText path)
  | none => some (.ofText "/root")

def libraries : Libraries where
  parse args := (Options.ofArguments args).mapError UsageError.report
  home
  editor

end JobShell.Host
