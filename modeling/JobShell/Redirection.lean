import JobShell.Context

/-!
Redirections at work. A new process opens the targets on its own descriptors. The
shell does the same on its own for a built-in, keeping copies of what it replaces, and
puts everything back afterwards, last replaced first.
-/
namespace JobShell

/-- Opens the target of a redirection on the descriptor of its stream. Whether the new
descriptor can be copied there or not, it is closed. -/
def Redirection.apply (r : Redirection) : Program (Except SetupError Unit) := do
  match ← Program.retry (.openFile r.target r.mode.flags 0o666) with
  | .error e => return .error (.redirect r.target e)
  | .ok fd =>
    if fd = r.stream.fd then return .ok ()
    else
      let moved ← Program.retry (.duplicate fd r.stream.fd)
      let _ ← Program.ask (.close fd)
      match moved with
      | .error e => return .error (.step "dup2" e)
      | .ok () => return .ok ()

/-- The same in a new process, which leaves the descriptor open when it cannot be copied:
the process ends anyway. -/
def Redirection.applyInStage (r : Redirection) : Program (Except SetupError Unit) := do
  match ← Program.retry (.openFile r.target r.mode.flags 0o666) with
  | .error e => return .error (.redirect r.target e)
  | .ok fd =>
    if fd = r.stream.fd then return .ok ()
    else
      match ← Program.retry (.duplicate fd r.stream.fd) with
      | .error e => return .error (.step "dup2" e)
      | .ok () =>
        let _ ← Program.ask (.close fd)
        return .ok ()

/-- Applies redirections in a new process, in order, up to the first that fails. -/
def applyRedirections : List Redirection → Program (Except SetupError Unit)
  | [] => return .ok ()
  | r :: rs => do
    match ← r.applyInStage with
    | .error e => return .error e
    | .ok () => applyRedirections rs

/-- A descriptor of the shell that was replaced, with the copy made of it; no copy
means that it was closed. -/
abbrev SavedFd := Fd × Option Fd

/-- The lowest descriptor for copies, above all that a redirection can name. -/
def firstSavedFd : Fd := 10

/-- Applies redirections to the shell's own descriptors, up to the first that fails.
`saved` lists what was replaced before, the last first. -/
def redirectShell (saved : List SavedFd) :
    List Redirection → Program (Except SetupError Unit × List SavedFd)
  | [] => return (.ok (), saved)
  | r :: rs => do
    let copy ← Program.ask (.duplicateFrom r.stream.fd firstSavedFd)
    let saved := (r.stream.fd, copy.toOption) :: saved
    match ← r.apply with
    | .error e => return (.error e, saved)
    | .ok () => redirectShell saved rs

def restoreShell : List SavedFd → Program Unit
  | [] => return ()
  | (fd, some copy) :: saved => do
    let _ ← Program.retry (.duplicate copy fd)
    let _ ← Program.ask (.close copy)
    restoreShell saved
  | (fd, none) :: saved => do
    let _ ← Program.ask (.close fd)
    restoreShell saved

end JobShell
