import JobShell.Terminal

/-!
Signals in the shell and in the processes it starts. The shell records SIGINT instead
of dying from it. While a foreground pipeline runs without the terminal, every SIGINT
that reaches the shell is passed on to the group of that pipeline.
-/
namespace JobShell

/-- Passes SIGINT on to `group` from now on, one that has already arrived included;
`none` stops that. -/
def relayInterruptsTo (group : Option Pid) : Program Unit := do
  Program.ask (.relayTo group)
  match group with
  | none => return ()
  | some pgid =>
    if ← Program.ask (.hasArrived Signal.sigint) then
      let _ ← Program.ask (.kill (.group pgid) Signal.sigint)

/-- Gives the first signals of a list their default, up to the first that refuses. -/
def setDefaults : List Signal → Program (Except Errno Unit)
  | [] => return .ok ()
  | signal :: signals => do
    match ← Program.ask (.setDisposition signal .default) with
    | .error e => return .error e
    | .ok () => setDefaults signals

/-- What a new process does about signals before it becomes a program. -/
def resetForChild : Program (Except Errno Unit) := setDefaults childDefaultSignals

/-- What the shell does about signals when it starts: SIGTTOU must not stop it when it
takes the terminal back, SIGINT is recorded, and the foreground is taken if allowed. -/
def Terminal.takeCharge (t : Terminal) : Program Terminal := do
  let _ ← Program.ask (.setDisposition Signal.sigttou .ignore)
  let _ ← Program.ask (.record Signal.sigint)
  let (_, t) ← t.setForeground none
  return t

end JobShell
