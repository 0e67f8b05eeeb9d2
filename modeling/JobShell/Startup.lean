import JobShell.Input
import JobShell.Libraries
import JobShell.Text.Blank

/-!
The shell as a whole: it starts, takes its lines from where the options say, and ends
with an exit status. Lines come from the option itself, from a script, from somebody
typing at a terminal, or from standard input as it is.
-/
namespace JobShell

/-- The status after a line was dropped with an interrupt. -/
def statusInterrupted : Status := 130

/-- One round of the interactive loop. The history learns a line before it is run. -/
def typedRound (editor : Editor) (quiet : Bool) (state : editor.State) (ctx : Context) :
    Program ((editor.State × Context) ⊕ (Status × editor.State × Context)) := do
  let prompt ← if quiet then pure "" else ctx.promptFor <$> Program.ask .processId
  match ← editor.edit prompt state with
  | (.line line, state) =>
    let state ← if line.toList.all Text.isBlank then pure state else editor.remember line state
    match ← ctx.evaluate line with
    | (.continue, ctx) => return .inl (state, ctx)
    | (.exit code, ctx) => return .inr (code, state, ctx)
  | (.interrupted, state) => return .inl (state, { ctx with lastStatus := statusInterrupted })
  | (.ended, state) => return .inr (ctx.lastStatus, state, ctx)
  | (.failed message, state) =>
    complain s!"error reading input: {message}"
    return .inr (1, state, ctx)

def Source.standard : Source := { fd := 0, closedIsEmpty := true }

/-- Reads typed lines to their end and keeps the history, unless the editor cannot be used. -/
def readTyped (editor : Editor) (quiet : Bool) (history : Option Path) (ctx : Context) :
    Program (Option (Status × Context)) := do
  match ← editor.start with
  | .error _ => return none
  | .ok state =>
    let state ← match history with
      | some path => editor.load path state
      | none => pure state
    let (status, state, ctx) ← Program.iterate
      (fun (state, ctx) => typedRound editor quiet state ctx) (state, ctx)
    match history with
    | some path => editor.save path state
    | none => pure ()
    return some (status, ctx)

def readScript (path : String) (ctx : Context) : Program (Status × Context) := do
  if Text.hasNul path then
    complain s!"{path}: {PathError.nul.message}"
    return (1, ctx)
  else
    match ← Program.retry (.openFile path { access := .read, closeOnExec := true } 0) with
    | .error e =>
      complain s!"{path}: {e.numbered}"
      return (1, ctx)
    | .ok fd =>
      let result ← readLines Context.evaluate true { fd } ctx
      let _ ← Program.ask (.close fd)
      return result

def startShell (options : Options) (environment : Environment) (home : Option Path) :
    Program Context := do
  let typed ← Program.ask (.isTerminal 0)
  let interactive := options.command.isNone && options.script.isNone && typed
  let terminal ← if interactive || options.monitor then Terminal.openControlling
    else Terminal.detached
  let ctx ← Context.create terminal interactive environment home
  let terminal ← ctx.terminal.takeCharge
  return { ctx with terminal }

/-- Evaluates the lines that the options ask for. -/
def readInput (editor : Editor) (options : Options) (ctx : Context) :
    Program (Status × Context) :=
  let readPlain := readLines Context.evaluate options.quiet .standard ctx
  match options.command, options.script with
  | some line, _ => do
    match ← ctx.evaluate line with
    | (.exit code, ctx) => return (code, ctx)
    | (.continue, ctx) => return (ctx.lastStatus, ctx)
  | none, some path => readScript path ctx
  | none, none =>
    if ctx.interactive then do
      match ← readTyped editor options.quiet (options.historyPath ctx.home) ctx with
      | some ended => return ended
      | none => readPlain
    else readPlain

def runShell (lib : Libraries) (options : Options) (environment : Environment) :
    Program (Status × Context) := do
  readInput lib.editor options (← startShell options environment (lib.home environment))

end JobShell
