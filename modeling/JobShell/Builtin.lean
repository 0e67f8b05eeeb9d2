import JobShell.Context
import JobShell.Text.Numeral
import JobShell.Text.Word

/-!
The commands that run inside the shell: `cd` and `exit`. Their failures are reported
where they happen and end the command with status 1.
-/
namespace JobShell

/-- How a built-in command ended. -/
inductive Outcome where
  | status (code : Status)
  /-- The shell has to end. -/
  | exit (code : Status)
  deriving DecidableEq, Repr

def Outcome.code : Outcome → Status
  | status code | exit code => code

def isBuiltin (name : String) : Bool := name == "cd" || name == "exit"

/-- Where `cd` leads: to its argument, or home, or to the root if there is no home. -/
def Context.destination (ctx : Context) : Option String → Path
  | some path => .ofText path
  | none => ctx.home.getD (.ofText "/")

/-- Changes the working directory. -/
def changeDir (path : Option String) (ctx : Context) :
    Program (Except ShellError Outcome × Context) :=
  let path := ctx.destination path
  if path.hasNul then return (.error (.changeDir path .nul), ctx)
  else do
    match ← Program.ask (.changeDirectory path) with
    | .error e => return (.error (.changeDir path (.system e)), ctx)
    | .ok () =>
      let cwd ← Program.ask .workingDirectory
      return (.ok (.status 0), { ctx with cwd := cwd.toOption.getD path })

/-- The status that `exit` is given, 0 if none. -/
def exitStatus : Option String → Except ShellError Outcome
  | none => .ok (.exit 0)
  | some arg =>
    match Text.int32? arg with
    | some status => .ok (.exit status)
    | none => .error (.builtin s!"exit: {arg}: numeric argument required")

/-- Runs the built-in that the arguments name. -/
def tryBuiltin (argv : List String) (ctx : Context) :
    Program (Except ShellError Outcome × Context) :=
  match argv with
  | "cd" :: args => changeDir args.head? ctx
  | "exit" :: args => return (exitStatus args.head?, ctx)
  | _ =>
    let name := argv.head?.getD ""
    return (.error (.builtin s!"{name}: not a built-in"), ctx)

/-- Runs a built-in and reports its failure. -/
def runBuiltin (argv : List String) (ctx : Context) : Program (Outcome × Context) := do
  match ← tryBuiltin argv ctx with
  | (.ok outcome, ctx) => return (outcome, ctx)
  | (.error e, ctx) =>
    complain e.message
    return (.status statusFailure, ctx)

end JobShell
