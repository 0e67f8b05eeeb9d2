import JobShell.Controller

/-!
One line of input: finished jobs are reaped before and after, and in between the line is
read and run, or reported if it is no command list.
-/
namespace JobShell

def Context.perform (ctx : Context) (line : String) : Program (Flow × Context) :=
  match parse line with
  | .ok [] => return (.continue, ctx)
  | .ok list => runList list ctx
  | .error cause => do
    let e := ShellError.syntaxError cause
    complain e.message
    return (.continue, { ctx with lastStatus := e.status })

/-- Reads and runs one line. -/
def Context.evaluate (ctx : Context) (line : String) : Program (Flow × Context) := do
  Program.ask (.forget Signal.sigint)
  let ctx ← ctx.reap
  let (flow, ctx) ← ctx.perform line
  let ctx ← ctx.reap
  return (flow, ctx)

end JobShell
