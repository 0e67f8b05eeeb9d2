import JobShell.Launch
import JobShell.Waiting

/-!
Running a command list, left to right. `&&` and `||` look at the status of the last
foreground pipeline that ran; one that is skipped leaves it untouched and so does one in
the background. A foreground pipeline has the terminal for as long as it runs. SIGINT,
whether it kills a foreground stage or reaches the shell, ends the list.
-/
namespace JobShell

inductive Flow where
  | continue
  /-- The shell ends, since `exit` ran. -/
  | exit (code : Status)
  deriving DecidableEq, Repr

/-- Whether a pipeline is reached, given the join of the one before it. -/
def reachable (before : Option Join) (lastStatus : Status) : Bool :=
  before.all fun join => join.admitsAfter lastStatus

/-- Records the processes of a pipeline as a job and announces it. -/
def detach (p : Pipeline) (pgid : Pid) (ctx : Context) : Program Context := do
  let (id, jobs) := ctx.jobs.add pgid p.pids .running p.text
  if ctx.interactive then printText 2 s!"[{id}] {pgid}\n"
  return { ctx with jobs }

/-- Records the stages that stopped as a job and announces it. -/
def suspend (p : Pipeline) (pgid : Pid) (stopped : List Pid) (ctx : Context) :
    Program Context := do
  let (id, jobs) := ctx.jobs.add pgid stopped .stopped p.text
  if ctx.interactive then printText 2 s!"\n[{id}] Stopped\t{p.text}\n"
  return { ctx with jobs }

/-- Gives the terminal to the group or, if that is refused, passes interrupts on to it. -/
def lend (pgid : Pid) (ctx : Context) : Program (Bool × Context) := do
  let (handed, terminal) ← ctx.terminal.setForeground (some pgid)
  let ctx := { ctx with terminal }
  match handed with
  | .ok () => return (true, ctx)
  | .error _ =>
    relayInterruptsTo (some pgid)
    return (false, ctx)

/-- Undoes `lend`. -/
def takeBack (handed : Bool) (ctx : Context) : Program Context := do
  if handed then
    let (_, terminal) ← ctx.terminal.setForeground none
    return { ctx with terminal }
  else
    relayInterruptsTo none
    return ctx

/-- Waits for a started pipeline in the foreground. The answer tells whether it was
interrupted. -/
def runForeground (p : Pipeline) (pgid : Pid) (ctx : Context) :
    Program (Bool × Pipeline × Context) := do
  let (handed, ctx) ← lend pgid ctx
  let waited ← waitStages p
  let ctx ← takeBack handed ctx
  let status := waited.status.getD statusFailure
  let p := { p with status := some status }
  let ctx := { ctx with lastStatus := status }
  let ctx ← if waited.stopped.isEmpty then pure ctx else suspend p pgid waited.stopped ctx
  return (waited.interrupted, p, ctx)

/-- What follows once one pipeline has been dealt with. -/
inductive Verdict where
  | next
  /-- The rest of the list is dropped. -/
  | abandon
  | exit (code : Status)
  deriving DecidableEq, Repr

/-- Sets the last status, unless the pipeline ran in the background. -/
def Context.setStatus (ctx : Context) (p : Pipeline) (status : Status) : Context :=
  if p.isBackground then ctx else { ctx with lastStatus := status }

def runReached (p : Pipeline) (ctx : Context) : Program (Verdict × Context) := do
  let (started, p, ctx) ← startPipeline p ctx
  match started with
  | .ok (.finished (.exit code)) => return (.exit code, ctx)
  | .ok (.finished (.status status)) => return (.next, ctx.setStatus p status)
  | .ok (.group pgid) =>
    if p.isBackground then
      return (.next, ← detach p pgid ctx)
    else
      let (interrupted, _, ctx) ← runForeground p pgid ctx
      return (if interrupted then .abandon else .next, ctx)
  | .error e =>
    complain e.message
    let _ ← waitStages p
    return (.next, ctx.setStatus p e.status)

/-- Runs pipelines, the one before which ended with `before`. -/
def runAfter (before : Option Join) (ctx : Context) : List Pipeline → Program (Flow × Context)
  | [] => return (.continue, ctx)
  | p :: ps => do
    if ← Program.ask (.hasArrived Signal.sigint) then return (.continue, ctx)
    else if reachable before ctx.lastStatus then
      match ← runReached p ctx with
      | (.next, ctx) => runAfter (some p.join) ctx ps
      | (.abandon, ctx) => return (.continue, ctx)
      | (.exit code, ctx) => return (.exit code, ctx)
    else runAfter (some p.join) ctx ps

def runList (list : CommandList) (ctx : Context) : Program (Flow × Context) :=
  runAfter none ctx list

end JobShell
