import JobShell.Context

/-!
Waiting for processes: in the foreground until every stage of a pipeline has ended or
stopped, in the background without ever blocking.
-/
namespace JobShell

/-- A wait as the shell can decode it. It cannot when the signal has no name. -/
def decodeWait : Except Errno WaitStatus → Except Errno WaitStatus
  | .ok (.signaled signal) =>
    if signal.isNamed then .ok (.signaled signal) else .error .invalid
  | .ok (.stopped signal) =>
    if signal.isNamed then .ok (.stopped signal) else .error .invalid
  | answer => answer

structure Waited where
  /-- Status of the last stage; none if it never started or could not be waited for. -/
  status : Option Status := none
  /-- Some stage was killed by SIGINT. -/
  interrupted : Bool := false
  /-- Stages that stopped instead of ending. -/
  stopped : List Pid := []
  deriving DecidableEq, Repr

/-- Takes in what waiting for the stage with number `pid` reported. -/
def Waited.note (w : Waited) (last : Option Pid) (pid : Pid) : Except Errno WaitStatus → Waited
  | .error _ => w
  | .ok report =>
    { status := if last = some pid then report.status? else w.status
      interrupted := w.interrupted || report == .signaled Signal.sigint
      stopped := match report with
        | .stopped _ => w.stopped ++ [pid]
        | _ => w.stopped }

/-- Waits for one process after the other until it has ended or stopped. -/
def waitFrom (last : Option Pid) (w : Waited) : List Pid → Program Waited
  | [] => return w
  | pid :: pids => do
    let report ← Program.retry (.wait pid { untraced := true })
    waitFrom last (w.note last pid (decodeWait report)) pids

/-- Waits for every started stage. -/
def waitStages (p : Pipeline) : Program Waited :=
  waitFrom (p.stages.getLast?.bind Stage.pid) {} p.pids

/-- The processes that are still there. One that has ended is thereby collected; one
that cannot be asked about is gone. -/
def stillThere : List Pid → Program (List Pid)
  | [] => return []
  | pid :: pids => do
    let keep ← match decodeWait (← Program.ask (.wait pid { noHang := true })) with
      | .ok report => pure (!report.isTerminated)
      | .error e => pure (e == .interrupted)
    let rest ← stillThere pids
    return if keep then pid :: rest else rest

/-- The processes of each job that are still there. -/
def collectEach : List Job → Program (List (List Pid))
  | [] => return []
  | job :: jobs => do
    let pids ← stillThere job.pids
    let left ← collectEach jobs
    return pids :: left

/-- Collects every stage that has ended and takes the jobs without stages off the table. -/
def JobTable.reap (t : JobTable) : Program (List Job × JobTable) := do
  let left ← collectEach t.values
  return (t.retain left).takeFinished

def announceDone : List Job → Program Unit
  | [] => return ()
  | job :: jobs => do
    printText 2 s!"[{job.id}] Done\t{job.text}\n"
    announceDone jobs

def Context.reap (ctx : Context) : Program Context := do
  let (done, jobs) ← ctx.jobs.reap
  if ctx.interactive then announceDone done
  return { ctx with jobs }

end JobShell
