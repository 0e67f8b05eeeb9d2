import JobShell.Kernel.State

/-!
Open files without descriptors, processes that end, and signals. A process that ends
gives its descriptors back and stays until its parent collects it; without a parent it
goes at once.
-/
namespace JobShell.Kernel

/-- Takes one end of a pipe away. -/
def dropEnd (k : Kernel) (access : Access) (id : PipeId) : Kernel :=
  k.updatePipe id fun pipe =>
    match access with
    | .read => { pipe with readers := pipe.readers - 1 }
    | .write => { pipe with writers := pipe.writers - 1 }
    | .readWrite => { pipe with readers := pipe.readers - 1, writers := pipe.writers - 1 }

/-- One more descriptor refers to an open file. -/
def retain (k : Kernel) (id : OpenId) : Kernel :=
  k.updateOpenFile id fun file => { file with references := file.references + 1 }

/-- One descriptor less refers to an open file. The last one gives up its end of a pipe. -/
def release (k : Kernel) (id : OpenId) : Kernel :=
  match k.openFile? id with
  | none => k
  | some file =>
    let k := k.updateOpenFile id fun file => { file with references := file.references - 1 }
    match file.subject with
    | .pipe pipe => if file.references = 1 then k.dropEnd file.access pipe else k
    | _ => k

/-- Gives back everything a process has open. -/
def releaseAll (k : Kernel) (p : Process) : Kernel :=
  let ids := p.files.values.map Slot.file ++ (p.opening.map Opening.file).toList
  ids.foldl release k

/-- Whether somebody is there to collect the process. -/
def hasParent (k : Kernel) (p : Process) : Bool :=
  match k.process? p.parent with
  | some parent => !parent.hasEnded
  | none => false

/-- Removes ended processes that nobody will collect. -/
def sweep (k : Kernel) : Kernel :=
  { k with processes := k.processes.filter fun p =>
      k.hasParent p || !p.hasEnded }

def terminate (k : Kernel) (p : Process) (status : WaitStatus) : Kernel :=
  let ended := { p with
    life := .ended status, files := {}, opening := none, wakeAt := none, held := [] }
  ((k.releaseAll p).setProcess ended).sweep

/-- What a signal does to a process that has not ended, with the group that the signal is
passed on to, if any. -/
def deliver (k : Kernel) (p : Process) (signal : Signal) : Kernel × Option Pid :=
  if signal = Signal.sigkill then (k.terminate p (.signaled signal), none)
  else if signal = Signal.sigstop then
    (if p.isStopped then k
      else k.setProcess { p with life := .stopped signal false }, none)
  else if p.isStopped then
    (k.setProcess { p with held := p.held ++ [signal] }, none)
  else if p.recorded.contains signal then
    (k.setProcess { p with arrived := signal :: p.arrived.filter (· != signal) },
      if signal = Signal.sigint then p.relay else none)
  else if p.ignored.contains signal then (k, none)
  else
    match Signal.effect signal with
    | .terminate => (k.terminate p (.signaled signal), none)
    | .stop => (k.setProcess { p with life := .stopped signal false }, none)
    | .ignore | .resume => (k, none)

/-- Lets a stopped process go on, with the signals that it missed. -/
def resume (k : Kernel) (p : Process) : Kernel :=
  if p.isStopped then
    let k := k.setProcess { p with life := .running, held := [] }
    p.held.foldl (fun k signal =>
      match k.process? p.pid with
      | some p => if p.hasEnded then k else (k.deliver p signal).1
      | none => k) k
  else k

/-- Sends a signal to one process, with the group that it is passed on to, if any. -/
def signalOne (k : Kernel) (pid : Pid) (signal : Signal) : Kernel × Option Pid :=
  match k.process? pid with
  | none => (k, none)
  | some p =>
    if p.hasEnded then (k, none)
    else if signal = 0 then (k, none)
    else if signal = Signal.sigcont then (k.resume p, none)
    else k.deliver p signal

def signalGroup (k : Kernel) (group : Pid) (signal : Signal) : Kernel :=
  (k.members group).foldl (fun k p => (k.signalOne p.pid signal).1) k

/-- Sends a signal to a process, and a recorded SIGINT on to the group that it is to reach. -/
def signalProcess (k : Kernel) (pid : Pid) (signal : Signal) : Kernel :=
  match k.signalOne pid signal with
  | (k, some group) => k.signalGroup group signal
  | (k, none) => k

/-- The system call: whether there is anybody to signal, and the signal. -/
def kill (k : Kernel) (target : Target) (signal : Signal) : Except Errno Unit × Kernel :=
  if 64 < signal then (.error .invalid, k)
  else
    match target with
    | .process pid =>
      match k.process? pid with
      | none => (.error .noProcess, k)
      | some _ => (.ok (), k.signalProcess pid signal)
    | .group group =>
      if k.processes.any fun p => p.group == group then
        (.ok (), k.signalGroup group signal)
      else (.error .noProcess, k)

end JobShell.Kernel
