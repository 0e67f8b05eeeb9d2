import JobShell.Host.Session

/-!
Parts of the shell tried on a host of their own: the job table with real children, the
terminal with two groups, the dispositions of signals, the shell from start to end, and its
programs.
-/
namespace JobShell.Host

/-- What is done to a job table and to the processes in it. -/
inductive JobStep where
  /-- Adds a job. Each stage is a new process under a name, or none that there is. -/
  | add (stages : List (Option String)) (state : JobState) (group : Pid) (text : String)
  | delete (id : Nat)
  | kill (name : String)
  | stop (name : String)
  | reap

inductive JobReply where
  | added (id : Nat)
  | deleted (job : Option Job)
  | done (jobs : List Job)
  | nothing

structure JobTrial where
  host : Host
  table : JobTable := {}
  /-- The processes that were started, the last first. -/
  started : List (String × Pid) := []

/-- A number that no process has. -/
def nobody : Pid := 2147483647

namespace JobTrial

def start : JobTrial := { host := ({} : Surroundings).boot }

/-- Starts a process for each name. -/
def startStages (t : JobTrial) : List (Option String) → List Pid × JobTrial
  | [] => ([], t)
  | none :: stages =>
    let (pids, t) := t.startStages stages
    (nobody :: pids, t)
  | some name :: stages =>
    match t.host.run (Program.start idler) with
    | (some (.ok pid), host) =>
      let (pids, t) := { t with host, started := (name, pid) :: t.started }.startStages stages
      (pid :: pids, t)
    | (_, host) => { t with host }.startStages stages

def send (t : JobTrial) (name : String) (signal : Signal) : JobTrial :=
  match t.started.lookup name with
  | some pid => { t with host.machine.kernel := t.host.machine.kernel.signalProcess pid signal }
  | none => t

def step (t : JobTrial) : JobStep → JobReply × JobTrial
  | .add stages state group text =>
    let (pids, t) := t.startStages stages
    let (id, table) := t.table.add group pids state text
    (.added id, { t with table })
  | .delete id =>
    let (job, table) := t.table.delete id
    (.deleted job, { t with table })
  | .kill name => (.nothing, t.send name Signal.sigkill)
  | .stop name => (.nothing, t.send name Signal.sigstop)
  | .reap =>
    match t.host.run t.table.reap with
    | (some (done, table), host) => (.done done, { t with host, table })
    | (none, host) => (.nothing, { t with host })

/-- Replies to steps one after another, with the table after each. -/
def replies (t : JobTrial) : List JobStep → List (JobReply × JobTable)
  | [] => []
  | step :: steps =>
    let (reply, t) := t.step step
    (reply, t.table) :: t.replies steps

end JobTrial

/-- A group that the terminal can be given to. -/
inductive Group where
  | first
  | second
  | shell
  | missing
  deriving DecidableEq, Repr

/-- How the handle on the terminal is made. -/
inductive Opening where
  | terminal
  | detached
  /-- As with a terminal, when there is none. -/
  | absent
  deriving DecidableEq, Repr

inductive TerminalStep where
  /-- A group is given the foreground in another way than through the handle. -/
  | outside (group : Group)
  | set (group : Option Group)

structure TerminalReport where
  /-- What setting the foreground came to, if that was the step. -/
  outcome : Option (Except ShellError Unit)
  available : Bool
  ownGroup : Bool
  /-- The group that has the foreground, if it is one of those named. -/
  foreground : Option Group

structure TerminalTrial where
  host : Host
  terminal : Terminal
  first : Pid
  second : Pid

namespace TerminalTrial

/-- A process that leads a group. -/
def startGroup : Program Pid := do
  match ← Program.start idler with
  | .ok pid =>
    let _ ← Program.ask (.setGroup pid pid)
    return pid
  | .error _ => return nobody

def start (opening : Opening) : Option TerminalTrial :=
  let h := ({} : Surroundings).boot
  let (terminal, h) := (h.attach (opening ≠ .absent)).run do
    let _ ← Program.ask (.setDisposition Signal.sigttou .ignore)
    if opening = .detached then Terminal.detached else Terminal.openControlling
  let (groups, host) := (h.attach true).run do
    let first ← startGroup
    let second ← startGroup
    return (first, second)
  match terminal, groups with
  | some terminal, some (first, second) => some { host, terminal, first, second }
  | _, _ => none

def pidOf (t : TerminalTrial) : Group → Pid
  | .first => t.first
  | .second => t.second
  | .shell => t.host.driver
  | .missing => nobody

def groupOf (t : TerminalTrial) (pid : Pid) : Option Group :=
  [Group.first, .second, .shell].find? fun g => t.pidOf g == pid

/-- Gives a group the foreground through a handle of its own. -/
def giveForeground (group : Pid) : Program Unit := do
  match ← Program.ask (.openFile "/dev/tty" { access := .readWrite, closeOnExec := true } 0) with
  | .error _ => return ()
  | .ok fd =>
    let _ ← Program.ask (.setForeground fd group)
    let _ ← Program.ask (.close fd)

def step (t : TerminalTrial) : TerminalStep → Option (Except ShellError Unit) × TerminalTrial
  | .outside group =>
    let (_, host) := t.host.run (giveForeground (t.pidOf group))
    (none, { t with host })
  | .set group =>
    match t.host.run (t.terminal.setForeground (group.map t.pidOf)) with
    | (some (outcome, terminal), host) => (some outcome, { t with host, terminal })
    | (none, host) => (none, { t with host })

def reports (t : TerminalTrial) : List TerminalStep → List TerminalReport
  | [] => []
  | step :: steps =>
    let (outcome, t) := t.step step
    { outcome
      available := t.terminal.isAvailable
      ownGroup := t.terminal.shellGroup == t.host.driver
      foreground := t.groupOf t.host.machine.kernel.tty.foreground } :: t.reports steps

end TerminalTrial

/-- What is done to the dispositions of signals. -/
inductive DispositionStep where
  | install (signal : Signal) (disposition : Disposition)
  /-- Ignores signals and then does what a new process does about them. -/
  | resetForChild

inductive DispositionReport where
  | ignored (ignored : Bool)
  | refused (cause : Errno)
  /-- Whether it worked, and which signals are still ignored. -/
  | reset (ok : Bool) (stillIgnored : List Signal)

/-- Signals that are ignored before a reset. -/
def watchedSignals : List Signal :=
  [Signal.sigint, Signal.sigquit, Signal.sigpipe, Signal.sigtstp, Signal.sigttin,
   Signal.sigttou, Signal.sigterm, Signal.sighup]

def ignoreAll : List Signal → Program Unit
  | [] => return ()
  | signal :: signals => do
    let _ ← Program.ask (.setDisposition signal .ignore)
    ignoreAll signals

/-- Whether the driven process ignores a signal. -/
def ignores (h : Host) (signal : Signal) : Bool :=
  (h.process?.map fun p => p.ignored.contains signal).getD false

/-- The host as it was before a reset of dispositions is the host afterwards. -/
def dispositionStep (h : Host) : DispositionStep → DispositionReport × Host
  | .install signal disposition =>
    match h.run (Program.ask (.setDisposition signal disposition)) with
    | (some (.error e), h) => (.refused e, h)
    | (_, h) => (.ignored (h.ignores signal), h)
  | .resetForChild =>
    let (answer, after) := h.run do
      ignoreAll watchedSignals
      JobShell.resetForChild
    (.reset (answer matches some (.ok ())) (watchedSignals.filter after.ignores), h)

def dispositionReports (h : Host) : List DispositionStep → List DispositionReport
  | [] => []
  | step :: steps =>
    let (report, h) := dispositionStep h step
    report :: dispositionReports h steps

/-- Runs the shell in the driven process, with or without a controlling terminal, and settles.
There is no status if it waits in vain. -/
def runShellHere (s : Surroundings) (options : Options) (hasTerminal : Bool) (alive : Nat) :
    Option Status × Host :=
  let h := s.boot.attach hasTerminal
  let (answer, h) := h.run (runShell libraries options h.environment)
  (answer.map Prod.fst, (h.attach true).settle alive)

/-- Runs a program of the shell as a child, and how it ended. -/
def runProgramHere (s : Surroundings) (program : String) (args : List String) :
    Option WaitStatus × Host :=
  let h := s.boot
  let path := shellDirectory ++ "/" ++ program
  let (answer, h) := h.run do
    match ← Program.start (do
      let _ ← Program.ask (.exec path (program :: args) h.environment)
      .exit 127) with
    | .error _ => return none
    | .ok pid => return (← Program.retry (.wait pid {})).toOption
  (answer.join, h)

end JobShell.Host
