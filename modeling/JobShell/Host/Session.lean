import JobShell.Host.Surroundings

/-!
A session with a shell context on a host: lines and other steps one after another, each
with a report of what it came to.
-/
namespace JobShell.Host

/-- A process that never does anything. -/
def idler : Program Empty := do
  match ← Program.ask .pipe with
  | .ok (reading, _) =>
    let _ ← Program.retry (.read reading 1)
    .exit 0
  | .error _ => .exit 0

inductive Step where
  | line (text : String)
  /-- A built-in command, called directly. -/
  | builtin (argv : List String)
  | prompt
  | list
  | reap
  | kill
  | settle (alive : Nat)
  /-- Writes to a fifo in the directory that the shell started in, and settles. -/
  | feed (fifo text : String) (alive : Nat)
  /-- The shell gets a SIGINT. -/
  | interrupt

inductive Reply where
  | nothing
  | flow (flow : Flow)
  | outcome (outcome : Outcome)
  | prompt (text : String)
  /-- The shell is gone. -/
  | gone
  | list (size : Nat) (isEmpty : Bool)

structure Report where
  reply : Reply
  status : Status
  cwd : String
  jobs : Nat
  interrupted : Bool
  /-- What was written since the report before. -/
  output : ByteArray
  errors : ByteArray

/-- How the shell context of a session is made. -/
structure Setting where
  interactive : Bool := false
  /-- The context has the terminal, not a handle that controls nothing. -/
  monitor : Bool := false
  /-- There is no terminal when the context is made. -/
  withoutTerminal : Bool := false
  /-- Another process has the foreground. -/
  background : Bool := false
  status : Option Status := none
  /-- How many descriptors the shell may have. -/
  fileLimit : Option Nat := none

structure Session where
  host : Host
  context : Context

/-- Makes a process in a group of its own and gives it the foreground. -/
def giveForegroundAway (h : Host) : Host :=
  match h.run (do
    match ← Program.start idler with
    | .ok pid =>
      let _ ← Program.ask (.setGroup pid pid)
      return pid
    | .error _ => return h.driver) with
  | (some pid, h) => { h with machine.kernel.tty.foreground := pid }
  | (none, h) => h

def Setting.makeContext (s : Setting) (environment : Environment) : Program Context := do
  let terminal ← if s.monitor || s.withoutTerminal then Terminal.openControlling
    else Terminal.detached
  let ctx ← Context.create terminal s.interactive environment (home environment)
  return { ctx with lastStatus := s.status.getD 0 }

def Setting.start (s : Setting) (surroundings : Surroundings) : Option Session :=
  let h := surroundings.boot
  let h := if s.background then h.giveForegroundAway else h
  let (context, h) := (h.attach (!s.withoutTerminal)).run (s.makeContext h.environment)
  let (context, h) := match context with
    | some ctx => (h.attach true).run do
      return { ctx with terminal := ← ctx.terminal.takeCharge }
    | none => (none, h)
  context.map fun context =>
    { context
      host := match s.fileLimit with
        | some fileLimit => h.changeProcess fun p => { p with fileLimit }
        | none => h }

/-- Writes a text to a fifo, whatever comes of it. -/
def feedFifo (path text : String) : Program Unit := do
  match ← Program.retry (.openFile path { access := .write } 0) with
  | .error _ => return ()
  | .ok fd =>
    let _ ← Utility.put fd text.toUTF8
    let _ ← Program.ask (.close fd)

namespace Session

/-- Runs a program that changes the context. Nothing changes if it waits in vain. -/
def perform (s : Session) (program : Program (Reply × Context)) : Reply × Session :=
  match s.host.run program with
  | (some (reply, context), host) => (reply, { host, context })
  | (none, host) => (if host.isAlive then .nothing else .gone, { s with host })

def step (s : Session) : Step → Reply × Session
  | .line text => s.perform do
    let (flow, ctx) ← s.context.evaluate text
    return (.flow flow, ctx)
  | .builtin argv => s.perform do
    let (outcome, ctx) ← runBuiltin argv s.context
    return (.outcome outcome, ctx)
  | .prompt => (.prompt (s.context.promptFor s.host.driver), s)
  | .list => (.list s.context.jobs.size s.context.jobs.isEmpty, s)
  | .reap => s.perform do return (.nothing, ← s.context.reap)
  | .kill => (.nothing, { s with host := s.host.killChildren })
  | .settle alive => (.nothing, { s with host := s.host.settle alive })
  | .feed fifo text alive =>
    let (_, s) := s.perform do
      feedFifo (rootPath ++ "/" ++ fifo) text
      return (.nothing, s.context)
    (.nothing, { s with host := s.host.settle alive })
  | .interrupt =>
    let kernel := s.host.machine.kernel.signalProcess s.host.driver Signal.sigint
    (.nothing, { s with host.machine.kernel := kernel })

def interrupted (s : Session) : Bool :=
  (s.host.process?.map fun p => p.arrived.contains Signal.sigint).getD false

/-- A step with its report; what was written before is left out. -/
def reported (before : Session) (step : Step) : Report × Session :=
  let (reply, s) := before.step step
  let since (old new : ByteArray) : ByteArray := new.extract old.size new.size
  ({ reply
     status := s.context.lastStatus
     cwd := s.context.cwd.shown
     jobs := s.context.jobs.size
     interrupted := s.interrupted
     output := since before.host.outputText s.host.outputText
     errors := since before.host.errorText s.host.errorText }, s)

def reportAll (s : Session) : List Step → List Report × Session
  | [] => ([], s)
  | step :: steps =>
    let (report, s) := s.reported step
    let (reports, s) := s.reportAll steps
    (report :: reports, s)

/-- Ends a session: all children are killed, and the jobs stay as they are. -/
def finish (s : Session) : Session := { s with host := s.host.killChildren }

def jobs (s : Session) : List Job := s.context.jobs.values

end Session

end JobShell.Host
