import JobShell.Builtin
import JobShell.Interrupt
import JobShell.Redirection

/-!
Starting pipelines. Every stage becomes a process of its own, all of them in one
group, stage `i` writing into pipe `i` and reading from pipe `i - 1`. A lone built-in
runs inside the shell instead, as in a process of its own it would be without effect.
-/
namespace JobShell

inductive Started where
  /-- Its processes run in this group. -/
  | group (pgid : Pid)
  /-- A built-in ran inside the shell and is done. -/
  | finished (outcome : Outcome)
  deriving DecidableEq, Repr

/-- The words that must not contain a NUL, in the order in which they are checked. -/
def Stage.words (s : Stage) : List String := s.redirections.map (·.target) ++ s.argv

def Stage.isBuiltin (s : Stage) : Bool := s.program?.any JobShell.isBuiltin

def nulWord? (stages : List Stage) : Option String :=
  Text.firstWithNul? (stages.flatMap Stage.words)

/-- Runs a lone built-in. A redirection that fails ends the command before it runs. -/
def runInShell (stage : Stage) (ctx : Context) :
    Program (Except ShellError Outcome × Context) :=
  match nulWord? [stage] with
  | some word => return (.error (.nulArgument word), ctx)
  | none => do
    let (applied, saved) ← redirectShell [] stage.redirections
    match applied with
    | .ok () =>
      let (outcome, ctx) ← runBuiltin stage.argv ctx
      restoreShell saved
      return (.ok outcome, ctx)
    | .error e =>
      restoreShell saved
      complain e.message
      return (.ok (.status e.status), ctx)

/-- The ends of a pipe: where it is read and where it is written. -/
abbrev PipeEnds := Fd × Fd

def closePipes : List PipeEnds → Program Unit
  | [] => return ()
  | (reading, writing) :: pipes => do
    let _ ← Program.ask (.close reading)
    let _ ← Program.ask (.close writing)
    closePipes pipes

/-- Makes `count` pipes behind those made before; when that fails all are closed. -/
def openPipes (made : List PipeEnds) : Nat → Program (Except Errno (List PipeEnds))
  | 0 => return .ok made
  | count + 1 => do
    match ← Program.retry .pipe with
    | .ok ends => openPipes (made ++ [ends]) count
    | .error e =>
      closePipes made
      return .error e

/-- Copies a pipe end to a standard descriptor; no end, nothing to do. -/
def connect (source : Option Fd) (target : Fd) : Program (Except SetupError Unit) :=
  match source with
  | none => return .ok ()
  | some fd => do
    match ← Program.retry (.duplicate fd target) with
    | .error e => return .error (.step "dup2" e)
    | .ok () => return .ok ()

/-- What a new process does before it becomes its program: it joins the group, takes
the default signals, connects its pipes, closes all their other ends and applies the
redirections of its stage. -/
def setUpStage (index : Nat) (stage : Stage) (pipes : List PipeEnds) (group : Option Pid) :
    Program (Except SetupError Unit) := do
  let _ ← Program.ask (.setGroup 0 (group.getD 0))
  let reading := if stage.role.reads && 0 < index then (pipes[index - 1]?).map Prod.fst else none
  let writing := if stage.role.writes then (pipes[index]?).map Prod.snd else none
  match ← resetForChild with
  | .error e => return .error (.step "sigaction" e)
  | .ok () =>
    match ← connect reading 0 with
    | .error e => return .error e
    | .ok () =>
      match ← connect writing 1 with
      | .error e => return .error e
      | .ok () =>
        closePipes pipes
        applyRedirections stage.redirections

/-- Becomes the program of the stage; what comes back is why that failed. -/
def execStage (stage : Stage) (environment : Environment) : Program SetupError := do
  match stage.argv with
  | [] => return .notFound ""
  | name :: args =>
    let e ← Program.ask (.execSearch name (name :: args) environment)
    if e = .noEntry ∨ e = .notDirectory then return .notFound name
    else return .notExecutable name e

/-- The life of a stage's process. What goes wrong before its program runs is written to
standard error if that can be done, and becomes its status. -/
def stageProcess (index : Nat) (stage : Stage) (pipes : List PipeEnds) (group : Option Pid)
    (ctx : Context) : Program Empty := do
  match ← setUpStage index stage pipes group with
  | .error e => fail e
  | .ok () =>
    if stage.isBuiltin then
      let (outcome, _) ← runBuiltin stage.argv ctx
      Program.exit outcome.code
    else
      fail (← execStage stage ctx.environment)
where
  fail (e : SetupError) : Program Empty := do
    writeText 2 (complaint e.message)
    Program.exit e.status

/-- Starts the stages from `index` on. Both the shell and the new process put the process
into the group, since either may come first; the first stage founds the group. -/
def startStages (pipes : List PipeEnds) (ctx : Context) (index : Nat) (group : Option Pid) :
    List Stage → Program (Except Errno Unit × Option Pid × List Stage)
  | [] => return (.ok (), group, [])
  | stage :: stages => do
    match ← Program.start (stageProcess index stage pipes group ctx) with
    | .error e => return (.error e, group, stage :: stages)
    | .ok child =>
      let founder := group.getD child
      let _ ← Program.ask (.setGroup child founder)
      let (result, group, rest) ← startStages pipes ctx (index + 1) (some founder) stages
      return (result, group, { stage with pid := some child } :: rest)

/-- Starts every stage in a new process, without waiting for any. -/
def startProcesses (p : Pipeline) (ctx : Context) :
    Program (Except ShellError Started × Pipeline) := do
  match nulWord? p.stages with
  | some word => return (.error (.nulArgument word), p)
  | none =>
    match ← openPipes [] (p.stages.length - 1) with
    | .error e => return (.error (.processStart p.text e), p)
    | .ok pipes =>
      let (result, group, stages) ← startStages pipes ctx 0 none p.stages
      closePipes pipes
      let started := { p with stages, group }
      match result, group with
      | .error e, _ => return (.error (.processStart p.text e), started)
      | .ok (), some pgid => return (.ok (.group pgid), started)
      | .ok (), none => return (.error (.processStart p.text .invalid), started)

def startPipeline (p : Pipeline) (ctx : Context) :
    Program (Except ShellError Started × Pipeline × Context) := do
  match p.stages with
  | [stage] =>
    if stage.isBuiltin then
      let (outcome, ctx) ← runInShell stage ctx
      return (outcome.map .finished, p, ctx)
    else
      let (started, p) ← startProcesses p ctx
      return (started, p, ctx)
  | _ =>
    let (started, p) ← startProcesses p ctx
    return (started, p, ctx)

end JobShell
