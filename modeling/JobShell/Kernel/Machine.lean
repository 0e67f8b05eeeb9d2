import JobShell.Kernel.Perform
import JobShell.System.Program

/-!
The system with what its processes are about to do. One process, the one that somebody
sits in front of, is driven from outside; the others take turns whenever it has to wait.
The clock moves only when nobody can do anything else and somebody waits for it.
-/
namespace JobShell

open Kernel (Outcome)

abbrev Library := String → List String → Environment → Program Empty

structure Machine where
  kernel : Kernel
  /-- What each process does next. -/
  programs : List (Pid × Program Empty) := []

namespace Machine

def setProgram (m : Machine) (pid : Pid) (program : Program Empty) : Machine :=
  { m with programs := m.programs.map fun e => if e.1 == pid then (pid, program) else e }

/-- Forgets the programs of processes that are gone. -/
def tidy (m : Machine) : Machine :=
  { m with programs := m.programs.filter fun e =>
      match m.kernel.process? e.1 with
      | some p => !p.hasEnded
      | none => false }

def fork (m : Machine) (p : Kernel.Process) (child : Program Empty) : Pid × Machine :=
  let (pid, kernel) := m.kernel.spawn p
  (pid, { kernel, programs := m.programs ++ [(pid, child)] })

def isRunning (k : Kernel) (pid : Pid) : Bool :=
  match k.process? pid with
  | some p => p.isRunning
  | none => false

/-- Runs a process for at most `quantum` steps, until it has to wait. The answer tells
whether it has done anything, now or, as `did` says, before. -/
def runProcess (library : Library) (quantum : Nat) (did : Bool) (pid : Pid)
    (program : Program Empty) (m : Machine) : Bool × Machine :=
  match quantum with
  | 0 => (true, m.setProgram pid program)
  | quantum + 1 =>
    match m.kernel.process? pid with
    | none => (true, m)
    | some p =>
      if !p.isRunning then (true, m.setProgram pid program)
      else
        match program with
        | .done value => nomatch value
        | .exit status =>
          (true, { m with kernel := m.kernel.terminate p (.exited (status % 256)) })
        | .loop body state next => runProcess library quantum did pid (.unroll body state next) m
        | .fork child next =>
          let (child, m) := m.fork p child
          runProcess library quantum true pid (next (.ok child)) m
        | .call request next =>
          match m.kernel.perform p request with
          | .answer value kernel =>
            runProcess library quantum true pid (next value) { m with kernel }
          | .gone kernel => (true, { m with kernel })
          | .become name argv env kernel =>
            runProcess library quantum true pid (library name argv env) { m with kernel }
          | .block kernel moved =>
            (did || moved, { m with kernel }.setProgram pid (.call request next))

def quantum : Nat := 100

def turns (library : Library) : List Pid → Machine → Bool × Machine
  | [], m => (false, m)
  | pid :: pids, m =>
    let (moved, m) :=
      if isRunning m.kernel pid then
        match m.programs.lookup pid with
        | some program => runProcess library quantum false pid program m
        | none => (false, m)
      else (false, m)
    let (later, m) := turns library pids m
    (moved || later, m)

/-- One turn for every process that is not driven from outside. -/
def round (library : Library) (m : Machine) : Bool × Machine :=
  let (moved, m) := turns library (m.programs.map Prod.fst) m
  (moved, m.tidy)

/-- The next moment that a running process waits for. -/
def nextWake? (k : Kernel) : Option Nat :=
  ((k.processes.filter Kernel.Process.isRunning).filterMap Kernel.Process.wakeAt).min?

/-- Moves the clock to the next moment that somebody waits for. -/
def advance? (m : Machine) : Option Machine :=
  (nextWake? m.kernel).map fun time =>
    { m with kernel := { m.kernel with clock := max m.kernel.clock time } }

/-- Rounds until nobody does anything any more. -/
def idle (library : Library) : (rounds : Nat) → Machine → Machine
  | 0, m => m
  | rounds + 1, m =>
    match m.round library with
    | (true, m) => idle library rounds m
    | (false, m) => m

/-- Runs a program in the process that is driven from outside. There is no value if it
waits for something that will not happen, or ends the process. -/
def drive (library : Library) (driver : Pid) : (steps : Nat) → Program α → Machine →
    Option α × Machine
  | 0, _, m => (none, m)
  | steps + 1, program, m =>
    match m.kernel.process? driver with
    | none => (none, m)
    | some p =>
      if p.hasEnded then (none, m)
      else
        match program with
        | .done value => (some value, m)
        | .exit _ => (none, m)
        | .loop body state next => drive library driver steps (.unroll body state next) m
        | .fork child next =>
          let (child, m) := m.fork p child
          drive library driver steps (next (.ok child)) m
        | .call request next =>
          match m.kernel.perform p request with
          | .answer value kernel => drive library driver steps (next value) { m with kernel }
          | .gone kernel | .become _ _ _ kernel => (none, { m with kernel })
          | .block kernel _ =>
            match { m with kernel }.round library with
            | (true, m) => drive library driver steps (.call request next) m
            | (false, m) =>
              match m.advance? with
              | some m => drive library driver steps (.call request next) m
              | none => (none, m)

end Machine

end JobShell
