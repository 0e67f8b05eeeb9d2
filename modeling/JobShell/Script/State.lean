import JobShell.Script.Syntax
import JobShell.Utility.Process

/-!
What a script knows while it runs, and what it does after a command.
-/
namespace JobShell.Script

structure State where
  /-- Its name, as `$0` and in messages. -/
  name : String
  arguments : List String := []
  bindings : Environment := []
  /-- Names of the variables that programs are given. -/
  exported : List String := []
  status : Status := 0
  /-- The process it was started in, and the one that started it. -/
  self : Pid
  parent : Pid
  lastBackground : Option Pid := none
  /-- Processes in the background that were not waited for. -/
  children : List Pid := []
  /-- Commands to run on signals; 0 stands for the end of the script. No text means that the
  signal is ignored. -/
  traps : List (Signal × String) := []
  directory : String
  line : Nat := 1
  /-- Status of the last script whose output was taken, in the command at hand. -/
  captured : Option Status := none
  /-- The command or file whose text is being run, if it is not the script itself. -/
  within : Option String := none
  /-- Options that are set: `e`, `f`, `u` and `x`. -/
  options : List Char := []
  /-- What fails here is part of a condition. -/
  tested : Bool := false
  /-- Loops around the command at hand. -/
  depth : Nat := 0

inductive Flow where
  | next
  /-- Leaves this many loops. -/
  | leave (loops : Nat)
  /-- Goes on with the next turn of the loop that many levels up. -/
  | again (loops : Nat)
  /-- Ends the file that is being run. -/
  | back
  | exit
  deriving DecidableEq, Repr

abbrev Result := Program (State × Flow)

/-- Runs a text as commands, counting lines from the one that the state is at. The first
argument tells whether the process has nothing else to do afterwards. -/
abbrev Evaluator := Bool → String → State → Result

namespace State

def valueOf? (st : State) (name : String) : Option String := st.bindings.lookup name

def setVariable (st : State) (name value : String) : State :=
  { st with bindings := Utility.assign st.bindings name value }

def unset (st : State) (name : String) : State :=
  { st with
    bindings := st.bindings.filter fun v => v.1 != name
    exported := st.exported.filter (· != name) }

def share (st : State) (name : String) : State :=
  if st.exported.contains name then st else { st with exported := st.exported ++ [name] }

def environment (st : State) : Environment :=
  st.bindings.filter fun v => st.exported.contains v.1

/-- The value of a parameter, if it has one. -/
def parameter? (st : State) (name : String) : Option String :=
  match name with
  | "?" => some (toString st.status)
  | "#" => some (toString st.arguments.length)
  | "$" => some (toString st.self)
  | "!" => st.lastBackground.map toString
  | "-" => some (String.ofList (['e', 'f', 'x', 'u'].filter st.options.contains))
  | "0" => some st.name
  | "PPID" => some (toString st.parent)
  | "@" | "*" => if st.arguments.isEmpty then none else some (" ".intercalate st.arguments)
  | name =>
    match Utility.number? name with
    | some n => st.arguments[n - 1]?
    | none => st.valueOf? name

def separators (st : State) : String := (st.valueOf? "IFS").getD " \t\n"

/-- Whether a signal is to run a command. -/
def hasHandlers (st : State) : Bool := st.traps.any fun t => !t.2.isEmpty

def withStatus (st : State) (status : Status) : State := { st with status }

/-- Tells what is wrong, with the name of the script, the line, and what the line belongs to. -/
def complain (st : State) (text : String) : Program Unit :=
  let place := st.within.elim "" fun place => place ++ ": "
  Utility.tell s!"{st.name}: {st.line}: {place}{text}\n"

def proceed (st : State) (status : Status) : Result := return (st.withStatus status, .next)

def abort (st : State) (text : String) : Result := do
  st.complain text
  return (st.withStatus 2, .exit)

end State

/-- The words for a signal that ended a process. -/
def signalText (signal : Signal) : String :=
  let texts := ["Hangup", "Interrupt", "Quit", "Illegal instruction", "Trace/breakpoint trap",
    "Aborted", "Bus error", "Floating point exception", "Killed", "User defined signal 1",
    "Segmentation fault", "User defined signal 2", "Broken pipe", "Alarm clock", "Terminated",
    "Stack fault", "Child exited", "Continued", "Stopped (signal)", "Stopped",
    "Stopped (tty input)", "Stopped (tty output)", "Urgent I/O condition",
    "CPU time limit exceeded", "File size limit exceeded", "Virtual timer expired",
    "Profiling timer expired", "Window changed", "I/O possible", "Power failure",
    "Bad system call"]
  (texts[signal - 1]?).getD
    (if signal = 34 then "Real-time signal 0" else s!"Real-time signal {signal - 34}")

def waitFor (pid : Pid) : Program (Except Errno Status) := do
  match ← Program.retry (.wait pid {}) with
  | .error e => return .error e
  | .ok status =>
    match status with
    | .signaled signal =>
      if signal ≠ Signal.sigint ∧ signal ≠ Signal.sigpipe then
        Utility.tell (signalText signal ++ "\n")
    | _ => pure ()
    return .ok (status.status?.getD 0)

/-- In a new process: signals that would have run a command are left alone again. -/
def forgetHandlers (st : State) : Program State := do
  restore (st.traps.filter fun t => !t.2.isEmpty && t.1 != 0)
  return { st with traps := st.traps.filter (fun t => t.2.isEmpty), children := [] }
where
  restore : List (Signal × String) → Program Unit
    | [] => return ()
    | (signal, _) :: rest => do
      let _ ← Program.ask (.setDisposition signal .default)
      restore rest

/-- Ends the script, after the command that was set for it. -/
def finish (evaluate : Evaluator) (st : State) : Program Empty := do
  match st.traps.lookup 0 with
  | some text =>
    let (after, flow) ← evaluate false text
      { st with line := 1, traps := st.traps.filter (·.1 != 0) }
    .exit (if flow = .exit then after.status else st.status)
  | none => .exit st.status

/-- Starts a process for a part of the script. -/
def startPart (evaluate : Evaluator) (st : State) (prepare : Program Unit)
    (part : State → Result) : Program (Except Errno Pid) :=
  Program.start do
    prepare
    let (st, _) ← part (← forgetHandlers st)
    finish evaluate st

/-- Runs the commands for signals that have arrived. -/
def runTraps (evaluate : Evaluator) (st : State) (flow : Flow) : Result :=
  go (st.traps.filter fun t => !t.2.isEmpty && t.1 != 0) st flow
where
  go : List (Signal × String) → State → Flow → Result
    | [], st, flow => return (st, flow)
    | (signal, text) :: rest, st, flow => do
      if ← Program.ask (.hasArrived signal) then
        Program.ask (.forget signal)
        let (after, inner) ← evaluate false text { st with line := 1 }
        if inner = .exit then return (after, .exit)
        else go rest { after with status := st.status, line := st.line } flow
      else go rest st flow

end JobShell.Script
