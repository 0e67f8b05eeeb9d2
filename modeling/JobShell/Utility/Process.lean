import JobShell.System.Program
import JobShell.Text.Numeral
import JobShell.Signal
import JobShell.Utility.Basic

/-!
Utilities about the process itself: `true`, `false`, `sleep`, `env`, `stty`, and two to try
job control with, `myint` and `myspin`.
-/
namespace JobShell.Utility

/-- Milliseconds in a time such as `5`, `0.5` or `2m`, rounded up. -/
def milliseconds? (text : String) : Option Nat :=
  let cs := text.toList
  let (cs, unit) := match cs.getLast? with
    | some 's' => (cs.dropLast, 1)
    | some 'm' => (cs.dropLast, 60)
    | some 'h' => (cs.dropLast, 3600)
    | some 'd' => (cs.dropLast, 86400)
    | _ => (cs, 1)
  let whole := cs.takeWhile (· != '.')
  let places := (cs.drop (whole.length + 1))
  if whole.isEmpty && places.isEmpty then none
  else
    let digits := String.ofList (whole ++ places)
    (number? digits).map fun n =>
      let scale := Nat.pow 10 places.length
      (n * unit * 1000 + scale - 1) / scale

def sleep (utility : String) (args : Arguments) : Program Status :=
  withOptions utility "" "" args 1 fun request =>
    match request.operands, request.operands.find? fun t => (milliseconds? t).isNone with
    | [], _ => misuse utility "missing operand" 1
    | _, some text => misuse utility s!"invalid time interval '{text}'" 1
    | times, none => do
      Program.ask (.sleep ((times.filterMap milliseconds?).foldl (· + ·) 0))
      return 0

def assign (env : Environment) (name value : String) : Environment :=
  if env.any fun v => v.1 == name then
    env.map fun v => if v.1 == name then (name, value) else v
  else env ++ [(name, value)]

/-- What `env` is asked for: an environment and a command to run in it. -/
def environmentFor (env : Environment) : Arguments → Environment × Arguments
  | [] => (env, [])
  | [arg] =>
    if arg = "-i" || arg = "-" then ([], []) else assignment env arg []
  | arg :: name :: args =>
    if arg = "-i" || arg = "-" then environmentFor [] (name :: args)
    else if arg = "-u" then environmentFor (env.filter fun v => v.1 != name) args
    else if arg.contains '=' then
      environmentFor (assignment env arg []).1 (name :: args)
    else (env, arg :: name :: args)
where
  assignment (env : Environment) (arg : String) (rest : Arguments) : Environment × Arguments :=
    match arg.splitOn "=" with
    | name :: value :: values => (assign env name ("=".intercalate (value :: values)), rest)
    | _ => (env, arg :: rest)

/-- The utility `env [-i] [-u name] [name=value...] [command [argument...]]` -/
def env (utility : String) (environment : Environment) (args : Arguments) :
    Program Status :=
  match environmentFor environment args with
  | (environment, []) => do
    let lines := environment.map fun (name, value) => name ++ "=" ++ value ++ "\n"
    let status ← deliver utility (String.join lines).toUTF8 0
    return if status = 0 then 0 else 125
  | (environment, command :: args) => do
    let e ← Program.ask (.execSearch command (command :: args) environment)
    tell s!"{utility}: '{command}': {e.sentence}\n"
    return if e = .noEntry then 127 else 126

def stty (utility : String) (args : Arguments) : Program Status := do
  if !(← Program.ask (.isTerminal 0)) then
    tell s!"{utility}: 'standard input': {Errno.notTerminal.sentence}\n"
    return 1
  else if args.isEmpty then
    deliver utility "speed 38400 baud; line = 0;\n-echo\n".toUTF8 0
  else
    match ← Program.ask (.setModes 0) with
    | .ok () => return 0
    | .error e =>
      tell s!"{utility}: 'standard input': {e.sentence}\n"
      return 1

def withSeconds (name : String) (args : Arguments) (body : Nat → Program Status) :
    Program Status :=
  match args with
  | [text] =>
    match Text.word64? text with
    | some n => body n
    | none => do
      tell "Error: <n> must be a non-negative integer\n"
      return 2
  | _ => do
    tell s!"Usage: {name} <n>\n"
    return 2

/-- The utility `myint n`: interrupts itself after `n` seconds. -/
def myint (name : String) (args : Arguments) : Program Status :=
  withSeconds name args fun n => do
    Program.ask (.sleep (1000 * n))
    let self ← Program.ask .processId
    match ← Program.ask (.kill (.process self) Signal.sigint) with
    | .error e =>
      tell s!"kill (int) error: {e.labelled}\n"
      return 1
    | .ok () =>
      Program.ask (.sleep 1000)
      tell "myint: SIGINT did not terminate the process\n"
      return 1

/-- The utility `myspin n`: copies its input to its output after `n` seconds. -/
def myspin (name : String) (args : Arguments) : Program Status :=
  withSeconds name args fun n => do
    Program.ask (.sleep (1000 * n))
    match ← slurp 0 with
    | .error e =>
      if e = .badFile then return 0
      else
        tell s!"copy error: {e.numbered}\n"
        return 1
    | .ok data =>
      match ← put 1 data with
      | .ok () => return 0
      | .error e =>
        tell s!"copy error: {e.numbered}\n"
        return 1

end JobShell.Utility
