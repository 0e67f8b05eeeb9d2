import JobShell.Script.Condition
import JobShell.Script.Redirects
import JobShell.System.Program
import JobShell.Utility.Echo

/-!
The commands that a script runs in its own process.
-/
namespace JobShell.Script

abbrev Builtin := List String → State → Result

/-- Commands that change the shell itself: assignments in front of them stay, and what goes
wrong with them ends the script. -/
def specialBuiltins : List String :=
  [":", ".", "break", "continue", "eval", "exec", "exit", "export", "readonly", "return", "set",
   "shift", "times", "trap", "unset"]

def exitStatus (args : List String) (st : State) : Except String Status :=
  match args with
  | [] => .ok st.status
  | text :: _ =>
    match Utility.number? text with
    | some n => .ok (n : Int)
    | none => .error s!"Illegal number: {text}"

def exit : Builtin := fun args st =>
  match exitStatus args st with
  | .ok status => return (st.withStatus status, .exit)
  | .error problem => st.abort s!"exit: {problem}"

/-- Leaves loops, as many as the argument says if there are so many; without loops nothing is
left. -/
def leaving (name : String) (flow : Nat → Flow) : Builtin := fun args st =>
  let text := args.headD "1"
  match Utility.number? text, st.depth with
  | none, _ | some 0, _ => st.abort s!"{name}: Illegal number: {text}"
  | _, 0 => st.proceed 0
  | some n, depth => return (st.withStatus 0, flow (min n depth))

def print (name : String) (data : ByteArray) (status : Status) (st : State) : Result := do
  match ← Utility.put 1 data with
  | .ok () => st.proceed status
  | .error _ =>
    st.complain s!"{name}: {name}: I/O error"
    st.proceed 1

def escapesInWords : Utility.Escapes := { leadingZero := true, hex := false, stop := true }

def escapesInFormat : Utility.Escapes := { leadingZero := false, hex := false, stop := false }

def echo : Builtin := fun args st =>
  let (newline, words) := match args with
    | "-n" :: words => (false, words)
    | words => (true, words)
  let printed := Utility.printWords (some escapesInWords) {} words
  print "echo" (if newline && printed.going then printed.char '\n' else printed).toBytes 0 st

def printf : Builtin := fun args st => do
  match args.head?.map String.toList with
  | some ['-', '-'] => formatted args.tail st
  | some ('-' :: c :: _) =>
    st.complain s!"printf: Illegal option -{c}"
    st.proceed 2
  | _ => formatted args st
where
  formatted (args : List String) (st : State) : Result := do
    match args with
    | [] =>
      st.complain "printf: usage: printf format [arg ...]"
      st.proceed 2
    | text :: rest =>
      let (p, _) :=
        Utility.formatAll escapesInWords escapesInFormat rest.length {} text.toList rest
      tellAll st (p.problems.reverse.map Utility.FormatProblem.shortText)
      let status : Status := if p.problems.any Utility.FormatProblem.isFatal then 2
        else if p.problems.isEmpty then 0 else 1
      print "printf" p.toBytes status st
  tellAll (st : State) : List String → Program Unit
    | [] => return ()
    | text :: texts => do
      st.complain s!"printf: {text}"
      tellAll st texts

/-- The condition commands: `test`, and `[` with its closing bracket. -/
def condition (name : String) : Builtin := fun args st => do
  let words := if name = "[" then args.dropLast else args
  if name = "[" && args.getLast? ≠ some "]" then
    st.complain "[: missing ]"
    st.proceed 2
  else
    match ← Condition.holds words with
    | .ok holds => st.proceed (if holds then 0 else 1)
    | .error problem =>
      st.complain s!"{name}: {problem}"
      st.proceed 2

def tidyPath (path : String) : String :=
  let names := (path.splitOn "/").foldl (fun names name =>
    if name.isEmpty || name = "." then names
    else if name = ".." then names.dropLast
    else names ++ [name]) []
  "/" ++ "/".intercalate names

def cd : Builtin := fun args st => do
  let args := args.filter fun arg => arg ≠ "-P" && arg ≠ "-L" && arg ≠ "--"
  let target : String := match args.head? with
    | none => (st.valueOf? "HOME").getD ""
    | some "-" => (st.valueOf? "OLDPWD").getD st.directory
    | some path => path
  match ← Program.ask (.changeDirectory target) with
  | .error _ =>
    st.complain s!"cd: can't cd to {target}"
    st.proceed 2
  | .ok () =>
    let directory := tidyPath (if target.startsWith "/" then target
      else st.directory ++ "/" ++ target)
    let st := ((st.setVariable "OLDPWD" st.directory).setVariable "PWD" directory).share "PWD"
    let shown := if args.head? = some "-" then directory ++ "\n" else ""
    print "cd" shown.toUTF8 0 { st with directory }

def pwd : Builtin := fun _ st => print "pwd" (st.directory ++ "\n").toUTF8 0 st

def signal? (text : String) : Option Signal :=
  match Utility.number? text with
  | some n => if n ≤ 64 then some n else none
  | none =>
    let name := text.toUpper
    let name := if name.startsWith "SIG" then (name.drop 3).toString else name
    if name = "EXIT" then some 0 else Signal.named? name

/-- Whom a number of `kill` stands for: a process, or a group if it is negative. -/
def target? (self : Pid) (text : String) : Option Target :=
  (Text.integer? text.toList).map fun n =>
    if 0 < n then .process n else if n = 0 then .group self else .group (-n)

def killAll (signal : Signal) (st : State) (status : Status) : List String → Result
  | [] => st.proceed status
  | text :: rest => do
    match target? (← Program.ask .groupId) text with
    | none =>
      st.complain s!"kill: Illegal number: {text}"
      killAll signal st 2 rest
    | some target =>
      match ← Program.ask (.kill target signal) with
      | .ok () => killAll signal st status rest
      | .error e =>
        st.complain s!"kill: {e.sentence}"
        killAll signal st 1 rest

def signalName (signal : Signal) : String :=
  if signal = 0 then "EXIT" else (Signal.names[signal - 1]?).getD (toString signal)

/-- Names the signal that an exit status stands for, or all of them. -/
def listSignals (args : List String) (st : State) : Result :=
  match args with
  | [] =>
    let names := (List.range Signal.names.length).map fun n => signalName (n + 1) ++ "\n"
    print "kill" ("0\n" ++ String.join names).toUTF8 0 st
  | text :: _ => do
    match Utility.number? text with
    | none =>
      st.complain s!"kill: Illegal number: {text}"
      st.proceed 2
    | some n =>
      let signal := if 128 < n then n - 128 else n
      if 0 < signal && signal ≤ 64 then print "kill" (signalName signal ++ "\n").toUTF8 0 st
      else
        st.complain s!"kill: invalid signal number or exit status: {text}"
        st.proceed 2

def kill : Builtin := fun args st => do
  let send (signal : Signal) (targets : List String) : Result := do
    match if targets.head? = some "--" then targets.tail else targets with
    | [] =>
      st.complain ("kill: Usage: kill [-s sigspec | -signum | -sigspec] [pid | job]... or\n" ++
        "kill -l [exitstatus]")
      st.proceed 2
    | targets => killAll signal st 0 targets
  let named (name : String) (targets : List String) : Result := do
    match signal? name with
    | some signal => send signal targets
    | none =>
      st.complain s!"kill: invalid signal number or name: {name}"
      st.proceed 2
  match args with
  | [] => send Signal.sigterm []
  | "-l" :: args => listSignals args st
  | ["-s"] =>
    st.complain "kill: No arg for -s option"
    st.proceed 2
  | "-s" :: name :: targets => named name targets
  | first :: targets =>
    match first.toList with
    | '-' :: '-' :: _ => send Signal.sigterm args
    | '-' :: c :: cs =>
      match signal? (String.ofList (c :: cs)) with
      | some signal => send signal targets
      | none =>
        if c = 's' then named (String.ofList cs) targets
        else
          st.complain s!"kill: Illegal option -{c}"
          st.proceed 2
    | _ => send Signal.sigterm args

/-- Reads a line byte by byte. Unless it is taken as it is, a backslash protects what follows
it. The letters tell which characters were protected; the last part tells whether the line
had an end. -/
def readLetters (raw : Bool) : Program (List Letter × Bool) := do
  let (bytes, ended) ← Program.iterate (fun (state : List UInt8 × Bool) => do
    let (bytes, escaped) := state
    match ← Program.retry (.read 0 1) with
    | .error _ => return .inr (bytes, false)
    | .ok data =>
      match data.toList with
      | [] => return .inr (bytes, false)
      | b :: _ =>
        if b = 10 && !escaped then return .inr (bytes, true)
        else return .inl (b :: bytes, !raw && b = 92 && !escaped)) ([], false)
  let text := (String.fromUTF8? ⟨bytes.reverse.toArray⟩).getD ""
  return (if raw then letters false text else unprotect text.toList, ended)
where
  unprotect : List Char → List Letter
    | [] => []
    | '\\' :: '\n' :: cs => unprotect cs
    | '\\' :: c :: cs => (c, true) :: unprotect cs
    | c :: cs => (c, false) :: unprotect cs

/-- Shares the fields of a line among names; the last gets what is left. -/
def shareFields (separators : String) : List String → List Letter → List (String × String)
  | [], _ => []
  | [name], line =>
    let isSeparator (l : Letter) : Bool := !l.2 && separators.contains l.1
    let line := line.dropWhile isSeparator
    [(name, spelled (line.reverse.dropWhile isSeparator).reverse)]
  | name :: names, line =>
    let isSeparator (l : Letter) : Bool := !l.2 && separators.contains l.1
    let line := line.dropWhile isSeparator
    (name, spelled (line.takeWhile fun l => !isSeparator l)) ::
      shareFields separators names (line.dropWhile fun l => !isSeparator l)

def read : Builtin := fun args st => do
  let raw := args.contains "-r"
  let names := args.filter fun arg => arg ≠ "-r"
  if names.isEmpty then
    st.complain "read: arg count"
    st.proceed 2
  else
    let (line, ended) ← readLetters raw
    let st := (shareFields st.separators names line).foldl
      (fun st v => st.setVariable v.1 v.2) st
    st.proceed (if ended then 0 else 1)

def octal (n : Nat) : String :=
  let digits := String.ofList (Nat.toDigits 8 n)
  "".pushn '0' (4 - digits.length) ++ digits

def umask : Builtin := fun args st => do
  match args with
  | [] => print "umask" (octal (← Program.ask (.mask none)) ++ "\n").toUTF8 0 st
  | text :: _ =>
    if !text.isEmpty && text.toList.all Utility.isOctal then
      let _ ← Program.ask (.mask (some (Utility.octalValue text.toList &&& 0o777)))
      st.proceed 0
    else
      let problem := if text.toList.any Char.isDigit then "number" else "mode"
      st.complain s!"umask: Illegal {problem}: {text}"
      st.proceed 2

/-- The limit on descriptors. Nothing else is limited, but that no memory is dumped. -/
def ulimit : Builtin := fun args st => do
  let options := args.filter fun arg => arg.startsWith "-"
  let operand? := args.find? fun arg => !arg.startsWith "-"
  let what := (String.join options).toList.getLast?.getD 'f'
  match what, operand? with
  | 'n', none =>
    print "ulimit" (toString (← Program.ask (.limitFiles none)) ++ "\n").toUTF8 0 st
  | 'c', none => print "ulimit" "0\n".toUTF8 0 st
  | _, none => print "ulimit" "unlimited\n".toUTF8 0 st
  | 'n', some text =>
    match Utility.number? text with
    | some n =>
      let _ ← Program.ask (.limitFiles (some n))
      st.proceed 0
    | none => st.abort "ulimit: bad number"
  | _, some _ => st.proceed 0

/-- Waits for all processes in the background. -/
def waitAll (st : State) : List Pid → Result
  | [] => { st with children := [] }.proceed 0
  | pid :: rest => do
    let _ ← Program.retry (.wait pid {})
    waitAll st rest

/-- Waits for some processes; the status is that of the last one. -/
def waitNamed (st : State) (status : Status) : List String → Result
  | [] => st.proceed status
  | text :: rest => do
    match Utility.number? text with
    | none =>
      st.complain s!"wait: Illegal number: {text}"
      st.proceed 2
    | some n =>
      let pid : Pid := n
      if st.children.contains pid then
        let answer ← waitFor pid
        waitNamed { st with children := st.children.filter (· ≠ pid) }
          (answer.toOption.getD 127) rest
      else waitNamed st 127 rest

def wait : Builtin := fun args st =>
  if args.isEmpty then waitAll st st.children else waitNamed st 0 args

/-- Ignores a signal, leaves it alone, or has a command run on it. -/
def setTrap (st : State) (action : Option String) (signal : Signal) : Program State := do
  let others := st.traps.filter fun t => t.1 ≠ signal
  match action with
  | none =>
    let _ ← Program.ask (.setDisposition signal .default)
    return { st with traps := others }
  | some text =>
    if text.isEmpty then
      let _ ← Program.ask (.setDisposition signal .ignore)
    else if signal ≠ 0 then
      let _ ← Program.ask (.record signal)
    return { st with traps := others ++ [(signal, text)] }

def setTraps (action : Option String) (st : State) (status : Status) : List String → Result
  | [] => st.proceed status
  | name :: names =>
    match signal? name with
    | some signal => do setTraps action (← setTrap st action signal) status names
    | none => do
      Utility.tell s!"trap: {name}: bad trap\n"
      setTraps action st 1 names

def listTraps (st : State) : String :=
  String.join <| st.traps.map fun (signal, text) =>
    let quoted := text.replace "'" "'\"'\"'"
    s!"trap -- '{quoted}' {signalName signal}\n"

def trap : Builtin := fun args st =>
  match if args.head? = some "--" then args.tail else args with
  | [] => print "trap" (listTraps st).toUTF8 0 st
  | [name] => setTraps none st 0 [name]
  | action :: names =>
    if (Utility.number? action).isSome then setTraps none st 0 (action :: names)
    else setTraps (if action = "-" then none else some action) st 0 names

def State.setOption (st : State) (on : Bool) (c : Char) : State :=
  let others := st.options.filter (· != c)
  { st with options := if on then c :: others else others }

/-- Options by their long names. -/
def optionLetter? (name : String) : Option Char :=
  [("errexit", 'e'), ("noglob", 'f'), ("nounset", 'u'), ("xtrace", 'x')].lookup name

/-- Letters of options that are known, though not all of them make a difference. -/
def optionLetters : List Char :=
  ['e', 'f', 'u', 'x', 'I', 'i', 'm', 'n', 's', 'v', 'V', 'E', 'C', 'a', 'b']

/-- Options first; if other words follow, they are the new arguments. -/
def set : Builtin := fun args st =>
  match args with
  | [] => st.proceed 0
  | "--" :: words => { st with arguments := words }.proceed 0
  | "-o" :: name :: rest => set rest ((optionLetter? name).elim st (st.setOption true))
  | "+o" :: name :: rest => set rest ((optionLetter? name).elim st (st.setOption false))
  | first :: rest =>
    match first.toList with
    | sign :: c :: cs =>
      if sign = '-' || sign = '+' then
        match (c :: cs).find? fun c => !optionLetters.contains c with
        | some c => st.abort s!"set: Illegal option {sign}{c}"
        | none => set rest ((c :: cs).foldl (fun st c => st.setOption (sign == '-') c) st)
      else { st with arguments := first :: rest }.proceed 0
    | _ => { st with arguments := first :: rest }.proceed 0

def shift : Builtin := fun args st =>
  match exitStatus args { st with status := 1 } with
  | .error problem => st.abort s!"shift: {problem}"
  | .ok n =>
    if st.arguments.length < n.toNat then st.abort "shift: can't shift that many"
    else { st with arguments := st.arguments.drop n.toNat }.proceed 0

/-- Sets a variable if the argument has a value for it. The answer has its name. -/
def define (st : State) (arg : String) : String × State :=
  match arg.splitOn "=" with
  | name :: value :: values => (name, st.setVariable name ("=".intercalate (value :: values)))
  | _ => (arg, st)

/-- Makes variables known to programs, with a new value if one is given. -/
def shareAll : Builtin := fun args st =>
  (args.foldl (fun st arg => let (name, st) := define st arg; st.share name) st).proceed 0

/-- Variables that are not to be changed any more, which is left to those who could. -/
def readonly : Builtin := fun args st =>
  (args.foldl (fun st arg => (define st arg).2) st).proceed 0

def unset : Builtin := fun args st =>
  ((args.filter fun arg => arg ≠ "-v").foldl State.unset st).proceed 0

/-- Tells how a command would be found: as one of the shell, or where the program is. -/
def locate (isBuiltin : String → Bool) (name : String) (st : State) : Result := do
  if isBuiltin name then print "command" (name ++ "\n").toUTF8 0 st
  else
    let paths := if name.contains '/' then [name]
      else (((st.valueOf? "PATH").getD "").splitOn ":").map fun place => place ++ "/" ++ name
    match ← firstProgram paths with
    | some path => print "command" (path ++ "\n").toUTF8 0 st
    | none => st.proceed 127
where
  firstProgram : List String → Program (Option String)
    | [] => return none
    | path :: paths => do
      match ← Program.ask (.inspect path true) with
      | .ok status =>
        if status.kind == .regular && status.permissions &&& 0o111 != 0 then return some path
        else firstProgram paths
      | .error _ => firstProgram paths

def become (command : String) (args : List String) (environment : Environment) (st : State) :
    Result := do
  let e ← Program.ask (.execSearch command (command :: args) environment)
  let inDirectories := command = "" || command = ".."
  let absent := e = .noEntry ∨ e = .notDirectory ∨ e = .loop ∨ e = .nameTooLong ∨ inDirectories
  let why := if inDirectories then Errno.access.sentence
    else if e = .noEntry ∨ e = .notDirectory then "not found" else e.sentence
  st.complain s!"{command}: {why}"
  return (st.withStatus (if absent then 127 else 126), .exit)

/-- Runs a text that is not the script's own, from its first line on. -/
def runWithin (evaluate : Evaluator) (place text : String) (st : State) : Result :=
  evaluate false text { st with within := some place, line := 1 }

def builtin? (evaluate : Evaluator) (name : String) : Option Builtin :=
  match name with
  | ":" | "true" => some fun _ st => st.proceed 0
  | "false" => some fun _ st => st.proceed 1
  | "." => some fun args st => do
    match args with
    | [] => st.proceed 0
    | path :: _ =>
      match ← Utility.readNamed path with
      | .ok data =>
        let (st, flow) ← runWithin evaluate path ((String.fromUTF8? data).getD "") (st.withStatus 0)
        return (st, if flow = .back then .next else flow)
      | .error e => st.abort s!".: {openProblem path { access := .read } e}"
  | "[" | "test" => some (condition name)
  | "break" => some (leaving "break" .leave)
  | "cd" => some cd
  | "continue" => some (leaving "continue" .again)
  | "echo" => some echo
  | "eval" => some fun args st =>
    runWithin evaluate "eval" (" ".intercalate args) (st.withStatus 0)
  | "exec" => some fun args st =>
    match args with
    | [] => st.proceed 0
    | command :: args => become command args st.environment { st with within := some "exec" }
  | "exit" => some exit
  | "export" => some shareAll
  | "kill" => some kill
  | "local" => some fun _ st => st.abort "local: not in a function"
  | "printf" => some printf
  | "pwd" => some pwd
  | "read" => some read
  | "readonly" => some readonly
  | "return" => some fun args st =>
    match exitStatus args st with
    | .ok status => return (st.withStatus status, .back)
    | .error problem => st.abort s!"return: {problem}"
  | "set" => some set
  | "shift" => some shift
  | "times" => some fun _ =>
    print "times" (String.join (List.replicate 2 "0m0.000000s 0m0.000000s\n")).toUTF8 0
  | "trap" => some trap
  | "ulimit" => some ulimit
  | "umask" => some umask
  | "unset" => some unset
  | "wait" => some wait
  | _ => none

end JobShell.Script
