import JobShell.Script.Builtin
import JobShell.Script.Parser

/-!
What commands do. The meaning of a command is a function of what the script knows; each
stage of a pipeline gets a process of its own. When the process has nothing else to do
afterwards, a program takes its place instead of becoming a child.
-/
namespace JobShell.Script

abbrev Runner := Bool → State → Result

structure Meaning where
  run : Runner
  /-- The stages, if the command is taken as a pipeline. -/
  stages : List Runner

/-- A command that is a pipeline of one. -/
def Meaning.one (run : Runner) : Meaning := { run, stages := [run] }

/-- Ends the script after a failure, if it was asked to and nothing tests for the failure. -/
def checked (st : State) (answer : State × Flow) : State × Flow :=
  match answer with
  | (after, .next) =>
    (after, if after.options.contains 'e' && !st.tested && after.status ≠ 0 then .exit else .next)
  | answer => answer

def testing (run : Runner) : Runner := fun last st => do
  let (after, flow) ← run last { st with tested := true }
  return ({ after with tested := st.tested }, flow)

/-- Runs an expansion. What is wrong with it ends the script. -/
def expanding (x : Expander α) (st : State) (next : α → State → Result) : Result := do
  match ← (x.run st).run with
  | .ok (value, st) => next value st
  | .error problem => st.abort problem

/-- Waits for a child that runs a part of the script. -/
def awaitPart (st : State) (answer : Except Errno Pid) : Result := do
  match answer with
  | .error _ => st.abort "Cannot fork"
  | .ok pid =>
    match ← waitFor pid with
    | .ok status => st.proceed status
    | .error _ => st.proceed 0

def assignAll (evaluate : Evaluator) : List (String × Word) → Expander (List (String × String))
  | [] => return []
  | (name, word) :: rest => do
    let value ← expandText evaluate word
    let more ← assignAll evaluate rest
    return (name, value) :: more

def setAll (values : List (String × String)) (st : State) : State :=
  values.foldl (fun st v => st.setVariable v.1 v.2) st

def resetAll (before : State) (values : List (String × String)) (st : State) : State :=
  values.foldl (fun st v =>
    match before.valueOf? v.1 with
    | some value => st.setVariable v.1 value
    | none => st.unset v.1) st

/-- Becomes a program with assignments of its own. -/
def runProgram (values : List (String × String)) (command : String) (args : List String)
    (st : State) : Result :=
  become command args ((setAll values st).environment ++
    (values.filter fun v => !st.exported.contains v.1)) st

/-- A command that is a program: it takes the place of the process or becomes a child. The
shell itself keeps the redirections up to the end of the child, and tells of it there. -/
def runExternal (evaluate : Evaluator) (last : Bool) (redirects : List Redirect)
    (values : List (String × String)) (command : String) (args : List String) (st : State) :
    Result := do
  if last && !st.hasHandlers then
    expanding (redirectAll evaluate false [] redirects) st fun _ st =>
      runProgram values command args st
  else
    match ← ((redirectAll evaluate true [] redirects).run st).run with
    | .error problem =>
      st.complain problem
      st.proceed 2
    | .ok (saved, st) =>
      let answer ← startPart evaluate st (return ()) (runProgram values command args)
      let after ← awaitPart st answer
      putBack saved
      return after

def runBuiltin (evaluate : Evaluator) (builtin : Builtin) (redirects : List Redirect)
    (values : List (String × String)) (command : String) (args : List String) (st : State) :
    Result := do
  let special := specialBuiltins.contains command
  match ← ((redirectAll evaluate true [] redirects).run st).run with
  | .error problem =>
    if special then st.abort problem
    else
      st.complain problem
      st.proceed 2
  | .ok (saved, st) =>
    let (after, flow) ← builtin args { setAll values st with within := none }
    let after := { after with within := st.within, line := st.line }
    if command = "exec" then
      let _ ← forgetCopies saved
      return (after, flow)
    else
      putBack saved
      return (if special then after else resetAll st values after, flow)
where
  forgetCopies : List Saved → Program Unit
    | [] => return ()
    | saved :: rest => do
      match saved.copy with
      | some copy =>
        let _ ← Program.ask (.close copy)
      | none => pure ()
      forgetCopies rest

/-- Only assignments and redirections. -/
def runNothing (evaluate : Evaluator) (redirects : List Redirect)
    (values : List (String × String)) (st : State) : Result := do
  match ← ((redirectAll evaluate true [] redirects).run st).run with
  | .error problem =>
    st.complain problem
    st.proceed 2
  | .ok (saved, st) =>
    putBack saved
    (setAll values st).proceed (st.captured.getD 0)

def runSimple (evaluate : Evaluator) (command : Simple) (last : Bool) (st : State) : Result :=
  let st := { st with line := command.line, captured := none }
  let expanded : Expander (List String × List (String × String)) := do
    let words ← expandWords evaluate command.words
    let values ← assignAll evaluate command.assignments
    return (words, values)
  expanding expanded st fun (words, values) st => do
    if st.options.contains 'x' then
      let shown := (values.map fun v => v.1 ++ "=" ++ v.2) ++ words
      Utility.tell ("+ " ++ " ".intercalate shown ++ "\n")
    let isBuiltin (name : String) : Bool := (builtin? evaluate name).isSome
    let answer ← match if words.head? = some "command" then words.tail else words with
      | [] => runNothing evaluate command.redirects values st
      | ["-v", name] =>
        runBuiltin evaluate (fun _ => locate isBuiltin name) command.redirects values "command" []
          st
      | name :: args =>
        match builtin? evaluate name with
        | some builtin => runBuiltin evaluate builtin command.redirects values name args st
        | none => runExternal evaluate last command.redirects values name args st
    let (after, flow) := checked st answer
    runTraps evaluate after flow

def startStages (evaluate : Evaluator) (st : State) : Option Fd → List Runner →
    Program (List Pid)
  | _, [] => return []
  | input, [stage] => do
    let answer ← startPart evaluate st (connect input none) (stage true)
    closeInput input
    return answer.toOption.toList
  | input, stage :: stages => do
    match ← Program.ask .pipe with
    | .error _ =>
      closeInput input
      return []
    | .ok (reading, writing) =>
      let answer ← startPart evaluate st (connect input (some (reading, writing))) (stage true)
      closeInput input
      let _ ← Program.ask (.close writing)
      return answer.toOption.toList ++ (← startStages evaluate st (some reading) stages)
where
  closeInput : Option Fd → Program Unit
    | some fd => do
      let _ ← Program.ask (.close fd)
    | none => return ()
  /-- Makes the ends of pipes standard input and output. -/
  connect (input : Option Fd) (output : Option (Fd × Fd)) : Program Unit := do
    match output with
    | some (reading, _) =>
      let _ ← Program.ask (.close reading)
    | none => pure ()
    match input with
    | some fd => moveFd fd 0
    | none => pure ()
    match output with
    | some (_, writing) => moveFd writing 1
    | none => pure ()

def waitStages (st : State) : List Pid → Result
  | [] => st.proceed 0
  | [pid] => awaitPart st (.ok pid)
  | pid :: pids => do
    let _ ← waitFor pid
    waitStages st pids

def runPipeline (evaluate : Evaluator) (stages : List Runner) : Runner := fun _ st => do
  let pids ← startStages evaluate st none stages
  let (after, flow) := checked st (← waitStages st pids)
  runTraps evaluate after flow

/-- Goes on with a second command unless the first one leaves the place. -/
def andNext (answer : State × Flow) (next : State → Result) : Result :=
  match answer with
  | (st, .next) => next st
  | answer => return answer

/-- What the flow of a loop's body means for the loop: whether it goes on, and what comes
after it if not. -/
def Flow.inLoop : Flow → Option Flow
  | .next => none
  | .leave n => some (if n ≤ 1 then .next else .leave (n - 1))
  | .again n => if n ≤ 1 then none else some (.again (n - 1))
  | .back => some .back
  | .exit => some .exit

/-- Runs a command inside of one loop more. -/
def looping (run : Runner) : Runner := fun last st => do
  let (after, flow) ← run last { st with depth := st.depth + 1 }
  return ({ after with depth := st.depth }, flow)

def runLoop (expected : Bool) (test body : Runner) (st : State) : Result :=
  Program.iterate (fun ((st, status) : State × Status) => do
    let (st, flow) ← test false st
    match flow with
    | .next =>
      if (st.status == 0) != expected then return .inr (st.withStatus status, .next)
      else
        let (st, flow) ← body false st
        match flow.inLoop with
        | none => return .inl (st, st.status)
        | some flow => return .inr (st, flow)
    | flow => return .inr (st, (flow.inLoop).getD .next)) (st, 0)

def runEach (name : String) (body : Runner) : List String → State → Result
  | [], st => return (st, .next)
  | word :: words, st => do
    let (st, flow) ← body false (st.setVariable name word)
    match flow.inLoop with
    | none => runEach name body words st
    | some flow => return (st, flow)

def matchesAny (evaluate : Evaluator) (text : String) : List Word → Expander Bool
  | [] => return false
  | pattern :: patterns => do
    if matchesText (← expandWhole evaluate expansionDepth pattern) text then return true
    else matchesAny evaluate text patterns

def runSubshell (evaluate : Evaluator) (body : Runner) : Runner := fun last st => do
  if last && !st.hasHandlers then body true st
  else
    let answer ← awaitPart st (← startPart evaluate st (return ()) (body true))
    let (after, flow) := checked st answer
    runTraps evaluate after flow

/-- Starts a command without waiting for it. It reads nothing and cannot be interrupted. -/
def runBackground (evaluate : Evaluator) (body : Runner) : Runner := fun _ st => do
  let prepare : Program Unit := do
    let _ ← Program.ask (.setDisposition Signal.sigint .ignore)
    let _ ← Program.ask (.setDisposition Signal.sigquit .ignore)
    match ← Program.ask (.openFile "/dev/null" { access := .read } 0) with
    | .ok fd => moveFd fd 0
    | .error _ => pure ()
  match ← startPart evaluate st prepare (body true) with
  | .error _ => st.abort "Cannot fork"
  | .ok pid =>
    let st := { st with lastBackground := some pid, children := st.children ++ [pid] }
    st.proceed 0

/-- A compound command with redirections, which are undone afterwards. -/
def runRedirected (evaluate : Evaluator) (line : Nat) (body : Runner)
    (redirects : List Redirect) : Runner := fun _ st => do
  let st := { st with line }
  match ← ((redirectAll evaluate true [] redirects).run st).run with
  | .error problem =>
    st.complain problem
    st.proceed 2
  | .ok (saved, st) =>
    let answer ← body false st
    putBack saved
    return answer

/-- The meaning of a command, given how texts are evaluated. -/
def meaning (evaluate : Evaluator) : Command → Meaning
  | .simple command => .one (runSimple evaluate command)
  | .pipe first rest =>
    let stages := (meaning evaluate first).run :: (meaning evaluate rest).stages
    { run := runPipeline evaluate stages, stages }
  | .negate command =>
    let inner := testing (meaning evaluate command).run
    .one fun _ st => do
      andNext (← inner false st) fun st => st.proceed (if st.status = 0 then 1 else 0)
  | .andThen first rest =>
    let first := testing (meaning evaluate first).run
    let rest := (meaning evaluate rest).run
    .one fun last st => do
      andNext (← first false st) fun st =>
        if st.status = 0 then rest last st else return (st, .next)
  | .orElse first rest =>
    let first := testing (meaning evaluate first).run
    let rest := (meaning evaluate rest).run
    .one fun last st => do
      andNext (← first false st) fun st =>
        if st.status = 0 then return (st, .next) else rest last st
  | .sequence first rest =>
    let first := (meaning evaluate first).run
    let rest := (meaning evaluate rest).run
    .one fun last st => do andNext (← first false st) (rest last)
  | .background command => .one (runBackground evaluate (meaning evaluate command).run)
  | .subshell body => .one (runSubshell evaluate (meaning evaluate body).run)
  | .redirected line body redirects =>
    .one (runRedirected evaluate line (meaning evaluate body).run redirects)
  | .conditional test yes no =>
    let test := testing (meaning evaluate test).run
    let yes := (meaning evaluate yes).run
    let no := (meaning evaluate no).run
    .one fun last st => do
      andNext (← test false st) fun st => if st.status = 0 then yes last st else no last st
  | .loop expected test body =>
    let test := looping (testing (meaning evaluate test).run)
    let body := looping (meaning evaluate body).run
    .one fun _ st => runLoop expected test body st
  | .each name words body =>
    let body := looping (meaning evaluate body).run
    .one fun _ st =>
      match words with
      | none => runEach name body st.arguments (st.withStatus 0)
      | some words => expanding (expandWords evaluate words) st fun words st =>
          runEach name body words (st.withStatus 0)
  | .choice subject patterns body otherwise =>
    let body := (meaning evaluate body).run
    let otherwise := (meaning evaluate otherwise).run
    .one fun last st =>
      let matched : Expander Bool := do
        matchesAny evaluate (← expandText evaluate subject) patterns
      expanding matched st fun hit st => if hit then body last st else otherwise last st
  | .nothing => .one fun _ st => st.proceed 0

/-- Runs a script line by line. `lines` bounds their number. -/
def runLines (evaluate : Evaluator) (last : Bool) : (lines : Nat) → List Lexed → State → Result
  | 0, _, st => return (st, .next)
  | lines + 1, lexed, st => do
    match nextLine lexed with
    | .error problem =>
      let st := { st with line := problem.line }
      st.complain s!"Syntax error: {problem.text}"
      return (st.withStatus 2, .exit)
    | .ok none => return (st, .next)
    | .ok (some (command, rest)) =>
      andNext (← (meaning evaluate command).run (last && rest.isEmpty) st)
        (runLines evaluate last lines rest)

/-- Evaluates texts. `depth` bounds how deep they are nested in one another. -/
def evaluator : (depth : Nat) → Evaluator
  | 0, _, _, st => st.abort "Maximum recursion depth reached"
  | depth + 1, last, text, st =>
    let lexed := lex st.line text
    runLines (evaluator depth) last (lexed.length + 1) lexed st

/-- Scripts may nest evaluations this deep. -/
def evaluationDepth : Nat := 100

end JobShell.Script
