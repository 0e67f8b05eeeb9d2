import JobShell.Script.Run

/-!
`sh`: runs a text given with `-c`, a file, or its standard input.
-/
namespace JobShell.Script

inductive Source where
  | text (text : String)
  | file (path : String)
  | standardInput
  deriving DecidableEq, Repr

/-- What the arguments of `sh` ask for. -/
structure Invocation where
  source : Source
  name : String
  arguments : List String
  options : List Char := []
  deriving DecidableEq, Repr

/-- Reads arguments: options, then the text for `-c` or a file, then a name and arguments. -/
def invocation (name : String) (options : List Char) : List String → Except String Invocation
  | [] => source []
  | arg :: args =>
    match arg.toList with
    | ['-', '-'] => source args
    | sign :: c :: cs =>
      if sign = '-' then invocation name (options ++ c :: cs) args
      else if sign = '+' then invocation name (options.filter fun o => !(c :: cs).contains o) args
      else source (arg :: args)
    | _ => source (arg :: args)
where
  source (words : List String) : Except String Invocation :=
    match words, options.contains 'c' with
    | [], true => .error "-c requires an argument"
    | [], false => .ok { source := .standardInput, name, arguments := [], options }
    | text :: rest, true =>
      .ok { source := .text text, name := rest.headD name, arguments := rest.tail, options }
    | path :: rest, false =>
      if options.contains 's' then
        .ok { source := .standardInput, name, arguments := path :: rest, options }
      else .ok { source := .file path, name := path, arguments := rest, options }

def initialState (call : Invocation) (env : Environment) : Program State := do
  let self ← Program.ask .processId
  let parent ← Program.ask .parentId
  let directory := ((← Program.ask .workingDirectory).toOption.map Path.shown).getD ""
  let bindings := Utility.assign env "PWD" directory
  return {
    name := call.name, arguments := call.arguments, bindings
    exported := bindings.map Prod.fst, self, parent, directory, options := call.options }

def runText (last : Bool) (text : String) (st : State) : Program Empty := do
  let evaluate := evaluator evaluationDepth
  let (st, _) ← evaluate last text st
  finish evaluate st

def decoded (data : ByteArray) : String := (String.fromUTF8? data).getD ""

/-- Ends a script that could not begin. -/
def refuse (name problem : String) : Program Empty := do
  Utility.tell s!"{name}: 0: {problem}\n"
  .exit 2

/-- The utility `sh [-c text | file] [argument...]` -/
def sh (argv : List String) (env : Environment) : Program Empty := do
  let name := argv.headD "sh"
  match invocation name [] argv.tail with
  | .error problem => refuse name problem
  | .ok call =>
    let st ← initialState call env
    match call.source with
    | .text text => runText true text st
    | .file path =>
      match ← Utility.readNamed path with
      | .ok data => runText false (decoded data) st
      | .error e => refuse name (openProblem path { access := .read } e)
    | .standardInput =>
      match ← Utility.slurp 0 with
      | .ok data => runText false (decoded data) st
      | .error _ => .exit 0

end JobShell.Script
