import JobShell.Options
import JobShell.System.Output

/-!
The command line of the shell: flags, options with a value, and one operand, the
script. Arguments are read left to right. A value is recorded only when the next
argument (or the end) shows that it is complete, so of two faults the one met first
in that order is reported.
-/
namespace JobShell

/-- Why reading the arguments ends without options. Asking for help or for the
version ends it as well. -/
inductive UsageError where
  | unknownArgument
  | argumentConflict
  | invalidValue
  | tooManyValues
  | help
  | version
  deriving DecidableEq, Repr

namespace UsageError

/-- The text shown, where it is part of the shell's contract. -/
def text? : UsageError → Option String
  | help => some <|
    "A job-control shell\n\n" ++
    "Usage: jcsh [OPTIONS] [SCRIPT]\n\n" ++
    "Arguments:\n" ++
    "  [SCRIPT]  Read command lines from this file instead of standard input\n\n" ++
    "Options:\n" ++
    "  -q, --quiet           Do not print a command prompt\n" ++
    "  -v, --verbose         Enable verbose (debug) logging\n" ++
    "  -m, --monitor         Hand the terminal to foreground jobs even when not interactive\n" ++
    "  -c <LINE>             Run a single command line and exit with its status\n" ++
    "      --history <PATH>  History file for interactive sessions [default: ~/.jcsh_history]\n" ++
    "  -h, --help            Print help\n" ++
    "  -V, --version         Print version\n"
  | version => some "jcsh 0.1.0\n"
  | _ => none

def exitStatus : UsageError → Int
  | help | version => 0
  | _ => 2

end UsageError

namespace Options

inductive Flag where
  | quiet
  | verbose
  | monitor
  | help
  | version
  deriving DecidableEq, Repr

inductive Slot where
  | command
  | history
  | script
  deriving DecidableEq, Repr

inductive Meaning where
  | flag (flag : Flag)
  | value (slot : Slot)
  deriving DecidableEq, Repr

def meaningOfLetter? : Char → Option Meaning
  | 'q' | 'p' => some (.flag .quiet)
  | 'v' => some (.flag .verbose)
  | 'm' => some (.flag .monitor)
  | 'c' => some (.value .command)
  | 'h' => some (.flag .help)
  | 'V' => some (.flag .version)
  | _ => none

def meaningOfName? : String → Option Meaning
  | "quiet" => some (.flag .quiet)
  | "verbose" => some (.flag .verbose)
  | "monitor" => some (.flag .monitor)
  | "history" => some (.value .history)
  | "help" => some (.flag .help)
  | "version" => some (.flag .version)
  | _ => none

def get (o : Options) : Slot → Option String
  | .command => o.command
  | .history => o.history
  | .script => o.script

def set (o : Options) (value : String) : Slot → Options
  | .command => { o with command := some value }
  | .history => { o with history := some value }
  | .script => { o with script := some value }

/-- Records a value. Each place takes one, and a path may not be empty. -/
def record (o : Options) (slot : Slot) (value : String) : Except UsageError Options :=
  if (o.get slot).isSome then .error .argumentConflict
  else if value.isEmpty && slot != .command then .error .invalidValue
  else .ok (o.set value slot)

/-- Sets a flag, which may be given once. -/
def raise (o : Options) : Flag → Except UsageError Options
  | .quiet => if o.quiet then .error .argumentConflict else .ok { o with quiet := true }
  | .verbose => if o.verbose then .error .argumentConflict else .ok { o with verbose := true }
  | .monitor => if o.monitor then .error .argumentConflict else .ok { o with monitor := true }
  | .help => .error .help
  | .version => .error .version

structure Reading where
  options : Options := {}
  /-- The place being filled, with its value once that was met. -/
  pending : Option (Slot × Option String) := none
  /-- A `--` was met: what follows are operands. -/
  operandsOnly : Bool := false
  /-- The operand was met. -/
  sawOperand : Bool := false
  deriving Repr

namespace Reading

/-- Records the value being read, which must be there by now. -/
def settle (r : Reading) : Except UsageError Reading :=
  match r.pending with
  | none => .ok r
  | some (_, none) => .error .invalidValue
  | some (slot, some value) => do
    let options ← r.options.record slot value
    return { r with options, pending := none }

def raise (r : Reading) (flag : Flag) : Except UsageError Reading := do
  let r ← r.settle
  let options ← r.options.raise flag
  return { r with options }

def attach (r : Reading) (slot : Slot) (value : String) : Except UsageError Reading := do
  let r ← r.settle
  let options ← r.options.record slot value
  return { r with options }

def expect (r : Reading) (slot : Slot) : Except UsageError Reading := do
  let r ← r.settle
  return { r with pending := some (slot, none) }

def letters (r : Reading) : List Char → Except UsageError Reading
  | [] => .ok r
  | c :: cs =>
    match meaningOfLetter? c with
    | none => .error .unknownArgument
    | some (.flag flag) =>
      match r.raise flag with
      | .ok r => letters r cs
      | .error e => .error e
    | some (.value slot) =>
      match cs with
      | [] => r.expect slot
      | '=' :: value => r.attach slot (String.ofList value)
      | value => r.attach slot (String.ofList value)

def long (r : Reading) (text : List Char) : Except UsageError Reading :=
  let name := text.takeWhile (· != '=')
  let value := (text.dropWhile (· != '=')).tail?
  match meaningOfName? (String.ofList name), value with
  | none, _ => .error .unknownArgument
  | some (.flag flag), none => r.raise flag
  | some (.flag _), some _ => .error .tooManyValues
  | some (.value slot), none => r.expect slot
  | some (.value slot), some value => r.attach slot (String.ofList value)

def operand (r : Reading) (arg : String) : Except UsageError Reading :=
  if r.sawOperand then .error .unknownArgument
  else do
    let r ← r.settle
    return { r with pending := some (.script, some arg), sawOperand := true }

/-- The value of the option before, or else an operand. -/
def plain (r : Reading) (arg : String) : Except UsageError Reading :=
  match r.pending with
  | some (slot, none) => .ok { r with pending := some (slot, some arg) }
  | _ => r.operand arg

def argument (r : Reading) (arg : String) : Except UsageError Reading :=
  if r.operandsOnly then r.operand arg
  else
    match arg.toList with
    | '-' :: '-' :: [] => .ok { r with operandsOnly := true }
    | '-' :: '-' :: text => r.long text
    | '-' :: c :: cs => r.letters (c :: cs)
    | _ => r.plain arg

def arguments (r : Reading) : List String → Except UsageError Reading
  | [] => .ok r
  | arg :: args =>
    match r.argument arg with
    | .ok r => arguments r args
    | .error e => .error e

end Reading

/-- The options that the arguments spell. A line and a script exclude each other. -/
def ofArguments (args : List String) : Except UsageError Options := do
  let r ← (({} : Reading).arguments args)
  let r ← r.settle
  if r.options.command.isSome && r.options.script.isSome then throw .argumentConflict
  return r.options

end Options

def usageHint : String :=
  "error: invalid arguments\n\nUsage: jcsh [OPTIONS] [SCRIPT]\n\n" ++
  "For more information, try '--help'.\n"

/-- Answers a question about the shell on standard output, and all else on standard error. -/
def UsageError.report (e : UsageError) : Program Empty := do
  match e.text? with
  | some text => writeText 1 text
  | none => writeText 2 usageHint
  .exit e.exitStatus

end JobShell
