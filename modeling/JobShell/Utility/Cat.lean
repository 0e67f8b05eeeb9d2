import JobShell.Utility.Basic

/-!
`cat`: files one after another on standard output, written as they are read.
-/
namespace JobShell.Utility

def numbering (n : Nat) : String :=
  let digits := toString n
  "".pushn ' ' (6 - digits.length) ++ digits ++ "\t"

/-- Numbers the lines that start in a piece of text. `fresh` tells whether a line starts
with the next byte. -/
def numberLines (n : Nat) (fresh : Bool) (data : ByteArray) : Nat × Bool × ByteArray :=
  data.foldl (fun (n, fresh, out) b =>
    let (n, out) := if fresh then (n + 1, out ++ (numbering n).toUTF8) else (n, out)
    (n, b == 10, out.push b)) (n, fresh, ByteArray.empty)

/-- Where `cat -n` stands: the next number, and whether a line starts here. -/
structure Numbering where
  next : Nat := 1
  fresh : Bool := true

/-- Copies a descriptor to standard output, up to an end or an error on either side. -/
def pour (numbered : Bool) (fd : Fd) (start : Numbering) :
    Program (Except (Bool × Errno) Unit × Numbering) :=
  Program.iterate (fun (state : Numbering) => do
    match ← Program.retry (.read fd portion) with
    | .error e => return .inr (.error (false, e), state)
    | .ok data =>
      if data.isEmpty then return .inr (.ok (), state)
      else
        let (next, fresh, lines) := numberLines state.next state.fresh data
        let state : Numbering := if numbered then { next, fresh } else state
        match ← put 1 (if numbered then lines else data) with
        | .ok () => return .inl state
        | .error e => return .inr (.error (true, e), state)) start

/-- Whether copying a file to standard output would feed it with its own text. -/
def wouldFeedItself (fd : Fd) : Program Bool := do
  match ← Program.ask (.inspectFd fd), ← Program.ask (.inspectFd 1) with
  | .ok source, .ok target =>
    return source.kind == .regular && source.identity.isSome &&
      source.identity == target.identity && source.size > 0
  | _, _ => return false

/-- Copies an open file, and tells what is wrong with it. The answer is whether nothing is
wrong, or nothing if there is nowhere to write to. -/
def catFd (utility : String) (numbered : Bool) (name : String) (fd : Fd) (state : Numbering) :
    Program (Option Bool × Numbering) := do
  if ← wouldFeedItself fd then
    tell s!"{utility}: {name}: input file is output file\n"
    return (some false, state)
  else
    match ← pour numbered fd state with
    | (.ok (), state) => return (some true, state)
    | (.error (false, e), state) =>
      tell s!"{utility}: {name}: {e.sentence}\n"
      return (some false, state)
    | (.error (true, e), state) =>
      tell s!"{utility}: write error: {e.sentence}\n"
      return (none, state)

def catAll (utility : String) (numbered : Bool) (state : Numbering) (whole : Bool) :
    Arguments → Program Status
  | [] => return statusOf whole
  | name :: names => do
    if name = "-" then
      match ← catFd utility numbered name 0 state with
      | (some good, state) => catAll utility numbered state (whole && good) names
      | (none, _) => return 1
    else
      match ← Program.retry (.openFile name { access := .read } 0) with
      | .error e =>
        tell s!"{utility}: {name}: {e.sentence}\n"
        catAll utility numbered state false names
      | .ok fd =>
        let (good?, state) ← catFd utility numbered name fd state
        let _ ← Program.ask (.close fd)
        match good? with
        | some good => catAll utility numbered state (whole && good) names
        | none => return 1

/-- The utility `cat [-nu] [file...]` -/
def cat (utility : String) (args : Arguments) : Program Status :=
  withOptions utility "" "nu" args 1 fun request => do
    let names := orStandardInput request.operands
    match ← Program.ask (.inspectFd 1) with
    | .error e =>
      tell s!"{utility}: standard output: {e.sentence}\n"
      return 1
    | .ok _ =>
      closeInput utility "closing standard input" names
        (← catAll utility (request.has 'n') {} true names)

end JobShell.Utility
