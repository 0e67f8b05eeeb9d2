import JobShell.Utility.Regex
import JobShell.Utility.Basic

/-!
Lines picked by their text: `grep`.
-/
namespace JobShell.Utility

inductive GrepOutput where
  | lines
  /-- Each match on a line of its own. -/
  | matches
  | count
  /-- The name of the input, if lines were selected or, with `false`, if none was. -/
  | name (selected : Bool)
  | nothing
  deriving DecidableEq, Repr

structure GrepRequest where
  patterns : List Regex
  inverted : Bool
  /-- A match has to be a whole line, or at least a whole word. -/
  wholeLine : Bool
  wholeWord : Bool
  output : GrepOutput
  numbered : Bool
  labelled : Bool
  silent : Bool
  most : Option Nat

def inputLabel (name : String) : String := if name = "-" then "(standard input)" else name

namespace GrepRequest

def isWordByte (b : UInt8) : Bool :=
  Regex.ofRange 48 57 b || Regex.ofRange 65 90 b || Regex.ofRange 97 122 b || b == 95

def fits (r : GrepRequest) (text : Array UInt8) (start last : Nat) : Bool :=
  let isWordAt (n : Nat) : Bool := (text[n]?.map isWordByte).getD false
  (!r.wholeLine || (start = 0 && last = text.size)) &&
    (!r.wholeWord || ((start = 0 || !isWordAt (start - 1)) && !isWordAt last))

/-- The first match from a position on that counts, the longest of those that start there. -/
def search? (r : GrepRequest) (line : Array UInt8) (start : Nat) : Option (Nat × Nat) :=
  ((List.range (line.size + 1)).drop start).findSome? fun n =>
    let ends := r.patterns.flatMap fun pattern => pattern.ends line n
    ((ends.filter fun last => r.fits line n last).max?).map fun last => (n, last)

/-- The matches of a line that are not empty. `fuel` bounds their number. -/
def matchesOf (r : GrepRequest) (line : Array UInt8) : (fuel : Nat) → (start : Nat) →
    List (List UInt8)
  | 0, _ => []
  | fuel + 1, start =>
    match r.search? line start with
    | none => []
    | some (n, last) =>
      if n < last then (line.extract n last).toList :: r.matchesOf line fuel last
      else r.matchesOf line fuel (n + 1)

/-- The lines that are selected, with their numbers. -/
def selected (r : GrepRequest) (data : ByteArray) : List (List UInt8 × Nat) :=
  let lines := (linesOf data).map fun line => (chomp line).toList
  let hits := lines.zipIdx.filter fun e => (r.search? e.1.toArray 0).isSome != r.inverted
  match r.most with
  | some n => hits.take n
  | none => hits

/-- What is shown of an input, and whether lines were selected. -/
def shown (r : GrepRequest) (name : String) (data : ByteArray) : List UInt8 × Bool :=
  let hits := r.selected data
  let label : String := if r.labelled then inputLabel name ++ ":" else ""
  let text (s : String) : List UInt8 := s.toUTF8.toList
  let number (i : Nat) : String := if r.numbered then toString (i + 1) ++ ":" else ""
  let out := match r.output with
    | .lines => hits.flatMap fun (line, i) => text (label ++ number i) ++ line ++ [10]
    | .matches =>
      if r.inverted then []
      else hits.flatMap fun (line, i) =>
        (r.matchesOf line.toArray (line.length + 1) 0).flatMap fun part =>
          text (label ++ number i) ++ part ++ [10]
    | .count => text (label ++ toString hits.length ++ "\n")
    | .name selected => if hits.isEmpty != selected then text (inputLabel name ++ "\n") else []
    | .nothing => []
  (out, !hits.isEmpty)

end GrepRequest

/-- The regular file that a descriptor refers to, if there is one. -/
def fileOf (fd : Fd) : Program (Option Nat) := do
  match ← Program.ask (.inspectFd fd) with
  | .ok status => return if status.kind == .regular then status.identity else none
  | .error _ => return none

/-- Goes through the inputs: what is shown, whether lines were selected, and whether all could
be read. `target` is the file that the output goes to, if it does. -/
def grepInputs (utility : String) (r : GrepRequest) (target : Option Nat) (out : List UInt8)
    (found whole : Bool) : Arguments → Program (List UInt8 × Bool × Bool)
  | [] => return (out, found, whole)
  | name :: names => do
    let say (problem : String) : Program Unit :=
      tell s!"{utility}: {inputLabel name}: {problem}\n"
    let opened ← if name = "-" then pure (.ok 0)
      else Program.retry (.openFile name { access := .read } 0)
    match opened with
    | .error e =>
      if !r.silent then say e.sentence
      grepInputs utility r target out found false names
    | .ok fd =>
      let showsLines := r.output == .lines || r.output == .matches
      let source ← if showsLines && target.isSome then fileOf fd else pure none
      if source.isSome && source == target then
        say "input file is also the output"
        let _ ← Program.ask (.close fd)
        grepInputs utility r target out found false names
      else
        let answer ← slurp fd
        if name ≠ "-" then
          let _ ← Program.ask (.close fd)
        let (data, good) ← match answer with
          | .ok data => pure (data, true)
          | .error e =>
            if !r.silent then say e.sentence
            pure (ByteArray.empty, false)
        let (text, hit) := r.shown name data
        grepInputs utility r target (out ++ text) (found || hit) (whole && good) names

def grepRequest (request : Request) (texts : List String) (names : Arguments) :
    Except Regex.Problem GrepRequest := do
  let fold := request.has 'i' || request.has 'y'
  let lines := texts.flatMap fun text => text.splitOn "\n"
  let patterns ← if request.has 'F' then
      pure (lines.map fun text => Regex.literal fold text.toUTF8.toList)
    else lines.mapM fun text => Regex.parse (request.has 'E') fold text.toUTF8.toList
  return {
    patterns
    inverted := request.has 'v'
    wholeLine := request.has 'x'
    wholeWord := request.has 'w'
    output := if request.has 'q' then .nothing else if request.has 'l' then .name true
      else if request.has 'L' then .name false else if request.has 'c' then .count
      else if request.has 'o' then .matches else .lines
    numbered := request.has 'n'
    labelled := request.has 'H' || (decide (1 < names.length) && !request.has 'h')
    silent := request.has 's'
    most := (request.value? 'm').bind number? }

/-- The utility `grep [-EFGHLchilnoqsvwx] [-m count] pattern [file...]`: status 0 if a line was
selected, 1 if none was, 2 on trouble. -/
def grep (utility : String) (args : Arguments) : Program Status :=
  match requestOf "em" "EFGHLachilnoqsvwxy" none {} args with
  | .error problem => do
    tell (s!"{utility}: {problem}\nUsage: {utility} [OPTION]... PATTERNS [FILE]...\n" ++
      s!"Try '{utility} --help' for more information.\n")
    return 2
  | .ok request => do
    let given := (request.options.filter fun o => o.1 == 'e').map Prod.snd
    let (texts, names) := match given, request.operands with
      | [], text :: names => ([text], names)
      | given, names => (given, names)
    if texts.isEmpty then
      tell (s!"Usage: {utility} [OPTION]... PATTERNS [FILE]...\n" ++
        s!"Try '{utility} --help' for more information.\n")
      return 2
    else
      match grepRequest request texts names with
      | .error problem =>
        tell s!"{utility}: {problem.text}\n"
        return 2
      | .ok r =>
        let (out, found, whole) ←
          grepInputs utility r (← fileOf 1) [] false true (orStandardInput names)
        let status : Status := if found && r.output == .nothing then 0 else if !whole then 2
          else if found then 0 else 1
        match ← put 1 (bytes out) with
        | .ok () => return status
        | .error e =>
          tell s!"{utility}: write error: {e.sentence}\n"
          return 2

end JobShell.Utility
