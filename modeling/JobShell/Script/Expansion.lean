import JobShell.Script.Arithmetic
import JobShell.Script.Lexer
import JobShell.Script.Pattern
import JobShell.Script.State
import JobShell.Utility.Directories

/-!
Expansion of words: parameters, the output of scripts, arithmetic, the splitting of what
comes out of them, and names of files that match a pattern.
-/
namespace JobShell.Script

/-- Fields while they are being built: the finished ones, last first, and the one that was
begun, if any. -/
structure Fields where
  finished : List (List Letter) := []
  current : Option (List Letter) := none

namespace Fields

def add (f : Fields) (text : List Letter) : Fields :=
  { f with current := some (f.current.getD [] ++ text) }

def split (f : Fields) : Fields :=
  match f.current with
  | some field => { finished := field :: f.finished, current := none }
  | none => f

def addSplit (separators : String) (f : Fields) (text : String) : Fields :=
  text.toList.foldl (fun f c =>
    if separators.contains c then f.split else f.add [(c, false)]) f

def toList (f : Fields) : List (List Letter) := f.split.finished.reverse

end Fields

inductive Splitting where
  /-- What is not quoted is divided into fields. -/
  | fields
  /-- Everything stays one field. -/
  | whole
  deriving DecidableEq

/-- An expansion. It can change what the script knows, and say what is wrong. -/
abbrev Expander := StateT State (ExceptT String Program)

def addValue (splitting : Splitting) (st : State) (quoted : Bool) (text : String) (f : Fields) :
    Fields :=
  if quoted then f.add (letters true text)
  else
    match splitting with
    | .whole => f.add (letters false text)
    | .fields => f.addSplit st.separators text

/-- Adds each argument as a field of its own. -/
def addArguments (st : State) (quoted : Bool) : List String → Fields → Fields
  | [], f => f
  | [last], f => addValue .fields st quoted last f
  | arg :: args, f => addArguments st quoted args (addValue .fields st quoted arg f).split

/-- Text without the newlines at its end, and without characters that no variable holds. -/
def withoutFinalNewlines (text : String) : String :=
  String.ofList (((text.toList.filter (· != '\x00')).reverse.dropWhile (· == '\n')).reverse)

/-- What a script prints to its standard output. -/
def capture (evaluate : Evaluator) (script : String) (ownLines : Bool) : Expander String := do
  let st ← get
  let line := if ownLines then 1 else st.line
  match ← Program.ask .pipe with
  | .error e => throw s!"Pipe call failed: {e.sentence}"
  | .ok (reading, writing) =>
    let prepare : Program Unit := do
      let _ ← Program.ask (.close reading)
      if writing ≠ 1 then
        let _ ← Program.ask (.duplicate writing 1)
        let _ ← Program.ask (.close writing)
    match ← startPart evaluate { st with line } prepare (evaluate true script) with
    | .error _ => throw "Cannot fork"
    | .ok pid =>
      let _ ← Program.ask (.close writing)
      let data ← Utility.slurp reading
      let _ ← Program.ask (.close reading)
      let status ← waitFor pid
      set { st with captured := some (status.toOption.getD 0) }
      return withoutFinalNewlines ((data.toOption.bind String.fromUTF8?).getD "")

/-- Expands a word to one field. -/
abbrev Nested := Word → Expander (List Letter)

def changed (nested : Nested) (name : String) (change : Option Change) : Expander String := do
  let value? := (← get).parameter? name
  let value := value?.getD ""
  let missing (colon : Bool) : Bool := value?.isNone || (colon && value.isEmpty)
  let spell (word : String) : Expander String := do return spelled (← nested (wordOf word))
  let unset : Expander Unit := do
    if value?.isNone && (← get).options.contains 'u' && name ≠ "@" && name ≠ "*" then
      throw s!"{name}: parameter not set"
  match change with
  | none =>
    unset
    return value
  | some .length =>
    unset
    return toString value.length
  | some (.orFail colon word) =>
    if missing colon then
      let text ← if word.isEmpty then
          pure ("parameter not set" ++ (if colon then " or null" else ""))
        else spell word
      throw s!"{name}: {text}"
    else return value
  | some (.orElse colon word) => if missing colon then spell word else return value
  | some (.instead colon word) => if missing colon then return "" else spell word
  | some (.orAssign colon word) =>
    if missing colon then
      let value ← spell word
      modify fun st => st.setVariable name value
      return value
    else return value
  | some (.trim fromStart longest pattern) =>
    return trimmed fromStart longest (← nested (wordOf pattern)) value

/-- A path in which a tilde at the start stands for the home directory. -/
def expandTilde (st : State) (f : Fields) (text : String) : Fields :=
  match f.current, text.toList with
  | none, '~' :: rest =>
    if rest.isEmpty || rest.head? == some '/' then
      let home := (st.valueOf? "HOME").getD "~"
      (f.add (letters true home)).add (letters false (String.ofList rest))
    else f.add (letters false text)
  | _, _ => f.add (letters false text)

def expandPieces (evaluate : Evaluator) (nested : Nested) (splitting : Splitting) :
    Word → Fields → Expander Fields
  | [], f => return f
  | piece :: pieces, f => do
    let st ← get
    let f ← match piece with
      | .plain text => pure (expandTilde st f text)
      | .literal text => pure (f.add (letters true text))
      | .parameter "@" none quoted =>
        pure <| match splitting with
          | .fields => addArguments st quoted st.arguments f
          | .whole => f.add (letters true (" ".intercalate st.arguments))
      | .parameter name change quoted =>
        let text ← changed nested name change
        pure (addValue splitting (← get) quoted text f)
      | .output script ownLines quoted =>
        let text ← capture evaluate script ownLines
        pure (addValue splitting (← get) quoted text f)
      | .arithmetic text quoted =>
        let field ← nested (wordOf ("\"" ++ text ++ "\""))
        let st ← get
        match Arithmetic.evaluate st.valueOf? (spelled field) with
        | .ok n => pure (addValue splitting st quoted (toString n) f)
        | .error (.noNumber text) => throw s!"Illegal number: {text}"
        | .error (.malformed problem) =>
          throw s!"arithmetic expression: {problem}: \"{spelled field}\""
    expandPieces evaluate nested splitting pieces f

/-- Expands a word to one field. `depth` bounds how deep expansions are nested. -/
def expandWhole (evaluate : Evaluator) : (depth : Nat) → Nested
  | 0, _ => throw "Maximum expansion depth reached"
  | depth + 1, word => do
    let f ← expandPieces evaluate (expandWhole evaluate depth) .whole word {}
    return f.toList.flatten

def expansionDepth : Nat := 20

def expandText (evaluate : Evaluator) (word : Word) : Expander String := do
  return spelled (← expandWhole evaluate expansionDepth word)

def splitField : List Letter → List (List Letter)
  | [] => [[]]
  | (c, quoted) :: rest =>
    if c == '/' then [] :: splitField rest
    else
      match splitField rest with
      | first :: more => ((c, quoted) :: first) :: more
      | [] => [[(c, quoted)]]

/-- One step along a pattern: the paths that a path leads to. -/
def stepAlong (part : List Letter) (last : Bool) (start : String) : Program (List String) := do
  let onward (name : String) : String := start ++ name ++ (if last then "" else "/")
  if isPattern part then
    match ← Utility.listDirectory (if start.isEmpty then "." else start) with
    | .error _ => return []
    | .ok names =>
      let hits := names.filter fun name =>
        matchesText part name && (!Utility.isHidden name || part.head?.map Prod.fst == some '.')
      return hits.map onward
  else
    match ← Program.ask (.inspect (onward (spelled part)) false) with
    | .ok _ => return [onward (spelled part)]
    | .error _ => return []

def stepAll (part : List Letter) (last : Bool) : List String → Program (List String)
  | [] => return []
  | path :: paths => do
    let found ← stepAlong part last path
    return found ++ (← stepAll part last paths)

/-- Paths that match the parts of a pattern, in byte order. -/
def matchingPaths (starts : List String) : List (List Letter) → Program (List String)
  | [] => return starts
  | part :: parts => do matchingPaths (← stepAll part parts.isEmpty starts) parts

/-- Replaces fields that are patterns by the paths that match, if there are any. -/
def expandPaths : List (List Letter) → Program (List String)
  | [] => return []
  | field :: fields => do
    let paths ←
      if isPattern field then
        match splitField field with
        | [] :: parts => do return (← matchingPaths ["/"] parts)
        | parts => matchingPaths [""] parts
      else pure []
    let rest ← expandPaths fields
    return (if paths.isEmpty then [spelled field] else paths) ++ rest

/-- Expands words to the arguments that they stand for. -/
def expandWords (evaluate : Evaluator) : List Word → Expander (List String)
  | [] => return []
  | word :: words => do
    let f ← expandPieces evaluate (expandWhole evaluate expansionDepth) .fields word {}
    let fields := f.toList
    let paths ← if (← get).options.contains 'f' then pure (fields.map spelled)
      else (expandPaths fields : Program (List String))
    let rest ← expandWords evaluate words
    return paths ++ rest

end JobShell.Script
