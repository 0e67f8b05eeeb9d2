import JobShell.Utility.Basic

/-!
The parts of lines that `cut` picks.
-/
namespace JobShell.Utility

/-- Numbers from `low` to `high`, both counted from one; without `high` to the end. -/
structure Span where
  low : Nat
  high : Option Nat
  deriving DecidableEq, Repr

def Span.holds (s : Span) (n : Nat) : Bool :=
  s.low ≤ n && (match s.high with
    | some high => decide (n ≤ high)
    | none => true)

inductive SpanProblem where
  | zero
  | decreasing
  | noEnds
  | manyEnds
  | noNumber (text : String)
  deriving DecidableEq, Repr

/-- How a problem is told, for fields or for bytes. -/
def SpanProblem.text (fields : Bool) : SpanProblem → String
  | zero => if fields then "fields are numbered from 1"
    else "byte/character positions are numbered from 1"
  | decreasing => "invalid decreasing range"
  | noEnds => "invalid range with no endpoint: -"
  | manyEnds => if fields then "invalid field range" else "invalid byte or character range"
  | noNumber text => if fields then s!"invalid field value '{text}'"
    else s!"invalid byte/character position '{text}'"

/-- One of `n`, `n-`, `-m` and `n-m`. -/
def span (text : String) : Except SpanProblem Span := do
  let position (digits : String) : Except SpanProblem Nat :=
    match digits.toList.dropWhile Char.isDigit, number? digits with
    | [], none | [], some 0 => .error .zero
    | [], some n => .ok n
    | junk, _ => .error (.noNumber (String.ofList junk))
  match text.splitOn "-" with
  | [n] =>
    let n ← position n
    return { low := n, high := some n }
  | ["", ""] => .error .noEnds
  | [n, ""] => return { low := ← position n, high := none }
  | ["", m] => return { low := 1, high := some (← position m) }
  | [n, m] =>
    let low ← position n
    let high ← position m
    if high < low then .error .decreasing else return { low, high := some high }
  | _ => .error .manyEnds

def spans (text : String) : Except SpanProblem (List Span) :=
  (text.splitToList fun c => c == ',' || c == ' ' || c == '\t').mapM span

def splitAt (delimiter : UInt8) : List UInt8 → List (List UInt8)
  | [] => [[]]
  | b :: bs =>
    if b == delimiter then [] :: splitAt delimiter bs
    else
      match splitAt delimiter bs with
      | piece :: pieces => (b :: piece) :: pieces
      | [] => [[b]]

/-- The elements of a list whose positions, from one on, lie in one of the spans. -/
def pick (spans : List Span) (xs : List α) : List α :=
  (xs.zipIdx.filter fun e => spans.any fun s => s.holds (e.2 + 1)).map Prod.fst

/-- The picked fields of a line. A line without delimiter is kept whole. -/
def cutFields (delimiter : UInt8) (spans : List Span) (line : List UInt8) : List UInt8 :=
  if line.contains delimiter then
    List.intercalate [delimiter] (pick spans (splitAt delimiter line))
  else line

def mapLines (utility : String) (names : List String) (f : List UInt8 → Option (List UInt8)) :
    Program Status := do
  let names := orStandardInput names
  let (texts, whole) ← readAll utility names
  let status ← closeInput utility "-" names (statusOf whole)
  let lines := (texts.flatMap linesOf).filterMap fun line => f (chomp line).toList
  deliver utility (bytes (lines.flatMap fun line => line ++ [10])) status

def cutter (request : Request) : Except String (List UInt8 → Option (List UInt8)) := do
  let lists := request.options.filter fun o => o.1 == 'b' || o.1 == 'c' || o.1 == 'f'
  let delimiter ← match (request.value? 'd').map fun d => d.toUTF8.toList with
    | none => .ok 9
    | some [] => .ok 0
    | some [d] => .ok d
    | _ => .error "the delimiter must be a single character"
  match lists with
  | [] => .error "you must specify a list of bytes, characters, or fields"
  | _ :: _ :: _ => .error "only one list may be specified"
  | [(letter, list)] =>
    let fields := letter == 'f'
    if !fields && request.has 'd' then
      .error "an input delimiter may be specified only when operating on fields"
    else if !fields && request.has 's' then
      .error ("suppressing non-delimited lines makes sense\n" ++
        "\tonly when operating on fields")
    else
      match spans list with
      | .error problem => .error (problem.text fields)
      | .ok spans =>
        if fields then
          return fun line =>
            if request.has 's' && !line.contains delimiter then none
            else some (cutFields delimiter spans line)
        else return fun line => some (pick spans line)

/-- The utility `cut -b list | -c list | -f list [-d delimiter] [-s] [file...]` -/
def cut (utility : String) (args : Arguments) : Program Status :=
  withOptions utility "bcfd" "sn" args 1 fun request =>
    match cutter request with
    | .error problem => misuse utility problem 1
    | .ok f => mapLines utility request.operands f

end JobShell.Utility
