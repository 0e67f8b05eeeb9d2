import JobShell.Shell

/-!
Reading lines from a descriptor. What is read runs ahead of the lines: the system is
asked for blocks, and the bytes behind the current line are kept for the next one.
-/
namespace JobShell

structure Source where
  fd : Fd
  /-- Bytes read but not handed out yet. -/
  ahead : List UInt8 := []
  /-- A closed descriptor counts as an empty file. -/
  closedIsEmpty : Bool := false
  deriving Repr

def blockSize : Nat := 8192

inductive ReadError where
  | system (cause : Errno)
  /-- The line is not valid UTF-8. -/
  | notText
  deriving DecidableEq, Repr

def ReadError.message : ReadError → String
  | system cause => cause.numbered
  | notText => "stream did not contain valid UTF-8"

def newline : UInt8 := 10

/-- Cuts behind the first newline, if there is one. -/
def cutLine? : List UInt8 → Option (List UInt8 × List UInt8)
  | [] => none
  | b :: bytes =>
    if b = newline then some ([b], bytes)
    else (cutLine? bytes).map fun (line, rest) => (b :: line, rest)

def decodeText? (bytes : List UInt8) : Option String :=
  String.fromUTF8? ⟨bytes.toArray⟩

/-- A line as text, no line at the end of the input. -/
def textLine (line : List UInt8) : Except ReadError (Option String) :=
  if line.isEmpty then .ok none
  else
    match decodeText? line with
    | some text => .ok (some text)
    | none => .error .notText

namespace Source

def nextBlock (s : Source) : Program (Except Errno (List UInt8)) := do
  match ← Program.retry (.read s.fd blockSize) with
  | .ok data => return .ok data.toList
  | .error e => return if s.closedIsEmpty ∧ e = .badFile then .ok [] else .error e

/-- One round of reading a line whose bytes so far, without a newline among them, are
`line`. -/
def readRound (s : Source) (line : List UInt8) : Program
    ((Source × List UInt8) ⊕ (Except ReadError (Option String) × Source)) := do
  match cutLine? s.ahead with
  | some (last, rest) => return .inr (textLine (line ++ last), { s with ahead := rest })
  | none =>
    let line := line ++ s.ahead
    match ← s.nextBlock with
    | .error e => return .inr (.error (.system e), { s with ahead := [] })
    | .ok [] => return .inr (textLine line, { s with ahead := [] })
    | .ok block => return .inl ({ s with ahead := block }, line)

/-- Reads a line with its newline; the last one may lack it. -/
def readLine (s : Source) : Program (Except ReadError (Option String) × Source) :=
  Program.iterate (fun (s, line) => s.readRound line) (s, [])

end Source

/-- Bytes that standard output holds back when no line break follows them. -/
def outputCapacity : Nat := 1024

/-- Splits bytes for standard output into those written at once and those held back. -/
def splitHeld (bytes : List UInt8) : List UInt8 × List UInt8 :=
  let tail := (bytes.reverse.takeWhile (· != newline)).reverse
  if tail.length < outputCapacity then (bytes.take (bytes.length - tail.length), tail)
  else (bytes, [])

/-- Shows a prompt. Only what is written at once has to be written. -/
def showPrompt (text : String) : Program Unit := do
  let (now, held) := splitHeld text.toUTF8.data.toList
  if ← writeAll 1 ⟨now.toArray⟩ then
    let _ ← writeAll 1 ⟨held.toArray⟩
  else Program.abort

abbrev Evaluator := Context → String → Program (Flow × Context)

/-- One round of the read loop. It ends with an exit status. -/
def readRound (evaluate : Evaluator) (quiet : Bool) (source : Source) (ctx : Context) :
    Program ((Source × Context) ⊕ (Status × Context)) := do
  if !quiet then
    let pid ← Program.ask .processId
    showPrompt (ctx.promptFor pid)
  match ← source.readLine with
  | (.ok none, _) => return .inr (ctx.lastStatus, ctx)
  | (.ok (some line), source) =>
    match ← evaluate ctx line with
    | (.continue, ctx) => return .inl (source, ctx)
    | (.exit code, ctx) => return .inr (code, ctx)
  | (.error e, _) =>
    complain s!"error reading input: {e.message}"
    return .inr (1, ctx)

/-- Reads and evaluates lines to the end of the input, with a prompt before each unless
`quiet`. -/
def readLines (evaluate : Evaluator) (quiet : Bool) (source : Source) (ctx : Context) :
    Program (Status × Context) :=
  Program.iterate (fun (source, ctx) => readRound evaluate quiet source ctx) (source, ctx)

end JobShell
