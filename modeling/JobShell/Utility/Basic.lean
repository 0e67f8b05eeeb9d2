import JobShell.System.Program
import JobShell.Text.Numeral

/-!
What the utilities share: writing all of a piece of output, reading to the end of the
input, naming what went wrong. A utility is a program that comes to an exit status.
-/
namespace JobShell.Utility

abbrev Arguments := List String

/-- Writes a piece of output to its end. -/
def put (fd : Fd) (data : ByteArray) : Program (Except Errno Unit) :=
  Program.iterate (fun (rest : ByteArray) => do
    if rest.isEmpty then return .inr (.ok ())
    else
      match ← Program.retry (.write fd rest) with
      | .ok n => return .inl (rest.extract n rest.size)
      | .error e => return .inr (.error e)) data

def say (text : String) : Program Unit := do
  let _ ← put 1 text.toUTF8

def tell (text : String) : Program Unit := do
  let _ ← put 2 text.toUTF8

/-- Bytes asked for at a time. -/
def portion : Nat := 131072

def slurp (fd : Fd) : Program (Except Errno ByteArray) :=
  Program.iterate (fun (got : ByteArray) => do
    match ← Program.retry (.read fd portion) with
    | .error e => return .inr (.error e)
    | .ok data => return if data.isEmpty then .inr (.ok got) else .inl (got ++ data)) .empty

/-- What is read where a file is named: the file, or standard input for `-`. -/
def readNamed (name : String) : Program (Except Errno ByteArray) := do
  if name = "-" then slurp 0
  else
    match ← Program.retry (.openFile name { access := .read } 0) with
    | .error e => return .error e
    | .ok fd =>
      let data ← slurp fd
      let _ ← Program.ask (.close fd)
      return data

/-- The named inputs in order, and whether all could be read. Failures are told as
`utility: name: reason`. -/
def readAll (utility : String) : List String → Program (List ByteArray × Bool)
  | [] => return ([], true)
  | name :: names => do
    match ← readNamed name with
    | .ok data =>
      let (rest, whole) ← readAll utility names
      return (data :: rest, whole)
    | .error e =>
      tell s!"{utility}: {name}: {e.sentence}\n"
      let (rest, _) ← readAll utility names
      return (rest, false)

/-- Closes standard input if it was among the inputs. That it was not open to begin with is
told at the end. -/
def closeInput (utility label : String) (names : List String) (status : Status) :
    Program Status := do
  if !names.contains "-" then return status
  else
    match ← Program.ask (.close 0) with
    | .ok () => return status
    | .error e =>
      tell s!"{utility}: {label}: {e.sentence}\n"
      return 1

def orStandardInput (names : List String) : List String := if names.isEmpty then ["-"] else names

/-- The lines of a text, with their newlines; the last may lack it. -/
def linesOf (data : ByteArray) : List ByteArray :=
  let (lines, last) := data.foldl
    (fun (lines, line) b =>
      let line : ByteArray := line.push b
      if b = 10 then (line :: lines, ByteArray.empty) else (lines, line))
    (([] : List ByteArray), ByteArray.empty)
  (if last.isEmpty then lines else last :: lines).reverse

def chomp (line : ByteArray) : ByteArray :=
  if line.data.back? == some 10 then line.extract 0 (line.size - 1) else line

def concat (pieces : List ByteArray) : ByteArray := pieces.foldl (· ++ ·) .empty

def run (utility : Program Status) : Program Empty := utility.bind fun status => .exit status

def number? (text : String) : Option Nat := Text.natural? text.toList

/-- What a utility was asked for: options with their values, and the other arguments. -/
structure Request where
  options : List (Char × String) := []
  operands : Arguments := []

namespace Request

def has (r : Request) (c : Char) : Bool := r.options.any fun o => o.1 == c

def value? (r : Request) (c : Char) : Option String :=
  (r.options.reverse.find? fun o => o.1 == c).map Prod.snd

end Request

/-- Letters behind one hyphen: options, and the last letter if its value is the next
argument. -/
def cluster (valued plain : String) : List Char →
    Except String (List (Char × String) × Option Char)
  | [] => .ok ([], none)
  | c :: cs =>
    if valued.contains c then
      .ok (if cs.isEmpty then ([], some c) else ([(c, String.ofList cs)], none))
    else if plain.contains c then do
      let (options, pending) ← cluster valued plain cs
      return ((c, "") :: options, pending)
    else .error s!"invalid option -- '{c}'"

/-- Sorts arguments into options and operands, which may stand in any order. The letters of
`valued` take a value, those of `plain` none. -/
def requestOf (valued plain : String) : Option Char → Request → Arguments → Except String Request
  | none, r, [] => .ok r
  | some c, _, [] => .error s!"option requires an argument -- '{c}'"
  | some c, r, arg :: args =>
    requestOf valued plain none { r with options := r.options ++ [(c, arg)] } args
  | none, r, arg :: args =>
    if arg = "--" then .ok { r with operands := r.operands ++ args }
    else
      match arg.toList with
      | '-' :: c :: cs => do
        let (options, pending) ← cluster valued plain (c :: cs)
        requestOf valued plain pending { r with options := r.options ++ options } args
      | _ => requestOf valued plain none { r with operands := r.operands ++ [arg] } args

def misuse (name problem : String) (status : Status) : Program Status := do
  tell s!"{name}: {problem}\nTry '{name} --help' for more information.\n"
  return status

def withOptions (name valued plain : String) (args : Arguments) (failure : Status)
    (body : Request → Program Status) : Program Status :=
  match requestOf valued plain none {} args with
  | .ok request => body request
  | .error problem => misuse name problem failure

/-- The status of a utility that has done all or only a part of its work. -/
def statusOf (whole : Bool) : Status := if whole then 0 else 1

/-- Writes a result to standard output. A failure is told, and becomes the status 1. -/
def deliver (name : String) (data : ByteArray) (status : Status) : Program Status := do
  match ← put 1 data with
  | .ok () => return status
  | .error e =>
    tell s!"{name}: write error: {e.sentence}\n"
    return 1

def bytes (data : List UInt8) : ByteArray := ⟨data.toArray⟩

end JobShell.Utility
