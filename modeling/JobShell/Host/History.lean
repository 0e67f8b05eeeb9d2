import JobShell.Input

/-!
The lines typed at the shell, kept in a file between sessions. The file starts with a
line that names its format; every line after it is an entry, in which a backslash is
written twice and a line break as `\n`. A file without that first line holds entries as
they are.
-/
namespace JobShell

structure History where
  entries : List String := []
  /-- How many of the last entries are new since the file was read. -/
  fresh : Nat := 0
  deriving DecidableEq, Repr

namespace History

/-- Entries that are kept; older ones go. -/
def capacity : Nat := 100

/-- The first line of a file. -/
def format : String := "#V2"

/-- Adds an entry, unless it is empty or equals the one before. -/
def add (h : History) (line : String) : History :=
  if line.isEmpty || h.entries.getLast? == some line then h
  else
    let entries := h.entries ++ [line]
    let entries := entries.drop (entries.length - capacity)
    { entries, fresh := min (h.fresh + 1) entries.length }

/-- An entry as the file holds it. -/
def escape : List Char → List Char
  | [] => []
  | c :: cs =>
    if c = '\\' then '\\' :: '\\' :: escape cs
    else if c = '\n' then '\\' :: 'n' :: escape cs
    else c :: escape cs

/-- The entry that a line of the file stands for; none if a backslash is used otherwise. -/
def unescape? : List Char → Option (List Char)
  | [] => some []
  | '\\' :: '\\' :: cs => (unescape? cs).map ('\\' :: ·)
  | '\\' :: 'n' :: cs => (unescape? cs).map ('\n' :: ·)
  | c :: cs => if c = '\\' then none else (unescape? cs).map (c :: ·)

theorem unescape?_escape (cs : List Char) : unescape? (escape cs) = some cs := by
  induction cs with
  | nil => rfl
  | cons c cs ih =>
    unfold escape
    split
    · simp_all [unescape?]
    · split
      · simp_all [unescape?]
      · unfold unescape?
        split <;> simp_all

/-- Adds an entry of the file. One that cannot be unescaped is taken as it is. -/
def addWritten (h : History) (line : String) : History :=
  h.add (((unescape? line.toList).map String.ofList).getD line)

def render (h : History) : String :=
  format ++ "\n" ++ String.join (h.entries.map fun e => String.ofList (escape e.toList) ++ "\n")

/-- A line without its line break, which may be `\n` or `\r\n`. -/
def withoutBreak (line : String) : String :=
  match line.toList.reverse with
  | '\n' :: '\r' :: cs => String.ofList cs.reverse
  | '\n' :: cs => String.ofList cs.reverse
  | _ => line

/-- The lines of a file with their line breaks, up to the first that is not text, and
whether there is such a line. `line` holds the bytes of the current line, the last first. -/
def textLines (line : List UInt8) : List UInt8 → List String × Bool
  | [] =>
    if line.isEmpty then ([], true)
    else
      match decodeText? line.reverse with
      | some text => ([text], true)
      | none => ([], false)
  | b :: bytes =>
    if b = newline then
      match decodeText? (b :: line).reverse with
      | some text =>
        let (texts, whole) := textLines [] bytes
        (text :: texts, whole)
      | none => ([], false)
    else textLines (b :: line) bytes

/-- The history in a file. If some line is not text, what comes before it counts as new. -/
def ofFile (bytes : List UInt8) : History :=
  let (lines, whole) := textLines [] bytes
  let h : History :=
    match lines.map withoutBreak with
    | [] => {}
    | first :: rest =>
      if first = format then rest.foldl addWritten {}
      else rest.foldl add (({} : History).add first)
  if whole then { h with fresh := 0 } else h

end History

/-- Reads the rest of a file; a failure ends it early. -/
def readAll (fd : Fd) : Program (List UInt8) :=
  Program.iterate (fun bytes => do
    match ← Program.retry (.read fd blockSize) with
    | .ok data => return if data.isEmpty then .inr bytes else .inl (bytes ++ data.toList)
    | .error _ => return .inr bytes) []

/-- The history in the file at `path`, empty if there is none. -/
def loadHistory (path : String) : Program History := do
  match ← Program.retry (.openFile path { access := .read, closeOnExec := true } 0) with
  | .error _ => return {}
  | .ok fd =>
    let bytes ← readAll fd
    let _ ← Program.ask (.close fd)
    return .ofFile bytes

/-- Writes the history to its file, for the owner's eyes only. Without a new entry the
file is left alone. -/
def saveHistory (h : History) (path : String) : Program Unit := do
  if h.entries.isEmpty || h.fresh == 0 then return ()
  let flags : OpenFlags :=
    { access := .write, create := true, truncate := true, closeOnExec := true }
  match ← Program.retry (.openFile path flags 0o600) with
  | .error _ => return ()
  | .ok fd =>
    let _ ← Program.ask (.changePermissions fd 0o600)
    writeText fd h.render
    let _ ← Program.ask (.close fd)

end JobShell
