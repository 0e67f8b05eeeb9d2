import JobShell.Utility.Basic

/-!
Utilities that pick, order and count lines: `head`, `tail`, `sort`, `wc`.
-/
namespace JobShell.Utility

inductive Amount where
  | lines (n : Nat)
  | bytes (n : Nat)
  deriving DecidableEq, Repr

/-- Where the part begins or ends that is printed. -/
inductive Side where
  /-- So much of the front. -/
  | first
  /-- So much of the end. -/
  | last
  /-- All from a line or byte on, counted from one. -/
  | fromHere
  /-- All but so much of the end. -/
  | butLast
  deriving DecidableEq, Repr

/-- The option `-5` is short for `-n 5`. -/
def spellOut : Arguments → Arguments
  | [] => []
  | arg :: args =>
    match arg.toList with
    | '-' :: c :: _ =>
      if c.isDigit then "-n" :: String.ofList (arg.toList.drop 1) :: args else arg :: args
    | _ => arg :: args

/-- In front of at most one file, `+5` is short for `-n +5`, too. -/
def spellOutPlus : Arguments → Arguments
  | arg :: args =>
    match arg.toList with
    | '+' :: c :: _ =>
      if c.isDigit && args.length ≤ 1 then "-n" :: arg :: args else spellOut (arg :: args)
    | _ => spellOut (arg :: args)
  | [] => []

/-- Whether the first of several operands is short for an option, which it may not be. -/
def misplacedShort? : Arguments → Option Char
  | arg :: _ :: _ :: _ =>
    match arg.toList with
    | '-' :: c :: cs => if (c :: cs).all Char.isDigit then some c else none
    | _ => none
  | _ => none

/-- The amount that the options ask for: ten lines unless they say something else. A sign in
front of the number chooses the side. -/
def amount? (utility : String) (request : Request) (plain : Side) (signed : Char × Side) :
    Except String (Side × Amount) :=
  let read (what text : String) : Except String (Side × Nat) :=
    let (side, digits) := match text.toList with
      | c :: cs => if c = signed.1 then (signed.2, cs)
        else if c = '-' then (plain, cs) else (plain, c :: cs)
      | [] => (plain, [])
    match number? (String.ofList digits) with
    | some n => .ok (side, n)
    | none => .error s!"{utility}: invalid number of {what}: '{text}'\n"
  match request.options.reverse.find? fun o => o.1 == 'n' || o.1 == 'c' with
  | none => .ok (plain, .lines 10)
  | some ('c', text) => do
    let (side, n) ← read "bytes" text
    return (side, .bytes n)
  | some (_, text) => do
    let (side, n) ← read "lines" text
    return (side, .lines n)

/-- The part of a text up to the end of its line `n`, and how many lines are still missing. -/
def firstLines (n : Nat) (data : ByteArray) : ByteArray × Nat :=
  data.foldl (fun (out, n) b =>
    if n = 0 then (out, 0) else (out.push b, if b = 10 then n - 1 else n)) (ByteArray.empty, n)

/-- What an amount takes from the front of a text, and what is missing from it. -/
def Amount.front : Amount → ByteArray → ByteArray × Amount
  | .lines n, data => let (out, n) := firstLines n data; (out, .lines n)
  | .bytes n, data => (data.extract 0 n, .bytes (n - data.size))

def Amount.isZero : Amount → Bool
  | .lines n => n == 0
  | .bytes n => n == 0

inductive Progress where
  | done
  | failed
  /-- Nothing can be written any more. -/
  | stuck
  deriving DecidableEq

def passOn (utility : String) (data : ByteArray) : Program Progress := do
  return if (← deliver utility data 0) == 0 then .done else .stuck

/-- Copies the first part of a descriptor. What was read too much is given back if that is
possible. -/
def headFd (utility name : String) (fd : Fd) (amount : Amount) : Program Progress :=
  Program.iterate (fun (amount : Amount) => do
    if amount.isZero then return .inr .done
    else
      let count := match amount with
        | .lines _ => 8192
        | .bytes n => min n 8192
      match ← Program.retry (.read fd count) with
      | .error e =>
        tell s!"{utility}: error reading '{name}': {e.sentence}\n"
        return .inr .failed
      | .ok data =>
        if data.isEmpty then return .inr .done
        else
          let (out, left) := amount.front data
          if left.isZero then
            let _ ← Program.ask (.moveBack fd (data.size - out.size))
          match ← passOn utility out with
          | .done => return .inl left
          | progress => return .inr progress) amount

def heading (first : Bool) (name : String) : String :=
  (if first then "" else "\n") ++ s!"==> {name} <==\n"

/-- Runs `body` on each named input with its descriptor, under headings if there are
several. -/
def eachInput (utility : String) (body : String → Fd → Program Progress)
    (several first whole : Bool) : Arguments → Program Status
  | [] => return statusOf whole
  | name :: names => do
    if name = "-" then
      if several then say (heading first "standard input")
      match ← body "standard input" 0 with
      | .stuck => return 1
      | progress => eachInput utility body several false (whole && progress == .done) names
    else
      match ← Program.retry (.openFile name { access := .read } 0) with
      | .error e =>
        tell s!"{utility}: cannot open '{name}' for reading: {e.sentence}\n"
        eachInput utility body several first false names
      | .ok fd =>
        if several then say (heading first name)
        let progress ← body name fd
        let _ ← Program.ask (.close fd)
        if progress == .stuck then return 1
        else eachInput utility body several false (whole && progress == .done) names

def Side.part (side : Side) (n : Nat) (xs : List α) : List α :=
  match side with
  | .first => xs.take n
  | .last => xs.drop (xs.length - n)
  | .fromHere => xs.drop (n - 1)
  | .butLast => xs.take (xs.length - n)

def partOf (side : Side) (amount : Amount) (data : ByteArray) : ByteArray :=
  match amount with
  | .bytes n => bytes (side.part n data.toList)
  | .lines n => concat (side.part n (linesOf data))

def partFd (utility : String) (side : Side) (amount : Amount) (name : String) (fd : Fd) :
    Program Progress := do
  match ← slurp fd with
  | .error e =>
    let failed := if e = .badFile then "cannot fstat" else "error reading"
    tell s!"{utility}: {failed} '{name}': {e.sentence}\n"
    return .failed
  | .ok data => passOn utility (partOf side amount data)

/-- The utility `head [-n lines | -c bytes] [file...]` -/
def head (utility : String) (args : Arguments) : Program Status :=
  withOptions utility "nc" "qv" (spellOut args) 1 fun request =>
    match amount? utility request .first ('-', .butLast) with
    | .error problem => do
      tell problem
      return 1
    | .ok (side, amount) => do
      let names := orStandardInput request.operands
      let body (name : String) (fd : Fd) : Program Progress :=
        if side = .first then headFd utility name fd amount
        else partFd utility side amount name fd
      closeInput utility "-" names (← eachInput utility body
        (request.has 'v' || (decide (1 < names.length) && !request.has 'q')) true true names)

/-- The utility `tail [-n [+]lines | -c [+]bytes] [file...]` -/
def tail (utility : String) (args : Arguments) : Program Status :=
  match misplacedShort? args with
  | some c => do
    tell s!"{utility}: option used in invalid context -- {c}\n"
    return 1
  | none =>
    withOptions utility "nc" "qv" (spellOutPlus args) 1 fun request =>
      match amount? utility request .last ('+', .fromHere) with
      | .error problem => do
        tell problem
        return 1
      | .ok (side, amount) =>
        if side = .last && amount.isZero then return 0
        else do
          let names := orStandardInput request.operands
          closeInput utility "-" names (← eachInput utility (partFd utility side amount)
            (request.has 'v' || (decide (1 < names.length) && !request.has 'q')) true true names)

/-- Order of lines byte by byte. -/
def bytesLe : List UInt8 → List UInt8 → Bool
  | [], _ => true
  | _ :: _, [] => false
  | a :: as, b :: bs => a < b || (a == b && bytesLe as bs)

/-- The number that a line starts with, to nine decimal places. -/
def leadingNumber (line : List UInt8) : Int :=
  let cs := (line.map fun b => Char.ofNat b.toNat).dropWhile fun c => c == ' ' || c == '\t'
  let (negative, cs) := match cs with
    | '-' :: cs => (true, cs)
    | cs => (false, cs)
  let digits := cs.takeWhile Char.isDigit
  let places := match cs.drop digits.length with
    | '.' :: cs => (cs.takeWhile Char.isDigit).take 9
    | _ => []
  let all := digits ++ places ++ List.replicate (9 - places.length) '0'
  let value : Int := (number? (String.ofList all)).getD 0
  if negative then -value else value

def sortInputs : Arguments → Program (Except String (List ByteArray))
  | [] => return .ok []
  | name :: names => do
    let fd? ← if name = "-" then pure (.ok 0)
      else Program.retry (.openFile name { access := .read } 0)
    match fd? with
    | .error e => return .error s!"cannot read: {name}: {e.sentence}"
    | .ok fd =>
      let data ← slurp fd
      if name ≠ "-" then
        let _ ← Program.ask (.close fd)
      match data with
      | .error e =>
        let failed := if e = .badFile then "stat failed" else "read failed"
        return .error s!"{failed}: {name}: {e.sentence}"
      | .ok data => return (← sortInputs names).map (data :: ·)

/-- The utility `sort [-nru] [file...]`. Lines with equal keys are ordered byte by byte. -/
def sort (utility : String) (args : Arguments) : Program Status :=
  withOptions utility "" "nrus" args 2 fun request => do
    match ← sortInputs (orStandardInput request.operands) with
    | .error problem =>
      tell s!"{utility}: {problem}\n"
      return 2
    | .ok texts =>
      let lines := (texts.flatMap linesOf).map fun line => (chomp line).toList
      let numeric := request.has 'n'
      let unique := request.has 'u'
      let le (a b : List UInt8) : Bool :=
        if numeric then
          let x := leadingNumber a
          let y := leadingNumber b
          x < y || (x == y && (unique || request.has 's' || bytesLe a b))
        else bytesLe a b
      let ordered := lines.mergeSort (if request.has 'r' then fun a b => le b a else le)
      let same (a b : List UInt8) : Bool := le a b && le b a
      let kept := if unique then firstOfEach same ordered else ordered
      match ← put 1 (bytes (kept.flatMap fun line => line ++ [10])) with
      | .ok () => return 0
      | .error e =>
        tell (s!"{utility}: fflush failed: 'standard output': {e.sentence}\n" ++
          s!"{utility}: write error\n")
        return 2
where
  firstOfEach (same : List UInt8 → List UInt8 → Bool) : List (List UInt8) → List (List UInt8)
    | a :: b :: rest =>
      if same a b then firstOfEach same (a :: rest) else a :: firstOfEach same (b :: rest)
    | lines => lines
  termination_by lines => lines.length

structure Counts where
  lines : Nat := 0
  words : Nat := 0
  bytes : Nat := 0

namespace Counts

def isSpace (b : UInt8) : Bool := b == 32 || (9 ≤ b && b ≤ 13)

def ofData (data : ByteArray) : Counts :=
  (data.foldl (fun ((counts, inWord) : Counts × Bool) b =>
    let starts := !isSpace b && !inWord
    ({ lines := counts.lines + (b == 10).toNat
       words := counts.words + starts.toNat
       bytes := counts.bytes + 1 }, !isSpace b)) ({}, false)).1

def add (a b : Counts) : Counts :=
  { lines := a.lines + b.lines, words := a.words + b.words, bytes := a.bytes + b.bytes }

end Counts

structure Columns where
  lines : Bool
  words : Bool
  bytes : Bool

/-- One line of `wc`: the counts asked for, filled up with blanks to a width. -/
def countLine (columns : Columns) (width : Nat) (counts : Counts) (label : String) : String :=
  let shown := (if columns.lines then [counts.lines] else []) ++
    (if columns.words then [counts.words] else []) ++
    (if columns.bytes then [counts.bytes] else [])
  let texts := shown.map fun n =>
    let digits := toString n
    "".pushn ' ' (width - digits.length) ++ digits
  " ".intercalate texts ++ label ++ "\n"

/-- The least width of a column: seven unless all inputs are regular files, whose sizes add
up to `total`. -/
def columnWidth : List String → (total : Nat) → (least : Nat) → Program Nat
  | [], total, least => return max least (toString total).length
  | name :: names, total, least => do
    let status ← Program.ask (if name = "-" then .inspectFd 0 else .inspect name true)
    match status with
    | .ok status =>
      if status.kind == .regular then columnWidth names (total + status.size) least
      else columnWidth names total 7
    | .error _ => columnWidth names total least

/-- Counts what a descriptor holds; nothing is counted of what cannot be read. -/
def countFd (utility label : String) (fd : Fd) : Program (Counts × Bool) := do
  match ← slurp fd with
  | .ok data => return (Counts.ofData data, true)
  | .error e =>
    tell s!"{utility}: {label}: {e.sentence}\n"
    return ({}, false)

/-- Adds the counts of inputs to the lines that are shown. -/
def countInputs (utility : String) (columns : Columns) (width : Nat) (unnamed : Bool)
    (shown : List String) (total : Counts) (whole : Bool) :
    Arguments → Program (List String × Counts × Bool)
  | [] => return (shown, total, whole)
  | name :: names => do
    let counted ←
      if name = "-" then
        pure (some (← countFd utility (if unnamed then "'standard input'" else "-") 0))
      else
        match ← Program.retry (.openFile name { access := .read } 0) with
        | .error e =>
          tell s!"{utility}: {name}: {e.sentence}\n"
          pure none
        | .ok fd =>
          let counted ← countFd utility name fd
          let _ ← Program.ask (.close fd)
          pure (some counted)
    match counted with
    | none => countInputs utility columns width unnamed shown total false names
    | some (counts, good) =>
      let line := countLine columns width counts (if unnamed then "" else " " ++ name)
      countInputs utility columns width unnamed (shown ++ [line]) (total.add counts)
        (whole && good) names

/-- The utility `wc [-clw] [file...]` -/
def wc (utility : String) (args : Arguments) : Program Status :=
  withOptions utility "" "clmw" args 1 fun request => do
    let all := request.options.isEmpty
    let columns : Columns := {
      lines := all || request.has 'l'
      words := all || request.has 'w'
      bytes := all || request.has 'c' || request.has 'm' }
    let names := orStandardInput request.operands
    let single := columns.lines.toNat + columns.words.toNat + columns.bytes.toNat == 1
    let width ← if single && names.length == 1 then pure 1 else columnWidth names 0 1
    let (shown, total, whole) ←
      countInputs utility columns width request.operands.isEmpty [] {} true names
    let shown := if 1 < names.length then shown ++ [countLine columns width total " total"]
      else shown
    match ← put 1 (String.join shown).toUTF8 with
    | .ok () => closeInput utility "-" names (statusOf whole)
    | .error e =>
      let why := if e = .badFile then s!": {e.sentence}" else ""
      tell s!"{utility}: write error{why}\n"
      return 1

end JobShell.Utility
