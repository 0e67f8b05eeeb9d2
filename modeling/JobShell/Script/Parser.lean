import JobShell.Script.Lexer

/-!
From lexemes to commands, by recursive descent, one line of a script at a time.
-/
namespace JobShell.Script

structure Problem where
  line : Nat
  text : String
  deriving DecidableEq, Repr

abbrev Reader := StateT (List Lexed) (Except Problem)

/-- Words that are no names of commands where a command begins. -/
def keywords : List String :=
  ["!", "case", "do", "done", "elif", "else", "esac", "fi", "for", "if", "in", "then", "until",
   "while", "\x7b", "\x7d"]

def Lexeme.describe : Lexeme → String
  | .word content =>
    match bare? content with
    | some text => if keywords.contains text then s!"\"{text}\"" else "word"
    | none => "word"
  | .operator text => s!"\"{text}\""
  | .redirect _ _ => "redirection"
  | .newline => "newline"
  | .broken problem => problem

/-- A lexeme where it does not fit. -/
def problemAt (expecting : Option String) (lexed : List Lexed) : Problem :=
  let hint := match expecting with
    | some keyword => s!" (expecting \"{keyword}\")"
    | none => ""
  match lexed with
  | [] => { line := 1, text := "end of file unexpected" ++ hint }
  | { lexeme := .broken problem, line } :: _ => { line, text := problem }
  | { lexeme, line } :: _ => { line, text := s!"{lexeme.describe} unexpected" ++ hint }

def unexpected (expecting : Option String) : Reader α := do throw (problemAt expecting (← get))

def keyword? : List Lexed → Option String
  | { lexeme := .word word, .. } :: _ => bare? word
  | _ => none

def operator? : List Lexed → Option String
  | { lexeme := .operator text, .. } :: _ => some text
  | _ => none

def withoutNewlines : List Lexed → List Lexed
  | { lexeme := .newline, .. } :: rest => withoutNewlines rest
  | rest => rest

def skipNewlines : Reader Unit := modify withoutNewlines

def skip : Reader Unit := modify List.tail

/-- Takes a keyword if it is next, and tells whether it was. -/
def takeKeyword (keyword : String) : Reader Bool := do
  if keyword? (← get) = some keyword then
    skip
    return true
  else return false

def takeOperator (text : String) : Reader Bool := do
  if operator? (← get) = some text then
    skip
    return true
  else return false

def expectKeyword (keyword : String) : Reader Unit := do
  if !(← takeKeyword keyword) then unexpected (some keyword)

def expectOperator (text : String) : Reader Unit := do
  if !(← takeOperator text) then unexpected (some text)

/-- Keywords that end a list of commands. -/
def closing : List String := ["then", "fi", "else", "elif", "do", "done", "esac", "\x7d"]

def listEnds (lexed : List Lexed) : Bool :=
  lexed.isEmpty ||
    (match keyword? lexed with
      | some keyword => closing.contains keyword
      | none => false) ||
    (match operator? lexed with
      | some text => text == ")" || text == ";;"
      | none => false)

def currentLine : Reader Nat := do return ((← get).head?.map Lexed.line).getD 1

def redirectFlags (operator : String) : OpenFlags :=
  match operator with
  | "<" => { access := .read }
  | ">>" => { access := .write, create := true, append := true }
  | "<>" => { access := .readWrite, create := true }
  | _ => { access := .write, create := true, truncate := true }

def readWord : Reader Word := do
  match ← get with
  | { lexeme := .word word, .. } :: rest =>
    set rest
    return word
  | _ => unexpected none

def redirect? : Reader (Option Redirect) := do
  match ← get with
  | { lexeme := .redirect fd operator, .. } :: rest =>
    set rest
    let target ← readWord
    if operator = ">&" || operator = "<&" then return some (.copy fd target)
    else return some (.file fd (redirectFlags operator) target)
  | _ => return none

/-- An assignment such as `name=value`, where the name is bare. -/
def assignment? : Word → Option (String × Word)
  | .plain text :: rest =>
    match text.splitOn "=" with
    | name :: value :: values =>
      let cs := name.toList
      if (cs.head?.map startsName).getD false && cs.all inName then
        let value := "=".intercalate (value :: values)
        some (name, if value.isEmpty then rest else .plain value :: rest)
      else none
    | _ => none
  | _ => none

/-- Reads words, assignments and redirections up to something else. `fuel` bounds their
number. -/
def readSimple : (fuel : Nat) → Simple → Reader Simple
  | 0, command => return command
  | fuel + 1, command => do
    match ← redirect? with
    | some redirect =>
      readSimple fuel { command with redirects := command.redirects ++ [redirect] }
    | none =>
      match ← get with
      | { lexeme := .word word, .. } :: rest =>
        set rest
        match command.words, assignment? word with
        | [], some assignment =>
          readSimple fuel { command with assignments := command.assignments ++ [assignment] }
        | _, _ => readSimple fuel { command with words := command.words ++ [word] }
      | _ => return command

/-- Redirections behind a compound command. -/
def readRedirects : (fuel : Nat) → Reader (List Redirect)
  | 0 => return []
  | fuel + 1 => do
    match ← redirect? with
    | none => return []
    | some redirect => return redirect :: (← readRedirects fuel)

def wordsAhead : List Lexed → List Word × List Lexed
  | { lexeme := .word word, .. } :: rest =>
    let (words, rest) := wordsAhead rest
    (word :: words, rest)
  | rest => ([], rest)

def readWords : Reader (List Word) := modifyGet wordsAhead

/-- Patterns of a clause, with bars between them, and the bracket behind them. -/
def readPatterns : (fuel : Nat) → Reader (List Word)
  | 0 => unexpected none
  | fuel + 1 => do
    let word ← readWord
    if ← takeOperator "|" then return word :: (← readPatterns fuel)
    else
      expectOperator ")"
      return [word]

/-- Joins commands one after another. -/
def Command.followedBy (first more : Command) : Command :=
  match more with
  | .nothing => first
  | more => .sequence first more

mutual

/-- Commands up to a keyword or bracket that closes them. -/
def readList : (fuel : Nat) → Reader Command
  | 0 => unexpected none
  | fuel + 1 => do
    skipNewlines
    if listEnds (← get) then return .nothing
    let first ← readAndOr fuel
    match ← get with
    | { lexeme := .operator ";", .. } :: _ | { lexeme := .newline, .. } :: _ =>
      skip
      return first.followedBy (← readList fuel)
    | { lexeme := .operator "&", .. } :: _ =>
      skip
      return (Command.background first).followedBy (← readList fuel)
    | _ => return first

def readAndOr : (fuel : Nat) → Reader Command
  | 0 => unexpected none
  | fuel + 1 => do readMore fuel (← readPipeline fuel)

/-- Joins a command with those behind `&&` and `||`, from the left. -/
def readMore : (fuel : Nat) → Command → Reader Command
  | 0, _ => unexpected none
  | fuel + 1, first => do
    if ← takeOperator "&&" then
      skipNewlines
      readMore fuel (.andThen first (← readPipeline fuel))
    else if ← takeOperator "||" then
      skipNewlines
      readMore fuel (.orElse first (← readPipeline fuel))
    else return first

def readPipeline : (fuel : Nat) → Reader Command
  | 0 => unexpected none
  | fuel + 1 => do
    if ← takeKeyword "!" then return .negate (← readStages fuel) else readStages fuel

def readStages : (fuel : Nat) → Reader Command
  | 0 => unexpected none
  | fuel + 1 => do
    let first ← readCommand fuel
    if ← takeOperator "|" then
      skipNewlines
      if keyword? (← get) = some "!" then unexpected none
      return .pipe first (← readStages fuel)
    else return first

def readCommand : (fuel : Nat) → Reader Command
  | 0 => unexpected none
  | fuel + 1 => do
    let line ← currentLine
    let lexed ← get
    let compound : Option (Reader Command) :=
      match operator? lexed, keyword? lexed with
      | some "(", _ => some do
        let body ← readList fuel
        expectOperator ")"
        return .subshell body
      | _, some "\x7b" => some do
        let body ← readList fuel
        expectKeyword "\x7d"
        return body
      | _, some "if" => some (readConditional fuel)
      | _, some "while" => some (readLoop fuel true)
      | _, some "until" => some (readLoop fuel false)
      | _, some "for" => some (readEach fuel)
      | _, some "case" => some do
        let subject ← readWord
        skipNewlines
        expectKeyword "in"
        readClauses fuel subject
      | _, _ => none
    match compound with
    | some read =>
      skip
      let body ← read
      let redirects ← readRedirects lexed.length
      return if redirects.isEmpty then body else .redirected line body redirects
    | none =>
      if listEnds lexed then unexpected none
      else
        let command ← readSimple lexed.length { line }
        match command.words, command.assignments, command.redirects with
        | [], [], [] => unexpected none
        | [_], [], [] =>
          if operator? (← get) = some "(" then
            skip
            unexpected (if operator? (← get) = some ")" then none else some ")")
          else return .simple command
        | _, _, _ => return .simple command

/-- What follows `if` or `elif`, up to `fi`. -/
def readConditional : (fuel : Nat) → Reader Command
  | 0 => unexpected none
  | fuel + 1 => do
    let test ← readList fuel
    expectKeyword "then"
    let yes ← readList fuel
    if ← takeKeyword "elif" then return .conditional test yes (← readConditional fuel)
    else
      let no ← if ← takeKeyword "else" then readList fuel else pure .nothing
      expectKeyword "fi"
      return .conditional test yes no

def readLoop : (fuel : Nat) → (expected : Bool) → Reader Command
  | 0, _ => unexpected none
  | fuel + 1, expected => do
    let test ← readList fuel
    expectKeyword "do"
    let body ← readList fuel
    expectKeyword "done"
    return .loop expected test body

def readEach : (fuel : Nat) → Reader Command
  | 0 => unexpected none
  | fuel + 1 => do
    let line ← currentLine
    match bare? (← readWord) with
    | none => throw { line, text := "Bad for loop variable" }
    | some name =>
      let after ← get
      let words ← if keyword? (withoutNewlines after) = some "in" then do
          skipNewlines
          skip
          pure (some (← readWords))
        else pure none
      let _ ← takeOperator ";"
      skipNewlines
      expectKeyword "do"
      let body ← readList fuel
      expectKeyword "done"
      return .each name words body

/-- The clauses of a `case`, up to `esac`. -/
def readClauses : (fuel : Nat) → Word → Reader Command
  | 0, _ => unexpected none
  | fuel + 1, subject => do
    skipNewlines
    if ← takeKeyword "esac" then return .nothing
    let _ ← takeOperator "("
    let patterns ← readPatterns fuel
    let body ← readList fuel
    if ← takeOperator ";;" then
      return .choice subject patterns body (← readClauses fuel subject)
    else
      expectKeyword "esac"
      return .choice subject patterns body .nothing

end

/-- Commands up to the end of the line. `fuel` bounds the depth of the commands. -/
def readLine : (fuel : Nat) → Reader Command
  | 0 => unexpected none
  | fuel + 1 => do
    match ← get with
    | [] => return .nothing
    | { lexeme := .newline, .. } :: _ =>
      skip
      return .nothing
    | _ =>
      let first ← readAndOr fuel
      match ← get with
      | [] => return first
      | { lexeme := .newline, .. } :: _ =>
        skip
        return first
      | { lexeme := .operator ";", .. } :: _ =>
        skip
        return first.followedBy (← readLine fuel)
      | { lexeme := .operator "&", .. } :: _ =>
        skip
        return (Command.background first).followedBy (← readLine fuel)
      | _ => unexpected none

/-- The next line that holds commands, and what follows it; nothing at the end of the
script. -/
def nextLine (lexed : List Lexed) : Except Problem (Option (Command × List Lexed)) :=
  let lexed := withoutNewlines lexed
  if lexed.isEmpty then .ok none
  else (readLine (8 * lexed.length + 8)).run lexed |>.map some

end JobShell.Script
