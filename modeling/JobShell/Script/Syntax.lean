import JobShell.System.Call

/-!
The language of `sh`: words whose parts are expanded when they are used, redirections,
and commands.
-/
namespace JobShell.Script

/-- What `${name...}` does with a value. -/
inductive Change where
  /-- Minus: another word if there is no value. With a colon, an empty value is none. -/
  | orElse (colon : Bool) (word : String)
  /-- Equals: the same, and the variable is set. -/
  | orAssign (colon : Bool) (word : String)
  /-- Plus: another word if there is a value. -/
  | instead (colon : Bool) (word : String)
  /-- Question mark: if there is no value, the script ends with a message. -/
  | orFail (colon : Bool) (word : String)
  /-- The length of the value. -/
  | length
  /-- Percent and hash: the value without what matches a pattern at its end or start. -/
  | trim (fromStart longest : Bool) (pattern : String)
  deriving DecidableEq, Repr

inductive Piece where
  | plain (text : String)
  | literal (text : String)
  | parameter (name : String) (change : Option Change) (quoted : Bool)
  /-- What a script prints. Its lines are those of the script around it, or its own. -/
  | output (script : String) (ownLines quoted : Bool)
  | arithmetic (expression : String) (quoted : Bool)
  deriving DecidableEq, Repr

abbrev Word := List Piece

/-- The text of a word without quotes and expansions, as keywords and names have to be. -/
def bare? : Word → Option String
  | [.plain text] => some text
  | _ => none

inductive Redirect where
  | file (fd : Fd) (flags : OpenFlags) (target : Word)
  /-- The word is a descriptor to copy, or `-` to close. -/
  | copy (fd : Fd) (source : Word)
  deriving DecidableEq, Repr

/-- A command without parts: assignments, words and redirections. -/
structure Simple where
  line : Nat
  assignments : List (String × Word) := []
  words : List Word := []
  redirects : List Redirect := []
  deriving DecidableEq, Repr

inductive Command where
  | simple (command : Simple)
  | pipe (first rest : Command)
  | negate (command : Command)
  | andThen (first rest : Command)
  | orElse (first rest : Command)
  | sequence (first rest : Command)
  | background (command : Command)
  | subshell (body : Command)
  | redirected (line : Nat) (body : Command) (redirects : List Redirect)
  | conditional (test yes no : Command)
  /-- Runs the body as long as the test succeeds, or fails, as expected. -/
  | loop (expected : Bool) (test body : Command)
  /-- Runs the body once for each word; without words, for each argument. -/
  | each (name : String) (words : Option (List Word)) (body : Command)
  /-- Runs the body if the subject matches a pattern. -/
  | choice (subject : Word) (patterns : List Word) (body otherwise : Command)
  | nothing
  deriving Repr

end JobShell.Script
