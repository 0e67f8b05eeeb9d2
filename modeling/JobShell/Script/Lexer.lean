import JobShell.Script.Syntax
import JobShell.Utility.Basic

/-!
From the text of a script to words, operators and line ends. A text that breaks off in the
middle of a quotation ends with a lexeme that says so.
-/
namespace JobShell.Script

inductive Lexeme where
  | word (word : Word)
  | operator (text : String)
  /-- A redirection operator with the descriptor it is for. -/
  | redirect (fd : Fd) (text : String)
  | newline
  | broken (problem : String)
  deriving DecidableEq, Repr

structure Lexed where
  lexeme : Lexeme
  line : Nat
  deriving DecidableEq, Repr

/-- Adds a piece to a word whose pieces are kept last first. -/
def pushPiece (pieces : List Piece) (piece : Piece) : List Piece :=
  match piece, pieces with
  | .plain new, .plain old :: rest => .plain (old ++ new) :: rest
  | .literal new, .literal old :: rest => .literal (old ++ new) :: rest
  | piece, pieces => piece :: pieces

inductive Quoting where
  | none
  | single
  | double
  deriving DecidableEq

/-- The text up to the bracket that closes the one before it, and what follows. Brackets in
quotations do not count. -/
def untilClosed (opening closing : Char) : Quoting → (depth : Nat) → List Char → List Char →
    Option (List Char × List Char)
  | _, _, _, [] => none
  | .single, depth, got, c :: cs =>
    untilClosed opening closing (if c = '\'' then .none else .single) depth (c :: got) cs
  | quoting, depth, got, '\\' :: c :: cs =>
    untilClosed opening closing quoting depth (c :: '\\' :: got) cs
  | quoting, depth, got, c :: cs =>
    if c = '"' then
      untilClosed opening closing (if quoting = .double then .none else .double) depth (c :: got) cs
    else if quoting = .double then untilClosed opening closing quoting depth (c :: got) cs
    else if c = '\'' then untilClosed opening closing .single depth (c :: got) cs
    else if c = opening then untilClosed opening closing quoting (depth + 1) (c :: got) cs
    else if c = closing then
      match depth with
      | 0 => some (got.reverse, cs)
      | depth + 1 => untilClosed opening closing quoting depth (c :: got) cs
    else untilClosed opening closing quoting depth (c :: got) cs

/-- The text up to a backquote, with the backslashes that protect it taken off. -/
def untilBackquote : List Char → List Char → Option (List Char × List Char)
  | _, [] => none
  | got, '\\' :: c :: cs =>
    if c = '`' || c = '\\' || c = '$' then untilBackquote (c :: got) cs
    else untilBackquote (c :: '\\' :: got) cs
  | got, c :: cs => if c = '`' then some (got.reverse, cs) else untilBackquote (c :: got) cs

def startsName (c : Char) : Bool := c.isAlpha || c == '_'

def inName (c : Char) : Bool := c.isAlphanum || c == '_'

/-- Names of parameters that are one character long. -/
def isSpecial (c : Char) : Bool :=
  c.isDigit || c == '@' || c == '*' || c == '#' || c == '?' || c == '-' || c == '$' || c == '!'

def bracedParameter (quoted : Bool) (cs : List Char) : Option Piece :=
  let named (cs : List Char) : Option (String × List Char) :=
    match cs with
    | [] => none
    | c :: rest =>
      if startsName c then
        some (String.ofList (cs.takeWhile inName), cs.dropWhile inName)
      else if c.isDigit then
        some (String.ofList (cs.takeWhile Char.isDigit), cs.dropWhile Char.isDigit)
      else if isSpecial c then some (String.singleton c, rest)
      else none
  let change (cs : List Char) : Option (Option Change) :=
    match cs with
    | [] => some none
    | ':' :: '-' :: w => some (some (.orElse true (String.ofList w)))
    | '-' :: w => some (some (.orElse false (String.ofList w)))
    | ':' :: '=' :: w => some (some (.orAssign true (String.ofList w)))
    | '=' :: w => some (some (.orAssign false (String.ofList w)))
    | ':' :: '+' :: w => some (some (.instead true (String.ofList w)))
    | '+' :: w => some (some (.instead false (String.ofList w)))
    | ':' :: '?' :: w => some (some (.orFail true (String.ofList w)))
    | '?' :: w => some (some (.orFail false (String.ofList w)))
    | '%' :: '%' :: w => some (some (.trim false true (String.ofList w)))
    | '%' :: w => some (some (.trim false false (String.ofList w)))
    | '#' :: '#' :: w => some (some (.trim true true (String.ofList w)))
    | '#' :: w => some (some (.trim true false (String.ofList w)))
    | _ => none
  match cs with
  | '#' :: c :: rest =>
    match named (c :: rest) with
    | some (name, []) => some (.parameter name (some .length) quoted)
    | _ => none
  | cs => do
    let (name, rest) ← named cs
    return .parameter name (← change rest) quoted

def dollar (quoted : Bool) (cs : List Char) : Except String (Piece × List Char) :=
  match cs with
  | '(' :: '(' :: rest =>
    match untilClosed '(' ')' .none 0 [] rest with
    | some (inner, ')' :: rest) => .ok (.arithmetic (String.ofList inner) quoted, rest)
    | _ => command ('(' :: rest)
  | '(' :: rest => command rest
  | '{' :: rest =>
    match untilClosed '{' '}' .none 0 [] rest with
    | some (inner, rest) =>
      match bracedParameter quoted inner with
      | some piece => .ok (piece, rest)
      | none => .error "Bad substitution"
    | none => .error "Missing '\x7d'"
  | c :: rest =>
    if startsName c then
      .ok (.parameter (String.ofList (cs.takeWhile inName)) none quoted, cs.dropWhile inName)
    else if isSpecial c then .ok (.parameter (String.singleton c) none quoted, rest)
    else .ok (if quoted then .literal "$" else .plain "$", cs)
  | [] => .ok (if quoted then .literal "$" else .plain "$", [])
where
  command (rest : List Char) : Except String (Piece × List Char) :=
    match untilClosed '(' ')' .none 0 [] rest with
    | some (inner, rest) => .ok (.output (String.ofList inner) false quoted, rest)
    | none => .error "end of file unexpected (expecting \")\")"

def backquoted (quoted : Bool) (cs : List Char) : Except String (Piece × List Char) :=
  match untilBackquote [] cs with
  | some (inner, rest) => .ok (.output (String.ofList inner) true quoted, rest)
  | none => .error "EOF in backquote substitution"

def unterminated : String := "Unterminated quoted string"

/-- Reads the inside of double quotes. Pieces are kept last first; `fuel` is the length. -/
def scanDouble : (fuel : Nat) → List Piece → List Char → Except String (List Piece × List Char)
  | 0, _, _ => .error unterminated
  | _, _, [] => .error unterminated
  | fuel + 1, pieces, c :: cs =>
    if c = '"' then .ok (pieces, cs)
    else if c = '$' then do
      let (piece, rest) ← dollar true cs
      scanDouble fuel (pushPiece pieces piece) rest
    else if c = '`' then do
      let (piece, rest) ← backquoted true cs
      scanDouble fuel (pushPiece pieces piece) rest
    else
      match c, cs with
      | '\\', '\n' :: cs => scanDouble fuel pieces cs
      | '\\', e :: cs =>
        let text := if e = '$' || e = '`' || e = '"' || e = '\\' then String.singleton e
          else String.ofList ['\\', e]
        scanDouble fuel (pushPiece pieces (.literal text)) cs
      | c, cs => scanDouble fuel (pushPiece pieces (.literal (String.singleton c))) cs

def endsWord (c : Char) : Bool :=
  c == ' ' || c == '\t' || c == '\n' || c == ';' || c == '&' || c == '|' || c == '<' || c == '>' ||
    c == '(' || c == ')'

/-- Reads a word. Pieces are kept last first; `fuel` is the length. With `whole`, nothing
ends the word but the end of the text. -/
def scanWord (whole : Bool) : (fuel : Nat) → List Piece → List Char →
    Except String (List Piece × List Char)
  | 0, pieces, cs => .ok (pieces, cs)
  | _, pieces, [] => .ok (pieces, [])
  | fuel + 1, pieces, c :: cs =>
    if !whole && endsWord c then .ok (pieces, c :: cs)
    else if c = '\'' then
      let inner := cs.takeWhile (· != '\'')
      match cs.drop inner.length with
      | [] => .error unterminated
      | _ :: rest => scanWord whole fuel (pushPiece pieces (.literal (String.ofList inner))) rest
    else if c = '"' then do
      let (pieces, rest) ← scanDouble cs.length (pushPiece pieces (.literal "")) cs
      scanWord whole fuel pieces rest
    else if c = '$' then do
      let (piece, rest) ← dollar false cs
      scanWord whole fuel (pushPiece pieces piece) rest
    else if c = '`' then do
      let (piece, rest) ← backquoted false cs
      scanWord whole fuel (pushPiece pieces piece) rest
    else
      match c, cs with
      | '\\', '\n' :: cs => scanWord whole fuel pieces cs
      | '\\', e :: cs =>
        scanWord whole fuel (pushPiece pieces (.literal (String.singleton e))) cs
      | c, cs => scanWord whole fuel (pushPiece pieces (.plain (String.singleton c))) cs

/-- A text taken as one word, as behind `${name:-`. -/
def wordOf (text : String) : Word :=
  match scanWord true text.length [] text.toList with
  | .ok (pieces, _) => pieces.reverse
  | .error _ => [.literal text]

def operators : List String := [";;", "&&", "||", ";", "&", "|", "(", ")"]

def redirectOperators : List String := [">>", ">&", "<&", "<>", ">|", ">", "<"]

def startsWith? (cs : List Char) (text : String) : Option (List Char) :=
  if text.toList.isPrefixOf cs then some (cs.drop text.length) else none

/-- The first of some operators that a text starts with, and what follows it. -/
def operatorAhead? (texts : List String) (cs : List Char) : Option (String × List Char) :=
  texts.findSome? fun text => (startsWith? cs text).map fun rest => (text, rest)

def newlinesIn (cs : List Char) : Nat := cs.count '\n'

/-- Splits a script into lexemes. `fuel` is its length. -/
def lexemes : (fuel : Nat) → (line : Nat) → List Char → List Lexed
  | 0, _, _ => []
  | _, _, [] => []
  | fuel + 1, line, c :: cs =>
    if c = '\n' then { lexeme := .newline, line } :: lexemes fuel (line + 1) cs
    else if c = ' ' || c = '\t' then lexemes fuel line cs
    else if c = '#' then lexemes fuel line (cs.dropWhile (· != '\n'))
    else if c = '\\' && cs.head? = some '\n' then lexemes fuel (line + 1) cs.tail
    else
      match operatorAhead? operators (c :: cs) with
      | some (text, rest) => { lexeme := .operator text, line } :: lexemes fuel line rest
      | none =>
        let digits := (c :: cs).takeWhile Char.isDigit
        match operatorAhead? redirectOperators ((c :: cs).drop digits.length) with
        | some (text, rest) =>
          let fd := (Utility.number? (String.ofList digits)).getD
            (if text.startsWith "<" then 0 else 1)
          { lexeme := .redirect fd text, line } :: lexemes fuel line rest
        | none =>
          match scanWord false (cs.length + 1) [] (c :: cs) with
          | .error problem => [{ lexeme := .broken problem, line }]
          | .ok (pieces, rest) =>
            let length := (c :: cs).length - rest.length
            { lexeme := .word pieces.reverse, line } ::
              lexemes fuel (line + newlinesIn ((c :: cs).take length)) rest

def lex (line : Nat) (text : String) : List Lexed := lexemes text.length line text.toList

end JobShell.Script
