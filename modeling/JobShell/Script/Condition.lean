import JobShell.System.Program
import JobShell.Text.Numeral

/-!
Conditions as `test` and `[` take them: words, operators on one or two of them, `!`, brackets,
and what is joined by `-a` and `-o`. A word that could be an operator is one only where the
words around it allow it.
-/
namespace JobShell.Script.Condition

def file (path : String) (follow : Bool) (holds : FileStatus → Bool) :
    Program (Except String Bool) := do
  match ← Program.ask (.inspect path follow) with
  | .ok status => return .ok (holds status)
  | .error _ => return .ok false

def unaryOperators : List String :=
  ["-n", "-z", "-e", "-r", "-w", "-f", "-d", "-p", "-c", "-b", "-S", "-s", "-x", "-L", "-h", "-t",
   "-u", "-g", "-k", "-O", "-G"]

def binaryOperators : List String :=
  ["=", "!=", "<", ">", "-eq", "-ne", "-lt", "-le", "-gt", "-ge", "-nt", "-ot", "-ef"]

/-- A condition on one word. Whoever asks may read and write everything, and run what anybody
may run. -/
def unary (op word : String) : Program (Except String Bool) :=
  match op with
  | "-n" => return .ok (!word.isEmpty)
  | "-z" => return .ok word.isEmpty
  | "-f" => file word true fun s => s.kind == .regular
  | "-d" => file word true fun s => s.kind == .directory
  | "-p" => file word true fun s => s.kind == .fifo
  | "-c" => file word true fun s => s.kind == .device
  | "-s" => file word true fun s => decide (0 < s.size)
  | "-x" => file word true fun s => s.permissions &&& 0o111 != 0
  | "-u" => file word true fun s => s.permissions &&& 0o4000 != 0
  | "-g" => file word true fun s => s.permissions &&& 0o2000 != 0
  | "-k" => file word true fun s => s.permissions &&& 0o1000 != 0
  | "-b" | "-S" => file word true fun _ => false
  | "-L" | "-h" => file word false fun s => s.kind == .link
  | "-t" => do
    match Text.natural? word.toList with
    | some fd => return .ok (← Program.ask (.isTerminal fd))
    | none => return .error s!"Illegal number: {word}"
  | _ => file word true fun _ => true

def integer (text : String) : Except String Int :=
  match Text.integer? text.trimAscii.toString.toList with
  | some n => .ok n
  | none => .error s!"Illegal number: {text}"

def compare (a b : String) (holds : Int → Int → Bool) : Except String Bool :=
  return holds (← integer a) (← integer b)

def sameFile (a b : String) : Program Bool := do
  match ← Program.ask (.inspect a true), ← Program.ask (.inspect b true) with
  | .ok x, .ok y => return x.identity.isSome && x.identity == y.identity
  | _, _ => return false

/-- A condition on two words. All files count as equally old. -/
def binary (op a b : String) : Program (Except String Bool) :=
  match op with
  | "=" => return .ok (a == b)
  | "!=" => return .ok (a != b)
  | "<" => return .ok (decide (a < b))
  | ">" => return .ok (decide (b < a))
  | "-eq" => return compare a b (· == ·)
  | "-ne" => return compare a b (· != ·)
  | "-lt" => return compare a b fun x y => decide (x < y)
  | "-le" => return compare a b fun x y => decide (x ≤ y)
  | "-gt" => return compare a b fun x y => decide (y < x)
  | "-ge" => return compare a b fun x y => decide (y ≤ x)
  | "-ef" => do return .ok (← sameFile a b)
  | _ => return .ok false

/-- What a word is, given those behind it. -/
inductive Role where
  | nothing
  | or
  | and
  | not
  | opening
  | closing
  | unary
  | binary
  | operand
  deriving DecidableEq

/-- Whether an operator on one word has to be a word itself, given what follows it. -/
def standsAlone : List String → Bool
  | [] => true
  | [_] => false
  | word :: _ => binaryOperators.contains word

def role : List String → Role
  | [] => .nothing
  | word :: rest =>
    if word = "-o" then .or
    else if word = "-a" then .and
    else if word = "!" then .not
    else if word = "(" then if rest.isEmpty then .operand else .opening
    else if word = ")" then .closing
    else if binaryOperators.contains word then .binary
    else if unaryOperators.contains word && !standsAlone rest then .unary
    else .operand

abbrev Reader := StateT (List String) (ExceptT String Program)

def nextRole : Reader Role := do return role (← get)

def skip : Reader Unit := modify List.tail

/-- Asks for a condition and goes on behind its words. -/
def settle (rest : List String) (condition : Program (Except String Bool)) : Reader Bool := do
  set rest
  match ← (condition : Program (Except String Bool)) with
  | .ok holds => return holds
  | .error problem => throw problem

mutual

/-- Conditions joined by `-o`. All of them are asked for. `fuel` bounds their number. -/
def disjunction : (fuel : Nat) → Reader Bool
  | 0 => return false
  | fuel + 1 => do
    let first ← conjunction fuel
    if (← nextRole) = .or then
      skip
      return (← disjunction fuel) || first
    else return first

def conjunction : (fuel : Nat) → Reader Bool
  | 0 => return false
  | fuel + 1 => do
    let first ← negation fuel
    if (← nextRole) = .and then
      skip
      return (← conjunction fuel) && first
    else return first

def negation : (fuel : Nat) → Reader Bool
  | 0 => return false
  | fuel + 1 => do
    if (← nextRole) = .not then
      skip
      return !(← negation fuel)
    else primary fuel

/-- A condition without joints. Where it is missing, it does not hold. -/
def primary : (fuel : Nat) → Reader Bool
  | 0 => return false
  | fuel + 1 => do
    match ← get with
    | [] => return false
    | word :: rest =>
      match role (word :: rest), rest with
      | .opening, _ =>
        skip
        if (← nextRole) = .closing then
          skip
          return false
        else
          let holds ← disjunction fuel
          if (← nextRole) = .closing then
            skip
            return holds
          else throw "closing paren expected"
      | .unary, operand :: rest => settle rest (unary word operand)
      | _, op :: rest =>
        if role (op :: rest) = .binary then
          match rest with
          | [] => throw s!"{op}: argument expected"
          | other :: rest => settle rest (binary op word other)
        else settle (op :: rest) (return .ok (!word.isEmpty))
      | _, [] => settle [] (return .ok (!word.isEmpty))

end

/-- Whether the words make one condition that comes out as expected. -/
def outcome (expected : Bool) (words : List String) : Program (Except String Bool) := do
  match ← ((disjunction (6 * words.length + 6)).run words).run with
  | .error problem => return .error problem
  | .ok (holds, []) => return .ok (holds == expected)
  | .ok (_, rest) =>
    let last := (words[words.length - rest.length - 1]?).getD ""
    return .error ((if last.isEmpty then "" else last ++ ": ") ++ "unexpected operator")

/-- Whether a condition holds, or what is wrong with it. Three or four words are read by their
number first: as an operator on two words, as words in brackets, as a negation. -/
def holdsAs (expected : Bool) : List String → Program (Except String Bool)
  | [] => return .ok (!expected)
  | word :: rest => do
    let words := word :: rest
    match words with
    | [a, op, b] =>
      if binaryOperators.contains op then return (← binary op a b).map (· == expected)
    | _ => pure ()
    if words.length = 3 || words.length = 4 then
      if word = "(" && rest.getLast? = some ")" then outcome expected rest.dropLast
      else if word = "!" then holdsAs false rest
      else outcome expected words
    else outcome expected words

def holds (words : List String) : Program (Except String Bool) := holdsAs true words

end JobShell.Script.Condition
