import JobShell.Text.Numeral
import JobShell.Utility.Echo

/-!
Arithmetic expressions: integers of 64 bits, names, the usual operators, and brackets.
-/
namespace JobShell.Script.Arithmetic

inductive Item where
  | number (n : Int)
  | name (s : String)
  | operator (s : String)
  /-- What is no part of an expression. -/
  | junk
  deriving DecidableEq, Repr

inductive Problem where
  /-- The value of a name is not a number. -/
  | noNumber (text : String)
  | malformed (problem : String)
  deriving DecidableEq, Repr

/-- Operators, longer ones first. -/
def operators : List String :=
  ["<<", ">>", "<=", ">=", "==", "!=", "&&", "||", "+", "-", "*", "/", "%", "<", ">", "(", ")", "!",
   "~", "&", "|", "^", "?", ":"]

/-- The number that a text spells, if it spells one and nothing else. An empty text stands for
zero. -/
def number? (text : String) : Option Int :=
  let cs := text.trimAscii.toString.toList
  let (negative, digits) := match cs with
    | '-' :: cs => (true, cs)
    | '+' :: cs => (false, cs)
    | cs => (false, cs)
  match Utility.leadingDigits digits with
  | (some n, []) => some (if negative then -(n : Int) else n)
  | (none, _) => if cs.isEmpty then some 0 else none
  | _ => none

/-- Splits an expression. `fuel` is its length. -/
def items : (fuel : Nat) → List Char → List Item
  | 0, _ => []
  | _, [] => []
  | fuel + 1, c :: cs =>
    if c == ' ' || c == '\t' || c == '\n' then items fuel cs
    else if c.isDigit then
      let (n, rest) := Utility.leadingDigits (c :: cs)
      .number (n.getD 0) :: items fuel rest
    else if c.isAlpha || c == '_' then
      let name := (c :: cs).takeWhile fun c => c.isAlphanum || c == '_'
      .name (String.ofList name) :: items fuel ((c :: cs).drop name.length)
    else
      match operators.find? fun op => op.toList.isPrefixOf (c :: cs) with
      | some op => .operator op :: items fuel ((c :: cs).drop op.length)
      | none => [.junk]

/-- How tightly an operator with two sides binds. -/
def strength? (op : String) : Option Nat :=
  match op with
  | "||" => some 1
  | "&&" => some 2
  | "|" => some 3
  | "^" => some 4
  | "&" => some 5
  | "==" | "!=" => some 6
  | "<" | "<=" | ">" | ">=" => some 7
  | "<<" | ">>" => some 8
  | "+" | "-" => some 9
  | "*" | "/" | "%" => some 10
  | _ => none

def truth (b : Bool) : Int := if b then 1 else 0

def word (n : Int) : BitVec 64 := BitVec.ofInt 64 n

/-- An integer as it comes out in 64 bits. -/
def wrapped (n : Int) : Int := (word n).toInt

def apply (op : String) (a b : Int) : Except Problem Int :=
  let divide (quotient : Int) : Except Problem Int :=
    if b = 0 then .error (.malformed "division by zero") else .ok (wrapped quotient)
  match op with
  | "||" => .ok (truth (a != 0 || b != 0))
  | "&&" => .ok (truth (a != 0 && b != 0))
  | "|" => .ok (word a ||| word b).toInt
  | "^" => .ok (word a ^^^ word b).toInt
  | "&" => .ok (word a &&& word b).toInt
  | "==" => .ok (truth (a == b))
  | "!=" => .ok (truth (a != b))
  | "<" => .ok (truth (decide (a < b)))
  | "<=" => .ok (truth (decide (a ≤ b)))
  | ">" => .ok (truth (decide (b < a)))
  | ">=" => .ok (truth (decide (b ≤ a)))
  | "<<" => .ok (word a <<< (b.toNat % 64)).toInt
  | ">>" => .ok ((word a).sshiftRight (b.toNat % 64)).toInt
  | "+" => .ok (wrapped (a + b))
  | "-" => .ok (wrapped (a - b))
  | "*" => .ok (wrapped (a * b))
  | "/" => divide (a.tdiv b)
  | "%" => divide (a.tmod b)
  | _ => .error (.malformed "expecting EOF")

abbrev Values := String → Option String

abbrev Reader := StateT (List Item) (Except Problem)

def expectingPrimary : Problem := .malformed "expecting primary"

def skip : Reader Unit := modify List.tail

def expect (op : String) : Reader Unit := do
  if (← get).head? = some (.operator op) then skip
  else throw (.malformed s!"expecting '{op}'")

mutual

/-- An expression with a question mark, or a simpler one. `fuel` bounds the depth. -/
def choice (values : Values) : (fuel : Nat) → Reader Int
  | 0 => throw expectingPrimary
  | fuel + 1 => do
    let test ← binary values fuel 0
    if (← get).head? = some (.operator "?") then
      skip
      let yes ← choice values fuel
      expect ":"
      let no ← choice values fuel
      return if test ≠ 0 then yes else no
    else return test

/-- A value and operators that bind at least as tightly as `least`. -/
def binary (values : Values) : (fuel : Nat) → (least : Nat) → Reader Int
  | 0, _ => throw expectingPrimary
  | fuel + 1, least => do further values fuel least (← unary values fuel)

def further (values : Values) : (fuel : Nat) → (least : Nat) → Int → Reader Int
  | 0, _, _ => throw expectingPrimary
  | fuel + 1, least, a => do
    match (← get).head? with
    | some (.operator op) =>
      match strength? op with
      | some n =>
        if least ≤ n then
          skip
          let b ← binary values fuel (n + 1)
          further values fuel least (← apply op a b)
        else return a
      | none => return a
    | _ => return a

def unary (values : Values) : (fuel : Nat) → Reader Int
  | 0 => throw expectingPrimary
  | fuel + 1 => do
    let next := (← get).head?
    skip
    match next with
    | some (.number n) => return n
    | some (.name s) =>
      let text := (values s).getD ""
      match number? text with
      | some n => return n
      | none => throw (.noNumber text)
    | some (.operator "-") => return wrapped (-(← unary values fuel))
    | some (.operator "+") => unary values fuel
    | some (.operator "!") => return truth ((← unary values fuel) == 0)
    | some (.operator "~") => return (~~~(word (← unary values fuel))).toInt
    | some (.operator "(") =>
      let n ← choice values fuel
      expect ")"
      return n
    | _ => throw expectingPrimary

end

def evaluate (values : Values) (text : String) : Except Problem Int := do
  let items := items text.length text.toList
  match ← (choice values (6 * items.length + 6)).run items with
  | (n, []) => return n
  | _ => throw (.malformed "expecting EOF")

end JobShell.Script.Arithmetic
