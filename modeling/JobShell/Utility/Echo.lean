import JobShell.Utility.Basic

/-!
`echo` and `printf`: their arguments as output, with backslash escapes and formats.
-/
namespace JobShell.Utility

inductive FormatProblem where
  | noNumber (arg : String)
  /-- Only the start of the argument is a number. -/
  | partlyNumber (arg : String)
  | outOfRange (arg : String)
  | unknown (directive : String)
  /-- The format ends within a directive. -/
  | unfinished
  deriving DecidableEq, Repr

namespace FormatProblem

def isFatal : FormatProblem → Bool
  | unknown _ | unfinished => true
  | _ => false

def text : FormatProblem → String
  | noNumber arg => s!"'{arg}': expected a numeric value"
  | partlyNumber arg => s!"'{arg}': value not completely converted"
  | outOfRange arg => s!"'{arg}': Numerical result out of range"
  | unknown directive => s!"{directive}: invalid conversion specification"
  | unfinished => "%: invalid conversion specification"

def shortText : FormatProblem → String
  | noNumber arg => s!"{arg}: expected numeric value"
  | partlyNumber arg => s!"{arg}: not completely converted"
  | outOfRange arg => s!"{arg}: Numerical result out of range"
  | unknown directive => s!"{directive}: invalid directive"
  | unfinished => "missing format character"

end FormatProblem

/-- Output so far as bytes, the last first, and whether more is to come: the escape `\c`
ends all output. -/
structure Printed where
  bytes : List UInt8 := []
  going : Bool := true
  /-- What went wrong, the last first. -/
  problems : List FormatProblem := []

namespace Printed

def byte (p : Printed) (b : UInt8) : Printed := { p with bytes := b :: p.bytes }

def char (p : Printed) (c : Char) : Printed :=
  { p with bytes := (String.singleton c).toUTF8.toList.reverse ++ p.bytes }

def append (p : Printed) (data : List UInt8) : Printed :=
  { p with bytes := data.reverse ++ p.bytes }

def text (p : Printed) (s : String) : Printed := p.append s.toUTF8.toList

def problem (p : Printed) (problem : FormatProblem) : Printed :=
  { p with problems := problem :: p.problems, going := p.going && !problem.isFatal }

def toBytes (p : Printed) : ByteArray := ⟨p.bytes.reverse.toArray⟩

end Printed

def isOctal (c : Char) : Bool := '0' ≤ c && c ≤ '7'

def hexValue? (c : Char) : Option Nat :=
  if '0' ≤ c && c ≤ '9' then some (c.toNat - 48)
  else if 'a' ≤ c && c ≤ 'f' then some (c.toNat - 87)
  else if 'A' ≤ c && c ≤ 'F' then some (c.toNat - 55)
  else none

def octalValue (cs : List Char) : Nat := cs.foldl (fun n c => 8 * n + (c.toNat - 48)) 0

def hexDigitsValue (cs : List Char) : Nat :=
  cs.foldl (fun n c => 16 * n + (hexValue? c).getD 0) 0

def letterEscape? : Char → Option UInt8
  | 'a' => some 7
  | 'b' => some 8
  | 'e' => some 27
  | 'f' => some 12
  | 'n' => some 10
  | 'r' => some 13
  | 't' => some 9
  | 'v' => some 11
  | '\\' => some 92
  | _ => none

/-- What may stand behind a backslash besides letters and three octal digits. -/
structure Escapes where
  /-- A zero in front of three octal digits. -/
  leadingZero : Bool
  /-- Two hexadecimal digits behind `x`. -/
  hex : Bool
  /-- The letter `c`, which ends the output. -/
  stop : Bool
  deriving DecidableEq, Repr

def Escapes.inWords : Escapes := { leadingZero := true, hex := true, stop := true }

def Escapes.inFormat : Escapes := { leadingZero := false, hex := true, stop := true }

/-- One escape, the characters after its backslash: what it prints, and what follows. -/
def escape (escapes : Escapes) (p : Printed) : List Char → Printed × List Char
  | [] => (p.char '\\', [])
  | c :: cs =>
    if c = 'c' && escapes.stop then ({ p with going := false }, [])
    else if c = 'x' && escapes.hex then
      let digits := (cs.take 2).takeWhile fun c => (hexValue? c).isSome
      if digits.isEmpty then ((p.char '\\').char 'x', cs)
      else (p.byte (UInt8.ofNat (hexDigitsValue digits)), cs.drop digits.length)
    else
      match letterEscape? c with
      | some b => (p.byte b, cs)
      | none =>
        if escapes.leadingZero && c = '0' then
          let digits := (cs.take 3).takeWhile isOctal
          (p.byte (UInt8.ofNat (octalValue digits)), cs.drop digits.length)
        else if isOctal c then
          let digits := c :: (cs.take 2).takeWhile isOctal
          (p.byte (UInt8.ofNat (octalValue digits)), cs.drop (digits.length - 1))
        else ((p.char '\\').char c, cs)

theorem escape_length_le (escapes : Escapes) (p : Printed) (cs : List Char) :
    (escape escapes p cs).2.length ≤ cs.length := by
  cases cs with
  | nil => simp [escape]
  | cons c cs =>
    simp only [escape]
    split
    · simp
    · split
      · split <;> simp
        omega
      · split
        · simp
        · split
          · simp; omega
          · split
            · simp; omega
            · simp

def unescape (escapes : Escapes) (p : Printed) (cs : List Char) : Printed :=
  match cs with
  | [] => p
  | c :: cs =>
    if c = '\\' then
      let after := escape escapes p cs
      if after.1.going then unescape escapes after.1 after.2 else after.1
    else unescape escapes (p.char c) cs
termination_by cs.length
decreasing_by
  · have := escape_length_le escapes p cs
    simp; omega
  · simp

/-- Writes words with a space between them, escapes carried out if there are to be any. -/
def printWords (escapes : Option Escapes) (p : Printed) : List String → Printed
  | [] => p
  | word :: words =>
    let p := match escapes with
      | some escapes => unescape escapes p word.toList
      | none => p.text word
    if !p.going then p
    else if words.isEmpty then p
    else printWords escapes (p.char ' ') words

/-- The utility `echo [-neE] [word...]` -/
def echo (name : String) (args : Arguments) : Program Status :=
  let (newline, escapes, words) := options true false args
  let p := printWords (if escapes then some .inWords else none) {} words
  deliver name (if newline && p.going then p.char '\n' else p).toBytes 0
where
  options (newline escapes : Bool) : Arguments → Bool × Bool × Arguments
    | [] => (newline, escapes, [])
    | arg :: args =>
      match arg.toList with
      | '-' :: c :: cs =>
        if (c :: cs).all fun c => c == 'n' || c == 'e' || c == 'E' then
          let last := (c :: cs).filter (· != 'n')
          options (newline && !(c :: cs).contains 'n')
            (match last.getLast? with
              | some 'e' => true
              | some _ => false
              | none => escapes) args
        else (newline, escapes, arg :: args)
      | _ => (newline, escapes, arg :: args)

def pad (left : Bool) (width : Nat) (data : List UInt8) : List UInt8 :=
  let blanks := List.replicate (width - data.length) 32
  if left then data ++ blanks else blanks ++ data

/-- Digits at the start of a text, in base ten, in base sixteen behind `0x`, or in base eight
behind a zero: their value if there are any, and what follows. -/
def leadingDigits : List Char → Option Nat × List Char
  | '0' :: x :: cs =>
    if (x = 'x' || x = 'X') && (cs.head?.bind hexValue?).isSome then
      let isHex (c : Char) : Bool := (hexValue? c).isSome
      (some (hexDigitsValue (cs.takeWhile isHex)), cs.dropWhile isHex)
    else
      (some (octalValue ((x :: cs).takeWhile isOctal)), (x :: cs).dropWhile isOctal)
  | cs => (number? (String.ofList (cs.takeWhile Char.isDigit)), cs.dropWhile Char.isDigit)

/-- The integer that an argument of `printf` spells as far as it goes, and what is wrong with
it. A quote in front asks for the number of a character. -/
def formatNumber (signed : Bool) (arg : String) : Int × Option FormatProblem :=
  match arg.toList with
  | '\'' :: c :: _ | '"' :: c :: _ => (c.toNat, none)
  | cs =>
    let cs := cs.dropWhile fun c => c == ' ' || c == '\t' || c == '\n'
    let (negative, cs) := match cs with
      | '-' :: cs => (true, cs)
      | '+' :: cs => (false, cs)
      | cs => (false, cs)
    match leadingDigits cs with
    | (none, _) => (0, if arg.isEmpty then none else some (.noNumber arg))
    | (some n, rest) =>
      let top : Nat := if signed then 9223372036854775807 else 18446744073709551615
      let most : Nat := if signed && negative then top + 1 else top
      let value : Int := if negative then -(min n most : Nat) else (min n most : Nat)
      (value, if !rest.isEmpty then some (.partlyNumber arg)
        else if most < n then some (.outOfRange arg) else none)

/-- What stands between `%` and the letter of a conversion. -/
structure Layout where
  left : Bool
  zero : Bool
  plus : Bool
  blank : Bool
  width : Nat
  precision : Option Nat

/-- Digits of a number, with its sign, as a layout asks for them. -/
def Layout.number (l : Layout) (sign digits : String) : List UInt8 :=
  let least := l.precision.getD (if l.zero && !l.left then l.width - sign.length else 0)
  pad l.left l.width (sign ++ "".pushn '0' (least - digits.length) ++ digits).toUTF8.toList

def convert (inWords : Escapes) (p : Printed) (l : Layout) (c : Char) (arg : String) : Printed :=
  let natural (base : Nat) : Printed :=
    let (value, wrong) := formatNumber false arg
    let digits := String.ofList (Nat.toDigits base (BitVec.ofInt 64 value).toNat)
    let p := p.append (l.number "" (if c = 'X' then digits.toUpper else digits))
    wrong.elim p p.problem
  match c with
  | 's' =>
    let data := arg.toUTF8.toList
    p.append (pad l.left l.width (l.precision.elim data data.take))
  | 'c' => p.append (pad l.left l.width [arg.toUTF8.toList.headD 0])
  | 'b' => unescape inWords p arg.toList
  | 'o' => natural 8
  | 'u' => natural 10
  | 'x' | 'X' => natural 16
  | 'd' | 'i' =>
    let (value, wrong) := formatNumber true arg
    let sign := if value < 0 then "-" else if l.plus then "+" else if l.blank then " " else ""
    let p := p.append (l.number sign (toString value.natAbs))
    wrong.elim p p.problem
  | c => p.problem (.unknown s!"%{c}")

def layout (cs : List Char) : Layout × List Char :=
  let isFlag (c : Char) : Bool := c == '-' || c == '0' || c == '+' || c == ' ' || c == '#'
  let flags := cs.takeWhile isFlag
  let cs := cs.dropWhile isFlag
  let digits := cs.takeWhile Char.isDigit
  let cs := cs.dropWhile Char.isDigit
  let base : Layout := {
    left := flags.contains '-', zero := flags.contains '0'
    plus := flags.contains '+', blank := flags.contains ' '
    width := (number? (String.ofList digits)).getD 0, precision := none }
  match cs with
  | '.' :: rest =>
    let places := rest.takeWhile Char.isDigit
    ({ base with precision := some ((number? (String.ofList places)).getD 0) },
      rest.dropWhile Char.isDigit)
  | _ => (base, cs)

/-- One pass over a format, each conversion taking an argument; missing ones are empty. The
arguments left over are returned. `fuel` is the length of the format. -/
def format (inWords inFormat : Escapes) (fuel : Nat) (p : Printed) (args : Arguments)
    (cs : List Char) : Printed × Arguments :=
  match fuel, cs with
  | 0, _ => (p, args)
  | _, [] => (p, args)
  | fuel + 1, '%' :: '%' :: cs => format inWords inFormat fuel (p.char '%') args cs
  | fuel + 1, '%' :: cs =>
    let (l, rest) := layout cs
    match rest with
    | [] => (p.problem .unfinished, args)
    | c :: rest =>
      let p := convert inWords p l c (args.headD "")
      if p.going then format inWords inFormat fuel p args.tail rest else (p, [])
  | fuel + 1, '\\' :: cs =>
    let (p, rest) := escape inFormat p cs
    if p.going then format inWords inFormat fuel p args rest else (p, [])
  | fuel + 1, c :: cs => format inWords inFormat fuel (p.char c) args cs

/-- Repeats the format until the arguments are used up. What cannot be used is returned. -/
def formatAll (inWords inFormat : Escapes) (passes : Nat) (p : Printed) (text : List Char)
    (args : Arguments) : Printed × Arguments :=
  let (after, rest) := format inWords inFormat text.length p args text
  match passes with
  | 0 => (after, rest)
  | passes + 1 =>
    if rest.isEmpty || rest.length == args.length || !after.going then (after, rest)
    else formatAll inWords inFormat passes after text rest

/-- The utility `printf format [argument...]` -/
def printf (name : String) (args : Arguments) : Program Status := do
  match (if args.head? == some "--" then args.tail else args) with
  | [] =>
    misuse name "missing operand" 1
  | text :: rest =>
    let (p, unused) := formatAll .inWords .inFormat rest.length {} text.toList rest
    let excess := match unused with
      | arg :: _ => if p.going then [s!"warning: ignoring excess arguments, starting with '{arg}'"]
        else []
      | [] => []
    tell (String.join ((p.problems.reverse.map FormatProblem.text ++ excess).map fun text =>
      s!"{name}: {text}\n"))
    deliver name p.toBytes (if p.problems.isEmpty then 0 else 1)

end JobShell.Utility
