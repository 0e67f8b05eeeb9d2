import JobShell.System.Call

/-!
Regular expressions on bytes, in the basic and the extended notation. A match is a range of
positions in a text; where an expression ends is computed as the list of all ends.
-/
namespace JobShell.Utility

inductive Regex where
  | nothing
  | one (accepts : UInt8 → Bool)
  | lineStart
  | lineEnd
  | sequence (first rest : Regex)
  | either (first other : Regex)
  /-- From `least` times on, up to `most` times if there is a limit. -/
  | repeated (body : Regex) (least : Nat) (most : Option Nat)

namespace Regex

def distinct (positions : List Nat) : List Nat :=
  positions.foldl (fun got n => if got.contains n then got else got ++ [n]) []

/-- The positions that a step leads to, taken from `least` times up to `limit` times. -/
def iterate (step : Nat → List Nat) (least : Nat) : (limit : Nat) → List Nat → List Nat
  | 0, positions => if least = 0 then positions else []
  | limit + 1, positions =>
    let further := if positions.isEmpty then []
      else iterate step (least - 1) limit (distinct (positions.flatMap step))
    if least = 0 then distinct (positions ++ further) else further

/-- Where a match that starts at a position of a text can end. -/
def ends (text : Array UInt8) : Regex → Nat → List Nat
  | nothing, n => [n]
  | one accepts, n =>
    match text[n]? with
    | some b => if accepts b then [n + 1] else []
    | none => []
  | lineStart, n => if n = 0 then [n] else []
  | lineEnd, n => if n = text.size then [n] else []
  | sequence first rest, n => distinct ((first.ends text n).flatMap (rest.ends text))
  | either first other, n => distinct (first.ends text n ++ other.ends text n)
  | repeated body least most, n =>
    iterate (body.ends text) least (most.getD (text.size + least + 1)) [n]

/-- Lower case, for letters of ASCII. -/
def lower (b : UInt8) : UInt8 := if 65 ≤ b && b ≤ 90 then b + 32 else b

/-- A byte that stands for itself, in both cases if they do not differ. -/
def byte (fold : Bool) (b : UInt8) : Regex :=
  one fun c => c == b || (fold && lower c == lower b)

def literal (fold : Bool) (text : List UInt8) : Regex :=
  text.foldr (fun b r => sequence (byte fold b) r) nothing

def ofRange (low high b : UInt8) : Bool := low ≤ b && b ≤ high

def classes : List (String × (UInt8 → Bool)) :=
  let lower := ofRange 97 122
  let upper := ofRange 65 90
  let digit := ofRange 48 57
  let alpha (b : UInt8) : Bool := lower b || upper b
  [("alpha", alpha), ("lower", lower), ("upper", upper), ("digit", digit),
   ("alnum", fun b => alpha b || digit b),
   ("space", fun b => b == 32 || ofRange 9 13 b),
   ("blank", fun b => b == 32 || b == 9),
   ("punct", fun b => ofRange 33 126 b && !alpha b && !digit b),
   ("print", ofRange 32 126), ("graph", ofRange 33 126),
   ("cntrl", fun b => b < 32 || b == 127),
   ("xdigit", fun b => digit b || ofRange 97 102 b || ofRange 65 70 b)]

/-- A class such as `[:alpha:]`, and what follows it. -/
def namedClass? (cs : List UInt8) : Option ((UInt8 → Bool) × List UInt8) :=
  classes.findSome? fun (name, accepts) =>
    let text := s!"[:{name}:]".toUTF8.toList
    if text.isPrefixOf cs then some (accepts, cs.drop text.length) else none

/-- Members of a bracket expression up to its closing bracket, and what follows. `fuel` is the
length of the text. -/
def bracket : (fuel : Nat) → (first : Bool) → (UInt8 → Bool) → List UInt8 →
    Option ((UInt8 → Bool) × List UInt8)
  | 0, _, _, _ => none
  | _, _, _, [] => none
  | fuel + 1, first, accepts, b :: rest =>
    if b == 93 && !first then some (accepts, rest)
    else
      match namedClass? (b :: rest) with
      | some (more, rest) => bracket fuel false (fun c => accepts c || more c) rest
      | none =>
        match rest with
        | 45 :: high :: others =>
          if high == 93 then bracket fuel false (fun c => accepts c || c == b) rest
          else bracket fuel false (fun c => accepts c || ofRange b high c) others
        | rest => bracket fuel false (fun c => accepts c || c == b) rest

inductive Problem where
  | unmatchedBracket
  | unmatchedParenthesis
  | strayParenthesis
  | badBounds
  deriving DecidableEq, Repr

def Problem.text : Problem → String
  | unmatchedBracket => "Invalid regular expression"
  | unmatchedParenthesis => "Unmatched ( or \\("
  | strayParenthesis => "Unmatched ) or \\)"
  | badBounds => "Invalid content of \\\x7b\\\x7d"

inductive Sign where
  | plain (b : UInt8)
  | any
  | members (accepts : UInt8 → Bool)
  | lineStart
  | lineEnd
  | opening
  | closing
  | bar
  | times (least : Nat) (most : Option Nat)

/-- Bounds such as `2`, `2,` and `2,5` up to a closing text. -/
def bounds? (closing : List UInt8) (cs : List UInt8) : Option (Sign × List UInt8) :=
  let isDigit := ofRange 48 57
  let number? (ds : List UInt8) : Option Nat :=
    if ds.isEmpty then none else some (ds.foldl (fun n d => 10 * n + (d.toNat - 48)) 0)
  let first := cs.takeWhile isDigit
  let rest := cs.dropWhile isDigit
  let close (sign : Sign) (rest : List UInt8) : Option (Sign × List UInt8) :=
    if closing.isPrefixOf rest then some (sign, rest.drop closing.length) else none
  match rest with
  | 44 :: more =>
    close (.times ((number? first).getD 0) (number? (more.takeWhile isDigit)))
      (more.dropWhile isDigit)
  | rest => (number? first).bind fun n => close (.times n (some n)) rest

/-- Splits an expression into signs. In the basic notation a backslash makes brackets, bars and
counts special, in the extended one it makes them plain. `fuel` is the length. -/
def signs (extended : Bool) : (fuel : Nat) → (atStart : Bool) → List UInt8 →
    Except Problem (List Sign)
  | 0, _, _ => .ok []
  | _, _, [] => .ok []
  | fuel + 1, atStart, b :: rest => do
    let (escaped, c, rest) := match b, rest with
      | 92, c :: rest => (true, c, rest)
      | b, rest => (false, b, rest)
    let special := escaped != extended
    let next (sign : Sign) (opens : Bool) (rest : List UInt8) : Except Problem (List Sign) := do
      return sign :: (← signs extended fuel opens rest)
    if special && c == 40 then next .opening true rest
    else if special && c == 41 then next .closing false rest
    else if special && c == 124 then next .bar true rest
    else if special && c == 123 && !atStart then
      match bounds? (if extended then [125] else [92, 125]) rest with
      | some (sign, rest) => next sign false rest
      | none => .error .badBounds
    else if special && c == 43 && !atStart then next (.times 1 none) false rest
    else if special && c == 63 && !atStart then next (.times 0 (some 1)) false rest
    else if escaped then next (.plain c) false rest
    else if c == 42 && !atStart then next (.times 0 none) false rest
    else if c == 46 then next .any false rest
    else if c == 94 && (extended || atStart) then next .lineStart true rest
    else if c == 36 && (extended || endsHere rest) then next .lineEnd false rest
    else if c == 91 then
      let (complement, inner) := match rest with
        | 94 :: inner => (true, inner)
        | inner => (false, inner)
      match bracket inner.length true (fun _ => false) inner with
      | none => .error .unmatchedBracket
      | some (accepts, rest) => next (.members fun b => accepts b != complement) false rest
    else next (.plain c) false rest
where
  /-- Whether a branch of a basic expression ends here. -/
  endsHere : List UInt8 → Bool
    | [] => true
    | 92 :: c :: _ => c == 41 || c == 124
    | _ => false

mutual

/-- Branches with bars between them. `fuel` bounds the depth. -/
def readBranches (fold : Bool) (fuel depth : Nat) (signs : List Sign) :
    Except Problem (Regex × List Sign) :=
  match fuel with
  | 0 => .ok (nothing, [])
  | fuel + 1 => do
    let (first, rest) ← readBranch fold fuel depth nothing signs
    match rest with
    | .bar :: rest =>
      let (other, rest) ← readBranches fold fuel depth rest
      return (either first other, rest)
    | rest => return (first, rest)

/-- A branch; what was read of it comes first. -/
def readBranch (fold : Bool) (fuel depth : Nat) (got : Regex) (signs : List Sign) :
    Except Problem (Regex × List Sign) :=
  match fuel with
  | 0 => .ok (got, [])
  | fuel + 1 =>
    let unit? : Option (Except Problem (Regex × List Sign)) :=
      match signs with
      | .plain b :: rest => some (.ok (byte fold b, rest))
      | .any :: rest => some (.ok (one fun _ => true, rest))
      | .members accepts :: rest =>
        let both (b : UInt8) : Bool := accepts b || (fold && (accepts (lower b) ||
          (ofRange 97 122 b && accepts (b - 32))))
        some (.ok (one both, rest))
      | .lineStart :: rest => some (.ok (lineStart, rest))
      | .lineEnd :: rest => some (.ok (lineEnd, rest))
      | .times _ _ :: rest => some (.ok (nothing, rest))
      | .opening :: rest => some do
        match ← readBranches fold fuel (depth + 1) rest with
        | (inner, .closing :: rest) => return (inner, rest)
        | _ => throw .unmatchedParenthesis
      | .closing :: _ => if depth = 0 then some (.error .strayParenthesis) else none
      | .bar :: _ | [] => none
    match unit? with
    | none => .ok (got, signs)
    | some unit => do
      let (unit, rest) ← unit
      let (unit, rest) := readCounts unit rest
      readBranch fold fuel depth (sequence got unit) rest

def readCounts (unit : Regex) : List Sign → Regex × List Sign
  | .times least most :: rest => readCounts (repeated unit least most) rest
  | rest => (unit, rest)

end

def parse (extended fold : Bool) (text : List UInt8) : Except Problem Regex := do
  let signs ← signs extended text.length true text
  return (← readBranches fold (2 * signs.length + 4) 0 signs).1

end Regex

end JobShell.Utility
