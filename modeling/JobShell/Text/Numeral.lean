/-!
Decimal numerals in arguments: an optional sign and ASCII digits, nothing else,
with a value that fits the width asked for.
-/
namespace JobShell.Text

def isDigit (c : Char) : Bool := '0' ≤ c && c ≤ '9'

/-- Value of a string of digits, the leftmost weighing most. -/
def digitsValue (cs : List Char) : Nat := cs.foldl (fun n c => 10 * n + (c.toNat - 48)) 0

/-- One or more ASCII digits. -/
def natural? (cs : List Char) : Option Nat :=
  if cs ≠ [] ∧ cs.all isDigit then some (digitsValue cs) else none

/-- An optional `+` or `-` and digits. -/
def integer? : List Char → Option Int
  | '+' :: cs => (natural? cs).map Int.ofNat
  | '-' :: cs => (natural? cs).map fun n => -(n : Int)
  | cs => (natural? cs).map Int.ofNat

/-- A numeral whose value lies in `-2^31 … 2^31 - 1`. -/
def int32? (s : String) : Option Int :=
  (integer? s.toList).filter fun n => -2147483648 ≤ n ∧ n ≤ 2147483647

/-- An unsigned numeral below `2^64`; only a `+` may stand in front. -/
def word64? (s : String) : Option Nat :=
  let value := match s.toList with
    | '+' :: cs => natural? cs
    | cs => natural? cs
  value.filter fun n => n ≤ 18446744073709551615

theorem digitsValue_append (xs ys : List Char) :
    digitsValue (xs ++ ys) = ys.foldl (fun n c => 10 * n + (c.toNat - 48)) (digitsValue xs) :=
  List.foldl_append

end JobShell.Text
