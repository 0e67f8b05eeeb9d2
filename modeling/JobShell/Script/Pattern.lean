/-!
Patterns with `*`, `?` and brackets. Each character knows whether it was quoted; quoted ones
stand for themselves.
-/
namespace JobShell.Script

abbrev Letter := Char × Bool

/-- A text in which every character was quoted, or none was. -/
def letters (quoted : Bool) (text : String) : List Letter :=
  text.toList.map fun c => (c, quoted)

def spelled (field : List Letter) : String := String.ofList (field.map Prod.fst)

def isPattern (field : List Letter) : Bool :=
  field.any fun (c, quoted) => !quoted && (c == '*' || c == '?' || c == '[')

/-- Ranges of a bracket expression up to its end, and what follows. -/
def ranges : List (Char × Char) → List Letter → Option (List (Char × Char) × List Letter)
  | _, [] => none
  | got, (']', false) :: rest =>
    if got.isEmpty then ranges [(']', ']')] rest else some (got, rest)
  | got, (low, _) :: ('-', false) :: (high, quoted) :: rest =>
    if high == ']' && !quoted then some (got ++ [(low, low), ('-', '-')], rest)
    else ranges (got ++ [(low, high)]) rest
  | got, (c, _) :: rest => ranges (got ++ [(c, c)]) rest

/-- What one character of a text has to be. -/
inductive Slot where
  | any
  | exactly (c : Char)
  | within (complement : Bool) (ranges : List (Char × Char))
  deriving DecidableEq, Repr

def Slot.accepts : Slot → Char → Bool
  | any, _ => true
  | exactly d, c => c == d
  | within complement ranges, c =>
    (ranges.any fun (low, high) => low ≤ c && c ≤ high) != complement

/-- A pattern as slots, with `none` for any text. `fuel` is its length. -/
def slots : (fuel : Nat) → List Letter → List (Option Slot)
  | 0, _ => []
  | _, [] => []
  | fuel + 1, (c, quoted) :: rest =>
    if quoted then some (.exactly c) :: slots fuel rest
    else
      match c with
      | '*' => none :: slots fuel rest
      | '?' => some .any :: slots fuel rest
      | '[' =>
        let (complement, inner) := match rest with
          | ('!', false) :: inner => (true, inner)
          | inner => (false, inner)
        match ranges [] inner with
        | some (rs, rest) => some (.within complement rs) :: slots fuel rest
        | none => some (.exactly '[') :: slots fuel rest
      | c => some (.exactly c) :: slots fuel rest

def fits : List (Option Slot) → List Char → Bool
  | [], text => text.isEmpty
  | none :: pattern, text =>
    fits pattern text || (match text with
      | [] => false
      | _ :: text => fits (none :: pattern) text)
  | some slot :: pattern, text =>
    match text with
    | [] => false
    | c :: text => slot.accepts c && fits pattern text
termination_by pattern text => (text.length, pattern.length)

def matchesText (pattern : List Letter) (text : String) : Bool :=
  fits (slots pattern.length pattern) text.toList

/-- A text without the part at its start or end that matches a pattern. -/
def trimmed (fromStart longest : Bool) (pattern : List Letter) (text : String) : String :=
  let cs := text.toList
  let p := slots pattern.length pattern
  let sizes := List.range (cs.length + 1)
  let sizes := if longest then sizes.reverse else sizes
  let part (n : Nat) : List Char := if fromStart then cs.take n else cs.drop (cs.length - n)
  match sizes.find? fun n => fits p (part n) with
  | some n => String.ofList (if fromStart then cs.drop n else cs.take (cs.length - n))
  | none => text

end JobShell.Script
