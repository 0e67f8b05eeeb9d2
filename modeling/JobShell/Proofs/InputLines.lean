import JobShell.Input
import JobShell.Proofs.Contract

/-!
The lines of an input. The bytes of an input are cut behind every newline, and reading a line
gives the first piece of what is still to come, however the system deals the bytes out and
however often it is interrupted.
-/
namespace JobShell

open Program

/-- Bytes cut behind every newline. What stands behind the last one is a piece as well, unless it
is empty. -/
def pieces : List UInt8 → List (List UInt8)
  | [] => []
  | b :: bytes =>
    if b = newline then [b] :: pieces bytes
    else
      match pieces bytes with
      | [] => [[b]]
      | piece :: rest => (b :: piece) :: rest

section

variable {bytes line rest : List UInt8}

theorem pieces_eq_nil : pieces bytes = [] ↔ bytes = [] := by
  cases bytes with
  | nil => simp [pieces]
  | cons b bytes =>
    simp only [pieces, reduceCtorEq, iff_false]
    split
    · simp
    · split <;> simp

/-- Every byte stands in a piece. -/
theorem flatten_pieces (bytes : List UInt8) : (pieces bytes).flatten = bytes := by
  induction bytes with
  | nil => rfl
  | cons b bytes ih =>
    rw [pieces]
    split
    · simp [ih]
    · split
      · rename_i hnil
        rw [pieces_eq_nil.mp hnil]
        rfl
      · rename_i hcons
        rw [← ih, hcons]
        rfl

end

namespace Source

/-- What the system does with an input of which `bytes` are still to come: reading from its
descriptor gives some of them, none only at their end, or is cut short, and nothing else touches
them. A descriptor that is closed may count as the end. -/
def Step (s : Source) (bytes : List UInt8) : Event → List UInt8 → Prop
  | .call (.read fd count) answer, bytes' =>
    if fd = s.fd then
      match answer with
      | .ok data => bytes = data.toList ++ bytes' ∧ data.size ≤ count ∧
          (data.toList = [] → bytes = [])
      | .error e => bytes' = bytes ∧
          (e = .interrupted ∨ s.closedIsEmpty = true ∧ e = .badFile ∧ bytes = [])
    else bytes' = bytes
  | _, bytes' => bytes' = bytes

end Source

section

variable {s s' : Source} {bytes bytes' line : List UInt8} {t : List Event}

/-- The state of a reader: what it has read ahead, and the line so far. -/
abbrev Reader := Source × List UInt8

end

end JobShell
