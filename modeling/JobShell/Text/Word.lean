/-!
Words as the system takes them: bytes of UTF-8 with a NUL behind. A word that holds
a NUL itself cannot be passed on.
-/
namespace JobShell.Text

def hasNul (word : String) : Bool := word.toList.contains '\x00'

def firstWithNul? (words : List String) : Option String := words.find? hasNul

/-- Bytes that each word takes with its final NUL, or the first word that has a NUL
of its own. -/
def terminatedSizes (words : List String) : Except String (List Nat) :=
  match firstWithNul? words with
  | some word => .error word
  | none => .ok (words.map fun word => word.utf8ByteSize + 1)

end JobShell.Text
