/-!
Paths as the system has them: bytes, which need not be UTF-8. A path is shown as text with a
replacement character for each piece that is no character.
-/
namespace JobShell

structure Path where
  bytes : List UInt8
  deriving DecidableEq, Repr

namespace Text

/-- The second bytes that a character of three or four bytes can have behind its first. -/
def secondBytes? (first : UInt8) : Option (UInt8 × UInt8) :=
  if first = 0xE0 then some (0xA0, 0xBF)
  else if first = 0xED then some (0x80, 0x9F)
  else if first = 0xF0 then some (0x90, 0xBF)
  else if first = 0xF4 then some (0x80, 0x8F)
  else if 0xE1 ≤ first ∧ first ≤ 0xF3 then some (0x80, 0xBF)
  else none

/-- How many of the first bytes, which spell no character, count as one piece: as many as
some character starts with, and at least one. -/
def brokenLength : List UInt8 → Nat
  | first :: second :: bytes =>
    match secondBytes? first with
    | none => 1
    | some (lower, upper) =>
      if lower ≤ second ∧ second ≤ upper then
        let third := bytes.headD 0
        if 0xF0 ≤ first ∧ 0x80 ≤ third ∧ third ≤ 0xBF then 3 else 2
      else 1
  | _ => 1

/-- The characters that bytes spell. The first `skip` bytes belong to a piece that has been
dealt with. -/
def lossyChars (skip : Nat) : List UInt8 → List Char
  | [] => []
  | b :: bytes =>
    match skip with
    | skip + 1 => lossyChars skip bytes
    | 0 =>
      match ByteArray.utf8DecodeChar? ((b :: bytes).take 4).toByteArray 0 with
      | some c => c :: lossyChars (c.utf8Size - 1) bytes
      | none => '\uFFFD' :: lossyChars (brokenLength (b :: bytes) - 1) bytes

theorem lossyChars_append (skip : Nat) {piece : List UInt8} (h : piece.length = skip)
    (bytes : List UInt8) : lossyChars skip (piece ++ bytes) = lossyChars 0 bytes := by
  induction piece generalizing skip with
  | nil => rw [← h]; rfl
  | cons b piece ih =>
    obtain rfl : piece.length + 1 = skip := h
    simp only [List.cons_append, lossyChars]
    exact ih _ rfl

/-- A character in front is spelled by its own bytes, whatever follows. -/
theorem lossyChars_encode_append (c : Char) (bytes : List UInt8) :
    lossyChars 0 (String.utf8EncodeChar c ++ bytes) = c :: lossyChars 0 bytes := by
  have hlength : (String.utf8EncodeChar c).length = c.utf8Size := String.length_utf8EncodeChar c
  have hdecode : ByteArray.utf8DecodeChar?
      ((String.utf8EncodeChar c ++ bytes).take 4).toByteArray 0 = some c := by
    rw [List.take_append, List.take_of_length_le (by have := c.utf8Size_le_four; omega),
      List.toByteArray_append]
    exact ByteArray.utf8DecodeChar?_utf8EncodeChar_append
  cases hbytes : String.utf8EncodeChar c with
  | nil => have := c.utf8Size_pos; simp_all
  | cons b piece =>
    rw [hbytes, List.cons_append] at hdecode
    rw [List.cons_append, lossyChars, hdecode]
    refine congrArg (c :: ·) (lossyChars_append _ ?_ bytes)
    rw [← hlength, hbytes, List.length_cons, Nat.add_sub_cancel]

theorem lossyChars_encode (cs : List Char) :
    lossyChars 0 (cs.flatMap String.utf8EncodeChar) = cs := by
  induction cs with
  | nil => rfl
  | cons c cs ih => rw [List.flatMap_cons, lossyChars_encode_append, ih]

end Text

namespace Path

def ofText (text : String) : Path := ⟨text.toList.flatMap String.utf8EncodeChar⟩

instance : Coe String Path := ⟨ofText⟩

def join (directory : Path) (name : String) : Path :=
  let slash : List UInt8 :=
    if directory.bytes.isEmpty || directory.bytes.getLast? == some 47 then [] else [47]
  ⟨directory.bytes ++ slash ++ (ofText name).bytes⟩

/-- A path with a NUL names nothing. -/
def hasNul (path : Path) : Bool := path.bytes.contains 0

def shown (path : Path) : String := String.ofList (Text.lossyChars 0 path.bytes)

/-- What is text already is shown as it is. -/
@[simp] theorem shown_ofText (text : String) : (ofText text).shown = text := by
  simp [shown, ofText, Text.lossyChars_encode]

end Path

end JobShell
