import JobShell.Text.Blank

/-!
Tokens of a command line. `Token.scan` takes one token off the front of the
input and returns what is left; `tokens` repeats it to the end of the line.

Operators are recognised only where a token starts, the longest first. All
else is a word: quotes of either kind group characters, a backslash outside
quotes takes the next character as it is, and the word ends before white space
or one of the characters `<>|&;()`.
-/
namespace JobShell

open Text (isBlank)

inductive TokenKind where
  | word
  | redirect
  | sequence
  | background
  | pipe
  | and
  | or
  | leftParen
  | rightParen
  deriving DecidableEq, Repr

structure Token where
  kind : TokenKind
  text : String
  deriving DecidableEq, Repr

namespace Token

/-- Characters that end a word outside quotes. -/
def isSpecial (c : Char) : Bool :=
  c == '<' || c == '>' || c == '|' || c == '&' || c == ';' || c == '(' || c == ')'

def isQuote (c : Char) : Bool := c == '\'' || c == '"'

/-- The longest operator at the front of the input, with what follows it. A `2`
belongs to an operator only right before `>`. -/
def operator? : List Char → Option (Token × List Char)
  | ';' :: cs => some (⟨.sequence, ";"⟩, cs)
  | '(' :: cs => some (⟨.leftParen, "("⟩, cs)
  | ')' :: cs => some (⟨.rightParen, ")"⟩, cs)
  | '&' :: '&' :: cs => some (⟨.and, "&&"⟩, cs)
  | '&' :: cs => some (⟨.background, "&"⟩, cs)
  | '|' :: '|' :: cs => some (⟨.or, "||"⟩, cs)
  | '|' :: cs => some (⟨.pipe, "|"⟩, cs)
  | '<' :: cs => some (⟨.redirect, "<"⟩, cs)
  | '>' :: '>' :: cs => some (⟨.redirect, ">>"⟩, cs)
  | '>' :: cs => some (⟨.redirect, ">"⟩, cs)
  | '2' :: '>' :: '>' :: cs => some (⟨.redirect, "2>>"⟩, cs)
  | '2' :: '>' :: cs => some (⟨.redirect, "2>"⟩, cs)
  | _ => none

/-- Puts a character in front of the text scanned so far. -/
def onto (c : Char) (scanned : List Char × List Char) : List Char × List Char :=
  (c :: scanned.1, scanned.2)

/-- The characters a word stands for, and what follows the word. `quote` is the
quote that is open, if any; an open quote and a lone backslash end with the input. -/
def scanWord (quote : Option Char) : List Char → List Char × List Char
  | [] => ([], [])
  | c :: cs =>
    match quote with
    | some q => if c = q then scanWord none cs else onto c (scanWord quote cs)
    | none =>
      if isQuote c then scanWord (some c) cs
      else if c = '\\' then
        match cs with
        | [] => ([], [])
        | d :: ds => onto d (scanWord none ds)
      else if isBlank c || isSpecial c then ([], c :: cs)
      else onto c (scanWord none cs)

/-- The first token of the input and the unscanned remainder; `none` when only
white space is left. -/
def scan (input : List Char) : Option (Token × List Char) :=
  match input.dropWhile isBlank with
  | [] => none
  | c :: cs =>
    match operator? (c :: cs) with
    | some found => some found
    | none =>
      let (text, rest) := scanWord none (c :: cs)
      some (⟨.word, String.ofList text⟩, rest)

theorem scanWord_length_le (quote : Option Char) (cs : List Char) :
    (scanWord quote cs).2.length ≤ cs.length := by
  fun_induction scanWord quote cs <;> simp_all [onto] <;> omega

/-- A word that starts with neither white space nor a special character uses up
at least one character. -/
theorem scanWord_length_lt {c : Char} (cs : List Char)
    (h : (isBlank c || isSpecial c) = false) :
    (scanWord none (c :: cs)).2.length < (c :: cs).length := by
  have inQuote := scanWord_length_le (some c) cs
  have plain := scanWord_length_le none cs
  unfold scanWord
  simp only [h, Bool.false_eq_true, ↓reduceIte]
  split
  · simp; omega
  · split
    · cases cs with
      | nil => simp
      | cons d ds =>
        have := scanWord_length_le none ds
        simp [onto]; omega
    · simp [onto]; omega

theorem operator?_length_lt {cs rest : List Char} {t : Token}
    (h : operator? cs = some (t, rest)) : rest.length < cs.length := by
  unfold operator? at h
  split at h <;> cases h
  all_goals
    simp only [List.length_cons]
    omega

/-- A special character at the front is an operator. -/
theorem operator?_isSome_of_isSpecial {c : Char} (cs : List Char) (h : isSpecial c = true) :
    (operator? (c :: cs)).isSome = true := by
  simp only [isSpecial, Bool.or_eq_true, beq_iff_eq] at h
  rcases h with (((((rfl | rfl) | rfl) | rfl) | rfl) | rfl) | rfl <;>
    (unfold operator?; split <;> simp_all)

theorem scan_length_lt {input rest : List Char} {t : Token}
    (h : scan input = some (t, rest)) : rest.length < input.length := by
  have skipped := (List.dropWhile_sublist (p := isBlank) (l := input)).length_le
  unfold scan at h
  split at h
  · simp at h
  · rename_i c cs hd
    have blank : isBlank c = false := by
      have := List.head_dropWhile_not (p := isBlank) (l := input) (by simp [hd])
      simpa [hd] using this
    rw [hd] at skipped
    split at h
    · rename_i found hf
      obtain rfl := Option.some.inj h
      exact Nat.lt_of_lt_of_le (operator?_length_lt hf) skipped
    · rename_i hn
      have special : isSpecial c = false := by
        cases hs : isSpecial c with
        | false => rfl
        | true => simpa [hn] using operator?_isSome_of_isSpecial cs hs
      have shorter := scanWord_length_lt (c := c) cs (by simp [blank, special])
      simp only [Option.some.injEq, Prod.mk.injEq] at h
      obtain ⟨-, rfl⟩ := h
      exact Nat.lt_of_lt_of_le shorter skipped

/-- All tokens of the input, front to back. -/
def scanAll (input : List Char) : List Token :=
  match _h : scan input with
  | none => []
  | some (t, rest) => t :: scanAll rest
termination_by input.length
decreasing_by exact scan_length_lt ‹_›

theorem scanAll_of_none {input : List Char} (h : scan input = none) : scanAll input = [] := by
  rw [scanAll]
  split
  · rfl
  · rename_i hsome
    rw [h] at hsome
    cases hsome

theorem scanAll_of_some {input rest : List Char} {t : Token} (h : scan input = some (t, rest)) :
    scanAll input = t :: scanAll rest := by
  rw [scanAll]
  split
  · rename_i hnone
    rw [h] at hnone
    cases hnone
  · rename_i hsome
    rw [h] at hsome
    cases hsome
    rfl

end Token

def tokens (line : String) : List Token := Token.scanAll line.toList

end JobShell
