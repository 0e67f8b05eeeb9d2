import Mathlib.Data.List.TakeWhile
import Mathlib.Logic.ExistsUnique
import JobShell.Token

/-!
The grammar of tokens, and that scanning accepts exactly what it allows. Behind white space
there is the longest operator that fits or, where none does, a word. A word is made of plain
characters, escaped characters and quoted sections, and may be left unfinished where the input
ends. It reaches up to white space, a special character or the end of the input.
-/
namespace JobShell.Token

open Text (isBlank)

/-- Every operator, as the token it is scanned as. -/
def operators : List Token := [
  ⟨.sequence, ";"⟩, ⟨.leftParen, "("⟩, ⟨.rightParen, ")"⟩, ⟨.and, "&&"⟩, ⟨.background, "&"⟩,
  ⟨.or, "||"⟩, ⟨.pipe, "|"⟩, ⟨.redirect, "<"⟩, ⟨.redirect, ">>"⟩, ⟨.redirect, ">"⟩,
  ⟨.redirect, "2>>"⟩, ⟨.redirect, "2>"⟩]

/-- The input starts with the operator `t`, and with no longer one. -/
structure LongestOperator (s : List Char) (t : Token) : Prop where
  mem : t ∈ operators
  start : t.text.toList <+: s
  longest : ∀ u ∈ operators, u.text.toList <+: s →
    u.text.toList.length ≤ t.text.toList.length

/-- A part of a word. -/
inductive Piece where
  | plain (c : Char)
  /-- A character behind a backslash. -/
  | escaped (c : Char)
  /-- Characters between two equal quotes. -/
  | quoted (quote : Char) (inner : List Char)
  deriving DecidableEq, Repr

namespace Piece

def written : Piece → List Char
  | plain c => [c]
  | escaped c => ['\\', c]
  | quoted quote inner => quote :: (inner ++ [quote])

def text : Piece → List Char
  | plain c | escaped c => [c]
  | quoted _ inner => inner

def Valid : Piece → Prop
  | plain c => isBlank c = false ∧ isQuote c = false ∧ c ≠ '\\' ∧ isSpecial c = false
  | escaped _ => True
  | quoted quote inner => isQuote quote = true ∧ quote ∉ inner

end Piece

/-- What the end of the input leaves unfinished. -/
inductive Remnant where
  | quote (quote : Char) (inner : List Char)
  | backslash
  deriving DecidableEq, Repr

namespace Remnant

def written : Remnant → List Char
  | quote q inner => q :: inner
  | backslash => ['\\']

def text : Remnant → List Char
  | quote _ inner => inner
  | backslash => []

def Valid : Remnant → Prop
  | quote q inner => isQuote q = true ∧ q ∉ inner
  | backslash => True

end Remnant

/-- How a word is written. -/
structure Spelling where
  pieces : List Piece
  remnant : Option Remnant := none
  deriving DecidableEq, Repr

namespace Spelling

def written (w : Spelling) : List Char :=
  w.pieces.flatMap Piece.written ++ w.remnant.elim [] Remnant.written

def text (w : Spelling) : List Char :=
  w.pieces.flatMap Piece.text ++ w.remnant.elim [] Remnant.text

def add (p : Piece) (w : Spelling) : Spelling := { w with pieces := p :: w.pieces }

@[simp] theorem written_add (p : Piece) (w : Spelling) :
    (w.add p).written = p.written ++ w.written := by
  simp [written, add]

@[simp] theorem text_add (p : Piece) (w : Spelling) : (w.add p).text = p.text ++ w.text := by
  simp [text, add]

end Spelling

/-- No word goes on here. -/
def Boundary (s : List Char) : Prop := ∀ c ∈ s.head?, (isBlank c || isSpecial c) = true

/-- The input is a word, written in this way, and a tail that cannot belong to it. -/
structure Splits (s : List Char) (w : Spelling) (tail : List Char) : Prop where
  pieces : ∀ p ∈ w.pieces, p.Valid
  remnant : ∀ r ∈ w.remnant, r.Valid
  nonempty : w.written ≠ []
  eq : s = w.written ++ tail
  boundary : Boundary tail
  atEnd : w.remnant ≠ none → tail = []

theorem isQuote_iff {c : Char} : isQuote c = true ↔ c = '\'' ∨ c = '"' := by
  simp [isQuote]

/-- Behind an open quote all is taken up to the next one. -/
theorem scanWord_quoted {quote : Char} {inner : List Char} (h : quote ∉ inner)
    (rest : List Char) : scanWord (some quote) (inner ++ quote :: rest) =
      (inner ++ (scanWord none rest).1, (scanWord none rest).2) := by
  induction inner with
  | nil => simp [scanWord]
  | cons c inner ih =>
    obtain ⟨hc, hinner⟩ : quote ≠ c ∧ quote ∉ inner := by simpa using h
    rw [List.cons_append, scanWord]
    simp [Ne.symm hc, ih hinner, onto]

theorem scanWord_unclosed {quote : Char} {inner : List Char} (h : quote ∉ inner) :
    scanWord (some quote) inner = (inner, []) := by
  induction inner with
  | nil => rfl
  | cons c inner ih =>
    obtain ⟨hc, hinner⟩ : quote ≠ c ∧ quote ∉ inner := by simpa using h
    rw [scanWord]
    simp [Ne.symm hc, ih hinner, onto]

theorem scanWord_openQuote {quote : Char} (h : isQuote quote = true) (rest : List Char) :
    scanWord none (quote :: rest) = scanWord (some quote) rest := by
  rw [scanWord.eq_def]
  simp [h]

/-- A piece in front is read for itself. -/
theorem scanWord_piece {p : Piece} (h : p.Valid) (rest : List Char) :
    scanWord none (p.written ++ rest) =
      (p.text ++ (scanWord none rest).1, (scanWord none rest).2) := by
  cases p with
  | plain c =>
    obtain ⟨hblank, hquote, hslash, hspecial⟩ := h
    rw [Piece.written, List.singleton_append, scanWord.eq_def]
    simp [hblank, hquote, hslash, hspecial, onto, Piece.text]
  | escaped c => simp [Piece.written, Piece.text, scanWord, isQuote, onto]
  | quoted quote inner =>
    obtain ⟨hquote, hinner⟩ := h
    rw [Piece.written, List.cons_append, List.append_assoc, List.singleton_append,
      scanWord_openQuote hquote, scanWord_quoted hinner, Piece.text]

theorem scanWord_remnant {r : Remnant} (h : r.Valid) :
    scanWord none r.written = (r.text, []) := by
  cases r with
  | quote q inner =>
    obtain ⟨hquote, hinner⟩ := h
    rw [Remnant.written, scanWord_openQuote hquote, scanWord_unclosed hinner, Remnant.text]
  | backslash => simp [Remnant.written, Remnant.text, scanWord, isQuote]

theorem scanWord_boundary {s : List Char} (h : Boundary s) : scanWord none s = ([], s) := by
  cases s with
  | nil => rfl
  | cons c cs =>
    have hc : (isBlank c || isSpecial c) = true := h c rfl
    have hslash : c ≠ '\\' := by
      rintro rfl
      cases hc
    have hquote : isQuote c = false := by
      rw [Bool.eq_false_iff, Ne, isQuote_iff]
      rintro (rfl | rfl) <;> cases hc
    rw [scanWord.eq_def]
    simp [hquote, hslash, hc]

/-- A word that the input can be split into is what scanning makes of it. -/
theorem Splits.scanWord_eq {s tail : List Char} {w : Spelling} (h : Splits s w tail) :
    scanWord none s = (w.text, tail) := by
  obtain ⟨hpieces, hremnant, -, rfl, htail, hend⟩ := h
  obtain ⟨pieces, remnant⟩ := w
  induction pieces with
  | nil =>
    cases remnant with
    | none => simpa [Spelling.written, Spelling.text] using scanWord_boundary htail
    | some r =>
      obtain rfl := hend (by simp)
      simpa [Spelling.written, Spelling.text] using scanWord_remnant (hremnant r rfl)
  | cons p pieces ih =>
    simp only [List.mem_cons, forall_eq_or_imp] at hpieces
    have hrest := ih hpieces.2 hremnant hend
    change scanWord none ((Spelling.add p ⟨pieces, remnant⟩).written ++ tail) =
      ((Spelling.add p ⟨pieces, remnant⟩).text, tail)
    rw [Spelling.written_add, Spelling.text_add, List.append_assoc, scanWord_piece hpieces.1,
      hrest]

/-- Where a word goes on, it does with a piece or with what the end of the input leaves. -/
theorem exists_front {s : List Char} (h : ¬ Boundary s) :
    (∃ (p : Piece) (rest : List Char), p.Valid ∧ s = p.written ++ rest) ∨
      ∃ r : Remnant, r.Valid ∧ s = r.written := by
  cases s with
  | nil => simp [Boundary] at h
  | cons c cs =>
    have hc : isBlank c = false ∧ isSpecial c = false := by simpa [Boundary] using h
    by_cases hquote : isQuote c = true
    · by_cases hclosed : c ∈ cs
      · obtain ⟨inner, rest, rfl, hinner⟩ := List.eq_append_cons_of_mem hclosed
        exact .inl ⟨.quoted c inner, rest, ⟨hquote, hinner⟩, by simp [Piece.written]⟩
      · exact .inr ⟨.quote c cs, ⟨hquote, hclosed⟩, rfl⟩
    · by_cases hslash : c = '\\'
      · cases cs with
        | nil => exact .inr ⟨.backslash, trivial, by rw [hslash]; rfl⟩
        | cons d ds => exact .inl ⟨.escaped d, ds, trivial, by rw [hslash]; rfl⟩
      · exact .inl ⟨.plain c, cs, ⟨hc.1, by simpa using hquote, hslash, hc.2⟩, rfl⟩

theorem Piece.written_ne_nil (p : Piece) : p.written ≠ [] := by
  cases p <;> simp [Piece.written]

theorem Remnant.written_ne_nil (r : Remnant) : r.written ≠ [] := by
  cases r <;> simp [Remnant.written]

/-- Any input can be split where a word goes on. -/
theorem exists_splits {s : List Char} (h : ¬ Boundary s) : ∃ w tail, Splits s w tail := by
  induction hn : s.length using Nat.strongRecOn generalizing s with
  | ind n ih =>
    obtain ⟨p, rest, hp, rfl⟩ | ⟨r, hr, rfl⟩ := exists_front h
    · have hlt : rest.length < n := by
        have := List.length_pos_iff.mpr p.written_ne_nil
        rw [List.length_append] at hn
        omega
      by_cases hrest : Boundary rest
      · refine ⟨⟨[p], none⟩, rest, by simpa using hp, by simp, ?_, ?_, hrest, by simp⟩
        · simpa [Spelling.written] using p.written_ne_nil
        · simp [Spelling.written]
      · obtain ⟨w, tail, hw⟩ := ih rest.length hlt hrest rfl
        refine ⟨w.add p, tail, ?_, hw.remnant, ?_, ?_, hw.boundary, hw.atEnd⟩
        · simpa [Spelling.add] using ⟨hp, hw.pieces⟩
        · simp [p.written_ne_nil]
        · rw [Spelling.written_add, List.append_assoc, ← hw.eq]
    · refine ⟨⟨[], some r⟩, [], by simp, by simpa using hr, ?_, ?_, by simp [Boundary], by simp⟩
      · simpa [Spelling.written] using r.written_ne_nil
      · simp [Spelling.written]

/-- There is only one way to split, as far as the word and its tail go. -/
theorem Splits.unique {s tail tail' : List Char} {w w' : Spelling} (h : Splits s w tail)
    (h' : Splits s w' tail') : w'.written = w.written ∧ w'.text = w.text ∧ tail' = tail := by
  have heq := h.scanWord_eq.symm.trans h'.scanWord_eq
  simp only [Prod.mk.injEq] at heq
  obtain ⟨htext, rfl⟩ := heq
  exact ⟨List.append_cancel_right (h'.eq.symm.trans h.eq), htext.symm, rfl⟩

/-- What is found in front is the longest operator. -/
theorem operator?_sound {s rest : List Char} {t : Token} (h : operator? s = some (t, rest)) :
    LongestOperator s t ∧ s = t.text.toList ++ rest := by
  unfold operator? at h
  split at h <;> simp only [Option.some.injEq, Prod.mk.injEq, reduceCtorEq] at h
  all_goals
    obtain ⟨rfl, rfl⟩ := h
    refine ⟨⟨by simp [operators], by simp, ?_⟩, by simp⟩
    simp_all [operators, List.cons_prefix_iff]

theorem operator?_isSome_of_two (rest : List Char) :
    (operator? ('2' :: '>' :: rest)).isSome = true := by
  unfold operator?
  split <;> simp_all

theorem operator?_isSome {t : Token} (h : t ∈ operators) (rest : List Char) :
    (operator? (t.text.toList ++ rest)).isSome = true := by
  -- an operator starts with a special character or with `2>`
  have hfront : ∀ t ∈ operators, t.text.toList.head?.any isSpecial = true ∨
      t.text.toList = '2' :: '>' :: t.text.toList.drop 2 := by decide
  obtain hspecial | htwo := hfront t h
  · cases ht : t.text.toList with
    | nil => simp [ht] at hspecial
    | cons c cs => exact operator?_isSome_of_isSpecial _ (by simpa [ht] using hspecial)
  · rw [htwo]
    exact operator?_isSome_of_two _

theorem LongestOperator.unique {s : List Char} {t u : Token} (h : LongestOperator s t)
    (h' : LongestOperator s u) : u = t := by
  have hlength : u.text.toList.length = t.text.toList.length :=
    Nat.le_antisymm (h.longest u h'.mem h'.start) (h'.longest t h.mem h.start)
  have hpre := List.prefix_of_prefix_length_le h'.start h.start (Nat.le_of_eq hlength)
  have htext : u.text = t.text := String.toList_inj.mp (hpre.eq_of_length hlength)
  have hinj : ∀ u ∈ operators, ∀ t ∈ operators, u.text = t.text → u = t := by decide
  exact hinj u h'.mem t h.mem htext

/-- Exactly the longest operator is found in front. -/
theorem operator?_eq_some_iff {s rest : List Char} {t : Token} :
    operator? s = some (t, rest) ↔ LongestOperator s t ∧ s = t.text.toList ++ rest := by
  constructor
  · exact operator?_sound
  · rintro ⟨h, rfl⟩
    obtain ⟨⟨u, rest'⟩, hfound⟩ := Option.isSome_iff_exists.mp (operator?_isSome h.mem rest)
    obtain ⟨hu, heq⟩ := operator?_sound hfound
    obtain rfl := h.unique hu
    rw [hfound, List.append_cancel_left heq]

theorem operator?_eq_none_iff {s : List Char} :
    operator? s = none ↔ ∀ t ∈ operators, ¬ t.text.toList <+: s := by
  constructor
  · rintro h t ht ⟨rest, rfl⟩
    simpa [h] using operator?_isSome ht rest
  · intro h
    cases hs : operator? s with
    | none => rfl
    | some found =>
      obtain ⟨t, rest⟩ := found
      obtain ⟨hlongest, -⟩ := operator?_sound hs
      exact absurd hlongest.start (h _ hlongest.mem)

/-- What the first token of an input without white space in front is, and what follows it. -/
inductive FirstToken (s : List Char) : Token → List Char → Prop
  | operator {t : Token} {rest : List Char} : LongestOperator s t → s = t.text.toList ++ rest →
      FirstToken s t rest
  | word {w : Spelling} {tail : List Char} : (∀ t ∈ operators, ¬ t.text.toList <+: s) →
      Splits s w tail → FirstToken s ⟨.word, String.ofList w.text⟩ tail

/-- The tokens of an input, one after another. -/
inductive Lexes : List Char → List Token → Prop
  | blank {s : List Char} : (∀ c ∈ s, isBlank c = true) → Lexes s []
  | token {s rest : List Char} {t : Token} {ts : List Token} :
      FirstToken (s.dropWhile isBlank) t rest → Lexes rest ts → Lexes s (t :: ts)

theorem dropWhile_isBlank_eq_nil {s : List Char} :
    s.dropWhile isBlank = [] ↔ ∀ c ∈ s, isBlank c = true :=
  List.dropWhile_eq_nil_iff

theorem scan_eq_none_iff {input : List Char} :
    scan input = none ↔ ∀ c ∈ input, isBlank c = true := by
  rw [← dropWhile_isBlank_eq_nil]
  unfold scan
  split
  · rename_i h
    simp [h]
  · rename_i c cs h
    split <;> simp [h]

/-- Where no operator fits and something else than white space is in front, a word goes on. -/
theorem not_boundary {input : List Char} (hne : input.dropWhile isBlank ≠ [])
    (h : ∀ t ∈ operators, ¬ t.text.toList <+: input.dropWhile isBlank) :
    ¬ Boundary (input.dropWhile isBlank) := by
  obtain ⟨c, cs, hs⟩ := List.exists_cons_of_ne_nil hne
  have hblank : isBlank c = false := by
    have hhead := List.head_dropWhile_not isBlank hne
    simpa [hs] using hhead
  have hspecial : isSpecial c = false := by
    rw [hs] at h
    rw [Bool.eq_false_iff]
    intro hspecial
    have hsome := operator?_isSome_of_isSpecial cs hspecial
    simp [operator?_eq_none_iff.mpr h] at hsome
  simp [Boundary, hs, hblank, hspecial]

theorem scan_of_firstToken {input rest : List Char} {t : Token}
    (h : FirstToken (input.dropWhile isBlank) t rest) : scan input = some (t, rest) := by
  unfold scan
  split
  · rename_i hs
    rw [hs] at h
    cases h with
    | operator hlongest heq =>
      have hsome := operator?_isSome hlongest.mem rest
      rw [← heq] at hsome
      cases hsome
    | word _ hsplit => exact absurd (List.append_eq_nil_iff.mp hsplit.eq.symm).1 hsplit.nonempty
  · rename_i c cs hs
    rw [hs] at h
    cases h with
    | operator hlongest heq => rw [operator?_eq_some_iff.mpr ⟨hlongest, heq⟩]
    | word hnone hsplit => rw [operator?_eq_none_iff.mpr hnone, hsplit.scanWord_eq]

/-- Scanning takes exactly the first token behind white space. -/
theorem scan_eq_some_iff {input rest : List Char} {t : Token} :
    scan input = some (t, rest) ↔ FirstToken (input.dropWhile isBlank) t rest := by
  constructor
  · intro h
    have hne : input.dropWhile isBlank ≠ [] := by
      intro hnil
      rw [scan_eq_none_iff.mpr (dropWhile_isBlank_eq_nil.mp hnil)] at h
      cases h
    have hfirst : ∃ u tail, FirstToken (input.dropWhile isBlank) u tail := by
      cases hop : operator? (input.dropWhile isBlank) with
      | some found =>
        obtain ⟨t, tail⟩ := found
        obtain ⟨hlongest, heq⟩ := operator?_sound hop
        exact ⟨_, _, .operator hlongest heq⟩
      | none =>
        have hnone := operator?_eq_none_iff.mp hop
        obtain ⟨w, tail, hsplit⟩ := exists_splits (not_boundary hne hnone)
        exact ⟨_, _, .word hnone hsplit⟩
    obtain ⟨u, tail, hfirst⟩ := hfirst
    have heq := h.symm.trans (scan_of_firstToken hfirst)
    simp only [Option.some.injEq, Prod.mk.injEq] at heq
    obtain ⟨rfl, rfl⟩ := heq
    exact hfirst
  · exact scan_of_firstToken

/-- The tokens of an input are those that its grammar gives it. -/
theorem scanAll_eq_iff {input : List Char} {ts : List Token} :
    scanAll input = ts ↔ Lexes input ts := by
  constructor
  · rintro rfl
    induction hn : input.length using Nat.strongRecOn generalizing input with
    | ind n ih =>
      cases hs : scan input with
      | none =>
        rw [scanAll_of_none hs]
        exact .blank (scan_eq_none_iff.mp hs)
      | some found =>
        obtain ⟨t, rest⟩ := found
        rw [scanAll_of_some hs]
        exact .token (scan_eq_some_iff.mp hs) (ih rest.length (hn ▸ scan_length_lt hs) rfl)
  · intro h
    induction h with
    | blank hblank => exact scanAll_of_none (scan_eq_none_iff.mpr hblank)
    | token hfirst _ ih => rw [scanAll_of_some (scan_eq_some_iff.mpr hfirst), ih]

/-- Scanning recognises exactly the grammar of tokens: there is none in white space alone; a
longest operator in front is taken; otherwise what is in front can be split in one way only
into a word and what follows it, and the word is taken for what it stands for. -/
theorem scan_recognises_grammar (line : String) :
    (scan line.toList = none ↔ ∀ c ∈ line.toList, isBlank c = true) ∧
    (∀ s, line.toList.dropWhile isBlank = s → s ≠ [] →
      ((∃ t ∈ operators, t.text.toList <+: s) → ∃ t rest, LongestOperator s t ∧
        s = t.text.toList ++ rest ∧ scan line.toList = some (t, rest)) ∧
      ((∀ t ∈ operators, ¬ t.text.toList <+: s) →
        (∃! split : List Char × List Char, ∃ w, Splits s w split.2 ∧ split.1 = w.written) ∧
        ∀ w tail, Splits s w tail →
          scan line.toList = some (⟨.word, String.ofList w.text⟩, tail))) ∧
    ∀ ts, tokens line = ts ↔ Lexes line.toList ts := by
  refine ⟨scan_eq_none_iff, ?_, fun ts => scanAll_eq_iff⟩
  rintro s rfl hne
  constructor
  · rintro ⟨u, hu, rest, heq⟩
    obtain ⟨⟨t, rest'⟩, hfound⟩ := Option.isSome_iff_exists.mp (operator?_isSome hu rest)
    obtain ⟨hlongest, hsplit⟩ := operator?_sound hfound
    rw [heq] at hlongest hsplit
    exact ⟨t, rest', hlongest, hsplit, scan_eq_some_iff.mpr (.operator hlongest hsplit)⟩
  · intro hnone
    obtain ⟨w, tail, hsplit⟩ := exists_splits (not_boundary hne hnone)
    refine ⟨⟨(w.written, tail), ⟨w, hsplit, rfl⟩, ?_⟩, ?_⟩
    · rintro ⟨word, tail'⟩ ⟨w', hsplit', rfl⟩
      obtain ⟨hwritten, -, rfl⟩ := hsplit.unique hsplit'
      rw [hwritten]
    · intro w' tail' hsplit'
      exact scan_eq_some_iff.mpr (.word hnone hsplit')

/-- An escaped blank, a quoted operator and a `2` inside the word, with an operator behind it,
and that operator with its own `2` in front. -/
theorem scan_recognises_mixed_word :
    scan "\ta\\ 'b;'2>>f".toList = some (⟨.word, "a b;2"⟩, ">>f".toList) ∧
      scan " 2>>f".toList = some (⟨.redirect, "2>>"⟩, "f".toList) := by
  constructor
  · refine (((scan_recognises_grammar "\ta\\ 'b;'2>>f").2.1 _ rfl (by decide)).2
      (by decide)).2 ⟨[.plain 'a', .escaped ' ', .quoted '\'' ['b', ';'], .plain '2'], none⟩
      ">>f".toList ?_
    refine ⟨?_, by simp, by decide, by decide, ?_, by simp⟩
    · simp [Piece.Valid, isBlank, isQuote, isSpecial]
    · simp [Boundary, isSpecial]
  · obtain ⟨t, rest, hlongest, heq, hscan⟩ := ((scan_recognises_grammar " 2>>f").2.1 _ rfl
      (by decide)).1 ⟨⟨.redirect, "2>"⟩, by decide, by decide⟩
    have hfound := operator?_eq_some_iff.mpr ⟨hlongest, heq⟩
    rw [hscan, ← hfound]
    decide

end JobShell.Token
