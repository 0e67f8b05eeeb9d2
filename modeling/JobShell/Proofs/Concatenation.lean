import JobShell.Proofs.Cut
import JobShell.Proofs.Writing

/-!
Lines put together from parts. Behind a part that ends outside quotes, white space or an
operator that belongs to no longer one stands apart, and the tokens of the whole are those of
the parts. Where a part ends inside quotes or behind a backslash, what is put behind it becomes
part of its last word.
-/
namespace JobShell

open Text (isBlank)

namespace Token

theorem separates_of_blank {d : Char} (h : isBlank d = true) : Separates d where
  ends := by rw [h, Bool.true_or]
  starts := by
    intro t ht hmem
    rw [not_isBlank_of_operator ht (List.mem_of_mem_tail hmem)] at h
    cases h

/-- The operators that neither start nor continue another one. -/
def loneOperators : List Token :=
  [⟨.sequence, ";"⟩, ⟨.leftParen, "("⟩, ⟨.rightParen, ")"⟩, ⟨.redirect, "<"⟩]

theorem loneOperator_separates {op : Token} (h : op ∈ loneOperators) :
    ∃ d, op.text.toList = [d] ∧ Separates d ∧
      ∀ ds, scanAll (d :: ds) = op :: scanAll ds := by
  simp only [loneOperators, List.mem_cons, List.not_mem_nil, or_false] at h
  obtain rfl | rfl | rfl | rfl := h
  · exact ⟨';', rfl, separates_semicolon, fun ds => scanAll_of_some rfl⟩
  · exact ⟨'(', rfl, ⟨rfl, by decide⟩, fun ds => scanAll_of_some rfl⟩
  · exact ⟨')', rfl, ⟨rfl, by decide⟩, fun ds => scanAll_of_some rfl⟩
  · exact ⟨'<', rfl, ⟨rfl, by decide⟩, fun ds => scanAll_of_some rfl⟩

section

variable {d : Char}

theorem Separates.not_isQuote (hd : Separates d) : isQuote d = false := by
  rw [Bool.eq_false_iff]
  intro hquote
  have hends := hd.ends
  obtain rfl | rfl := isQuote_iff.mp hquote <;> cases hends

/-- What a character put behind an input that ends inside quotes or behind a backslash does to a
word in front: it becomes part of a word that reaches that far, and else stays behind it. -/
inductive Lengthens (d : Char) (text rest : List Char) : List Char × List Char → Prop
  | within : rest = [] → Lengthens d text rest (text ++ [d], [])
  | behind : rest.foldl Quoting.next .plain ≠ .plain → Lengthens d text rest (text, rest ++ [d])

theorem Lengthens.onto {text rest : List Char} {longer : List Char × List Char}
    (h : Lengthens d text rest longer) (c : Char) :
    Lengthens d (c :: text) rest (Token.onto c longer) := by
  cases h with
  | within hrest => exact .within hrest
  | behind hrest => exact .behind hrest

theorem scanWord_unfinished (hd : Separates d) (quote : Option Char) (cs : List Char)
    (hne : quote ≠ some d) (h : cs.foldl Quoting.next (.ofQuote quote) ≠ .plain) :
    Lengthens d (scanWord quote cs).1 (scanWord quote cs).2 (scanWord quote (cs ++ [d])) := by
  induction quote, cs using scanWord.induct with
  | case1 quote =>
    cases quote with
    | none => exact absurd rfl h
    | some quote =>
      have hd : d ≠ quote := fun heq => hne (congrArg some heq.symm)
      rw [List.nil_append, scanWord.eq_2, if_neg hd]
      exact .within rfl
  | case2 cs quote ih =>
    simp only [List.foldl_cons, Quoting.ofQuote, Quoting.next, ↓reduceIte] at h
    simpa [scanWord] using ih (by simp) h
  | case3 c cs quote hc ih =>
    simp only [List.foldl_cons, Quoting.ofQuote, Quoting.next, if_neg hc] at h
    simpa [scanWord, hc, Token.onto] using (ih hne h).onto c
  | case4 c cs hc ih =>
    simp only [List.foldl_cons, Quoting.ofQuote, Quoting.next, if_pos hc] at h
    have hcd : some c ≠ some d := by
      rintro ⟨⟩
      rw [hd.not_isQuote] at hc
      cases hc
    simpa [scanWord_openQuote hc] using ih hcd h
  | case5 hslash =>
    simp only [List.cons_append, List.nil_append, scanWord, hslash, ↓reduceIte, Bool.false_eq_true]
    exact .within rfl
  | case6 c cs hslash ih =>
    simp only [List.foldl_cons, Quoting.ofQuote, Quoting.next, if_neg hslash, ↓reduceIte] at h
    simpa [scanWord, hslash, Token.onto] using (ih (by simp) h).onto c
  | case7 c cs hquote hslash hend =>
    simp only [List.cons_append, scanWord_cons hslash, if_neg hquote, if_pos hend]
    exact .behind h
  | case8 c cs hquote hslash hend ih =>
    simp only [List.foldl_cons, Quoting.ofQuote, Quoting.next, if_neg hquote, if_neg hslash] at h
    simp only [List.cons_append, scanWord_cons hslash, if_neg hquote, if_neg hend]
    exact (ih (by simp) h).onto c

theorem scan_unfinished (hd : Separates d) {cs rest : List Char} {t : Token}
    (h : scan cs = some (t, rest)) (hs : cs.foldl Quoting.next .plain ≠ .plain) :
    (rest = [] ∧ t.kind = .word ∧
      scan (cs ++ [d]) = some (⟨.word, String.ofList (t.text.toList ++ [d])⟩, [])) ∨
    (rest.foldl Quoting.next .plain ≠ .plain ∧ scan (cs ++ [d]) = some (t, rest ++ [d])) := by
  rw [← foldl_dropWhile_blank] at hs
  unfold scan at h ⊢
  split at h
  · cases h
  · rename_i c cs' hc
    rw [hc] at hs
    have hdrop : (cs ++ [d]).dropWhile isBlank = c :: (cs' ++ [d]) := by
      rw [List.dropWhile_append, hc]
      rfl
    have hop := operator?_separator hd [] (List.cons_ne_nil c cs')
    rw [List.cons_append] at hop
    simp only [hdrop, hop]
    split at h
    · rename_i found hfound
      cases h
      obtain ⟨hlongest, heq⟩ := operator?_eq_some_iff.mp hfound
      rw [heq, List.foldl_append, foldl_operator hlongest.mem] at hs
      simp only [hfound, Option.map_some]
      exact .inr ⟨hs, trivial⟩
    · rename_i hnone
      have hword := scanWord_unfinished hd none (c :: cs') (by simp) hs
      rw [List.cons_append] at hword
      simp only [Option.some.injEq, Prod.mk.injEq] at h
      obtain ⟨rfl, rfl⟩ := h
      simp only [hnone, Option.map_none]
      generalize scanWord none (c :: (cs' ++ [d])) = longer at hword ⊢
      cases hword with
      | within hrest => exact .inl ⟨hrest, trivial, by rw [String.toList_ofList]⟩
      | behind hrest => exact .inr ⟨hrest, rfl⟩

/-- The last word of a line that ends inside quotes or behind a backslash takes in what is put
behind the line. -/
theorem scanAll_unfinished (hd : Separates d) (cs : List Char)
    (h : cs.foldl Quoting.next .plain ≠ .plain) :
    ∃ (ts : List Token) (word : String), scanAll cs = ts ++ [⟨.word, word⟩] ∧
      scanAll (cs ++ [d]) = ts ++ [⟨.word, String.ofList (word.toList ++ [d])⟩] := by
  induction hn : cs.length using Nat.strongRecOn generalizing cs with
  | ind n ih =>
    cases hscan : scan cs with
    | none => exact absurd (foldl_plain_blank (scan_eq_none_iff.mp hscan)) h
    | some found =>
      obtain ⟨t, rest⟩ := found
      obtain ⟨rfl, hkind, hlonger⟩ | ⟨hrest, hlonger⟩ := scan_unfinished hd hscan h
      · obtain ⟨kind, word⟩ := t
        obtain rfl : kind = .word := hkind
        refine ⟨[], word, ?_, ?_⟩
        · rw [scanAll_of_some hscan, scanAll_of_none rfl, List.nil_append]
        · rw [scanAll_of_some hlonger, scanAll_of_none rfl, List.nil_append]
      · obtain ⟨ts, word, hall, hall'⟩ := ih rest.length (hn ▸ scan_length_lt hscan) rest hrest rfl
        refine ⟨t :: ts, word, ?_, ?_⟩
        · rw [scanAll_of_some hscan, hall, List.cons_append]
        · rw [scanAll_of_some hlonger, hall', List.cons_append]

end

end Token

/-- The tokens of a line put together from two parts are those of the parts, if the first ends
outside quotes and not behind a backslash that takes a character, and white space or an operator
that belongs to no longer one stands between them; so a newline behind such a line makes no
token. Behind any other line a newline does not leave the tokens as they are. -/
theorem tokens_append (a : String) :
    (EndsPlain a →
      (∀ ws b : String, ws ≠ "" → (∀ c ∈ ws.toList, isBlank c = true) →
        tokens (a ++ ws ++ b) = tokens a ++ tokens b) ∧
      (∀ op ∈ Token.loneOperators, ∀ b : String,
        tokens (a ++ op.text ++ b) = tokens a ++ op :: tokens b) ∧
      tokens (a ++ "\n") = tokens a) ∧
    (¬ EndsPlain a → tokens (a ++ "\n") ≠ tokens a) := by
  have hnewline : (a ++ "\n").toList = a.toList ++ ['\n'] := String.toList_append
  constructor
  · intro ha
    refine ⟨?_, ?_, ?_⟩
    · intro ws b hne hws
      obtain ⟨c, cs, hcs⟩ := List.exists_cons_of_ne_nil (mt String.toList_eq_nil_iff.mp hne)
      have hc : isBlank c = true := hws c (by simp [hcs])
      have hlist : (a ++ ws ++ b).toList = a.toList ++ c :: (cs ++ b.toList) := by simp [hcs]
      rw [tokens, hlist, Token.scanAll_separator (Token.separates_of_blank hc) _ _ ha,
        ← List.cons_append, ← hcs, Token.scanAll_blank_append hws]
      rfl
    · intro op hop b
      obtain ⟨d, htext, hd, hscan⟩ := Token.loneOperator_separates hop
      have hlist : (a ++ op.text ++ b).toList = a.toList ++ d :: b.toList := by simp [htext]
      rw [tokens, hlist, Token.scanAll_separator hd _ _ ha, hscan]
      rfl
    · rw [tokens, hnewline, Token.scanAll_newline _ ha]
      rfl
  · intro ha heq
    obtain ⟨ts, word, hall, hall'⟩ := Token.scanAll_unfinished Token.separates_newline a.toList ha
    rw [tokens, hnewline, hall', tokens, hall] at heq
    simp at heq

/-- A section in quotes, an escaped blank and a `2` at the end of the first part, before an
ideographic space and before an operator, and a first part that ends inside quotes. -/
theorem tokens_append_quoted :
    tokens ("echo 'x y'\\ 2" ++ "\u3000" ++ "&& b") = tokens "echo 'x y'\\ 2" ++ tokens "&& b" ∧
    tokens ("echo 'x y'\\ 2" ++ "<" ++ "<f") =
      tokens "echo 'x y'\\ 2" ++ ⟨.redirect, "<"⟩ :: tokens "<f" ∧
    ¬ EndsPlain "echo 'x" ∧ tokens ("echo 'x" ++ "\n") ≠ tokens "echo 'x" := by
  have ha : EndsPlain "echo 'x y'\\ 2" := by decide
  have hb : ¬ EndsPlain "echo 'x" := by decide
  have hspace : isBlank '\u3000' = true := rfl
  obtain ⟨hblank, hoperator, -⟩ := (tokens_append "echo 'x y'\\ 2").1 ha
  refine ⟨hblank "\u3000" "&& b" (by decide) (by simpa using hspace), ?_, hb,
    (tokens_append "echo 'x").2 hb⟩
  exact hoperator ⟨.redirect, "<"⟩ (by decide) "<f"

end JobShell
