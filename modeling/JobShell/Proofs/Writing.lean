import Mathlib.Data.List.Forall2
import JobShell.Proofs.Grammar
import JobShell.Proofs.Lexing

/-!
Every command list can be written down. Its tokens are written each for itself, a word as any
mix of pieces that stand for it, with white space between neighbours; the line that results is
parsed as that list. A word with a backslash before each of its characters is one such mix, so
there is no string that cannot be a word or the target of a redirection.
-/
namespace JobShell

open Text (isBlank)

namespace Token

/-- The characters write the token down: an operator as it is, a word as pieces that stand
for it. -/
inductive Written : Token → List Char → Prop
  | operator {t : Token} : t ∈ operators → Written t t.text.toList
  | word (pieces : List Piece) : pieces ≠ [] → (∀ p ∈ pieces, p.Valid) →
      Written ⟨.word, String.ofList (pieces.flatMap Piece.text)⟩ (pieces.flatMap Piece.written)

/-- The word with a backslash before each of its characters, the empty one as two quotes. -/
def escaped (word : String) : List Char :=
  if word.toList = [] then ['\'', '\''] else word.toList.flatMap fun c => ['\\', c]

/-- The token written in one fixed way: operators as they are, words with backslashes. -/
def writing (t : Token) : List Char :=
  match t.kind with
  | .word => escaped t.text
  | _ => t.text.toList

/-- Nothing goes on where white space or the end of the line stands. -/
def Gap (s : List Char) : Prop := ∀ c ∈ s.head?, isBlank c = true

/-- The line consists of these writings, none of them empty, with white space behind each that
another one follows, and perhaps at both ends of the line. -/
inductive Spaced : List (List Char) → List Char → Prop
  | blank {gap : List Char} : (∀ c ∈ gap, isBlank c = true) → Spaced [] gap
  | next (gap w rest : List Char) {ws : List (List Char)} : (∀ c ∈ gap, isBlank c = true) →
      w ≠ [] → Gap rest → Spaced ws rest → Spaced (w :: ws) (gap ++ w ++ rest)

theorem Gap.boundary {s : List Char} (h : Gap s) : Boundary s := by
  intro c hc
  rw [h c hc, Bool.true_or]

theorem written_escaped (word : String) : Written ⟨.word, word⟩ (escaped word) := by
  by_cases h : word.toList = []
  · have hw : Written ⟨.word, String.ofList _⟩ _ :=
      .word [.quoted '\'' []] (by simp) (by simp [Piece.Valid, isQuote])
    obtain rfl : word = "" := String.toList_eq_nil_iff.mp h
    simpa [escaped, Piece.text, Piece.written] using hw
  · have hw : Written ⟨.word, String.ofList _⟩ _ :=
      .word (word.toList.map .escaped) (by simpa using h) (by simp [Piece.Valid])
    have htext : (word.toList.map Piece.escaped).flatMap Piece.text = word.toList := by
      simp [List.flatMap_map, Piece.text]
    rw [htext, String.ofList_toList, List.flatMap_map] at hw
    simpa [escaped, h, Piece.written] using hw

/-- Words and operators are written down in the one way of `writing`. -/
theorem written_writing {t : Token} (h : t.kind = .word ∨ t ∈ operators) :
    Written t t.writing := by
  obtain ⟨kind, text⟩ := t
  by_cases hkind : kind = .word
  · subst hkind
    exact written_escaped text
  · have hw : Token.writing ⟨kind, text⟩ = text.toList := by
      cases kind <;> simp_all [Token.writing]
    rw [hw]
    exact .operator (h.resolve_left hkind)

theorem not_isBlank_of_operator {t : Token} (ht : t ∈ operators) {c : Char}
    (hc : c ∈ t.text.toList) : isBlank c = false := by
  have hall : ∀ t ∈ operators, t.text.toList.all (fun c => !isBlank c) = true := by decide
  simpa using List.all_eq_true.mp (hall t ht) c hc

/-- No operator goes on over a gap. -/
theorem longestOperator_gap {t : Token} {rest : List Char} (ht : t ∈ operators) (h : Gap rest) :
    LongestOperator (t.text.toList ++ rest) t := by
  refine ⟨ht, List.prefix_append _ _, fun u hu hstart => ?_⟩
  by_contra hlen
  -- a longer operator would hold the blank that follows `t`
  have hlonger : t.text.toList <+: u.text.toList :=
    List.prefix_of_prefix_length_le (List.prefix_append _ _) hstart (by omega)
  obtain ⟨tail, htail⟩ := hlonger
  rw [← htail, List.prefix_append_right_inj] at hstart
  cases tail with
  | nil => simp [← htail] at hlen
  | cons c tail =>
    obtain ⟨more, rfl⟩ := hstart
    have hblank : isBlank c = true := h c rfl
    rw [not_isBlank_of_operator hu (by simp [← htail])] at hblank
    cases hblank

/-- What a piece starts with is neither white space nor the start of an operator, unless a `>`
follows a plain `2`. -/
theorem Piece.Valid.head {p : Piece} (h : p.Valid) (rest : List Char) :
    ∃ c cs, p.written ++ rest = c :: cs ∧ isBlank c = false ∧ isSpecial c = false ∧
      (c = '2' → cs = rest) := by
  cases p with
  | plain c => exact ⟨c, rest, rfl, h.1, h.2.2.2, fun _ => rfl⟩
  | escaped c => exact ⟨'\\', c :: rest, rfl, rfl, rfl, by simp⟩
  | quoted quote inner =>
    refine ⟨quote, inner ++ quote :: rest, by simp [Piece.written], ?_⟩
    obtain rfl | rfl := isQuote_iff.mp h.1 <;> simp [isBlank, isSpecial]

/-- A word that a gap follows starts with no operator. -/
theorem no_operator_starts {pieces : List Piece} {rest : List Char} (hne : pieces ≠ [])
    (hvalid : ∀ p ∈ pieces, p.Valid) (h : Gap rest) :
    ∀ t ∈ operators, ¬ t.text.toList <+: pieces.flatMap Piece.written ++ rest := by
  have hfront : ∀ t ∈ operators, t.text.toList.head?.any isSpecial = true ∨
      t.text.toList = '2' :: '>' :: t.text.toList.drop 2 := by decide
  obtain ⟨p, pieces, rfl⟩ := List.exists_cons_of_ne_nil hne
  simp only [List.mem_cons, forall_eq_or_imp] at hvalid
  obtain ⟨c, cs, heq, -, hspecial, htwo⟩ :=
    hvalid.1.head (pieces.flatMap Piece.written ++ rest)
  intro t ht hstart
  rw [List.flatMap_cons, List.append_assoc, heq] at hstart
  obtain hs | hs := hfront t ht
  · cases htext : t.text.toList with
    | nil => simp [htext] at hs
    | cons d ds =>
      obtain ⟨rfl, -⟩ := by simpa [htext, List.cons_prefix_cons] using hstart
      simp [htext, hspecial] at hs
  · rw [hs, List.cons_prefix_cons, List.cons_prefix_iff] at hstart
    obtain ⟨rfl, cs', hcs, -⟩ := hstart
    -- what follows a plain `2` is a piece again, or the gap
    rw [htwo rfl] at hcs
    cases pieces with
    | nil =>
      obtain rfl : rest = '>' :: cs' := by simpa using hcs
      have hblank : isBlank '>' = true := h '>' rfl
      cases hblank
    | cons q pieces =>
      obtain ⟨d, ds, heq', -, hspecial', -⟩ :=
        (hvalid.2 q (by simp)).head (pieces.flatMap Piece.written ++ rest)
      rw [List.flatMap_cons, List.append_assoc, heq'] at hcs
      obtain ⟨rfl, -⟩ := by simpa using hcs
      cases hspecial'

/-- A token written down is the first one where a gap follows it. -/
theorem Written.firstToken {t : Token} {w rest : List Char} (h : Written t w) (hgap : Gap rest) :
    FirstToken (w ++ rest) t rest := by
  cases h with
  | operator ht => exact .operator (longestOperator_gap ht hgap) rfl
  | word pieces hne hvalid =>
    have hw : (Spelling.mk pieces none).written = pieces.flatMap Piece.written := by
      simp [Spelling.written]
    have htext : (Spelling.mk pieces none).text = pieces.flatMap Piece.text := by
      simp [Spelling.text]
    have hne' : (Spelling.mk pieces none).written ≠ [] := by
      obtain ⟨p, pieces, rfl⟩ := List.exists_cons_of_ne_nil hne
      simp [hw, p.written_ne_nil]
    rw [← hw, ← htext]
    refine .word ?_ ⟨hvalid, by simp, hne', rfl, hgap.boundary, by simp⟩
    rw [hw]
    exact no_operator_starts hne hvalid hgap

theorem Written.head_not_blank {t : Token} {w : List Char} (h : Written t w) :
    ∃ c cs, w = c :: cs ∧ isBlank c = false := by
  cases h with
  | operator ht =>
    have hne : ∀ t ∈ operators, t.text.toList ≠ [] := by decide
    obtain ⟨c, cs, hcs⟩ := List.exists_cons_of_ne_nil (hne t ht)
    exact ⟨c, cs, hcs, not_isBlank_of_operator ht (by simp [hcs])⟩
  | word pieces hne hvalid =>
    obtain ⟨p, pieces, rfl⟩ := List.exists_cons_of_ne_nil hne
    obtain ⟨c, cs, heq, hblank, -, -⟩ :=
      (hvalid p (by simp)).head (pieces.flatMap Piece.written)
    exact ⟨c, cs, heq, hblank⟩

theorem Written.dropWhile_isBlank {t : Token} {gap w rest : List Char} (h : Written t w)
    (hgap : ∀ c ∈ gap, isBlank c = true) : (gap ++ w ++ rest).dropWhile isBlank = w ++ rest := by
  obtain ⟨c, cs, rfl, hc⟩ := h.head_not_blank
  rw [List.append_assoc, List.dropWhile_append_of_pos hgap, List.cons_append,
    List.dropWhile_cons_of_neg (by simp [hc])]

theorem Written.ne_nil {t : Token} {w : List Char} (h : Written t w) : w ≠ [] := by
  obtain ⟨c, cs, rfl, -⟩ := h.head_not_blank
  exact List.cons_ne_nil c cs

theorem Spaced.blank_cons {ws : List (List Char)} {s : List Char} {c : Char} (h : Spaced ws s)
    (hc : isBlank c = true) : Spaced ws (c :: s) := by
  cases h with
  | blank hs => exact .blank (by simpa [hc] using hs)
  | next gap w rest hs hw hrest hspaced =>
    exact .next (c :: gap) w rest (by simpa [hc] using hs) hw hrest hspaced

/-- Writings can always be put on one line. -/
theorem exists_spaced {ts : List Token} {ws : List (List Char)}
    (h : List.Forall₂ Written ts ws) : ∃ s, Spaced ws s := by
  induction h with
  | nil => exact ⟨[], .blank (by simp)⟩
  | @cons t w ts ws ht _ ih =>
    obtain ⟨s, hs⟩ := ih
    exact ⟨[] ++ w ++ ' ' :: s, .next _ _ _ (by simp) ht.ne_nil (by simp [Gap, isBlank])
      (hs.blank_cons rfl)⟩

/-- Tokens written down with white space between them are scanned as these. -/
theorem lexes_of_spaced {ts : List Token} {ws : List (List Char)} {s : List Char}
    (h : List.Forall₂ Written ts ws) (hs : Spaced ws s) : Lexes s ts := by
  induction hs generalizing ts with
  | blank hgap =>
    cases h
    exact .blank hgap
  | next gap w rest hgap hw hrest hspaced ih =>
    cases h with
    | @cons t _ ts _ ht hts =>
      refine .token ?_ (ih hts)
      rw [ht.dropWhile_isBlank hgap]
      exact ht.firstToken hrest

end Token

/-- The operator that makes the redirection, where there is one. -/
def Redirection.operator? (r : Redirection) : Option String :=
  match r.stream, r.mode with
  | .stdin, .read => some "<"
  | .stdout, .truncate => some ">"
  | .stdout, .append => some ">>"
  | .stderr, .truncate => some "2>"
  | .stderr, .append => some "2>>"
  | _, _ => none

def Redirection.tokens (r : Redirection) : List Token :=
  r.operator?.elim [] fun operator => [⟨.redirect, operator⟩, ⟨.word, r.target⟩]

/-- The words of a stage, and its redirections behind them. -/
def Stage.tokens (s : Stage) : List Token :=
  s.argv.map (Token.mk .word) ++ s.redirections.flatMap Redirection.tokens

/-- Stages with a bar between neighbours. -/
def stagesTokens : List Stage → List Token
  | [] => []
  | [s] => s.tokens
  | s :: ss => s.tokens ++ ⟨.pipe, "|"⟩ :: stagesTokens ss

def Join.tokens : Join → List Token
  | .sequence => [⟨.sequence, ";"⟩]
  | .background => [⟨.background, "&"⟩]
  | .and => [⟨.and, "&&"⟩]
  | .or => [⟨.or, "||"⟩]
  | .none => []

/-- The tokens that write a command list down. -/
def CommandList.tokens (l : CommandList) : List Token :=
  l.flatMap fun p => stagesTokens p.stages ++ p.join.tokens

/-- Every redirection of the list has an operator. -/
def CommandList.Expressible (l : CommandList) : Prop :=
  ∀ p ∈ l, ∀ s ∈ p.stages, ∀ r ∈ s.redirections, r.operator?.isSome = true

theorem Redirection.operator?_eq_some {r : Redirection} {operator : String}
    (h : r.operator? = some operator) :
    .ofOperator operator r.target = r ∧ ⟨.redirect, operator⟩ ∈ Token.operators := by
  obtain ⟨stream, mode, target⟩ := r
  unfold Redirection.operator? at h
  split at h <;> cases h <;> simp_all [Redirection.ofOperator, Token.operators]

theorem spellsStage_redirections {rs : List Redirection}
    (h : ∀ r ∈ rs, r.operator?.isSome = true) :
    SpellsStage (rs.flatMap Redirection.tokens) [] rs := by
  induction rs with
  | nil => exact .nil
  | cons r rs ih =>
    simp only [List.mem_cons, forall_eq_or_imp] at h
    obtain ⟨operator, hop⟩ := Option.isSome_iff_exists.mp h.1
    have hs := SpellsStage.redirection operator r.target (ih h.2)
    rw [(Redirection.operator?_eq_some hop).1] at hs
    simpa [Redirection.tokens, hop] using hs

theorem spellsStage_tokens {s : Stage} (h : ∀ r ∈ s.redirections, r.operator?.isSome = true) :
    SpellsStage s.tokens s.argv s.redirections := by
  unfold Stage.tokens
  induction s.argv with
  | nil => exact spellsStage_redirections h
  | cons word argv ih => exact .word word ih

theorem spellsStages_tokens {ss : List Stage} (hne : ss ≠ [])
    (h : ∀ s ∈ ss, ∀ r ∈ s.redirections, r.operator?.isSome = true) :
    SpellsStages (stagesTokens ss) ss := by
  induction ss with
  | nil => exact absurd rfl hne
  | cons s ss ih =>
    simp only [List.mem_cons, forall_eq_or_imp] at h
    cases ss with
    | nil => exact .last (spellsStage_tokens h.1)
    | cons s' ss => exact .bar "|" (spellsStage_tokens h.1) (ih (by simp) h.2)

theorem Join.tokens_eq {j : Join} (h : j ≠ .none) :
    ∃ kind text, j.kind? = some kind ∧ j.tokens = [⟨kind, text⟩] := by
  cases j <;> simp [Join.kind?, Join.tokens] at h ⊢

/-- The tokens of a well-formed list are one of its flattenings. -/
theorem flattens_tokens {l : CommandList} (hl : CommandList.WellFormed l)
    (he : CommandList.Expressible l) (hne : l ≠ []) : Flattens l (CommandList.tokens l) := by
  induction l with
  | nil => exact absurd rfl hne
  | cons p ps ih =>
    have hstages : SpellsStages (stagesTokens p.stages) p.stages :=
      spellsStages_tokens (hl.pipelines p (by simp)).nonempty (he p (by simp))
    rw [CommandList.tokens, List.flatMap_cons]
    cases ps with
    | nil =>
      by_cases hj : p.join = .none
      · simpa [hj, Join.tokens] using Flattens.ended hstages hj
      · obtain ⟨kind, text, hkind, hjoin⟩ := Join.tokens_eq hj
        simpa [hjoin] using Flattens.closed text hstages hkind .nil
    | cons q ps =>
      have hj : p.join ≠ .none := hl.joined p (by simp)
      obtain ⟨kind, text, hkind, hjoin⟩ := Join.tokens_eq hj
      have hrest : Flattens (q :: ps) (CommandList.tokens (q :: ps)) := by
        refine ih ⟨fun p hp => hl.pipelines p (by simp [hp]), fun p hp => hl.joined p ?_, ?_⟩
          (fun p hp => he p (by simp [hp])) (by simp)
        · rw [List.dropLast_cons_of_ne_nil (by simp)]
          exact List.mem_cons_of_mem _ hp
        · intro p' hp'
          exact hl.last p' (by rwa [List.getLast?_cons_of_ne_nil (by simp)])
      simpa [hjoin, CommandList.tokens] using Flattens.next text hstages hkind hrest

theorem mem_stageTokens {s : Stage} {t : Token} (h : t ∈ s.tokens) :
    t.kind = .word ∨ t ∈ Token.operators := by
  obtain hword | hredirection := List.mem_append.mp h
  · obtain ⟨word, -, rfl⟩ := List.mem_map.mp hword
    exact .inl rfl
  · obtain ⟨r, -, ht⟩ := List.mem_flatMap.mp hredirection
    cases hop : r.operator? with
    | none => simp [Redirection.tokens, hop] at ht
    | some operator =>
      obtain rfl | rfl : t = ⟨.redirect, operator⟩ ∨ t = ⟨.word, r.target⟩ := by
        simpa [Redirection.tokens, hop] using ht
      · exact .inr (Redirection.operator?_eq_some hop).2
      · exact .inl rfl

theorem mem_stagesTokens {ss : List Stage} {t : Token} (h : t ∈ stagesTokens ss) :
    t = ⟨.pipe, "|"⟩ ∨ ∃ s ∈ ss, t ∈ s.tokens := by
  induction ss with
  | nil => cases h
  | cons s ss ih =>
    cases ss with
    | nil => exact .inr ⟨s, List.mem_singleton_self s, h⟩
    | cons s' ss =>
      obtain hfirst | hrest := List.mem_append.mp h
      · exact .inr ⟨s, List.mem_cons_self, hfirst⟩
      · obtain hbar | hrest := List.mem_cons.mp hrest
        · exact .inl hbar
        · exact (ih hrest).imp_right fun ⟨s', hs', ht⟩ => ⟨s', List.mem_cons_of_mem s hs', ht⟩

theorem Join.mem_tokens {j : Join} {t : Token} (h : t ∈ j.tokens) : t ∈ Token.operators := by
  cases j <;> simp_all [Join.tokens, Token.operators]

/-- The tokens of a list are words and operators. -/
theorem CommandList.mem_tokens {l : CommandList} {t : Token} (h : t ∈ CommandList.tokens l) :
    t.kind = .word ∨ t ∈ Token.operators := by
  obtain ⟨p, -, ht⟩ := List.mem_flatMap.mp h
  obtain hstages | hjoin := List.mem_append.mp ht
  · obtain rfl | ⟨s, -, ht⟩ := mem_stagesTokens hstages
    · exact .inr (by decide)
    · exact mem_stageTokens ht
  · exact .inr (Join.mem_tokens hjoin)

theorem build_tokens {l : CommandList} (hl : CommandList.WellFormed l)
    (he : CommandList.Expressible l) : build (CommandList.tokens l) = .ok l := by
  by_cases hne : l = []
  · subst hne
    rw [CommandList.tokens, List.flatMap_nil, build, buildFrom]
    rfl
  · simpa [build] using
      buildFrom_completes (completes_of_flattens (flattens_tokens hl he hne) hl none) {} rfl rfl rfl
        rfl

/-- The writings of the list's tokens, one for each, with white space between them, are parsed
as the list. -/
theorem parse_spaced {l : CommandList} (hl : CommandList.WellFormed l)
    (he : CommandList.Expressible l) {line : String} {ws : List (List Char)}
    (hw : List.Forall₂ Token.Written (CommandList.tokens l) ws)
    (hs : Token.Spaced ws line.toList) : parse line = .ok l := by
  rw [parse, JobShell.tokens, Token.scanAll_eq_iff.mpr (Token.lexes_of_spaced hw hs)]
  exact build_tokens hl he

/-- Some line is the list, and every line is that spells the list's tokens one after another
with white space between neighbours: in the one way of `Token.writing`, where each character of
a word stands behind a backslash, as in any other that has each word made of pieces that stand
for it. -/
theorem parse_written (l : CommandList) (hl : CommandList.WellFormed l)
    (he : CommandList.Expressible l) :
    (∃ line : String, Token.Spaced ((CommandList.tokens l).map Token.writing) line.toList) ∧
    (∀ line : String, Token.Spaced ((CommandList.tokens l).map Token.writing) line.toList →
      parse line = .ok l) ∧
    ∀ (line : String) (ws : List (List Char)),
      List.Forall₂ Token.Written (CommandList.tokens l) ws → Token.Spaced ws line.toList →
      parse line = .ok l := by
  have hwriting : List.Forall₂ Token.Written (CommandList.tokens l)
      ((CommandList.tokens l).map Token.writing) := by
    rw [List.forall₂_map_right_iff, List.forall₂_same]
    exact fun t ht => Token.written_writing (CommandList.mem_tokens ht)
  obtain ⟨s, hs⟩ := Token.exists_spaced hwriting
  refine ⟨⟨String.ofList s, ?_⟩, fun line => parse_spaced hl he hwriting, fun line ws hw =>
    parse_spaced hl he hw⟩
  rwa [String.toList_ofList]

/-- An empty word as the program and a target that starts with a `2` and ends with a blank, with
backslashes and as a mix of quotes and plain characters. -/
theorem parse_written_empty_program :
    let l : CommandList := [{
      stages := [{ argv := [""], redirections := [⟨.stdout, .truncate, "2 "⟩] }]
      join := .background }]
    CommandList.WellFormed l ∧ CommandList.Expressible l ∧
      parse "'' >\t\\2\\  &" = .ok l ∧ parse " \"\"'' > 2' '\n&\n" = .ok l := by
  intro l
  have hl : CommandList.WellFormed l := by
    refine ⟨?_, by simp [l], by simp [l]⟩
    simp only [l, List.mem_singleton, forall_eq]
    exact ⟨by simp, by simp, rfl, by simp, rfl, rfl⟩
  have he : CommandList.Expressible l := by simp [l, CommandList.Expressible, Redirection.operator?]
  obtain ⟨-, hbackslashes, hmixed⟩ := parse_written l hl he
  refine ⟨hl, he, hbackslashes _ ?_, hmixed _ ["\"\"''".toList, ['>'], "2' '".toList, ['&']] ?_ ?_⟩
  · refine .next [] ['\'', '\''] " >\t\\2\\  &".toList ?_ (by simp) ?_
      (.next [' '] ['>'] "\t\\2\\  &".toList ?_ (by simp) ?_
      (.next ['\t'] "\\2\\ ".toList " &".toList ?_ (by simp) ?_
      (.next [' '] ['&'] [] ?_ (by simp) ?_ (.blank ?_)))) <;>
    simp [Token.Gap, isBlank]
  · exact .cons (.word [.quoted '"' [], .quoted '\'' []] (by simp)
        (by simp [Token.Piece.Valid, Token.isQuote]))
      (.cons (.operator (by decide)) (.cons (.word [.plain '2', .quoted '\'' [' ']]
        (by simp) (by simp [Token.Piece.Valid, Token.isQuote, isBlank, Token.isSpecial]))
      (.cons (.operator (by decide)) .nil)))
  · refine .next [' '] "\"\"''".toList " > 2' '\n&\n".toList ?_ (by simp) ?_
      (.next [' '] ['>'] " 2' '\n&\n".toList ?_ (by simp) ?_
      (.next [' '] "2' '".toList "\n&\n".toList ?_ (by simp) ?_
      (.next ['\n'] ['&'] ['\n'] ?_ (by simp) ?_ (.blank ?_)))) <;>
    simp [Token.Gap, isBlank]

end JobShell
