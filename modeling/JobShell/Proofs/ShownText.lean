import JobShell.Proofs.Pipelines
import JobShell.Proofs.Writing

/-!
The text that is shown for a pipeline. If its words need no quoting, the text is a line that is
parsed as the pipeline again, without its redirections and as one that was never started. So such
pipelines have one text exactly if they have the same words in the same stages.
-/
namespace JobShell

open Text (isBlank)

/-- The word stands for itself on a line: it needs neither quotes nor backslashes. -/
def SpellsItself (word : String) : Prop :=
  word ≠ "" ∧ ∀ c ∈ word.toList,
    isBlank c = false ∧ Token.isQuote c = false ∧ c ≠ '\\' ∧ Token.isSpecial c = false

/-- The text of the pipeline can be read: each stage has words, and all words spell themselves. -/
structure Pipeline.Readable (p : Pipeline) : Prop where
  nonempty : p.stages ≠ []
  words : ∀ s ∈ p.stages, s.argv ≠ []
  spelled : ∀ s ∈ p.stages, ∀ word ∈ s.argv, SpellsItself word

/-- What the text of the pipeline says: the words of its stages and their order. -/
def Pipeline.retyped (p : Pipeline) : Pipeline where
  stages := assignRoles (p.stages.map fun s => { argv := s.argv })
  join := .none

theorem map_argv_retyped (p : Pipeline) :
    p.retyped.stages.map Stage.argv = p.stages.map Stage.argv := by
  apply List.ext_getElem <;> simp [Pipeline.retyped, assignRoles]

theorem mem_retyped {p : Pipeline} {s : Stage} (h : s ∈ p.retyped.stages) :
    s.redirections = [] ∧ s.pid = none := by
  obtain ⟨_, hbare, hs⟩ := mem_assignRoles h
  obtain ⟨s', -, rfl⟩ := List.mem_map.mp hbare
  rw [hs]
  exact ⟨rfl, rfl⟩

theorem SpellsItself.written {word : String} (h : SpellsItself word) :
    Token.Written ⟨.word, word⟩ word.toList := by
  obtain ⟨hne, hplain⟩ := h
  have hpieces : word.toList.map Token.Piece.plain ≠ [] := by simpa using hne
  have hvalid : ∀ piece ∈ word.toList.map Token.Piece.plain, piece.Valid := by
    intro piece hpiece
    obtain ⟨c, hc, rfl⟩ := List.mem_map.mp hpiece
    exact hplain c hc
  have hw : Token.Written ⟨.word, String.ofList _⟩ _ := .word _ hpieces hvalid
  simpa [List.flatMap_map, Token.Piece.text, Token.Piece.written] using hw

section

open Token (Gap Spaced)

variable {ws : List (List Char)} {rest : List Char}

/-- Words that are put together with single spaces are spaced. -/
theorem spaced_words {argv : List String} (hne : argv ≠ []) (hwords : ∀ word ∈ argv, word ≠ "")
    (hgap : Gap rest) (h : Spaced ws rest) :
    Spaced (argv.map String.toList ++ ws) ((" ".intercalate argv).toList ++ rest) := by
  induction argv with
  | nil => exact absurd rfl hne
  | cons word argv ih =>
    simp only [List.mem_cons, forall_eq_or_imp] at hwords
    have hword : word.toList ≠ [] := by simpa using hwords.1
    cases argv with
    | nil => simpa using Spaced.next [] word.toList rest (by simp) hword hgap h
    | cons word' argv =>
      have hlater := ih (by simp) hwords.2
      have hspace : isBlank ' ' = true := rfl
      have hfirst := Spaced.next [] word.toList _ (by simp) hword (by simp [Gap, hspace])
        (hlater.blank_cons hspace)
      simpa using hfirst

/-- Where stages are shown, their words and the bars between them are spaced. -/
theorem spaced_stages {ss : List Stage} (hne : ss ≠ []) (hargv : ∀ s ∈ ss, s.argv ≠ [])
    (hwords : ∀ s ∈ ss, ∀ word ∈ s.argv, word ≠ "") (hbare : ∀ s ∈ ss, s.redirections = []) :
    Spaced ((stagesTokens ss).map fun t => t.text.toList)
      (" | ".intercalate (ss.map fun s => " ".intercalate s.argv)).toList := by
  have htokens {s : Stage} (hs : s.redirections = []) :
      s.tokens.map (fun t => t.text.toList) = s.argv.map String.toList := by
    simp [Stage.tokens, hs]
  induction ss with
  | nil => exact absurd rfl hne
  | cons s ss ih =>
    simp only [List.mem_cons, forall_eq_or_imp] at hargv hwords hbare
    cases ss with
    | nil =>
      have hnothing : Spaced [] [] := .blank (by simp)
      have hend := spaced_words hargv.1 hwords.1 (by simp [Gap]) hnothing
      simpa [stagesTokens, htokens hbare.1] using hend
    | cons s' ss =>
      have hlater := ih (by simp) hargv.2 hwords.2 hbare.2
      have hspace : isBlank ' ' = true := rfl
      have hbar := Spaced.next [' '] ['|'] _ (by simp [hspace]) (by simp) (by simp [Gap, hspace])
        (hlater.blank_cons hspace)
      have hfirst := spaced_words hargv.1 hwords.1 (by simp [Gap, hspace]) hbar
      simpa [stagesTokens, htokens hbare.1] using hfirst

end

theorem Pipeline.Readable.retyped {p : Pipeline} (h : p.Readable) : p.retyped.Readable := by
  have hargv {s : Stage} (hs : s ∈ p.retyped.stages) : ∃ s' ∈ p.stages, s'.argv = s.argv := by
    have hmem : s.argv ∈ p.retyped.stages.map Stage.argv := List.mem_map_of_mem hs
    rw [map_argv_retyped] at hmem
    exact List.mem_map.mp hmem
  refine ⟨by simpa [Pipeline.retyped] using h.nonempty, ?_, ?_⟩
  · intro s hs
    obtain ⟨s', hs', heq⟩ := hargv hs
    exact heq ▸ h.words s' hs'
  · intro s hs
    obtain ⟨s', hs', heq⟩ := hargv hs
    exact heq ▸ h.spelled s' hs'

theorem wellFormed_retyped {p : Pipeline} (h : p.Readable) :
    CommandList.WellFormed [p.retyped] := by
  refine ⟨?_, by simp, by simp [Pipeline.retyped]⟩
  simp only [List.mem_singleton, forall_eq]
  exact ⟨h.retyped.nonempty, h.retyped.words, by simp [Pipeline.retyped, map_role_assignRoles],
    fun s hs => (mem_retyped hs).2, rfl, rfl⟩

/-- Where nothing needs quoting, every token of the stages is written down as its own text. -/
theorem written_stagesTokens {ss : List Stage} (hbare : ∀ s ∈ ss, s.redirections = [])
    (hspelled : ∀ s ∈ ss, ∀ word ∈ s.argv, SpellsItself word) :
    List.Forall₂ Token.Written (stagesTokens ss)
      ((stagesTokens ss).map fun t => t.text.toList) := by
  rw [List.forall₂_map_right_iff, List.forall₂_same]
  intro t ht
  obtain rfl | ⟨s, hs, ht⟩ := mem_stagesTokens ht
  · exact .operator (by decide)
  · obtain ⟨word, hword, rfl⟩ : ∃ word ∈ s.argv, Token.mk .word word = t := by
      simpa [Stage.tokens, hbare s hs] using ht
    exact (hspelled s hs word hword).written

theorem parse_retyped {p : Pipeline} (h : p.Readable) : parse p.text = .ok [p.retyped] := by
  have hbare : ∀ s ∈ p.retyped.stages, s.redirections = [] := fun s hs => (mem_retyped hs).1
  have hexpressible : CommandList.Expressible [p.retyped] := by
    intro q hq s hs r hr
    obtain rfl := List.mem_singleton.mp hq
    rw [hbare s hs] at hr
    cases hr
  have hspaced := spaced_stages h.retyped.nonempty h.retyped.words
    (fun s hs word hword => (h.retyped.spelled s hs word hword).1) hbare
  have htokens : CommandList.tokens [p.retyped] = stagesTokens p.retyped.stages := by
    simp [CommandList.tokens, Join.tokens, Pipeline.retyped]
  rw [← text_congr (map_argv_retyped p)]
  refine parse_spaced (wellFormed_retyped h) hexpressible ?_ hspaced
  rw [htokens]
  exact written_stagesTokens hbare h.retyped.spelled

/-- The text of a pipeline whose words need no quoting, whatever else there is to it, is parsed as
one pipeline with the same words in the same stages, each with the role of its place, without
redirections, and not started. Two such pipelines have the same text exactly if they have the same
words in the same stages. -/
theorem parse_text (p : Pipeline) (h : p.Readable) :
    (∃ q : Pipeline, parse p.text = .ok [q] ∧ q.join = .none ∧
      q.stages.map Stage.argv = p.stages.map Stage.argv ∧
      q.stages.map Stage.role = rolesOf p.stages.length ∧
      (∀ s ∈ q.stages, s.redirections = [] ∧ s.pid = none) ∧ q.group = none ∧ q.status = none) ∧
    ∀ p' : Pipeline, p'.Readable →
      (p.text = p'.text ↔ p.stages.map Stage.argv = p'.stages.map Stage.argv) := by
  constructor
  · refine ⟨p.retyped, parse_retyped h, rfl, map_argv_retyped p, ?_, fun s => mem_retyped, rfl, rfl⟩
    simp [Pipeline.retyped, map_role_assignRoles]
  · intro p' h'
    refine ⟨fun htext => ?_, text_congr⟩
    have hparse := parse_retyped h
    rw [htext, parse_retyped h'] at hparse
    obtain ⟨heq, -⟩ := List.cons.inj (Except.ok.inj hparse)
    rw [← map_argv_retyped p, ← heq, map_argv_retyped]

/-- Words that are no operators where they stand, in a pipeline in the background that was started
and is redirected, and the same words in other stages. -/
theorem parse_text_digits :
    let p : Pipeline := {
      stages := [{ argv := ["2", "-n"], redirections := [⟨.stderr, .append, "log"⟩], pid := some 7 },
        { argv := ["2"] }]
      join := .background
      group := some 7 }
    let p' : Pipeline := { stages := [{ argv := ["2", "-n", "2"] }], join := .none }
    p.Readable ∧ p'.Readable ∧
      (∃ q : Pipeline, parse p.text = .ok [q] ∧
        q.stages.map Stage.argv = [["2", "-n"], ["2"]]) ∧ p.text ≠ p'.text := by
  intro p p'
  have htwo : SpellsItself "2" := by
    simp [SpellsItself, isBlank, Token.isQuote, Token.isSpecial]
  have hoption : SpellsItself "-n" := by
    simp [SpellsItself, isBlank, Token.isQuote, Token.isSpecial]
  have hp : p.Readable := ⟨by simp [p], by simp [p], by simp [p, htwo, hoption]⟩
  have hp' : p'.Readable := ⟨by simp [p'], by simp [p'], by simp [p', htwo, hoption]⟩
  obtain ⟨⟨q, hparse, -, hargv, -⟩, htexts⟩ := parse_text p hp
  refine ⟨hp, hp', ⟨q, hparse, hargv⟩, fun htext => ?_⟩
  have hsame := (htexts p' hp').mp htext
  simp [p, p'] at hsame

end JobShell
