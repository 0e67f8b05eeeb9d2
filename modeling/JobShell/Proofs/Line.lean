import JobShell.Proofs.AndOr
import JobShell.Shell

/-!
One evaluation taken apart. Around what a line does the jobs are reaped, once before and once
after, and what it does is to work off its list, one pipeline after another, each with the
last status as it then stands.
-/
namespace JobShell

open Program

/-- A list is worked off behind a pipeline that ended with `before`, if there is one. -/
inductive Proceeds :
    Option Join → Context → CommandList → List Event → List Turn → Flow → Context → Prop
  | nil {before : Option Join} {ctx : Context} : Proceeds before ctx [] [] [] .continue ctx
  | cut {before : Option Join} {ctx ctx' : Context} {p : Pipeline} {ps : CommandList}
      {t : List Event} {log : List Turn} {flow : Flow} :
      Attempts (reachable before ctx.lastStatus = true) none p ctx t log (.cut flow) ctx' →
      Proceeds before ctx (p :: ps) t log flow ctx'
  | next {before : Option Join} {ctx ctx₁ ctx' : Context} {p : Pipeline} {ps : CommandList}
      {t u : List Event} {log log' : List Turn} {status : Option Status} {flow : Flow} :
      Attempts (reachable before ctx.lastStatus = true) none p ctx t log (.goesOn status) ctx₁ →
      Proceeds (some p.join) ctx₁ ps u log' flow ctx' →
      Proceeds before ctx (p :: ps) (t ++ u) (log ++ log') flow ctx'

section

variable {before : Option Join} {ctx ctx' : Context} {ps : CommandList} {t : List Event}
  {log : List Turn} {flow : Flow}

theorem runs_runAfter :
    Runs (runAfter before ctx ps) t (flow, ctx') ↔
      ∃ log, Proceeds before ctx ps t log flow ctx' := by
  induction ps generalizing before ctx t with
  | nil =>
    simp only [runAfter, pure_eq, runs_done, Prod.mk.injEq]
    constructor
    · rintro ⟨rfl, rfl, rfl⟩
      exact ⟨[], .nil⟩
    · rintro ⟨log, h⟩
      cases h
      exact ⟨rfl, rfl, rfl⟩
  | cons p ps ih =>
    rw [runs_runAfter_cons none]
    constructor
    · rintro (⟨log, h⟩ | ⟨t₁, t₂, log, status, ctx₁, rfl, h, hrest⟩)
      · exact ⟨log, .cut h⟩
      · obtain ⟨log', hrest⟩ := ih.mp hrest
        exact ⟨_, .next h hrest⟩
    · rintro ⟨log, h⟩
      cases h with
      | cut h => exact .inl ⟨_, h⟩
      | next h hrest => exact .inr ⟨_, _, _, _, _, rfl, h, ih.mpr ⟨_, hrest⟩⟩

/-- Where a pipeline that is reached stands, there stands the list. -/
theorem steps_runAfter {p : Pipeline} {q : Program (Verdict × Context)}
    (h : Steps (runReached p ctx) t q) (hreached : reachable before ctx.lastStatus = true) :
    Steps (runAfter before ctx (p :: ps)) (inquiry false :: t) (q.bind (goOn p ps)) := by
  have hthen := Steps.bind h (goOn p ps)
  refine .call false ?_
  simp only [done_bind, Bool.false_eq_true, ↓reduceIte, hreached]
  exact hthen

theorem Proceeds.report (h : Proceeds before ctx ps t log flow ctx') :
    Report ps ctx log (some flow) ctx' := by
  induction h with
  | nil => exact ⟨List.Sublist.refl _, by simp, rfl, .ended (by simp)⟩
  | cut h => exact h.report.mono
  | next h _ ih => exact h.report.append ih

end

/-- The pipelines of a list come up one after another, and behind all of them the list goes on. -/
inductive Passes :
    Option Join → Context → CommandList → List Event → List Turn → Option Join → Context → Prop
  | nil {before : Option Join} {ctx : Context} : Passes before ctx [] [] [] before ctx
  | next {before after : Option Join} {ctx ctx₁ ctx' : Context} {p : Pipeline} {ps : CommandList}
      {t u : List Event} {log log' : List Turn} {status : Option Status} :
      Attempts (reachable before ctx.lastStatus = true) none p ctx t log (.goesOn status) ctx₁ →
      Passes (some p.join) ctx₁ ps u log' after ctx' →
      Passes before ctx (p :: ps) (t ++ u) (log ++ log') after ctx'

theorem Passes.proceeds {before after : Option Join} {ctx ctx₁ ctx' : Context}
    {ps qs : CommandList} {t u : List Event} {log log' : List Turn} {flow : Flow}
    (h : Passes before ctx ps t log after ctx₁) (hrest : Proceeds after ctx₁ qs u log' flow ctx') :
    Proceeds before ctx (ps ++ qs) (t ++ u) (log ++ log') flow ctx' := by
  induction h with
  | nil => exact hrest
  | next h _ ih =>
    rw [List.append_assoc, List.append_assoc]
    exact .next h (ih hrest)

/-- A line that is one word is a lone command without arguments. -/
theorem parse_word {line word : String}
    (h : Token.scan line.toList = some (⟨.word, word⟩, [])) :
    parse line = .ok [{ stages := [{ argv := [word] }], join := .none }] := by
  have htokens : tokens line = [⟨.word, word⟩] := by
    rw [tokens, Token.scanAll_of_some h, Token.scanAll_of_none rfl]
  simp only [parse, htokens, build, buildFrom]
  rfl

/-- What a line does with a context, and the pipelines that it reaches. -/
inductive Performs (line : String) (ctx : Context) :
    List Event → List Turn → Flow → Context → Prop
  | list {list : CommandList} {t : List Event} {log : List Turn} {flow : Flow} {ctx' : Context} :
      parse line = .ok list → Proceeds none ctx list t log flow ctx' →
      Performs line ctx t log flow ctx'
  | refused {cause : SyntaxError} {t : List Event} :
      parse line = .error cause → Runs (complain (ShellError.syntaxError cause).message) t () →
      Performs line ctx t [] .continue
        { ctx with lastStatus := (ShellError.syntaxError cause).status }

theorem runs_perform {line : String} {ctx ctx' : Context} {t : List Event} {flow : Flow} :
    Runs (ctx.perform line) t (flow, ctx') ↔ ∃ log, Performs line ctx t log flow ctx' := by
  unfold Context.perform
  split
  · rename_i hline
    constructor
    · intro h
      obtain ⟨rfl, rfl, rfl⟩ := runs_done_pair.mp h
      exact ⟨[], .list hline .nil⟩
    · rintro ⟨log, h⟩
      cases h with
      | list hlist h =>
        cases hline.symm.trans hlist
        cases h
        exact .refl _
      | refused hcause => cases hline.symm.trans hcause
  · rename_i list _ hline
    rw [runList, runs_runAfter]
    constructor
    · rintro ⟨log, h⟩
      exact ⟨log, .list hline h⟩
    · rintro ⟨log, h⟩
      cases h with
      | list hlist h =>
        cases hline.symm.trans hlist
        exact ⟨log, h⟩
      | refused hcause => cases hline.symm.trans hcause
  · rename_i cause hline
    simp only [bind_eq, pure_eq, runs_bind]
    constructor
    · rintro ⟨t₁, _, _, rfl, hw, h⟩
      obtain ⟨rfl, rfl, rfl⟩ := runs_done_pair.mp h
      rw [List.append_nil]
      exact ⟨[], .refused hline hw⟩
    · rintro ⟨log, h⟩
      cases h with
      | list hlist => cases hline.symm.trans hlist
      | refused hcause hw =>
        cases hline.symm.trans hcause
        exact ⟨t, [], (), (List.append_nil t).symm, hw, .refl _⟩

/-- The exchanges of one evaluation. -/
structure Exchanges where
  reaping : List Event
  running : List Event
  reapingAgain : List Event

/-- An interrupt from before the line does not count. -/
def forgetting : Event := .call (.forget Signal.sigint) ()

def Exchanges.all (x : Exchanges) : List Event :=
  forgetting :: (x.reaping ++ (x.running ++ x.reapingAgain))

/-- One evaluation of a line, with the pipelines that it reaches. -/
inductive Evaluation (line : String) (ctx : Context) :
    Exchanges → List Turn → Flow → Context → Prop
  | intro {x : Exchanges} {log : List Turn} {flow : Flow} {ctx₁ ctx₂ ctx' : Context} :
      Runs ctx.reap x.reaping ctx₁ → Performs line ctx₁ x.running log flow ctx₂ →
      Runs ctx₂.reap x.reapingAgain ctx' → Evaluation line ctx x log flow ctx'

theorem runs_evaluate {line : String} {ctx ctx' : Context} {t : List Event} {flow : Flow} :
    Runs (ctx.evaluate line) t (flow, ctx') ↔
      ∃ x log, t = Exchanges.all x ∧ Evaluation line ctx x log flow ctx' := by
  simp only [Context.evaluate, bind_eq, pure_eq, runs_bind, runs_ask]
  constructor
  · rintro ⟨_, _, _, rfl, rfl, t₁, _, ctx₁, rfl, hreap, t₂, _, ⟨_, ctx₂⟩, rfl, hperform, t₃, _,
      ctx₃, rfl, hreap', h⟩
    obtain ⟨rfl, rfl, rfl⟩ := runs_done_pair.mp h
    obtain ⟨log, hperform⟩ := runs_perform.mp hperform
    refine ⟨⟨t₁, t₂, t₃⟩, log, ?_, .intro hreap hperform hreap'⟩
    simp [Exchanges.all, forgetting]
  · rintro ⟨x, log, rfl, h⟩
    cases h with
    | intro hreap hperform hreap' =>
      have hperform := runs_perform.mpr ⟨log, hperform⟩
      refine ⟨[forgetting], _, (), rfl, rfl, _, _, _, rfl, hreap, _, _, _, rfl, hperform, ?_⟩
      exact ⟨_, [], _, (List.append_nil _).symm, hreap', .refl _⟩

end JobShell
