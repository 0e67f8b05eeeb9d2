import JobShell.Proofs.Line
import JobShell.Proofs.Requests
import JobShell.Proofs.Session
import JobShell.Proofs.Starting

/-!
The working directory and the shell's copy of it. The directory is moved by a `cd` that the
system carries out and by nothing else; the shell asks for it at its start and after each such
`cd`, so that its copy is never out of date.
-/
namespace JobShell

open Program

/-- The working directory of the shell's own process, where no other process moves or removes
it: the system tells it on request, and a `cd` that is carried out may lead anywhere. -/
def DirectoryStep (dir : Path) (e : Event) (dir' : Path) : Prop :=
  match e with
  | .call (.changeDirectory _) answer => (∃ e, answer = .error e) → dir' = dir
  | .call .workingDirectory answer => answer = .ok dir ∧ dir' = dir
  | _ => dir' = dir

theorem Event.Moves.topic_eq {e : Event} (h : e.Moves) : e.request.topic = .directory := by
  unfold Moves at h
  split at h
  · rfl
  · cases h

section

variable {dir dir' : Path} {t : List Event}

theorem DirectoryStep.eq_of_stays {e : Event} (h : DirectoryStep dir e dir') (he : ¬ e.Moves) :
    dir' = dir := by
  unfold DirectoryStep at h
  split at h
  · rename_i path answer
    cases answer with
    | ok value => exact absurd trivial he
    | error e => exact h ⟨e, rfl⟩
  · exact h.2
  · exact h

/-- Without a `cd` that is carried out the directory stays the same. -/
theorem Leads.directory_eq (h : Leads DirectoryStep dir t dir') (ht : ∀ e ∈ t, ¬ e.Moves) :
    dir' = dir :=
  h.unchanged fun e he _ hs => hs.eq_of_stays (ht e he)

theorem Leads.told {cwd : Except Errno Path}
    (h : Leads DirectoryStep dir [.call .workingDirectory cwd] dir') :
    cwd = .ok dir ∧ dir' = dir := by
  obtain ⟨dir₁, hs, hl⟩ := leads_cons.mp h
  obtain rfl := leads_nil.mp hl
  exact hs

/-- A `cd` that is carried out is told where it has led. -/
theorem Leads.moved {path : Path} {cwd : Except Errno Path}
    (h : Leads DirectoryStep dir
      [.call (.changeDirectory path) (.ok ()), .call .workingDirectory cwd] dir') :
    cwd = .ok dir' := by
  obtain ⟨dir₁, -, hl⟩ := leads_cons.mp h
  obtain ⟨rfl, rfl⟩ := hl.told
  rfl

theorem Within.stays {α : Type} {topics : List Topic} {p : Program α} {a : α}
    (h : Within topics p) (ht : .directory ∉ topics) (hrun : Runs p t a) : ∀ e ∈ t, ¬ e.Moves :=
  fun e he hm => ht (hm.topic_eq ▸ h.events hrun e he)

theorem Within.directory_eq {α : Type} {topics : List Topic} {p : Program α} {a : α}
    (h : Within topics p) (ht : .directory ∉ topics) (hrun : Runs p t a)
    (hl : Leads DirectoryStep dir t dir') : dir' = dir :=
  hl.directory_eq (h.stays ht hrun)

end

/-- The pipeline is a lone built-in of this name, none of its words and targets holds a NUL, and
the exchanges begin by opening all its redirections. -/
def Pipeline.Alone (p : Pipeline) (name : String) (t : List Event) : Prop :=
  ∃ stage t₁ t₂ saved, p.stages = [stage] ∧ stage.program? = some name ∧
    (∀ word ∈ stage.words, Text.hasNul word = false) ∧ t = t₁ ++ t₂ ∧
    Runs (redirectShell [] stage.redirections) t₁ (.ok (), saved)

section

variable {p p' : Pipeline} {stage : Stage} {ctx ctx' : Context} {dir dir' : Path}
  {t : List Event} {started : Except ShellError Started}

theorem hasNul_of_nulWord? (h : nulWord? [stage] = none) :
    ∀ word ∈ stage.words, Text.hasNul word = false := by
  intro word hword
  have hnone := List.find?_eq_none.mp h word (by simpa using hword)
  simpa using hnone

/-- A lone built-in leaves the directory and the context alone, unless it is a `cd` that is
carried out: that moves both together. -/
theorem InShell.directory {result : Except ShellError Outcome}
    (h : InShell stage ctx t result ctx') (hp : p.stages = [stage])
    (hl : Leads DirectoryStep dir t dir') :
    ((∃ e ∈ t, e.Moves) → p.Alone "cd" t ∧ result = .ok (.status 0) ∧
      ctx' = { ctx with cwd := dir' }) ∧
    ((∀ e ∈ t, ¬ e.Moves) → dir' = dir ∧ ctx' = ctx) := by
  cases h with
  | refused _ => exact ⟨by simp, fun ht => ⟨hl.directory_eq ht, rfl⟩⟩
  | @unopened t₁ t₂ t₃ e saved hnul hopened hrestored hw =>
    have hstays : ∀ e ∈ t₁ ++ (t₂ ++ t₃), ¬ e.Moves := by
      intro e he
      simp only [List.mem_append] at he
      obtain he | he | he := he
      · exact (within_redirectShell [] _).stays (by decide) hopened e he
      · exact (within_restoreShell saved).stays (by decide) hrestored e he
      · exact (within_printText _).stays (by decide) hw e he
    refine ⟨?_, fun ht => ⟨hl.directory_eq ht, rfl⟩⟩
    rintro ⟨e, he, hm⟩
    exact absurd hm (hstays e he)
  | @ran t₁ t₂ t₃ saved outcome _ hnul hopened hb hrestored =>
    have hopens := (within_redirectShell [] _).stays (by decide) hopened
    have hrestores := (within_restoreShell saved).stays (by decide) hrestored
    obtain ⟨dir₁, hl₁, hl₂⟩ := leads_append.mp hl
    obtain ⟨dir₂, hl₂, hl₃⟩ := leads_append.mp hl₂
    obtain rfl := hl₁.directory_eq hopens
    obtain rfl := hl₃.directory_eq hrestores
    obtain ⟨args, path, cwd, hargs, rfl, rfl, rfl⟩ | ⟨rfl, hstays, -⟩ := runs_runBuiltin hb
    · obtain rfl := hl₂.moved
      refine ⟨fun _ => ⟨?_, rfl, rfl⟩, ?_⟩
      · exact ⟨stage, t₁, _, saved, hp, by simp [Stage.program?, hargs], hasNul_of_nulWord? hnul,
          rfl, hopened⟩
      intro ht
      exact absurd trivial (ht (.call (.changeDirectory path) (.ok ())) (by simp))
    · have hall : ∀ e ∈ t₁ ++ (t₂ ++ t₃), ¬ e.Moves := by
        intro e he
        simp only [List.mem_append] at he
        obtain he | he | he := he
        · exact hopens e he
        · exact hstays e he
        · exact hrestores e he
      refine ⟨?_, fun ht => ⟨hl.directory_eq ht, rfl⟩⟩
      rintro ⟨e, he, hm⟩
      exact absurd hm (hall e he)

theorem InShell.alone_of_exit {code : Status} (h : InShell stage ctx t (.ok (.exit code)) ctx')
    (hp : p.stages = [stage]) : p.Alone "exit" t ∧ ctx' = ctx := by
  generalize hr : (Except.ok (Outcome.exit code) : Except ShellError Outcome) = result at h
  cases h with
  | refused _ => cases hr
  | unopened _ _ _ _ => cases hr
  | ran hnul hopened hb _ =>
    cases hr
    obtain ⟨_, _, _, -, -, hne, -⟩ | ⟨rfl, -, hexit⟩ := runs_runBuiltin hb
    · cases hne
    · obtain ⟨args, hargs, -⟩ := hexit code rfl
      exact ⟨⟨stage, _, _, _, hp, by simp [Stage.program?, hargs], hasNul_of_nulWord? hnul, rfl,
        hopened⟩, rfl⟩

/-- Starting a pipeline moves the directory and the copy of it together, by a lone `cd` that is
carried out, or moves neither. -/
theorem startPipeline_directory (h : Runs (startPipeline p ctx) t (started, p', ctx'))
    (hl : Leads DirectoryStep dir t dir') :
    ((∃ e ∈ t, e.Moves) → p.Alone "cd" t ∧ started = .ok (.finished (.status 0)) ∧
      ctx' = { ctx with cwd := dir' }) ∧
    ((∀ e ∈ t, ¬ e.Moves) → dir' = dir ∧ ctx' = ctx) := by
  obtain ⟨stage, result, hp, hs, rfl, rfl⟩ | ⟨hs, rfl⟩ := runs_startPipeline h
  · obtain ⟨hmoves, hstays⟩ := (runs_runInShell hs).directory hp hl
    refine ⟨fun ht => ?_, hstays⟩
    obtain ⟨halone, rfl, hctx⟩ := hmoves ht
    exact ⟨halone, rfl, hctx⟩
  · have hstays := (within_startProcesses ctx' p).stays (by decide) hs
    refine ⟨?_, fun ht => ⟨hl.directory_eq ht, rfl⟩⟩
    rintro ⟨e, he, hm⟩
    exact absurd hm (hstays e he)

theorem startPipeline_alone {code : Status}
    (h : Runs (startPipeline p ctx) t (.ok (.finished (.exit code)), p', ctx')) :
    p.Alone "exit" t ∧ ctx' = ctx := by
  obtain ⟨stage, result, hp, hs, hr, -⟩ | ⟨hs, -⟩ := runs_startPipeline h
  · have hresult : result = .ok (.exit code) := by
      cases result with
      | error e => simp [Except.map] at hr
      | ok outcome => simpa [Except.map] using hr.symm
    subst hresult
    exact (runs_runInShell hs).alone_of_exit hp
  · exact absurd rfl ((startProcesses_join hs).2 _)

/-- No process of a pipeline with several stages runs a built-in for the shell. -/
theorem startPipeline_several (h : Runs (startPipeline p ctx) t (started, p', ctx'))
    (hp : p.stages.length ≠ 1) : (∀ e ∈ t, e.request.topic ≠ .directory) ∧ ctx' = ctx ∧
      ∀ outcome, started ≠ .ok (.finished outcome) := by
  obtain ⟨stage, result, hstages, -⟩ | ⟨hs, rfl⟩ := runs_startPipeline h
  · rw [hstages] at hp
    exact absurd rfl hp
  · refine ⟨fun e he htopic => ?_, rfl, (startProcesses_join hs).2⟩
    have hwithin := (within_startProcesses ctx' p).events hs e he
    rw [htopic] at hwithin
    exact absurd hwithin (by decide)

/-- A lone built-in with a redirection that cannot be opened does not run. -/
theorem startPipeline_unopened {t₁ t₂ : List Event} {e : SetupError} {saved : List SavedFd}
    (h : Runs (startPipeline p ctx) (t₁ ++ t₂) (started, p', ctx')) (hp : p.stages = [stage])
    (hb : stage.isBuiltin = true)
    (hopened : Runs (redirectShell [] stage.redirections) t₁ (.error e, saved)) :
    (∀ e ∈ t₁ ++ t₂, ¬ e.Moves) ∧ ctx' = ctx ∧ started = .ok (.finished (.status e.status)) := by
  have hshell : ∃ result, InShell stage ctx (t₁ ++ t₂) result ctx' ∧
      started = result.map .finished := by
    simp only [startPipeline, hp, hb, ↓reduceIte, bind_eq, pure_eq] at h
    obtain ⟨u, v, ⟨result, ctx₁⟩, heq, hs, hd⟩ := runs_bind.mp h
    obtain ⟨rfl, he⟩ := runs_done.mp hd
    simp only [Prod.mk.injEq] at he
    obtain ⟨rfl, -, rfl⟩ := he
    rw [List.append_nil] at heq
    exact ⟨result, heq ▸ runs_runInShell hs, rfl⟩
  obtain ⟨result, hs, rfl⟩ := hshell
  generalize hu : t₁ ++ t₂ = u at hs
  cases hs with
  | refused hnul =>
    -- without any exchange no redirection can have failed
    obtain ⟨rfl, -⟩ := List.append_eq_nil_iff.mp hu
    cases hr : stage.redirections with
    | nil =>
      rw [hr] at hopened
      cases hopened
    | cons r rs =>
      rw [hr] at hopened
      cases hopened
  | unopened hnul hopened' hrestored hw =>
    obtain ⟨rfl, he⟩ := hopened.prefix_unique hopened' hu
    simp only [Prod.mk.injEq, Except.error.injEq] at he
    obtain ⟨rfl, rfl⟩ := he
    refine ⟨?_, rfl, rfl⟩
    intro e' he'
    simp only [List.mem_append] at he'
    obtain he' | he' | he' := he'
    · exact (within_redirectShell [] _).stays (by decide) hopened e' he'
    · exact (within_restoreShell saved).stays (by decide) hrestored e' he'
    · exact (within_printText _).stays (by decide) hw e' he'
  | ran hnul hopened' _ _ =>
    obtain ⟨-, he⟩ := hopened.prefix_unique hopened' hu
    cases he

/-- The directory and the copy of it are moved together, by a lone `cd` that is carried out, or
neither of them is moved. -/
structure MovesTogether (p : Pipeline) (ctx : Context) (dir : Path) (t : List Event)
    (ctx' : Context) (dir' : Path) : Prop where
  moved : (∃ e ∈ t, e.Moves) → p.Alone "cd" t ∧ ctx'.cwd = dir'
  stayed : (∀ e ∈ t, ¬ e.Moves) → dir' = dir ∧ ctx'.cwd = ctx.cwd

theorem MovesTogether.of_stays {u : List Event} (ht : ∀ e ∈ t, ¬ e.Moves) (hu : ∀ e ∈ u, ¬ e.Moves)
    (hl : Leads DirectoryStep dir (t ++ u) dir') (hcwd : ctx'.cwd = ctx.cwd) :
    MovesTogether p ctx dir (t ++ u) ctx' dir' where
  moved := by
    rintro ⟨e, he, hm⟩
    obtain he | he := List.mem_append.mp he
    · exact absurd hm (ht e he)
    · exact absurd hm (hu e he)
  stayed := fun hall => ⟨hl.directory_eq hall, hcwd⟩

theorem MovesTogether.cwd_eq (h : MovesTogether p ctx dir t ctx' dir') (hc : ctx.cwd = dir) :
    ctx'.cwd = dir' := by
  by_cases hm : ∃ e ∈ t, e.Moves
  · exact (h.moved hm).2
  · obtain ⟨rfl, hcwd⟩ := h.stayed (by simpa using hm)
    rw [hcwd, hc]

theorem runForeground_cwd {pgid : Pid} {interrupted : Bool}
    (h : Runs (runForeground p pgid ctx) t (interrupted, p', ctx')) : ctx'.cwd = ctx.cwd := by
  obtain ⟨_, _, _, _, _, _, _, _, -, hl, -, hb, -, -, -, rfl⟩ := runs_runForeground h
  obtain ⟨terminal, rfl⟩ := lend_takeBack_frame hl hb
  rfl

theorem movesTogether_startPipeline (h : Runs (startPipeline p ctx) t (started, p', ctx'))
    (hl : Leads DirectoryStep dir t dir') : MovesTogether p ctx dir t ctx' dir' := by
  obtain ⟨hmoves, hstays⟩ := startPipeline_directory h hl
  refine ⟨fun hm => ?_, fun ht => ?_⟩
  · obtain ⟨halone, -, rfl⟩ := hmoves hm
    exact ⟨halone, rfl⟩
  · obtain ⟨rfl, rfl⟩ := hstays ht
    exact ⟨rfl, rfl⟩

/-- A pipeline that is reached moves both or neither, in the background as well. -/
theorem TurnsOut.directory {ending : Ending} (h : TurnsOut p ctx t ending ctx')
    (hl : Leads DirectoryStep dir t dir') : MovesTogether p ctx dir t ctx' dir' := by
  have hset (ctx : Context) (s : Status) : (ctx.setStatus p s).cwd = ctx.cwd := by
    unfold Context.setStatus
    split <;> rfl
  -- what has started processes, or has failed, is no `cd` that was carried out
  have hnocd {t u : List Event} {started : Except ShellError Started} {p₁ : Pipeline}
      {out : Context} (hs : Runs (startPipeline p ctx) t (started, p₁, out))
      (hl : Leads DirectoryStep dir (t ++ u) dir')
      (hne : started ≠ .ok (.finished (.status 0))) : (∀ e ∈ t, ¬ e.Moves) ∧ out = ctx := by
    obtain ⟨dir₁, hl₁, -⟩ := leads_append.mp hl
    obtain ⟨hmoves, hstays⟩ := startPipeline_directory hs hl₁
    have ht : ∀ e ∈ t, ¬ e.Moves := fun e he hm => hne (hmoves ⟨e, he, hm⟩).2.1
    exact ⟨ht, (hstays ht).2⟩
  cases h with
  | exit hs => exact movesTogether_startPipeline hs hl
  | builtin hs =>
    have hboth := movesTogether_startPipeline hs hl
    exact ⟨fun hm => ⟨(hboth.moved hm).1, (hset _ _).trans (hboth.moved hm).2⟩,
      fun ht => ⟨(hboth.stayed ht).1, (hset _ _).trans (hboth.stayed ht).2⟩⟩
  | detached hs hb hd =>
    obtain ⟨ht, rfl⟩ := hnocd hs hl (by simp)
    have hu := (within_detach _ _ _).stays (by decide) hd
    obtain ⟨-, rfl⟩ := runs_detach hd
    exact .of_stays ht hu hl rfl
  | waited hs hb hf _ =>
    obtain ⟨ht, rfl⟩ := hnocd hs hl (by simp)
    have hu := (within_runForeground _ _ _).stays (by decide) hf
    exact .of_stays ht hu hl (runForeground_cwd hf)
  | interrupted hs hb hf _ =>
    obtain ⟨ht, rfl⟩ := hnocd hs hl (by simp)
    have hu := (within_runForeground _ _ _).stays (by decide) hf
    exact .of_stays ht hu hl (runForeground_cwd hf)
  | @failed t u v _ _ _ _ hs hc hw =>
    obtain ⟨ht, rfl⟩ := hnocd hs hl (by simp)
    have huv : ∀ e ∈ u ++ v, ¬ e.Moves := by
      intro e he
      obtain he | he := List.mem_append.mp he
      · exact (within_printText _).stays (by decide) hc e he
      · exact (within_waitStages _).stays (by decide) hw e he
    exact .of_stays ht huv hl (hset _ _)

theorem Proceeds.directory {before : Option Join} {ps : CommandList} {log : List Turn} {flow : Flow}
    (h : Proceeds before ctx ps t log flow ctx') (hl : Leads DirectoryStep dir t dir')
    (hc : ctx.cwd = dir) : ctx'.cwd = dir' ∧ ∀ turn ∈ log, ∃ dir₁ dir₂,
      Leads DirectoryStep dir₁ turn.trace dir₂ ∧ turn.before.cwd = dir₁ ∧
        turn.after.cwd = dir₂ := by
  have hattempt {reached : Prop} {status : Option Status} {p : Pipeline} {ctx ctx' : Context}
      {t : List Event} {log : List Turn} {standing : Standing} {dir dir' : Path}
      (h : Attempts reached status p ctx t log standing ctx') (hl : Leads DirectoryStep dir t dir')
      (hc : ctx.cwd = dir) : ctx'.cwd = dir' ∧ ∀ turn ∈ log, ∃ dir₁ dir₂,
        Leads DirectoryStep dir₁ turn.trace dir₂ ∧ turn.before.cwd = dir₁ ∧
          turn.after.cwd = dir₂ := by
    have hasked (arrived : Bool) {dir₁ : Path} (hs : DirectoryStep dir (inquiry arrived) dir₁) :
        dir₁ = dir := hs
    cases h with
    | dropped =>
      obtain ⟨dir₁, hs, hl⟩ := leads_cons.mp hl
      obtain rfl := leads_nil.mp hl
      exact ⟨hc.trans (hasked true hs).symm, by simp⟩
    | skipped _ =>
      obtain ⟨dir₁, hs, hl⟩ := leads_cons.mp hl
      obtain rfl := leads_nil.mp hl
      exact ⟨hc.trans (hasked false hs).symm, by simp⟩
    | ran _ hturn =>
      obtain ⟨dir₁, hs, hrest⟩ := leads_cons.mp hl
      obtain rfl := hasked false hs
      have hcwd := (hturn.directory hrest).cwd_eq hc
      refine ⟨hcwd, fun turn ht => ?_⟩
      obtain rfl := List.mem_singleton.mp ht
      exact ⟨_, _, hrest, hc, hcwd⟩
  induction h generalizing dir with
  | nil =>
    obtain rfl := leads_nil.mp hl
    exact ⟨hc, by simp⟩
  | cut h => exact hattempt h hl hc
  | next h _ ih =>
    obtain ⟨dir₁, hl₁, hl₂⟩ := leads_append.mp hl
    obtain ⟨hc₁, hlog⟩ := hattempt h hl₁ hc
    obtain ⟨hc₂, hlog'⟩ := ih hl₂ hc₁
    refine ⟨hc₂, fun turn ht => ?_⟩
    obtain ht | ht := List.mem_append.mp ht
    · exact hlog turn ht
    · exact hlog' turn ht

end

section

variable {ctx ctx' : Context} {dir dir' : Path} {t : List Event}

theorem reap_cwd (h : Runs ctx.reap t ctx') (hl : Leads DirectoryStep dir t dir')
    (hc : ctx.cwd = dir) : ctx'.cwd = dir' := by
  have hdir := (within_reap ctx).directory_eq (by decide) h hl
  have hcwd : ctx'.cwd = ctx.cwd := by
    simp only [Context.reap, bind_eq, pure_eq, runs_bind] at h
    obtain ⟨_, _, ⟨finished, jobs⟩, -, -, h⟩ := h
    split at h
    · obtain ⟨_, _, _, -, -, h⟩ := runs_bind.mp h
      rw [(runs_done.mp h).2]
    · rw [(runs_done.mp h).2]
  rw [hcwd, hc, hdir]

/-- After a line, and after each of its pipelines, the copy is the directory if it was before. -/
theorem Evaluation.directory {line : String} {x : Exchanges} {log : List Turn} {flow : Flow}
    (h : Evaluation line ctx x log flow ctx') (hl : Leads DirectoryStep dir x.all dir')
    (hc : ctx.cwd = dir) : ctx'.cwd = dir' ∧ ∀ turn ∈ log, ∃ dir₁ dir₂,
      Leads DirectoryStep dir₁ turn.trace dir₂ ∧ turn.before.cwd = dir₁ ∧
        turn.after.cwd = dir₂ := by
  cases h with
  | intro hreap hperform hreap' =>
    obtain ⟨dir₁, hs, hrest⟩ := leads_cons.mp hl
    obtain rfl : dir₁ = dir := hs
    obtain ⟨dir₂, hl₁, hrest⟩ := leads_append.mp hrest
    obtain ⟨dir₃, hl₂, hl₃⟩ := leads_append.mp hrest
    have hc₁ := reap_cwd hreap hl₁ hc
    cases hperform with
    | list _ h =>
      obtain ⟨hc₂, hlog⟩ := h.directory hl₂ hc₁
      exact ⟨reap_cwd hreap' hl₃ hc₂, hlog⟩
    | refused _ hw =>
      obtain rfl := (within_printText _).directory_eq (by decide) hw hl₂
      exact ⟨reap_cwd hreap' hl₃ hc₁, by simp⟩

theorem evaluateAll_cwd {lines : List String} (h : Runs (evaluateAll lines ctx) t ctx')
    (hl : Leads DirectoryStep dir t dir') (hc : ctx.cwd = dir) : ctx'.cwd = dir' := by
  induction lines generalizing ctx t dir with
  | nil =>
    obtain ⟨rfl, rfl⟩ := runs_done.mp h
    rw [hc, leads_nil.mp hl]
  | cons line lines ih =>
    simp only [evaluateAll, bind_eq, runs_bind] at h
    obtain ⟨t₁, t₂, ⟨flow, ctx₁⟩, rfl, hline, hrest⟩ := h
    obtain ⟨dir₁, hl₁, hl₂⟩ := leads_append.mp hl
    obtain ⟨x, log, rfl, heval⟩ := runs_evaluate.mp hline
    exact ih hrest hl₂ (heval.directory hl₁ hc).1

/-- A shell that has started knows its directory. -/
theorem startShell_cwd {options : Options} {environment : Environment} {home : Option Path}
    (h : Runs (startShell options environment home) t ctx) (hl : Leads DirectoryStep dir t dir') :
    ctx.cwd = dir' := by
  obtain ⟨_, _, cwd, opened, _, _, t₂, rfl, -, -, hcharged, rfl⟩ := runs_startShell h
  rw [← List.cons_append] at hl
  obtain ⟨dir₁, -, hasked⟩ := leads_append.mp hl
  obtain ⟨dir₂, htold, hrest⟩ := leads_cons.mp hasked
  obtain ⟨rfl, rfl⟩ := htold
  exact ((within_takeCharge opened).directory_eq (by decide) hcharged hrest).symm

end

end JobShell
