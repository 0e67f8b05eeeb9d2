import JobShell.Proofs.AndOr
import JobShell.Proofs.Grammar
import JobShell.Proofs.Pipelines
import JobShell.Shell

/-!
The children of a whole session, that is of any lines evaluated one after another. After each
line every child that was ever started is collected or listed by exactly one job, and every
job that was ever made is still in the table or was handed out by exactly one reap.
-/
namespace JobShell

open Program Ledger
open JobTable (tags)

/-- Evaluates line after line. -/
def evaluateAll : List String → Context → Program Context
  | [], ctx => return ctx
  | line :: lines, ctx => do
    let (_, ctx) ← ctx.evaluate line
    evaluateAll lines ctx

theorem allows_other {l : Ledger} {r : Request} (h : ¬ r.OnChildren) : Allows l r :=
  (show AllowsNew [] l r from allowsNew_other h).allows

theorem pids_of_unstarted {p : Pipeline} (h : ∀ s ∈ p.stages, s.pid = none) : p.pids = [] := by
  unfold Pipeline.pids
  rw [List.filterMap_eq_nil_iff]
  exact h

/-- No pipeline that a line spells has been started before it is run. -/
theorem unstarted_of_parse {line : String} {list : CommandList} (h : parse line = .ok list) :
    ∀ p ∈ list, p.pids = [] := by
  intro p hp
  have hne : list ≠ [] := List.ne_nil_of_mem hp
  exact pids_of_unstarted ((wellFormed_of_build hne h).1.pipelines p hp).unstarted

theorem ensures_runAfter {ps : List Pipeline} (hps : ∀ p ∈ ps, p.pids = [])
    (before : Option Join) {ctx : Context} {l : Ledger} (h : Accounted ctx.jobs l) :
    Ensures Step Allows l (runAfter before ctx ps) fun l' r => Accounted r.2.jobs l' := by
  induction ps generalizing before ctx l with
  | nil => exact ensures_done h
  | cons p ps ih =>
    have hrest : ∀ p ∈ ps, p.pids = [] := fun q hq => hps q (List.mem_cons_of_mem p hq)
    have hask : Idle (ask (.hasArrived Signal.sigint)) := asks_ask.mpr id
    refine hask.ensures_bind (fun _ => allows_other) ?_
    intro arrived _ _
    cases arrived with
    | true => exact ensures_done h
    | false =>
      simp only [Bool.false_eq_true, ↓reduceIte]
      split
      · have hrun := (ensures_runReached h (hps p List.mem_cons_self)).allow
          fun _ _ => AllowsNew.allows
        refine Ensures.bind (hrun.mono ?_)
        rintro l₁ ⟨verdict, ctx₁⟩ ⟨hacc, -⟩
        cases verdict with
        | next => exact ih hrest (some p.join) hacc
        | abandon => exact ensures_done hacc
        | exit code => exact ensures_done hacc
      · exact ih hrest (some p.join) h

theorem ensures_perform {ctx : Context} {l : Ledger} (h : Accounted ctx.jobs l) (line : String) :
    Ensures Step Allows l (ctx.perform line) fun l' r => Accounted r.2.jobs l' := by
  unfold Context.perform
  split
  · exact ensures_done h
  · rename_i list hlist
    exact ensures_runAfter (unstarted_of_parse hlist) none h
  · refine ((within_printText _).idle (by decide)).ensures_bind (fun _ => allows_other) ?_
    intro _ _ _
    exact ensures_done h

theorem ensures_evaluate {ctx : Context} {l : Ledger} (h : Accounted ctx.jobs l) (line : String) :
    Ensures Step Allows l (ctx.evaluate line) fun l' r => Accounted r.2.jobs l' := by
  have hforget : Idle (ask (.forget Signal.sigint)) := asks_ask.mpr id
  have hreap {ctx : Context} {l : Ledger} (h : Accounted ctx.jobs l) :=
    (ensures_contextReap h).allow fun _ _ => AllowsPolling.allows
  refine hforget.ensures_bind (fun _ => allows_other) ?_
  intro _ _ _
  refine Ensures.bind ((hreap h).mono ?_)
  intro l₁ ctx₁ h₁
  refine Ensures.bind ((ensures_perform h₁ line).mono ?_)
  rintro l₂ ⟨flow, ctx₂⟩ h₂
  refine Ensures.bind ((hreap h₂).mono ?_)
  intro l₃ ctx₃ h₃
  exact ensures_done h₃

theorem ensures_evaluateAll {ctx : Context} {l : Ledger} (h : Accounted ctx.jobs l)
    (lines : List String) :
    Ensures Step Allows l (evaluateAll lines ctx) fun l' ctx' => Accounted ctx'.jobs l' := by
  induction lines generalizing ctx l with
  | nil => exact ensures_done h
  | cons line lines ih =>
    refine Ensures.bind ((ensures_evaluate h line).mono ?_)
    rintro l₁ ⟨flow, ctx₁⟩ h₁
    exact ih h₁

/-- What matters to the children and the jobs in a session. -/
inductive Deed where
  /-- A pipeline was run. It started the processes `new` and was seen to stop in `seen`, and
  its job, if any, has the number `id`. -/
  | ran (p : Pipeline) (new seen : List Pid) (id : Nat)
  /-- The jobs were reaped, and those in `finished` were handed out. -/
  | reaped (finished : List Job)

/-- The job that was made, under its id. -/
def Deed.made : Deed → List Job
  | ran p new seen id => (p.job? id new seen).toList
  | reaped _ => []

def Deed.handedOut : Deed → List Job
  | ran _ _ _ _ => []
  | reaped finished => finished

/-- The events consist of these deeds, with idle events around them, and the account is kept
by each of them. -/
inductive Chronicle : JobTable → Ledger → List Event → List Deed → JobTable → Ledger → Prop
  | nil {jobs : JobTable} {l : Ledger} : Chronicle jobs l [] [] jobs l
  | idle {jobs jobs' : JobTable} {l l' : Ledger} {e : Event} {t : List Event}
      {deeds : List Deed} : ¬ e.request.OnChildren → Chronicle jobs l t deeds jobs' l' →
      Chronicle jobs l (e :: t) deeds jobs' l'
  | ran {p : Pipeline} {ctx ctx₁ : Context} {verdict : Verdict} {new seen : List Pid}
      {jobs' : JobTable} {l l₁ l' : Ledger} {t u : List Event} {deeds : List Deed} :
      Runs (runReached p ctx) t (verdict, ctx₁) → Leads Step l t l₁ →
      p.Ran ctx.jobs l new seen ctx₁.jobs l₁ → Accounted ctx₁.jobs l₁ →
      Chronicle ctx₁.jobs l₁ u deeds jobs' l' →
      Chronicle ctx.jobs l (t ++ u) (.ran p new seen ctx.jobs.freeId :: deeds) jobs' l'
  | reaped {jobs jobs₁ jobs' : JobTable} {finished : List Job} {l l₁ l' : Ledger}
      {t u : List Event} {deeds : List Deed} :
      Runs jobs.reap t (finished, jobs₁) → Leads Step l t l₁ →
      jobs.Reaped l finished jobs₁ l₁ → Accounted jobs₁ l₁ →
      Chronicle jobs₁ l₁ u deeds jobs' l' →
      Chronicle jobs l (t ++ u) (.reaped finished :: deeds) jobs' l'

theorem Chronicle.append {jobs jobs₁ jobs' : JobTable} {l l₁ l' : Ledger} {t u : List Event}
    {deeds deeds' : List Deed} (h : Chronicle jobs l t deeds jobs₁ l₁)
    (h' : Chronicle jobs₁ l₁ u deeds' jobs' l') :
    Chronicle jobs l (t ++ u) (deeds ++ deeds') jobs' l' := by
  induction h with
  | nil => exact h'
  | idle he _ ih => exact .idle he (ih h')
  | ran hrun hl hran hacc _ ih =>
    rw [List.append_assoc]
    exact .ran hrun hl hran hacc (ih h')
  | reaped hrun hl hreaped hacc _ ih =>
    rw [List.append_assoc]
    exact .reaped hrun hl hreaped hacc (ih h')

/-- What an idle program does is no deed. -/
theorem Idle.chronicle {α : Type} {p : Program α} {t : List Event} {a : α} {jobs : JobTable}
    {l l' : Ledger} (h : Idle p) (hrun : Runs p t a) (hl : Leads Step l t l') :
    l' = l ∧ Chronicle jobs l t [] jobs l := by
  have hevents := h.events hrun
  clear hrun
  induction t with
  | nil => exact ⟨leads_nil.mp hl, .nil⟩
  | cons e t ih =>
    simp only [List.mem_cons, forall_eq_or_imp] at hevents
    rw [leads_cons] at hl
    obtain ⟨l₁, hs, hl⟩ := hl
    obtain rfl := step_other hevents.1 hs
    obtain ⟨rfl, hrest⟩ := ih hl hevents.2
    exact ⟨rfl, .idle hevents.1 hrest⟩

/-- Every job that there was or that was made is still there or was handed out, by one reap
and not by two. -/
theorem Chronicle.conserved {jobs jobs' : JobTable} {l l' : Ledger} {t : List Event}
    {deeds : List Deed} (h : Chronicle jobs l t deeds jobs' l') (hacc : Accounted jobs l) :
    (tags (deeds.flatMap Deed.handedOut) ++ tags jobs'.values).Perm
      (tags jobs.values ++ tags (deeds.flatMap Deed.made)) := by
  induction h with
  | nil => simp [tags]
  | idle _ _ ih => exact ih hacc
  | @ran p ctx ctx₁ _ new seen jobs' l _ _ _ _ deeds _ _ hran hacc₁ _ ih =>
    have hadd : ctx₁.jobs.values.Perm
        ((Deed.ran p new seen ctx.jobs.freeId).made ++ ctx.jobs.values) := by
      rw [hran.job]
      simp only [Deed.made]
      cases hjob : p.job? ctx.jobs.freeId new seen with
      | none => exact List.Perm.refl _
      | some job => exact JobTable.insert_perm (p.job?_id hjob)
    have htags := JobTable.tags_perm (hadd.trans List.perm_append_comm)
    rw [JobTable.tags_append] at htags
    refine (ih hacc₁).trans ?_
    rw [List.flatMap_cons, JobTable.tags_append, ← List.append_assoc]
    exact htags.append_right _
  | @reaped jobs jobs₁ jobs' finished _ _ _ _ _ deeds _ _ hreaped hacc₁ _ ih =>
    rw [List.flatMap_cons, JobTable.tags_append, List.append_assoc]
    refine ((ih hacc₁).append_left _).trans ?_
    rw [← List.append_assoc]
    exact hreaped.split.append_right _

theorem not_onChildren_inquiry (arrived : Bool) : ¬ (inquiry arrived).request.OnChildren := id

/-- What comes up with one pipeline is one deed if it is reached, and none otherwise. -/
theorem Attempts.chronicle {reached : Prop} {status : Option Status} {p : Pipeline}
    {ctx ctx' : Context} {t : List Event} {log : List Turn} {standing : Standing} {l l' : Ledger}
    (h : Attempts reached status p ctx t log standing ctx') (hl : Leads Step l t l')
    (hacc : Accounted ctx.jobs l) (hp : p.pids = []) :
    Accounted ctx'.jobs l' ∧ ∃ deeds, Chronicle ctx.jobs l t deeds ctx'.jobs l' := by
  have hinquiry {arrived : Bool} {l₁ : Ledger} (hs : Step l (inquiry arrived) l₁) : l₁ = l :=
    step_other (not_onChildren_inquiry arrived) hs
  cases h with
  | dropped =>
    obtain ⟨l₁, hs, hl⟩ := leads_cons.mp hl
    obtain rfl := leads_nil.mp hl
    obtain rfl := hinquiry hs
    exact ⟨hacc, [], .idle (not_onChildren_inquiry true) .nil⟩
  | skipped _ =>
    obtain ⟨l₁, hs, hl⟩ := leads_cons.mp hl
    obtain rfl := leads_nil.mp hl
    obtain rfl := hinquiry hs
    exact ⟨hacc, [], .idle (not_onChildren_inquiry false) .nil⟩
  | @ran t ending _ _ hturn =>
    rw [leads_cons] at hl
    obtain ⟨l₁, hs, hl⟩ := hl
    obtain rfl := hinquiry hs
    have hrun := runs_runReached.mpr ⟨ending, hturn, rfl⟩
    obtain ⟨hacc', new, seen, hran⟩ := (ensures_runReached hacc hp).ends hrun hl
    have hdeed := Chronicle.ran hrun hl hran hacc' .nil
    rw [List.append_nil] at hdeed
    exact ⟨hacc', _, .idle (not_onChildren_inquiry false) hdeed⟩

theorem chronicle_runAfter {ps : List Pipeline} (hps : ∀ p ∈ ps, p.pids = [])
    {before : Option Join} {ctx ctx' : Context} {t : List Event} {flow : Flow} {l l' : Ledger}
    (h : Runs (runAfter before ctx ps) t (flow, ctx')) (hl : Leads Step l t l')
    (hacc : Accounted ctx.jobs l) : ∃ deeds, Chronicle ctx.jobs l t deeds ctx'.jobs l' := by
  induction ps generalizing before ctx t l with
  | nil =>
    obtain ⟨rfl, rfl, rfl⟩ := runs_done_pair.mp h
    obtain rfl := leads_nil.mp hl
    exact ⟨[], .nil⟩
  | cons p ps ih =>
    have hp := hps p List.mem_cons_self
    have hrest : ∀ p ∈ ps, p.pids = [] := fun q hq => hps q (List.mem_cons_of_mem p hq)
    obtain ⟨log, h⟩ | ⟨t₁, t₂, log, status', ctx₁, rfl, h, hafter⟩ :=
      (runs_runAfter_cons none).mp h
    · exact (h.chronicle hl hacc hp).2
    · obtain ⟨l₁, hl₁, hl₂⟩ := leads_append.mp hl
      obtain ⟨hacc₁, deeds, hfirst⟩ := h.chronicle hl₁ hacc hp
      obtain ⟨deeds', hthen⟩ := ih hrest hafter hl₂ hacc₁
      exact ⟨_, hfirst.append hthen⟩

theorem chronicle_perform {ctx ctx' : Context} {line : String} {t : List Event} {flow : Flow}
    {l l' : Ledger} (h : Runs (ctx.perform line) t (flow, ctx')) (hl : Leads Step l t l')
    (hacc : Accounted ctx.jobs l) : ∃ deeds, Chronicle ctx.jobs l t deeds ctx'.jobs l' := by
  unfold Context.perform at h
  split at h
  · obtain ⟨rfl, rfl, rfl⟩ := runs_done_pair.mp h
    obtain rfl := leads_nil.mp hl
    exact ⟨[], .nil⟩
  · rename_i list hlist
    exact chronicle_runAfter (unstarted_of_parse hlist) h hl hacc
  · simp only [bind_eq, pure_eq, runs_bind] at h
    obtain ⟨t₁, _, _, rfl, hw, h⟩ := h
    obtain ⟨rfl, rfl, rfl⟩ := runs_done_pair.mp h
    rw [List.append_nil] at hl ⊢
    obtain ⟨rfl, hidle⟩ := ((within_printText _).idle (by decide)).chronicle hw hl
    exact ⟨[], hidle⟩

theorem chronicle_reap {ctx ctx' : Context} {t : List Event} {l l' : Ledger}
    (h : Runs ctx.reap t ctx') (hl : Leads Step l t l') (hacc : Accounted ctx.jobs l) :
    ∃ deeds, Chronicle ctx.jobs l t deeds ctx'.jobs l' := by
  simp only [Context.reap, bind_eq, pure_eq, runs_bind] at h
  obtain ⟨t₁, t₂, ⟨finished, jobs⟩, rfl, hreap, h⟩ := h
  obtain ⟨l₁, hl₁, hl₂⟩ := leads_append.mp hl
  obtain ⟨hacc₁, hreaped⟩ := (ensures_reap hacc).ends hreap hl₁
  have hannounced : l' = l₁ ∧ ctx'.jobs = jobs ∧ Chronicle jobs l₁ t₂ [] jobs l₁ := by
    split at h
    · obtain ⟨u, _, _, rfl, hdone, h⟩ := runs_bind.mp h
      obtain ⟨rfl, rfl⟩ := runs_done.mp h
      rw [List.append_nil] at hl₂ ⊢
      obtain ⟨rfl, hidle⟩ := ((within_announceDone finished).idle (by decide)).chronicle hdone hl₂
      exact ⟨rfl, rfl, hidle⟩
    · obtain ⟨rfl, rfl⟩ := runs_done.mp h
      exact ⟨leads_nil.mp hl₂, rfl, .nil⟩
  obtain ⟨rfl, hjobs, hidle⟩ := hannounced
  rw [hjobs]
  exact ⟨_, .reaped hreap hl₁ hreaped hacc₁ hidle⟩

theorem chronicle_evaluate {ctx ctx' : Context} {line : String} {t : List Event} {flow : Flow}
    {l l' : Ledger} (h : Runs (ctx.evaluate line) t (flow, ctx')) (hl : Leads Step l t l')
    (hacc : Accounted ctx.jobs l) : ∃ deeds, Chronicle ctx.jobs l t deeds ctx'.jobs l' := by
  simp only [Context.evaluate, bind_eq, pure_eq, runs_bind] at h
  obtain ⟨t₁, _, _, rfl, hforget, t₂, _, ctx₁, rfl, hreap, t₃, _, ⟨_, ctx₂⟩, rfl, hperform, t₄, _,
    ctx₃, rfl, hreap', h⟩ := h
  obtain ⟨rfl, rfl, rfl⟩ := runs_done_pair.mp h
  rw [List.append_nil] at hl ⊢
  obtain ⟨l₁, hl₁, hl⟩ := leads_append.mp hl
  obtain ⟨l₂, hl₂, hl⟩ := leads_append.mp hl
  obtain ⟨l₃, hl₃, hl₄⟩ := leads_append.mp hl
  have hidle : Idle (ask (.forget Signal.sigint)) := asks_ask.mpr id
  obtain ⟨rfl, h₁⟩ := hidle.chronicle hforget hl₁
  have hacc₂ := (ensures_contextReap hacc).ends hreap hl₂
  have hacc₃ := (ensures_perform hacc₂ line).ends hperform hl₃
  obtain ⟨deeds₂, h₂⟩ := chronicle_reap hreap hl₂ hacc
  obtain ⟨deeds₃, h₃⟩ := chronicle_perform hperform hl₃ hacc₂
  obtain ⟨deeds₄, h₄⟩ := chronicle_reap hreap' hl₄ hacc₃
  exact ⟨_, h₁.append (h₂.append (h₃.append h₄))⟩

theorem chronicle_evaluateAll {ctx ctx' : Context} {lines : List String} {t : List Event}
    {l l' : Ledger} (h : Runs (evaluateAll lines ctx) t ctx') (hl : Leads Step l t l')
    (hacc : Accounted ctx.jobs l) : ∃ deeds, Chronicle ctx.jobs l t deeds ctx'.jobs l' := by
  induction lines generalizing ctx t l with
  | nil =>
    obtain ⟨rfl, rfl⟩ := runs_done.mp h
    obtain rfl := leads_nil.mp hl
    exact ⟨[], .nil⟩
  | cons line lines ih =>
    simp only [evaluateAll, bind_eq, runs_bind] at h
    obtain ⟨t₁, t₂, ⟨flow, ctx₁⟩, rfl, hline, hrest⟩ := h
    obtain ⟨l₁, hl₁, hl₂⟩ := leads_append.mp hl
    have hacc₁ := (ensures_evaluate hacc line).ends hline hl₁
    obtain ⟨deeds₁, h₁⟩ := chronicle_evaluate hline hl₁ hacc
    obtain ⟨deeds₂, h₂⟩ := ih hrest hl₂ hacc₁
    exact ⟨_, h₁.append h₂⟩

/-- In any session from the first line on, every child that was started is collected or listed
by exactly one job, once, after each line, and every job lists one; no wait is ever for a child
that is collected. Every job that was made is in the table or was handed out by exactly one
reap. Wherever the account is in order, reaping does not block, and a pipeline waits for none
but its own children and leaves no job but the one that it has to leave. -/
theorem children_accounted (ctx : Context) (lines : List String) :
    (Ensures Step Allows {} (evaluateAll lines { ctx with jobs := {} }) fun l ctx' =>
      l.started.Perm (l.collected ++ ctx'.jobs.listed) ∧ ctx'.jobs.listed.Nodup ∧
        ∀ job ∈ ctx'.jobs.values, job.pids ≠ []) ∧
    (∀ t l ctx', Runs (evaluateAll lines { ctx with jobs := {} }) t ctx' → Leads Step {} t l →
      ∃ deeds, Chronicle {} {} t deeds ctx'.jobs l ∧
        (tags (deeds.flatMap Deed.handedOut) ++ tags ctx'.jobs.values).Perm
          (tags (deeds.flatMap Deed.made))) ∧
    ∀ ctx l, Accounted ctx.jobs l →
      (Ensures Step AllowsPolling l ctx.jobs.reap fun l' r =>
        Accounted r.2 l' ∧ ctx.jobs.Reaped l r.1 r.2 l') ∧
      ∀ p : Pipeline, p.pids = [] →
        Ensures Step (AllowsNew l.uncollected) l (runReached p ctx) fun l' r =>
          Accounted r.2.jobs l' ∧ ∃ new seen, p.Ran ctx.jobs l new seen r.2.jobs l' := by
  have hempty : Accounted (({ ctx with jobs := {} } : Context).jobs) {} :=
    ⟨sound_empty, by simp [Numbered.values], List.Perm.refl _⟩
  refine ⟨(ensures_evaluateAll hempty lines).mono ?_, ?_, ?_⟩
  · intro l ctx' h
    refine ⟨h.sound.conserved.trans (h.listed.append_left l.collected), ?_, h.nonempty⟩
    exact h.listed.nodup_iff.mp h.sound.nodup
  · intro t l ctx' hrun hl
    obtain ⟨deeds, h⟩ := chronicle_evaluateAll hrun hl hempty
    exact ⟨deeds, h, h.conserved hempty⟩
  · intro ctx l h
    exact ⟨ensures_reap h, fun p hp => ensures_runReached h hp⟩

/-- The job of `a&`, with one process. -/
def aloneJob : Job := { id := 1, group := 7, pids := [7], state := .running, text := "a" }

def aloneContext : Context := { plainContext with jobs := .ofJobs [aloneJob] (by simp) }

def aloneProcess : Program Empty := stageProcess 0 { argv := ["a"] } [] none plainContext

/-- The process is started, and it is still alive behind the line. -/
def startEvents : List Event :=
  [.call (.forget 2) (), .call (.hasArrived 2) false, .fork aloneProcess (.ok 7),
    .call (.setGroup 7 7) (.ok ()), .call (.wait 7 { noHang := true }) (.ok .stillAlive)]

/-- It is collected before an empty line. -/
def collectEvents : List Event :=
  [.call (.forget 2) (), .call (.wait 7 { noHang := true }) (.ok (.exited 0))]

theorem runs_startEvents :
    Runs (plainContext.evaluate "a&") startEvents (.continue, aloneContext) := by
  have htokens : tokens "a&" = [⟨.word, "a"⟩, ⟨.background, "&"⟩] := by
    have hword : Token.scan "a&".toList = some (⟨.word, "a"⟩, ['&']) := rfl
    have hand : Token.scan ['&'] = some (⟨.background, "&"⟩, []) := rfl
    rw [tokens, Token.scanAll_of_some hword, Token.scanAll_of_some hand, Token.scanAll_of_none rfl]
  have hparse : parse "a&" = .ok [{ stages := [{ argv := ["a"] }], join := .background }] := by
    simp only [parse, htokens, build, buildFrom, buildFrom.close]
    rfl
  have hline : Runs (plainContext.perform "a&")
      [.call (.hasArrived 2) false, .fork aloneProcess (.ok 7), .call (.setGroup 7 7) (.ok ())]
      (.continue, aloneContext) := by
    unfold Context.perform
    rw [hparse]
    refine .call false (.fork (.ok 7) ?_)
    refine Steps.call (Except.ok ()) ?_
    exact .refl _
  refine runs_bind.mpr ⟨[_], _, (), rfl, runs_ask.mpr rfl, ?_⟩
  refine runs_bind.mpr ⟨[], _, plainContext, rfl, .refl _, ?_⟩
  refine runs_bind.mpr ⟨_, [_], (.continue, aloneContext), rfl, hline, ?_⟩
  refine Steps.call (Except.ok WaitStatus.stillAlive) ?_
  exact .refl _

theorem runs_collectEvents :
    Runs (aloneContext.evaluate "") collectEvents (.continue, plainContext) := by
  have hblank : parse "" = .ok [] := by
    have hnothing : tokens "" = [] := Token.scanAll_of_none rfl
    simp only [parse, hnothing, build, buildFrom]
    rfl
  have hline : Runs (plainContext.perform "") [] (.continue, plainContext) := by
    unfold Context.perform
    rw [hblank]
    exact .refl _
  refine runs_bind.mpr ⟨[_], _, (), rfl, runs_ask.mpr rfl, ?_⟩
  refine runs_bind.mpr ⟨[_], [], plainContext, rfl, ?_, ?_⟩
  · refine Steps.call (Except.ok (WaitStatus.exited 0)) ?_
    exact .refl _
  · exact runs_bind.mpr ⟨[], [], (.continue, plainContext), rfl, hline, .refl _⟩

theorem leads_alone : Leads Step {} (startEvents ++ collectEvents)
    { started := [7], collected := [7] } := by
  refine .cons (.other id) (.cons (.other id) (.cons (.started (by simp)) ?_))
  refine .cons (.other id) (.cons (.alive (by simp) rfl) (.cons (.other id) ?_))
  exact .cons (.collected (by simp) rfl) .nil

/-- The process of a background job is still alive after the first line and collected before
the second, which then hands the job out. -/
theorem background_job_reaped :
    Runs (evaluateAll ["a&", ""] plainContext) (startEvents ++ collectEvents) plainContext ∧
      Leads Step {} (startEvents ++ collectEvents) { started := [7], collected := [7] } ∧
      ∃ deeds, Chronicle {} {} (startEvents ++ collectEvents) deeds {}
          { started := [7], collected := [7] } ∧
        (tags (deeds.flatMap Deed.handedOut)).Perm (tags (deeds.flatMap Deed.made)) := by
  have hrun : Runs (evaluateAll ["a&", ""] plainContext) (startEvents ++ collectEvents)
      plainContext :=
    runs_bind.mpr ⟨_, _, _, rfl, runs_startEvents,
      runs_bind.mpr ⟨_, [], _, rfl, runs_collectEvents, .refl _⟩⟩
  obtain ⟨deeds, h, hp⟩ :=
    (children_accounted plainContext ["a&", ""]).2.1 _ _ plainContext hrun leads_alone
  have htable : tags plainContext.jobs.values = [] := rfl
  rw [htable, List.append_nil] at hp
  exact ⟨hrun, leads_alone, deeds, h, hp⟩

end JobShell
