import JobShell.Proofs.Cut
import JobShell.Proofs.Indifference
import JobShell.Proofs.Line
import JobShell.Proofs.Reaping
import JobShell.Proofs.Requests

/-!
A semicolon between two commands means the same as a line break. A list that is put together of
two is worked off as the first and then, unless that has ended the shell, the second, since
behind a semicolon as at the start of a line every pipeline is reached; and the reaping that a
second line brings finds nothing, as long as no process of a job ends.
-/
namespace JobShell

open Program

/-- No interrupt is seen, neither by the shell nor as the end of a stage in the foreground. -/
def Calm (t : List Event) (log : List Turn) : Prop :=
  inquiry true ∉ t ∧ ∀ turn ∈ log, ∀ status, turn.ending ≠ .interrupted status

/-- The turn without the join of its pipeline. -/
def Turn.unjoined (turn : Turn) : Turn :=
  { turn with pipeline := { turn.pipeline with join := .none } }

theorem calm_append {t u : List Event} {log log' : List Turn} :
    Calm (t ++ u) (log ++ log') ↔ Calm t log ∧ Calm u log' := by
  simp only [Calm, List.mem_append, not_or, or_imp, forall_and]
  constructor
  · rintro ⟨⟨ht, hu⟩, hlog, hlog'⟩
    exact ⟨⟨ht, hlog⟩, hu, hlog'⟩
  · rintro ⟨⟨ht, hlog⟩, hu, hlog'⟩
    exact ⟨⟨ht, hu⟩, hlog, hlog'⟩

theorem Calm.of_unjoined {t : List Event} {log log' : List Turn} (h : Calm t log)
    (hmap : log'.map Turn.unjoined = log.map Turn.unjoined) : Calm t log' := by
  refine ⟨h.1, fun turn ht status hs => ?_⟩
  have hmem : turn.unjoined ∈ log.map Turn.unjoined := hmap ▸ List.mem_map_of_mem ht
  obtain ⟨turn', ht', heq⟩ := List.mem_map.mp hmem
  have hending : turn'.unjoined.ending = turn.unjoined.ending := congrArg Turn.ending heq
  exact h.2 turn' ht' status (hending.trans hs)

theorem Attempts.exit_of_calm {reached : Prop} {status : Option Status} {p : Pipeline}
    {ctx ctx' : Context} {t : List Event} {log : List Turn} {flow : Flow}
    (h : Attempts reached status p ctx t log (.cut flow) ctx') (hc : Calm t log) :
    ∃ code, flow = .exit code := by
  generalize hg : Standing.cut flow = standing at h
  cases h with
  | dropped => exact absurd List.mem_cons_self hc.1
  | skipped _ => cases hg
  | @ran t ending _ _ hturn =>
    cases ending with
    | status s => cases hg
    | background => cases hg
    | interrupted s => exact absurd rfl (hc.2 _ List.mem_cons_self s)
    | exit code =>
      cases hg
      exact ⟨code, rfl⟩

/-- Without interrupts a list either ends the shell with one of its first pipelines, whatever
stands behind them, or goes on behind them. -/
theorem Proceeds.split {before : Option Join} {ctx ctx' : Context} {ps qs : CommandList}
    {t : List Event} {log : List Turn} {flow : Flow}
    (h : Proceeds before ctx (ps ++ qs) t log flow ctx') (hc : Calm t log) :
    (∃ code, flow = .exit code ∧ ∀ qs', Proceeds before ctx (ps ++ qs') t log flow ctx') ∨
      ∃ t₁ t₂ log₁ log₂ after ctx₁, t = t₁ ++ t₂ ∧ log = log₁ ++ log₂ ∧
        Passes before ctx ps t₁ log₁ after ctx₁ ∧ Proceeds after ctx₁ qs t₂ log₂ flow ctx' := by
  induction ps generalizing before ctx t log with
  | nil => exact .inr ⟨[], t, [], log, before, ctx, rfl, rfl, .nil, h⟩
  | cons p ps ih =>
    cases h with
    | cut h =>
      obtain ⟨code, hflow⟩ := h.exit_of_calm hc
      exact .inl ⟨code, hflow, fun qs' => .cut h⟩
    | next h hrest =>
      obtain ⟨hc₁, hc₂⟩ := calm_append.mp hc
      obtain ⟨code, hflow, hall⟩ | ⟨t₁, t₂, log₁, log₂, after, ctx₁, rfl, rfl, hpass, hthen⟩ :=
        ih hrest hc₂
      · exact .inl ⟨code, hflow, fun qs' => .next h (hall qs')⟩
      · exact .inr ⟨_, t₂, _, log₂, after, ctx₁, (List.append_assoc ..).symm,
          (List.append_assoc ..).symm, .next h hpass, hthen⟩

theorem Passes.after_concat {before after : Option Join} {ctx ctx' : Context} {init : CommandList}
    {p : Pipeline} {t : List Event} {log : List Turn}
    (h : Passes before ctx (init ++ [p]) t log after ctx') : after = some p.join := by
  induction init generalizing before ctx t log with
  | nil =>
    cases h with
    | next h hrest =>
      cases hrest
      rfl
  | cons q init ih =>
    cases h with
    | next h hrest => exact ih hrest

theorem Proceeds.behind {before before' : Option Join} {ctx ctx' : Context} {ps : CommandList}
    {t : List Event} {log : List Turn} {flow : Flow}
    (hreach : ∀ status, reachable before status = reachable before' status)
    (h : Proceeds before ctx ps t log flow ctx') : Proceeds before' ctx ps t log flow ctx' := by
  cases h with
  | nil => exact .nil
  | cut h => exact .cut (h.congr (by rw [hreach]))
  | next h hrest => exact .next (h.congr (by rw [hreach])) hrest

theorem TurnsOut.withJoin {p : Pipeline} {ctx ctx' : Context} {t : List Event} {ending : Ending}
    {join : Join} (hp : p.isBackground = false) (hj : join ≠ .background)
    (h : TurnsOut p ctx t ending ctx') : TurnsOut { p with join } ctx t ending ctx' := by
  have hrun := runs_runReached.mpr ⟨ending, h, rfl⟩
  rw [← runReached_withJoin ctx hp hj] at hrun
  refine h.transfer hrun ?_ fun _ _ => rfl
  rw [hp]
  simpa [Pipeline.isBackground] using hj

theorem Attempts.withJoin {reached : Prop} {status : Option Status} {p : Pipeline}
    {ctx ctx' : Context} {t : List Event} {log : List Turn} {standing : Standing} {join : Join}
    (hp : p.isBackground = false) (hj : join ≠ .background)
    (h : Attempts reached status p ctx t log standing ctx') :
    ∃ log', log'.map Turn.unjoined = log.map Turn.unjoined ∧
      Attempts reached status { p with join } ctx t log' standing ctx' := by
  cases h with
  | dropped => exact ⟨[], rfl, .dropped⟩
  | skipped hr => exact ⟨[], rfl, .skipped hr⟩
  | ran hr hturn =>
    refine ⟨_, ?_, .ran hr (hturn.withJoin hp hj)⟩
    rfl

/-- How the last pipeline of a list ends does not matter, as long as it is not in the
background. -/
theorem Proceeds.withJoin {before : Option Join} {ctx ctx' : Context} {init : CommandList}
    {p : Pipeline} {t : List Event} {log : List Turn} {flow : Flow}
    (join : Join) (hp : p.isBackground = false) (hj : join ≠ .background)
    (h : Proceeds before ctx (init ++ [p]) t log flow ctx') :
    ∃ log', log'.map Turn.unjoined = log.map Turn.unjoined ∧
      Proceeds before ctx (init ++ [{ p with join }]) t log' flow ctx' := by
  induction init generalizing before ctx t log with
  | nil =>
    cases h with
    | cut h =>
      obtain ⟨log', hmap, h⟩ := h.withJoin hp hj
      exact ⟨log', hmap, .cut h⟩
    | next h hrest =>
      obtain ⟨log', hmap, h⟩ := h.withJoin hp hj
      cases hrest
      exact ⟨log' ++ [], by simpa using hmap, .next h .nil⟩
  | cons q init ih =>
    cases h with
    | cut h => exact ⟨log, rfl, .cut h⟩
    | next h hrest =>
      obtain ⟨log', hmap, hrest⟩ := ih hrest
      exact ⟨_, by simp [hmap], .next h hrest⟩

/-- What the list of the longer line does, the lists of the two lines do one after the other. -/
theorem proceeds_semicolon {ctx ctx' : Context} {init : CommandList} {p : Pipeline}
    {t : List Event} {log : List Turn} {flow : Flow} (lb : CommandList) (hp : p.join = .none)
    (hc : Calm t log) :
    (∃ log', log'.map Turn.unjoined = log.map Turn.unjoined ∧
      Proceeds none ctx (init ++ { p with join := .sequence } :: lb) t log' flow ctx') ↔
    (∃ code log', flow = .exit code ∧ log'.map Turn.unjoined = log.map Turn.unjoined ∧
      Proceeds none ctx (init ++ [p]) t log' flow ctx') ∨
    ∃ t₁ t₂ log₁ log₂ ctx₁, t = t₁ ++ t₂ ∧
      (log₁ ++ log₂).map Turn.unjoined = log.map Turn.unjoined ∧
      Proceeds none ctx (init ++ [p]) t₁ log₁ .continue ctx₁ ∧
      Proceeds none ctx₁ lb t₂ log₂ flow ctx' := by
  have hback : p.isBackground = false := by simp [Pipeline.isBackground, hp]
  let p' : Pipeline := { p with join := .sequence }
  have hback' : p'.isBackground = false := rfl
  have hsame : { p' with join := .none } = p := by rw [← hp]
  have hlist : init ++ p' :: lb = init ++ [p'] ++ lb := by simp
  have hreach (status : Status) : reachable (some p'.join) status = reachable none status := rfl
  rw [hlist]
  constructor
  · rintro ⟨log', hmap, h⟩
    obtain ⟨code, rfl, hall⟩ | ⟨t₁, t₂, log₁, log₂, after, ctx₁, rfl, rfl, hpass, hrest⟩ :=
      h.split (hc.of_unjoined hmap)
    · have hfirst := hall []
      rw [List.append_nil] at hfirst
      obtain ⟨log'', hmap', hfirst⟩ := hfirst.withJoin .none hback' (by simp)
      rw [hsame] at hfirst
      exact .inl ⟨code, log'', rfl, hmap'.trans hmap, hfirst⟩
    · have hfirst := hpass.proceeds .nil
      simp only [List.append_nil] at hfirst
      obtain ⟨log₁', hmap', hfirst⟩ := hfirst.withJoin .none hback' (by simp)
      rw [hsame] at hfirst
      rw [hpass.after_concat] at hrest
      refine .inr ⟨t₁, t₂, log₁', log₂, ctx₁, rfl, ?_, hfirst, hrest.behind hreach⟩
      rw [← hmap, List.map_append, List.map_append, hmap']
  · rintro (⟨code, log', rfl, hmap, h⟩ | ⟨t₁, t₂, log₁, log₂, ctx₁, rfl, hmap, h, hrest⟩)
    · obtain ⟨log'', hmap', h⟩ := h.withJoin .sequence hback (by simp)
      have hmap := hmap'.trans hmap
      refine ⟨log'', hmap, ?_⟩
      have h : Proceeds none ctx (init ++ [p'] ++ []) t log'' (.exit code) ctx' := by simpa using h
      obtain ⟨_, -, hall⟩ | ⟨_, _, _, _, _, _, _, _, _, hrest⟩ := h.split (hc.of_unjoined hmap)
      · exact hall lb
      · cases hrest
    · obtain ⟨log₁', hmap', h⟩ := h.withJoin .sequence hback (by simp)
      have hmap : (log₁' ++ log₂).map Turn.unjoined = log.map Turn.unjoined := by
        rw [← hmap, List.map_append, List.map_append, hmap']
      refine ⟨log₁' ++ log₂, hmap, ?_⟩
      have h : Proceeds none ctx (init ++ [p'] ++ []) t₁ log₁' .continue ctx₁ := by simpa using h
      have hcalm := (calm_append.mp (hc.of_unjoined hmap)).1
      obtain ⟨_, hflow, -⟩ | ⟨_, _, _, _, _, _, rfl, rfl, hpass, hnil⟩ := h.split hcalm
      · cases hflow
      · cases hnil
        simp only [List.append_nil]
        rw [hpass.after_concat] at hpass
        exact hpass.proceeds (hrest.behind fun status => (hreach status).symm)

/-- One evaluation in which no interrupt is seen and which reaches these pipelines, whatever
their joins are. -/
structure Undisturbed (line : String) (ctx : Context) (x : Exchanges) (log : List Turn)
    (flow : Flow) (ctx' : Context) : Prop where
  runs : Runs (ctx.evaluate line) x.all (flow, ctx')
  calm : Calm x.running log
  reaches : ∃ log', log'.map Turn.unjoined = log.map Turn.unjoined ∧
    Evaluation line ctx x log' flow ctx'

theorem undisturbed_iff {line : String} {ctx ctx' : Context} {x : Exchanges} {log : List Turn}
    {flow : Flow} {list : CommandList} (hl : parse line = .ok list) :
    Undisturbed line ctx x log flow ctx' ↔ Calm x.running log ∧ ∃ ctx₁ ctx₂,
      Runs ctx.reap x.reaping ctx₁ ∧
      (∃ log', log'.map Turn.unjoined = log.map Turn.unjoined ∧
        Proceeds none ctx₁ list x.running log' flow ctx₂) ∧
      Runs ctx₂.reap x.reapingAgain ctx' := by
  constructor
  · rintro ⟨-, hc, log', hmap, hreap, hperform, hreap'⟩
    cases hperform with
    | list hlist h =>
      cases hl.symm.trans hlist
      exact ⟨hc, _, _, hreap, ⟨log', hmap, h⟩, hreap'⟩
    | refused hcause => cases hl.symm.trans hcause
  · rintro ⟨hc, ctx₁, ctx₂, hreap, ⟨log', hmap, h⟩, hreap'⟩
    have heval : Evaluation line ctx x log' flow ctx' := .intro hreap (.list hl h) hreap'
    exact ⟨runs_evaluate.mpr ⟨x, log', rfl, heval⟩, hc, log', hmap, heval⟩

/-- A semicolon between two commands means the same as a line break. The line `a;b` has the list
of `a`, but for its last join, followed by that of `b`. Where no interrupt is seen, its evaluations
are those of `a` alone if it ends the shell, and otherwise those of `a` and then of `b`, in
between which no process that a job lists is found to have ended: with the same exchanges, those
for reaping in between apart, the same pipelines reached, the same outcome and the same context
at the end. -/
theorem evaluate_semicolon {a b : String} {init lb : CommandList} {p : Pipeline}
    (ha : EndsPlain a) (hla : parse a = .ok (init ++ [p])) (hp : p.join = .none)
    (hlb : parse b = .ok lb) (hne : lb ≠ []) :
    parse (a ++ ";" ++ b) = .ok (init ++ { p with join := .sequence } :: lb) ∧
    ∀ (ctx : Context) (x : Exchanges) (log : List Turn) (flow : Flow) (ctx' : Context),
      Undisturbed (a ++ ";" ++ b) ctx x log flow ctx' ↔
        (∃ code, flow = .exit code ∧ Undisturbed a ctx x log flow ctx') ∨
        ∃ y z log₁ log₂ mid, log = log₁ ++ log₂ ∧ x.reaping = y.reaping ∧
          x.running = y.running ++ z.running ∧ x.reapingAgain = z.reapingAgain ∧
          Quiet y.reapingAgain ∧ Quiet z.reaping ∧
          Undisturbed a ctx y log₁ .continue mid ∧ Undisturbed b mid z log₂ flow ctx' := by
  have hparse := parse_semicolon ha hla hp hlb hne
  refine ⟨hparse, fun ctx x log flow ctx' => ?_⟩
  rw [undisturbed_iff hparse, undisturbed_iff hla]
  constructor
  · rintro ⟨hc, ctx₁, ctx₂, hreap, h, hreap'⟩
    obtain ⟨code, log', rfl, hmap, h⟩ | ⟨t₁, t₂, log₁, log₂, mid, ht, hmap, h₁, h₂⟩ :=
      (proceeds_semicolon lb hp hc).mp h
    · exact .inl ⟨code, rfl, hc, ctx₁, ctx₂, hreap, ⟨log', hmap, h⟩, hreap'⟩
    · have hm := h₁.manned (manned_of_reap hreap)
      obtain ⟨u, hu, hquiet⟩ := exists_reap_quiet hm
      rw [List.map_append] at hmap
      obtain ⟨log₁', log₂', rfl, hmap₁, hmap₂⟩ := List.map_eq_append_iff.mp hmap.symm
      rw [ht] at hc
      obtain ⟨hc₁, hc₂⟩ := calm_append.mp hc
      refine .inr ⟨⟨x.reaping, t₁, u⟩, ⟨u, t₂, x.reapingAgain⟩, log₁', log₂', mid, rfl, rfl, ht,
        rfl, hu, hu, ?_, ?_⟩
      · exact (undisturbed_iff hla).mpr
          ⟨hc₁, ctx₁, mid, hreap, ⟨log₁, hmap₁.symm, h₁⟩, hquiet⟩
      · exact (undisturbed_iff hlb).mpr
          ⟨hc₂, mid, ctx₂, hquiet, ⟨log₂, hmap₂.symm, h₂⟩, hreap'⟩
  · rintro (⟨code, rfl, hc, ctx₁, ctx₂, hreap, ⟨log', hmap, h⟩, hreap'⟩ |
      ⟨y, z, log₁, log₂, mid, rfl, hx, ht, hx', hquiet, hquiet', h₁, h₂⟩)
    · have hboth := (proceeds_semicolon lb hp hc).mpr (.inl ⟨code, log', rfl, hmap, h⟩)
      exact ⟨hc, ctx₁, ctx₂, hreap, hboth, hreap'⟩
    · obtain ⟨hc₁, ctx₁, ctx₂, hreap₁, ⟨log₁', hmap₁, hfirst⟩, hreap₁'⟩ :=
        (undisturbed_iff hla).mp h₁
      obtain ⟨hc₂, ctx₃, ctx₄, hreap₂, ⟨log₂', hmap₂, hsecond⟩, hreap₂'⟩ :=
        (undisturbed_iff hlb).mp h₂
      -- between the two lines nothing changes
      have hm := hfirst.manned (manned_of_reap hreap₁)
      obtain rfl := runs_reap_quiet hm hquiet hreap₁'
      obtain rfl := runs_reap_quiet hm hquiet' hreap₂
      have hc : Calm x.running (log₁ ++ log₂) := by
        rw [ht]
        exact calm_append.mpr ⟨hc₁, hc₂⟩
      have hmap : (log₁' ++ log₂').map Turn.unjoined = (log₁ ++ log₂).map Turn.unjoined := by
        rw [List.map_append, List.map_append, hmap₁, hmap₂]
      have hboth := (proceeds_semicolon lb hp hc).mpr
        (.inr ⟨_, _, log₁', log₂', _, ht, hmap, hfirst, hsecond⟩)
      rw [← hx] at hreap₁
      rw [← hx'] at hreap₂'
      exact ⟨hc, ctx₁, ctx₄, hreap₁, hboth, hreap₂'⟩

/-- A job with one process, which is alive. -/
def livingJob : Job := { id := 1, group := 7, pids := [7], state := .running, text := "a" }

def livingContext : Context := { plainContext with jobs := .ofJobs [livingJob] (by simp) }

def failedContext : Context := { livingContext with lastStatus := 1 }

def livingEvents : List Event := [.call (.wait 7 { noHang := true }) (.ok .stillAlive)]

def exitX : Pipeline := { stages := [{ argv := ["exit", "x"] }], join := .none }

def bareExit : Pipeline := { stages := [{ argv := ["exit"] }], join := .none }

/-- What `exit x` says. -/
def exitXSays : List Event :=
  written 2 (complaint (ShellError.builtin "exit: x: numeric argument required").message).toUTF8

theorem parse_exitX : parse "exit x" = .ok [exitX] := by
  have htokens : tokens "exit x" = [⟨.word, "exit"⟩, ⟨.word, "x"⟩] := by
    have hfirst : Token.scan "exit x".toList = some (⟨.word, "exit"⟩, [' ', 'x']) := by
      decide +kernel
    have hsecond : Token.scan [' ', 'x'] = some (⟨.word, "x"⟩, []) := rfl
    rw [tokens, Token.scanAll_of_some hfirst, Token.scanAll_of_some hsecond,
      Token.scanAll_of_none rfl]
  simp only [parse, htokens, build, buildFrom]
  rfl

theorem parse_bareExit : parse "exit" = .ok [bareExit] := parse_word (by decide +kernel)

theorem turnsOut_exitX : TurnsOut exitX livingContext exitXSays (.status 1) failedContext := by
  have hreport : Runs (runBuiltin ["exit", "x"] livingContext) exitXSays
      (.status 1, livingContext) := by
    refine runs_bind.mpr ⟨[], _, (.error _, livingContext), rfl, .refl _, ?_⟩
    exact runs_bind.mpr ⟨_, [], (), (List.append_nil _).symm, runs_printText_written 2 _, .refl _⟩
  have hshell : Runs (runInShell { argv := ["exit", "x"] } livingContext) exitXSays
      (.ok (.status 1), livingContext) := by
    refine runs_bind.mpr ⟨[], _, (.ok (), []), rfl, .refl _, ?_⟩
    exact runs_bind.mpr ⟨_, [], (_, _), (List.append_nil _).symm, hreport, .refl _⟩
  have hstart : Runs (startPipeline exitX livingContext) exitXSays
      (.ok (.finished (.status 1)), exitX, livingContext) :=
    runs_bind.mpr ⟨_, [], (_, _), (List.append_nil _).symm, hshell, .refl _⟩
  exact .builtin hstart

theorem turnsOut_bareExit : TurnsOut bareExit failedContext [] (.exit 0) failedContext :=
  .exit (show Runs (startPipeline bareExit failedContext) [] (_, bareExit, failedContext) from
    .refl _)

theorem runs_reap_living {ctx : Context} (hjobs : ctx.jobs = livingContext.jobs)
    (hi : ctx.interactive = false) : Runs ctx.reap livingEvents ctx := by
  obtain ⟨_, _, _, _, _, _⟩ := ctx
  subst hjobs hi
  exact .call (Except.ok WaitStatus.stillAlive) (.refl _)

theorem quiet_livingEvents : Quiet livingEvents := by
  simp [Quiet, livingEvents, Event.Keeps, decodeWait, stays, WaitStatus.isTerminated]

theorem undisturbed_exitX : Undisturbed "exit x" livingContext
    ⟨livingEvents, inquiry false :: exitXSays, livingEvents⟩
    [⟨exitX, livingContext, exitXSays, .status 1, failedContext⟩] .continue failedContext := by
  have hcalm : Calm (inquiry false :: exitXSays)
      [⟨exitX, livingContext, exitXSays, .status 1, failedContext⟩] := by
    refine ⟨?_, by simp⟩
    intro hmem
    obtain hmem | hmem := List.mem_cons.mp hmem
    · simp [inquiry] at hmem
    · have htopic := (writes_of_printText (runs_printText_written 2 _) _ hmem).topic_eq
      cases htopic
  refine (undisturbed_iff parse_exitX).mpr ⟨hcalm, livingContext, failedContext,
    runs_reap_living rfl rfl, ⟨_, rfl, ?_⟩, runs_reap_living rfl rfl⟩
  have hran : Attempts (reachable none livingContext.lastStatus = true) none exitX livingContext _ _
      (.goesOn (some 1)) failedContext := .ran rfl turnsOut_exitX
  exact .next hran .nil

theorem undisturbed_bareExit : Undisturbed "exit" failedContext
    ⟨livingEvents, [inquiry false], livingEvents⟩
    [⟨bareExit, failedContext, [], .exit 0, failedContext⟩] (.exit 0) failedContext := by
  have hcalm : Calm [inquiry false] [⟨bareExit, failedContext, [], .exit 0, failedContext⟩] := by
    constructor
    · simp [inquiry]
    · simp
  refine (undisturbed_iff parse_bareExit).mpr ⟨hcalm, failedContext, failedContext,
    runs_reap_living rfl rfl, ⟨_, rfl, ?_⟩, runs_reap_living rfl rfl⟩
  exact .cut (show Attempts _ none bareExit failedContext _ _ (.cut (.exit 0)) failedContext from
    .ran rfl turnsOut_bareExit)

/-- `exit x` fails and `exit` behind it ends the shell, with a process of a job alive all the
while: as two lines, and so as one. -/
theorem evaluate_semicolon_exit :
    parse "exit x;exit" = .ok [{ exitX with join := .sequence }, bareExit] ∧
    Runs (livingContext.evaluate "exit x;exit")
      (forgetting :: (livingEvents ++ (inquiry false :: exitXSays ++ [inquiry false] ++
        livingEvents))) (.exit 0, failedContext) := by
  obtain ⟨hparse, heval⟩ := evaluate_semicolon (by decide)
    (show parse "exit x" = .ok ([] ++ [exitX]) from parse_exitX) rfl parse_bareExit (by simp)
  have hboth := (heval livingContext
    ⟨livingEvents, inquiry false :: exitXSays ++ [inquiry false], livingEvents⟩ _ (.exit 0)
    failedContext).mpr (.inr ⟨⟨livingEvents, inquiry false :: exitXSays, livingEvents⟩,
      ⟨livingEvents, [inquiry false], livingEvents⟩, _, _, failedContext, rfl, rfl, rfl, rfl,
      quiet_livingEvents, quiet_livingEvents, undisturbed_exitX, undisturbed_bareExit⟩)
  exact ⟨hparse, hboth.runs⟩

end JobShell
