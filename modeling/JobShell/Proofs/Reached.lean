import JobShell.Controller
import JobShell.Proofs.Printing

/-!
What becomes of a pipeline that is reached, told by the parts that running it consists of:
starting its processes, waiting for them in the foreground, recording them as a job. From
each way it can turn out follow what the list goes on with and the last status.
-/
namespace JobShell

open Program

/-- How a pipeline that was reached has turned out. -/
inductive Ending where
  /-- It ended in the foreground with this status, or could not be started there. -/
  | status (status : Status)
  /-- SIGINT killed one of its stages in the foreground. -/
  | interrupted (status : Status)
  /-- It was to run in the background, whether it could be started or not. -/
  | background
  /-- It was the built-in that ends the shell. -/
  | exit (code : Status)
  deriving DecidableEq, Repr

/-- The status that the pipeline leaves behind as the last one, if any. -/
def Ending.status? : Ending → Option Status
  | status s | interrupted s => some s
  | background | exit _ => none

def Ending.verdict : Ending → Verdict
  | status _ | background => .next
  | interrupted _ => .abandon
  | exit code => .exit code

/-- An ending with a status, if the pipeline is in the foreground. -/
def Pipeline.endsWith (p : Pipeline) (status : Status) : Ending :=
  if p.isBackground then .background else .status status

/-- The pipeline `p`, reached with `ctx`, makes these exchanges, turns out in this way and
leaves this context. -/
inductive TurnsOut (p : Pipeline) (ctx : Context) : List Event → Ending → Context → Prop
  | exit {t : List Event} {p' : Pipeline} {ctx' : Context} {code : Status} :
      Runs (startPipeline p ctx) t (.ok (.finished (.exit code)), p', ctx') →
      TurnsOut p ctx t (.exit code) ctx'
  | builtin {t : List Event} {p' : Pipeline} {ctx' : Context} {status : Status} :
      Runs (startPipeline p ctx) t (.ok (.finished (.status status)), p', ctx') →
      TurnsOut p ctx t (p.endsWith status) (ctx'.setStatus p status)
  | detached {t u : List Event} {p' : Pipeline} {ctx' ctx'' : Context} {pgid : Pid} :
      Runs (startPipeline p ctx) t (.ok (.group pgid), p', ctx') → p.isBackground = true →
      Runs (detach p' pgid ctx') u ctx'' → TurnsOut p ctx (t ++ u) .background ctx''
  | waited {t u : List Event} {p' p'' : Pipeline} {ctx' ctx'' : Context} {pgid : Pid}
      {status : Status} :
      Runs (startPipeline p ctx) t (.ok (.group pgid), p', ctx') → p.isBackground = false →
      Runs (runForeground p' pgid ctx') u (false, p'', ctx'') → p''.status = some status →
      TurnsOut p ctx (t ++ u) (.status status) ctx''
  | interrupted {t u : List Event} {p' p'' : Pipeline} {ctx' ctx'' : Context} {pgid : Pid}
      {status : Status} :
      Runs (startPipeline p ctx) t (.ok (.group pgid), p', ctx') → p.isBackground = false →
      Runs (runForeground p' pgid ctx') u (true, p'', ctx'') → p''.status = some status →
      TurnsOut p ctx (t ++ u) (.interrupted status) ctx''
  | failed {t u v : List Event} {p' : Pipeline} {ctx' : Context} {e : ShellError} {w : Waited} :
      Runs (startPipeline p ctx) t (.error e, p', ctx') → Runs (complain e.message) u () →
      Runs (waitStages p') v w →
      TurnsOut p ctx (t ++ (u ++ v)) (p.endsWith e.status) (ctx'.setStatus p e.status)

/-- The event moves the shell to another directory. -/
def Event.Moves : Event → Prop
  | .call (.changeDirectory _) (.ok ()) => True
  | _ => False

theorem runs_changeDir {path : Option String} {ctx ctx' : Context} {t : List Event}
    {result : Except ShellError Outcome} (h : Runs (changeDir path ctx) t (result, ctx')) :
    (∃ path' cwd, t = [.call (.changeDirectory path') (.ok ()), .call .workingDirectory cwd] ∧
      result = .ok (.status 0) ∧ ctx' = { ctx with cwd := cwd.toOption.getD path' }) ∨
    ctx' = ctx ∧ (∀ e ∈ t, ¬ e.Moves) ∧ ∃ e, result = .error e := by
  unfold changeDir at h
  dsimp only at h
  split at h
  · obtain ⟨rfl, rfl, rfl⟩ := runs_done_pair.mp h
    exact .inr ⟨rfl, by simp, _, rfl⟩
  · simp only [bind_eq, runs_bind, runs_ask] at h
    obtain ⟨_, t₂, changed, rfl, rfl, h⟩ := h
    cases changed with
    | error e =>
      obtain ⟨rfl, rfl, rfl⟩ := runs_done_pair.mp h
      exact .inr ⟨rfl, by simp [Event.Moves], _, rfl⟩
    | ok value =>
      simp only [runs_bind, runs_ask] at h
      obtain ⟨_, _, cwd, rfl, rfl, h⟩ := h
      obtain ⟨rfl, rfl, rfl⟩ := runs_done_pair.mp h
      exact .inl ⟨_, cwd, rfl, rfl, rfl⟩

/-- Either `cd` has moved the shell or the context is left alone. Only `exit` ends the shell. -/
theorem runs_runBuiltin {argv : List String} {ctx ctx' : Context} {t : List Event}
    {outcome : Outcome} (h : Runs (runBuiltin argv ctx) t (outcome, ctx')) :
    (∃ args path cwd, argv = "cd" :: args ∧
      t = [.call (.changeDirectory path) (.ok ()), .call .workingDirectory cwd] ∧
      outcome = .status 0 ∧ ctx' = { ctx with cwd := cwd.toOption.getD path }) ∨
    ctx' = ctx ∧ (∀ e ∈ t, ¬ e.Moves) ∧ ∀ code, outcome = .exit code →
      ∃ args, argv = "exit" :: args ∧ exitStatus args.head? = .ok (.exit code) := by
  simp only [runBuiltin, tryBuiltin, bind_eq, pure_eq, runs_bind] at h
  obtain ⟨t₁, t₂, ⟨result, ctx₁⟩, rfl, ht, h⟩ := h
  -- what follows the built-in only reports its failure
  have hreport : ctx' = ctx₁ ∧ (∀ e ∈ t₂, ¬ e.Moves) ∧
      (result = .ok outcome ∧ t₂ = [] ∨ ∀ code, outcome ≠ .exit code) := by
    cases result with
    | ok value =>
      obtain ⟨rfl, rfl, rfl⟩ := runs_done_pair.mp h
      exact ⟨rfl, by simp, .inl ⟨rfl, rfl⟩⟩
    | error e =>
      obtain ⟨_, _, _, rfl, hw, h⟩ := runs_bind.mp h
      obtain ⟨rfl, rfl, rfl⟩ := runs_done_pair.mp h
      refine ⟨rfl, fun e he => ?_, .inr (by simp)⟩
      obtain ⟨data, answer, rfl⟩ := writes_of_printText hw e (by simpa using he)
      exact id
  obtain ⟨rfl, hquiet, hresult⟩ := hreport
  split at ht
  · rename_i args
    obtain ⟨path, cwd, rfl, rfl, rfl⟩ | ⟨rfl, hstays, e, rfl⟩ := runs_changeDir ht
    · obtain ⟨rfl, rfl, -⟩ := runs_done_pair.mp h
      exact .inl ⟨args, path, cwd, rfl, by simp, rfl, rfl⟩
    · refine .inr ⟨rfl, ?_, fun code hcode => ?_⟩
      · intro e he
        exact (List.mem_append.mp he).elim (hstays e) (hquiet e)
      · obtain ⟨hc, -⟩ | hne := hresult
        · cases hc
        · exact absurd hcode (hne code)
  · rename_i args
    obtain ⟨rfl, rfl, rfl⟩ := runs_done_pair.mp ht
    refine .inr ⟨rfl, by simpa using hquiet, ?_⟩
    rintro code rfl
    obtain ⟨hc, -⟩ | hne := hresult
    · exact ⟨args, rfl, hc⟩
    · exact absurd rfl (hne code)
  · obtain ⟨rfl, rfl, rfl⟩ := runs_done_pair.mp ht
    refine .inr ⟨rfl, by simpa using hquiet, ?_⟩
    rintro code rfl
    obtain ⟨hc, -⟩ | hne := hresult
    · cases hc
    · exact absurd rfl (hne code)

/-- What becomes of a lone built-in in the shell. -/
inductive InShell (stage : Stage) (ctx : Context) :
    List Event → Except ShellError Outcome → Context → Prop
  | refused {word : String} : nulWord? [stage] = some word →
      InShell stage ctx [] (.error (.nulArgument word)) ctx
  | unopened {t u v : List Event} {e : SetupError} {saved : List SavedFd} :
      nulWord? [stage] = none → Runs (redirectShell [] stage.redirections) t (.error e, saved) →
      Runs (restoreShell saved) u () → Runs (complain e.message) v () →
      InShell stage ctx (t ++ (u ++ v)) (.ok (.status e.status)) ctx
  | ran {t u v : List Event} {saved : List SavedFd} {outcome : Outcome} {ctx' : Context} :
      nulWord? [stage] = none → Runs (redirectShell [] stage.redirections) t (.ok (), saved) →
      Runs (runBuiltin stage.argv ctx) u (outcome, ctx') → Runs (restoreShell saved) v () →
      InShell stage ctx (t ++ (u ++ v)) (.ok outcome) ctx'

theorem runs_runInShell {stage : Stage} {ctx ctx' : Context} {t : List Event}
    {result : Except ShellError Outcome} (h : Runs (runInShell stage ctx) t (result, ctx')) :
    InShell stage ctx t result ctx' := by
  unfold runInShell at h
  split at h
  · rename_i hnul
    obtain ⟨rfl, rfl, rfl⟩ := runs_done_pair.mp h
    exact .refused hnul
  · rename_i hnul
    simp only [bind_eq, pure_eq, runs_bind] at h
    obtain ⟨t₁, _, ⟨applied, saved⟩, rfl, hopened, h⟩ := h
    cases applied with
    | ok value =>
      simp only [runs_bind] at h
      obtain ⟨t₂, _, ⟨outcome, ctx₁⟩, rfl, hb, t₃, _, _, rfl, hrestored, h⟩ := h
      obtain ⟨rfl, rfl, rfl⟩ := runs_done_pair.mp h
      rw [List.append_nil]
      exact .ran hnul hopened hb hrestored
    | error e =>
      simp only [runs_bind] at h
      obtain ⟨t₂, _, _, rfl, hrestored, t₃, _, _, rfl, hw, h⟩ := h
      obtain ⟨rfl, rfl, rfl⟩ := runs_done_pair.mp h
      rw [List.append_nil]
      exact .unopened hnul hopened hrestored hw

/-- A built-in with a redirection that cannot be opened does not run: the descriptors are put
back, and the shell says why. -/
theorem steps_runInShell_unopened {stage : Stage} {t : List Event} {e : SetupError}
    {saved : List SavedFd} (hnul : nulWord? [stage] = none)
    (hopened : Runs (redirectShell [] stage.redirections) t (.error e, saved)) (ctx : Context) :
    Steps (runInShell stage ctx) t ((restoreShell saved).bind fun _ =>
      (complain e.message).bind fun _ => done (.ok (.status e.status), ctx)) := by
  simp only [runInShell, hnul]
  exact hopened.bind _

/-- A built-in whose redirections are all open runs with them, and then the descriptors are put
back. -/
theorem steps_runInShell_opened {stage : Stage} {t : List Event} {saved : List SavedFd}
    (hnul : nulWord? [stage] = none)
    (hopened : Runs (redirectShell [] stage.redirections) t (.ok (), saved)) (ctx : Context) :
    Steps (runInShell stage ctx) t ((runBuiltin stage.argv ctx).bind fun ran =>
      (restoreShell saved).bind fun _ => done (.ok ran.1, ran.2)) := by
  simp only [runInShell, hnul]
  exact hopened.bind _

theorem InShell.frame {stage : Stage} {ctx ctx' : Context} {t : List Event}
    {result : Except ShellError Outcome} (h : InShell stage ctx t result ctx') :
    (∃ cwd, ctx' = { ctx with cwd }) ∧ ∀ code, result = .ok (.exit code) →
      ∃ args, stage.argv = "exit" :: args ∧ exitStatus args.head? = .ok (.exit code) := by
  cases h with
  | refused _ => exact ⟨⟨ctx.cwd, rfl⟩, by simp⟩
  | unopened _ _ _ _ => exact ⟨⟨ctx.cwd, rfl⟩, by simp⟩
  | ran _ _ hb _ =>
    obtain ⟨_, _, _, -, -, rfl, rfl⟩ | ⟨rfl, -, hexit⟩ := runs_runBuiltin hb
    · exact ⟨⟨_, rfl⟩, by simp⟩
    · exact ⟨⟨_, rfl⟩, fun code hcode => hexit code (by simpa using hcode)⟩

theorem startProcesses_join {p p' : Pipeline} {ctx : Context} {t : List Event}
    {started : Except ShellError Started} (h : Runs (startProcesses p ctx) t (started, p')) :
    p'.join = p.join ∧ ∀ outcome, started ≠ .ok (.finished outcome) := by
  unfold startProcesses at h
  split at h
  · obtain ⟨-, he⟩ := runs_done.mp h
    simp_all
  · simp only [bind_eq, pure_eq, runs_bind] at h
    obtain ⟨_, _, made, _, _, h⟩ := h
    split at h
    · obtain ⟨-, he⟩ := runs_done.mp h
      simp_all
    · simp only [runs_bind] at h
      obtain ⟨_, _, ⟨result, group, stages⟩, _, _, _, _, _, _, _, h⟩ := h
      split at h <;> (obtain ⟨-, he⟩ := runs_done.mp h; simp_all)

/-- The group is founded by the first process. -/
theorem runs_startStages_founds {pipes : List PipeEnds} {ctx : Context} {index : Nat}
    {group group' : Option Pid} {stages stages' : List Stage} {t : List Event}
    {result : Except Errno Unit}
    (h : Runs (startStages pipes ctx index group stages) t (result, group', stages')) :
    group' = group ∨ group = none ∧ stages'.filterMap Stage.pid ≠ [] ∧
      ∃ pgid child, group' = some pgid ∧ .fork child (.ok pgid) ∈ t := by
  induction stages generalizing index group t stages' with
  | nil =>
    obtain ⟨-, he⟩ := runs_done.mp h
    simp_all
  | cons stage stages ih =>
    simp only [startStages, bind_eq, pure_eq, runs_bind, runs_start] at h
    obtain ⟨_, _, started, rfl, rfl, h⟩ := h
    cases started with
    | error e =>
      obtain ⟨-, he⟩ := runs_done.mp h
      simp_all
    | ok child =>
      simp only [runs_bind] at h
      obtain ⟨_, _, _, rfl, -, _, _, ⟨result₁, group₁, stages₁⟩, rfl, hrest, h⟩ := h
      obtain ⟨-, he⟩ := runs_done.mp h
      simp only [Prod.mk.injEq] at he
      obtain ⟨rfl, rfl, rfl⟩ := he
      obtain rfl | ⟨hnone, -⟩ := ih hrest
      · cases group with
        | some pgid => exact .inl rfl
        | none => exact .inr ⟨rfl, by simp, child, _, rfl, List.mem_cons_self⟩
      · cases hnone

theorem founded_of_group {p p' : Pipeline} {ctx : Context} {t : List Event} {pgid : Pid}
    (h : Runs (startProcesses p ctx) t (.ok (.group pgid), p')) :
    p'.pids ≠ [] ∧ ∃ child, .fork child (.ok pgid) ∈ t := by
  unfold startProcesses at h
  split at h
  · obtain ⟨-, he⟩ := runs_done.mp h
    simp at he
  · simp only [bind_eq, pure_eq, runs_bind] at h
    obtain ⟨_, _, made, rfl, -, h⟩ := h
    cases made with
    | error e =>
      obtain ⟨-, he⟩ := runs_done.mp h
      simp at he
    | ok pipes =>
      simp only [runs_bind] at h
      obtain ⟨_, _, ⟨result, group, stages⟩, rfl, hs, _, _, _, -, -, h⟩ := h
      obtain rfl | ⟨-, hpids, founder, child, rfl, hfork⟩ := runs_startStages_founds hs
      · cases result <;> (obtain ⟨-, he⟩ := runs_done.mp h; simp at he)
      · cases result with
        | error e =>
          obtain ⟨-, he⟩ := runs_done.mp h
          simp at he
        | ok value =>
          obtain ⟨-, he⟩ := runs_done.mp h
          simp only [Prod.mk.injEq, Except.ok.injEq, Started.group.injEq] at he
          obtain ⟨rfl, rfl⟩ := he
          exact ⟨hpids, child, by simp [hfork]⟩

/-- Either a lone built-in runs in the shell, or processes are started and the context is
left alone. -/
theorem runs_startPipeline {p p' : Pipeline} {ctx ctx' : Context} {t : List Event}
    {started : Except ShellError Started}
    (h : Runs (startPipeline p ctx) t (started, p', ctx')) :
    (∃ stage result, p.stages = [stage] ∧ Runs (runInShell stage ctx) t (result, ctx') ∧
      started = result.map .finished ∧ p' = p) ∨
    (Runs (startProcesses p ctx) t (started, p') ∧ ctx' = ctx) := by
  have hprocesses (h : Runs ((startProcesses p ctx).bind fun started =>
      done (started.1, started.2, ctx)) t (started, p', ctx')) :
      Runs (startProcesses p ctx) t (started, p') ∧ ctx' = ctx := by
    obtain ⟨t₁, _, ⟨started₁, p₁⟩, rfl, hs, h⟩ := runs_bind.mp h
    obtain ⟨rfl, he⟩ := runs_done.mp h
    simp only [Prod.mk.injEq] at he
    obtain ⟨rfl, rfl, rfl⟩ := he
    exact ⟨by simpa using hs, rfl⟩
  simp only [startPipeline, bind_eq, pure_eq] at h
  split at h
  · rename_i stage hstages
    split at h
    · obtain ⟨t₁, _, ⟨result, ctx₁⟩, rfl, hs, h⟩ := runs_bind.mp h
      obtain ⟨rfl, he⟩ := runs_done.mp h
      simp only [Prod.mk.injEq] at he
      obtain ⟨rfl, rfl, rfl⟩ := he
      exact .inl ⟨stage, result, hstages, by simpa using hs, rfl, rfl⟩
    · exact .inr (hprocesses h)
  · exact .inr (hprocesses h)

/-- Starting a pipeline keeps its join and changes at most the working directory. -/
theorem startPipeline_frame {p p' : Pipeline} {ctx ctx' : Context} {t : List Event}
    {started : Except ShellError Started}
    (h : Runs (startPipeline p ctx) t (started, p', ctx')) :
    p'.join = p.join ∧ ∃ cwd, ctx' = { ctx with cwd } := by
  obtain ⟨stage, result, -, hs, -, rfl⟩ | ⟨hs, rfl⟩ := runs_startPipeline h
  · exact ⟨rfl, (runs_runInShell hs).frame.1⟩
  · exact ⟨(startProcesses_join hs).1, ctx'.cwd, rfl⟩

theorem startPipeline_isBackground {p p' : Pipeline} {ctx ctx' : Context} {t : List Event}
    {started : Except ShellError Started}
    (h : Runs (startPipeline p ctx) t (started, p', ctx')) : p'.isBackground = p.isBackground := by
  unfold Pipeline.isBackground
  rw [(startPipeline_frame h).1]

/-- Only a lone `exit` with a number that can be read ends the shell. -/
theorem startPipeline_exit {p p' : Pipeline} {ctx ctx' : Context} {t : List Event} {code : Status}
    (h : Runs (startPipeline p ctx) t (.ok (.finished (.exit code)), p', ctx')) :
    ∃ stage args, p.stages = [stage] ∧ stage.argv = "exit" :: args ∧
      exitStatus args.head? = .ok (.exit code) := by
  obtain ⟨stage, result, hstages, hs, hr, -⟩ | ⟨hs, -⟩ := runs_startPipeline h
  · have hresult : result = .ok (.exit code) := by
      cases result with
      | error e => simp [Except.map] at hr
      | ok outcome => simpa [Except.map] using hr.symm
    obtain ⟨args, hargs, hexit⟩ := (runs_runInShell hs).frame.2 code hresult
    exact ⟨stage, args, hstages, hargs, hexit⟩
  · exact absurd rfl ((startProcesses_join hs).2 _)

/-- A notice is written to standard error, or there is none if the shell is not interactive. -/
def Notice (t : List Event) : Prop := ∀ e ∈ t, e.WritesTo 2

theorem runs_detach {p : Pipeline} {pgid : Pid} {ctx ctx' : Context} {t : List Event}
    (h : Runs (detach p pgid ctx) t ctx') :
    Notice t ∧ ctx' = { ctx with jobs := (ctx.jobs.add pgid p.pids .running p.text).2 } := by
  simp only [detach, bind_eq, pure_eq] at h
  split at h
  · obtain ⟨_, _, _, rfl, hw, h⟩ := runs_bind.mp h
    obtain ⟨rfl, rfl⟩ := runs_done.mp h
    exact ⟨by simpa [Notice] using writes_of_printText hw, rfl⟩
  · obtain ⟨rfl, rfl⟩ := runs_done.mp h
    exact ⟨by simp [Notice], rfl⟩

theorem runs_suspend {p : Pipeline} {pgid : Pid} {stopped : List Pid} {ctx ctx' : Context}
    {t : List Event} (h : Runs (suspend p pgid stopped ctx) t ctx') :
    Notice t ∧ ctx' = { ctx with jobs := (ctx.jobs.add pgid stopped .stopped p.text).2 } := by
  simp only [suspend, bind_eq, pure_eq] at h
  split at h
  · obtain ⟨_, _, _, rfl, hw, h⟩ := runs_bind.mp h
    obtain ⟨rfl, rfl⟩ := runs_done.mp h
    exact ⟨by simpa [Notice] using writes_of_printText hw, rfl⟩
  · obtain ⟨rfl, rfl⟩ := runs_done.mp h
    exact ⟨by simp [Notice], rfl⟩

/-- Lending the terminal changes at most the handle on it. It is handed over exactly if
the handle says so, and otherwise interrupts are passed on. -/
theorem runs_lend {pgid : Pid} {ctx ctx' : Context} {t : List Event} {handed : Bool}
    (h : Runs (lend pgid ctx) t (handed, ctx')) :
    ∃ t₁ t₂ result terminal, t = t₁ ++ t₂ ∧
      Runs (ctx.terminal.setForeground (some pgid)) t₁ (result, terminal) ∧
      ctx' = { ctx with terminal } ∧
      (handed = true ∧ result = .ok () ∧ t₂ = [] ∨
        handed = false ∧ (∃ e, result = .error e) ∧
          Runs (relayInterruptsTo (some pgid)) t₂ ()) := by
  simp only [lend, bind_eq, pure_eq, runs_bind] at h
  obtain ⟨t₁, t₂, ⟨result, terminal⟩, rfl, hs, h⟩ := h
  refine ⟨t₁, t₂, result, terminal, rfl, hs, ?_⟩
  cases result with
  | ok value =>
    obtain ⟨rfl, rfl, rfl⟩ := runs_done_pair.mp h
    exact ⟨rfl, .inl ⟨rfl, rfl, rfl⟩⟩
  | error e =>
    obtain ⟨_, _, _, rfl, hr, h⟩ := runs_bind.mp h
    obtain ⟨rfl, rfl, rfl⟩ := runs_done_pair.mp h
    exact ⟨rfl, .inr ⟨rfl, ⟨e, rfl⟩, by simpa using hr⟩⟩

theorem runs_takeBack {handed : Bool} {ctx ctx' : Context} {t : List Event}
    (h : Runs (takeBack handed ctx) t ctx') :
    (handed = true ∧ ∃ result terminal, Runs (ctx.terminal.setForeground none) t
      (result, terminal) ∧ ctx' = { ctx with terminal }) ∨
    (handed = false ∧ Runs (relayInterruptsTo none) t () ∧ ctx' = ctx) := by
  simp only [takeBack, bind_eq, pure_eq] at h
  split at h
  · rename_i hh
    obtain ⟨t₁, _, ⟨result, terminal⟩, rfl, hs, h⟩ := runs_bind.mp h
    obtain ⟨rfl, rfl⟩ := runs_done.mp h
    exact .inl ⟨hh, result, terminal, by simpa using hs, rfl⟩
  · rename_i hh
    obtain ⟨t₁, _, _, rfl, hr, h⟩ := runs_bind.mp h
    obtain ⟨rfl, rfl⟩ := runs_done.mp h
    exact .inr ⟨by simpa using hh, by simpa using hr, rfl⟩

/-- The terminal is all that lending it and taking it back change. -/
theorem lend_takeBack_frame {pgid : Pid} {ctx ctx₁ ctx₂ : Context} {t u : List Event}
    {handed : Bool} (hlend : Runs (lend pgid ctx) t (handed, ctx₁))
    (hback : Runs (takeBack handed ctx₁) u ctx₂) : ∃ terminal, ctx₂ = { ctx with terminal } := by
  obtain ⟨_, _, _, _, -, -, rfl, -⟩ := runs_lend hlend
  obtain ⟨-, _, terminal, -, rfl⟩ | ⟨-, -, rfl⟩ := runs_takeBack hback
  · exact ⟨terminal, rfl⟩
  · exact ⟨_, rfl⟩

/-- The parts of waiting in the foreground: the terminal is lent, the stages are waited for,
the terminal is taken back, and what has stopped becomes a job. -/
theorem runs_runForeground {p p' : Pipeline} {pgid : Pid} {ctx ctx' : Context} {t : List Event}
    {interrupted : Bool} (h : Runs (runForeground p pgid ctx) t (interrupted, p', ctx')) :
    ∃ t₁ t₂ t₃ t₄ handed ctx₁ waited ctx₂, t = t₁ ++ (t₂ ++ (t₃ ++ t₄)) ∧
      Runs (lend pgid ctx) t₁ (handed, ctx₁) ∧ Runs (waitStages p) t₂ waited ∧
      Runs (takeBack handed ctx₁) t₃ ctx₂ ∧ interrupted = waited.interrupted ∧
      p' = { p with status := some (waited.status.getD statusFailure) } ∧ Notice t₄ ∧
      ctx' = { ctx₂ with
        lastStatus := waited.status.getD statusFailure
        jobs := if waited.stopped.isEmpty then ctx₂.jobs
          else (ctx₂.jobs.add pgid waited.stopped .stopped p.text).2 } := by
  simp only [runForeground, bind_eq, pure_eq, runs_bind] at h
  obtain ⟨t₁, _, ⟨handed, ctx₁⟩, rfl, hl, t₂, _, waited, rfl, hw, t₃, t₄, ctx₂, rfl, hb, h⟩ := h
  refine ⟨t₁, t₂, t₃, t₄, handed, ctx₁, waited, ctx₂, rfl, hl, hw, hb, ?_⟩
  split at h
  · rename_i hs
    obtain ⟨_, _, _, rfl, hd, h⟩ := runs_bind.mp h
    obtain ⟨rfl, rfl⟩ := runs_done.mp hd
    obtain ⟨rfl, he⟩ := runs_done.mp h
    simp only [Prod.mk.injEq] at he
    obtain ⟨rfl, rfl, rfl⟩ := he
    exact ⟨rfl, rfl, by simp [Notice], by simp [hs]⟩
  · rename_i hs
    obtain ⟨_, _, _, rfl, hd, h⟩ := runs_bind.mp h
    obtain ⟨hn, rfl⟩ := runs_suspend hd
    obtain ⟨rfl, he⟩ := runs_done.mp h
    simp only [Prod.mk.injEq] at he
    obtain ⟨rfl, rfl, rfl⟩ := he
    exact ⟨rfl, rfl, by simpa using hn, by simp [hs, Pipeline.text]⟩

theorem runForeground_status {p p' : Pipeline} {pgid : Pid} {ctx ctx' : Context} {t : List Event}
    {interrupted : Bool} (h : Runs (runForeground p pgid ctx) t (interrupted, p', ctx')) :
    p'.status = some ctx'.lastStatus := by
  obtain ⟨_, _, _, _, _, _, _, _, _, _, _, _, _, rfl, _, rfl⟩ := runs_runForeground h
  rfl

@[simp] theorem verdict_endsWith (p : Pipeline) (status : Status) :
    (p.endsWith status).verdict = .next := by
  unfold Pipeline.endsWith
  split <;> rfl

/-- What follows once a pipeline has been started. -/
def conclude (p : Pipeline) (ctx : Context) :
    Except ShellError Started → Program (Verdict × Context)
  | .ok (.finished (.exit code)) => return (.exit code, ctx)
  | .ok (.finished (.status status)) => return (.next, ctx.setStatus p status)
  | .ok (.group pgid) => do
    if p.isBackground then
      return (.next, ← detach p pgid ctx)
    else
      let (interrupted, _, ctx) ← runForeground p pgid ctx
      return (if interrupted then .abandon else .next, ctx)
  | .error e => do
    complain e.message
    let _ ← waitStages p
    return (.next, ctx.setStatus p e.status)

theorem runReached_eq (p : Pipeline) (ctx : Context) :
    runReached p ctx = (startPipeline p ctx).bind fun started =>
      conclude started.2.1 started.2.2 started.1 := rfl

section

variable {p p' : Pipeline} {ctx ctx' ctx'' : Context} {t u : List Event} {verdict : Verdict}

theorem startPipeline_setStatus {started : Except ShellError Started}
    (h : Runs (startPipeline p ctx) t (started, p', ctx')) (s : Status) :
    ctx'.setStatus p' s = ctx'.setStatus p s := by
  simp [Context.setStatus, startPipeline_isBackground h]

theorem turnsOut_of_error {e : ShellError}
    (hs : Runs (startPipeline p ctx) t (.error e, p', ctx'))
    (h : Runs (conclude p' ctx' (.error e)) u (verdict, ctx'')) :
    TurnsOut p ctx (t ++ u) (p.endsWith e.status) ctx'' ∧ verdict = .next := by
  simp only [conclude, bind_eq, pure_eq, runs_bind] at h
  obtain ⟨u₁, _, _, rfl, hc, u₂, _, w, rfl, hw, h⟩ := h
  obtain ⟨rfl, rfl, rfl⟩ := runs_done_pair.mp h
  rw [List.append_nil, startPipeline_setStatus hs]
  exact ⟨.failed hs hc hw, rfl⟩

theorem turnsOut_of_finished {outcome : Outcome}
    (hs : Runs (startPipeline p ctx) t (.ok (.finished outcome), p', ctx'))
    (h : Runs (conclude p' ctx' (.ok (.finished outcome))) u (verdict, ctx'')) :
    ∃ ending, TurnsOut p ctx (t ++ u) ending ctx'' ∧ verdict = ending.verdict := by
  cases outcome with
  | exit code =>
    obtain ⟨rfl, rfl, rfl⟩ := runs_done_pair.mp h
    rw [List.append_nil]
    exact ⟨_, .exit hs, rfl⟩
  | status status =>
    obtain ⟨rfl, rfl, rfl⟩ := runs_done_pair.mp h
    rw [List.append_nil, startPipeline_setStatus hs]
    exact ⟨_, .builtin hs, by simp⟩

theorem turnsOut_of_group {pgid : Pid}
    (hs : Runs (startPipeline p ctx) t (.ok (.group pgid), p', ctx'))
    (h : Runs (conclude p' ctx' (.ok (.group pgid))) u (verdict, ctx'')) :
    ∃ ending, TurnsOut p ctx (t ++ u) ending ctx'' ∧ verdict = ending.verdict := by
  simp only [conclude, startPipeline_isBackground hs] at h
  split at h
  · rename_i hb
    obtain ⟨u, _, ctx₂, rfl, hd, h⟩ := runs_bind.mp h
    obtain ⟨rfl, rfl, rfl⟩ := runs_done_pair.mp h
    rw [List.append_nil]
    exact ⟨_, .detached hs hb hd, rfl⟩
  · rename_i hb
    obtain ⟨u, _, ⟨interrupted, p₂, ctx₂⟩, rfl, hf, h⟩ := runs_bind.mp h
    obtain ⟨rfl, rfl, rfl⟩ := runs_done_pair.mp h
    rw [List.append_nil]
    have hstatus := runForeground_status hf
    cases interrupted with
    | false => exact ⟨_, .waited hs (by simpa using hb) hf hstatus, rfl⟩
    | true => exact ⟨_, .interrupted hs (by simpa using hb) hf hstatus, rfl⟩

/-- In each of the ways in which it can turn out, the pipeline runs. -/
theorem TurnsOut.runs {ending : Ending} (h : TurnsOut p ctx t ending ctx') :
    Runs (runReached p ctx) t (ending.verdict, ctx') := by
  rw [runReached_eq, runs_bind]
  have hgroup {background : Bool} {started : Except ShellError Started} {t : List Event}
      {p' : Pipeline} {ctx' : Context} (hs : Runs (startPipeline p ctx) t (started, p', ctx'))
      (hb : p.isBackground = background) : p'.isBackground = background :=
    (startPipeline_isBackground hs).trans hb
  cases h with
  | exit hs => exact ⟨t, [], _, (List.append_nil t).symm, hs, .refl _⟩
  | builtin hs =>
    refine ⟨t, [], _, (List.append_nil t).symm, hs, ?_⟩
    simp [conclude, startPipeline_setStatus hs]
  | detached hs hb hd =>
    refine ⟨_, _, _, rfl, hs, ?_⟩
    simp only [conclude, hgroup hs hb, ↓reduceIte]
    exact runs_bind.mpr ⟨_, [], _, (List.append_nil _).symm, hd, .refl _⟩
  | waited hs hb hf =>
    refine ⟨_, _, _, rfl, hs, ?_⟩
    simp only [conclude, hgroup hs hb, Bool.false_eq_true, ↓reduceIte]
    exact runs_bind.mpr ⟨_, [], _, (List.append_nil _).symm, hf, .refl _⟩
  | interrupted hs hb hf =>
    refine ⟨_, _, _, rfl, hs, ?_⟩
    simp only [conclude, hgroup hs hb, Bool.false_eq_true, ↓reduceIte]
    exact runs_bind.mpr ⟨_, [], _, (List.append_nil _).symm, hf, .refl _⟩
  | failed hs hc hw =>
    refine ⟨_, _, _, rfl, hs, runs_bind.mpr ⟨_, _, _, rfl, hc, ?_⟩⟩
    refine runs_bind.mpr ⟨_, [], _, (List.append_nil _).symm, hw, ?_⟩
    simp [startPipeline_setStatus hs]

/-- Running a reached pipeline is one of the ways in which it can turn out. -/
theorem runs_runReached :
    Runs (runReached p ctx) t (verdict, ctx') ↔
      ∃ ending, TurnsOut p ctx t ending ctx' ∧ verdict = ending.verdict := by
  constructor
  · rw [runReached_eq]
    intro h
    obtain ⟨t₁, t₂, ⟨started, p₁, ctx₁⟩, rfl, hs, h⟩ := runs_bind.mp h
    rcases started with e | (pgid | outcome)
    · obtain ⟨hturn, rfl⟩ := turnsOut_of_error hs h
      exact ⟨_, hturn, by simp⟩
    · exact turnsOut_of_group hs h
    · exact turnsOut_of_finished hs h
  · rintro ⟨ending, h, rfl⟩
    exact h.runs

end

/-- The last status is that of the ending, or as before if the ending has none. -/
theorem TurnsOut.lastStatus {p : Pipeline} {ctx ctx' : Context} {t : List Event} {ending : Ending}
    (h : TurnsOut p ctx t ending ctx') :
    ctx'.lastStatus = ending.status?.getD ctx.lastStatus := by
  have hset {ctx' : Context} (hc : ∃ cwd, ctx' = { ctx with cwd }) (s : Status) :
      (ctx'.setStatus p s).lastStatus = (p.endsWith s).status?.getD ctx.lastStatus := by
    obtain ⟨cwd, rfl⟩ := hc
    unfold Context.setStatus Pipeline.endsWith
    split <;> rfl
  cases h with
  | exit hs =>
    obtain ⟨-, cwd, rfl⟩ := startPipeline_frame hs
    rfl
  | builtin hs => exact hset (startPipeline_frame hs).2 _
  | detached hs hb hd =>
    obtain ⟨-, cwd, rfl⟩ := startPipeline_frame hs
    obtain ⟨-, rfl⟩ := runs_detach hd
    rfl
  | waited hs hb hf hstatus =>
    rw [runForeground_status hf] at hstatus
    simpa [Ending.status?] using hstatus
  | interrupted hs hb hf hstatus =>
    rw [runForeground_status hf] at hstatus
    simpa [Ending.status?] using hstatus
  | failed hs hc hw => exact hset (startPipeline_frame hs).2 _

/-- Only a pipeline outside the background leaves a status. -/
theorem TurnsOut.isBackground {p : Pipeline} {ctx ctx' : Context} {t : List Event} {ending : Ending}
    (h : TurnsOut p ctx t ending ctx') (hexit : ∀ code, ending ≠ .exit code) :
    ending.status?.isSome = !p.isBackground := by
  have hends (s : Status) : (p.endsWith s).status?.isSome = !p.isBackground := by
    unfold Pipeline.endsWith
    split <;> simp_all [Ending.status?]
  cases h with
  | exit hs => exact absurd rfl (hexit _)
  | builtin hs => exact hends _
  | detached hs hb hd => simp [Ending.status?, hb]
  | waited hs hb hf hstatus => simp [Ending.status?, hb]
  | interrupted hs hb hf hstatus => simp [Ending.status?, hb]
  | failed hs hc hw => exact hends _

theorem TurnsOut.exit_inv {p : Pipeline} {ctx ctx' : Context} {t : List Event} {code : Status}
    (h : TurnsOut p ctx t (.exit code) ctx') :
    ∃ p', Runs (startPipeline p ctx) t (.ok (.finished (.exit code)), p', ctx') := by
  have hends (s : Status) : p.endsWith s ≠ .exit code := by
    unfold Pipeline.endsWith
    split <;> simp
  generalize he : Ending.exit code = ending at h
  cases h with
  | exit hs => cases he; exact ⟨_, hs⟩
  | builtin hs => exact absurd he.symm (hends _)
  | detached hs hb hd => cases he
  | waited hs hb hf hstatus => cases he
  | interrupted hs hb hf hstatus => cases he
  | failed hs hc hw => exact absurd he.symm (hends _)

/-- Only a lone `exit` turns out to end the shell. -/
theorem TurnsOut.lone_exit {p : Pipeline} {ctx ctx' : Context} {t : List Event} {code : Status}
    (h : TurnsOut p ctx t (.exit code) ctx') : ∃ stage args, p.stages = [stage] ∧
      stage.argv = "exit" :: args ∧ exitStatus args.head? = .ok (.exit code) := by
  obtain ⟨p', hs⟩ := h.exit_inv
  exact startPipeline_exit hs

theorem Ending.exit_of_verdict {e : Ending} {code : Status} (h : e.verdict = .exit code) :
    e = .exit code := by
  cases e <;> simp_all [Ending.verdict]

theorem Ending.eq_of_verdict {e e' : Ending} (hv : e.verdict = e'.verdict)
    (hs : e.status? = e'.status?) : e = e' := by
  cases e <;> cases e' <;> simp_all [Ending.verdict, Ending.status?]

/-- A run with the same verdict turns out in the same way, if in the foreground it leaves the
same last status. -/
theorem TurnsOut.transfer {p p' : Pipeline} {ctx ctx' out out' : Context} {t : List Event}
    {ending : Ending} (h : TurnsOut p ctx t ending out)
    (hrun : Runs (runReached p' ctx') t (ending.verdict, out'))
    (hback : p'.isBackground = p.isBackground)
    (hlast : p.isBackground = false → (∀ code, ending ≠ .exit code) →
      out'.lastStatus = out.lastStatus) : TurnsOut p' ctx' t ending out' := by
  obtain ⟨ending', h', hv⟩ := runs_runReached.mp hrun
  have hsame : ending = ending' := by
    by_cases hexit : ∃ code, ending = .exit code
    · obtain ⟨code, rfl⟩ := hexit
      exact (Ending.exit_of_verdict hv.symm).symm
    · have hexit : ∀ code, ending ≠ .exit code := by simpa using hexit
      have hexit' : ∀ code, ending' ≠ .exit code := by
        rintro code rfl
        exact hexit code (Ending.exit_of_verdict hv)
      have hsome := h.isBackground hexit
      have hsome' := h'.isBackground hexit'
      rw [hback] at hsome'
      refine Ending.eq_of_verdict hv ?_
      cases hp : p.isBackground with
      | true =>
        rw [hp, Bool.not_true, Option.isSome_eq_false_iff, Option.isNone_iff_eq_none]
          at hsome hsome'
        rw [hsome, hsome']
      | false =>
        -- in the foreground both statuses are the last status that is left
        rw [hp, Bool.not_false, Option.isSome_iff_exists] at hsome hsome'
        obtain ⟨status, hs⟩ := hsome
        obtain ⟨status', hs'⟩ := hsome'
        have heq := hlast hp hexit
        rw [h.lastStatus, h'.lastStatus, hs, hs'] at heq
        rw [hs, hs']
        exact congrArg some heq.symm
  rwa [← hsame] at h'

end JobShell
