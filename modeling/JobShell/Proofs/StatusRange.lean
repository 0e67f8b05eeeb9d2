import JobShell.Proofs.Line

/-!
The range of statuses. As long as processes that are waited for end with a code of one byte, the
last status is one byte as well, whichever branch sets it: a built-in, a failure, a process that
has ended, or a signal that has killed or stopped one.
-/
namespace JobShell

open Program

def Status.IsByte (status : Status) : Prop := 0 ≤ status ∧ status ≤ 255

instance (status : Status) : Decidable status.IsByte := inferInstanceAs (Decidable (_ ∧ _))

/-- If the event reports that a process has ended by itself, then with a code of one byte. -/
def Event.ReportsByte : Event → Prop
  | .call (.wait _ _) (.ok (.exited code)) => Status.IsByte code
  | _ => True

theorem Signal.isByte_of_named {signal : Nat} (h : Signal.isNamed signal = true) :
    Status.IsByte (128 + (signal : Int)) := by
  have hrange : 1 ≤ signal ∧ signal ≤ 31 := by simpa [isNamed] using h
  change (0 : Int) ≤ 128 + signal ∧ 128 + signal ≤ (255 : Int)
  omega

theorem isByte_of_decodeWait {pid : Pid} {options : WaitOptions} {report : WaitStatus}
    {answer : Except Errno WaitStatus} {status : Status}
    (he : (Event.call (.wait pid options) answer).ReportsByte)
    (hd : decodeWait answer = .ok report) (hs : report.status? = some status) :
    status.IsByte := by
  cases answer with
  | error e => cases hd
  | ok given =>
    cases given with
    | exited code =>
      cases hd
      cases hs
      exact he
    | signaled signal =>
      simp only [decodeWait] at hd
      split at hd
      · rename_i hnamed
        cases hd
        cases hs
        exact Signal.isByte_of_named hnamed
      · cases hd
    | stopped signal =>
      simp only [decodeWait] at hd
      split at hd
      · rename_i hnamed
        cases hd
        cases hs
        exact Signal.isByte_of_named hnamed
      · cases hd
    | «continued» =>
      cases hd
      cases hs
    | stillAlive =>
      cases hd
      cases hs

theorem isByte_statusFailure : statusFailure.IsByte := by decide

theorem isByte_statusSyntax : statusSyntax.IsByte := by decide

theorem SetupError.isByte_status (e : SetupError) : e.status.IsByte := by
  cases e with
  | notFound _ => exact (by decide : statusNotFound.IsByte)
  | notExecutable _ _ => exact (by decide : statusNotExecutable.IsByte)
  | redirect _ _ => exact isByte_statusFailure
  | step _ _ => exact isByte_statusFailure

theorem ShellError.isByte_status (e : ShellError) : e.status.IsByte := by
  cases e with
  | syntaxError _ => exact isByte_statusSyntax
  | _ => exact isByte_statusFailure

section

variable {ctx ctx' : Context} {t : List Event}

theorem isByte_of_waitStages {p : Pipeline} {w : Waited} (h : Runs (waitStages p) t w)
    (ht : ∀ e ∈ t, e.ReportsByte) : ∀ status ∈ w.status, status.IsByte := by
  have hfrom {last : Option Pid} {w w' : Waited} {pids : List Pid} {t : List Event}
      (h : Runs (waitFrom last w pids) t w') (ht : ∀ e ∈ t, e.ReportsByte)
      (hw : ∀ status ∈ w.status, Status.IsByte status) :
      ∀ status ∈ w'.status, Status.IsByte status := by
    induction pids generalizing w t with
    | nil =>
      obtain ⟨-, rfl⟩ := runs_done.mp h
      exact hw
    | cons pid pids ih =>
      simp only [waitFrom, bind_eq, runs_bind] at h
      obtain ⟨_, t₂, answer, rfl, hwait, hrest⟩ := h
      obtain ⟨-, n, rfl⟩ := runs_retry.mp hwait
      refine ih hrest (fun e he => ht e (List.mem_append_right _ he)) ?_
      have hreport := ht (.call (.wait pid { untraced := true }) answer) (by simp)
      cases hd : decodeWait answer with
      | error e => exact hw
      | ok report =>
        simp only [Waited.note]
        split
        · exact fun status hs => isByte_of_decodeWait hreport hd hs
        · exact hw
  exact hfrom h ht (by simp)

/-- A built-in that does not end the shell comes to 0 or 1. -/
theorem isByte_of_runBuiltin {argv : List String} {status : Status}
    (h : Runs (runBuiltin argv ctx) t (.status status, ctx')) : status.IsByte := by
  simp only [runBuiltin, tryBuiltin, bind_eq, pure_eq, runs_bind] at h
  obtain ⟨t₁, t₂, ⟨result, ctx₁⟩, rfl, htry, h⟩ := h
  cases result with
  | error e =>
    obtain ⟨_, _, _, rfl, -, h⟩ := runs_bind.mp h
    obtain ⟨-, he⟩ := runs_done.mp h
    cases he
    exact isByte_statusFailure
  | ok outcome =>
    obtain ⟨-, he⟩ := runs_done.mp h
    cases he
    split at htry
    · obtain ⟨_, _, -, he, -⟩ | ⟨-, -, _, he⟩ := runs_changeDir htry
      · cases he
        decide
      · cases he
    · rename_i args
      obtain ⟨-, he⟩ := runs_done.mp htry
      unfold exitStatus at he
      split at he
      · cases he
      · split at he <;> cases he
    · obtain ⟨-, he⟩ := runs_done.mp htry
      cases he

theorem isByte_of_runInShell {stage : Stage} {status : Status}
    (h : Runs (runInShell stage ctx) t (.ok (.status status), ctx')) : status.IsByte := by
  generalize hr : Except.ok (Outcome.status status) = result at h
  cases runs_runInShell h with
  | refused _ => cases hr
  | unopened _ _ _ _ =>
    cases hr
    exact SetupError.isByte_status _
  | ran _ _ hb _ =>
    cases hr
    exact isByte_of_runBuiltin hb

theorem isByte_of_startPipeline {p p' : Pipeline} {status : Status}
    (h : Runs (startPipeline p ctx) t (.ok (.finished (.status status)), p', ctx')) :
    status.IsByte := by
  obtain ⟨stage, result, -, hs, hr, -⟩ | ⟨hs, -⟩ := runs_startPipeline h
  · cases result with
    | error e => cases hr
    | ok outcome =>
      cases hr
      exact isByte_of_runInShell hs
  · exact absurd rfl ((startProcesses_join hs).2 _)

/-- What becomes of a pipeline keeps the last status in its range. -/
theorem TurnsOut.isByte {p : Pipeline} {ending : Ending} (h : TurnsOut p ctx t ending ctx')
    (ht : ∀ e ∈ t, e.ReportsByte) (hc : ctx.lastStatus.IsByte) : ctx'.lastStatus.IsByte := by
  have hkept {ctx' : Context} (h : ∃ cwd, ctx' = { ctx with cwd }) :
      ctx'.lastStatus = ctx.lastStatus := by
    obtain ⟨cwd, rfl⟩ := h
    rfl
  have hset {ctx' : Context} (h : ∃ cwd, ctx' = { ctx with cwd }) {status : Status}
      (hs : status.IsByte) : (ctx'.setStatus p status).lastStatus.IsByte := by
    unfold Context.setStatus
    split
    · rwa [hkept h]
    · exact hs
  have hforeground {u : List Event} {p' p'' : Pipeline} {ctx' ctx'' : Context} {pgid : Pid}
      {interrupted : Bool} (hu : ∀ e ∈ u, e.ReportsByte)
      (hf : Runs (runForeground p' pgid ctx') u (interrupted, p'', ctx'')) :
      ctx''.lastStatus.IsByte := by
    obtain ⟨t₁, t₂, t₃, t₄, _, _, waited, _, rfl, -, hw, -, -, -, -, rfl⟩ := runs_runForeground hf
    have hwaited := isByte_of_waitStages hw fun e he => hu e (by simp [he])
    cases hs : waited.status with
    | none => exact isByte_statusFailure
    | some status => exact hwaited status hs
  cases h with
  | exit hs => rwa [hkept (startPipeline_frame hs).2]
  | builtin hs => exact hset (startPipeline_frame hs).2 (isByte_of_startPipeline hs)
  | detached hs _ hd =>
    obtain ⟨-, rfl⟩ := runs_detach hd
    rwa [hkept (startPipeline_frame hs).2]
  | waited _ _ hf _ => exact hforeground (fun e he => ht e (List.mem_append_right _ he)) hf
  | interrupted _ _ hf _ => exact hforeground (fun e he => ht e (List.mem_append_right _ he)) hf
  | failed hs _ _ => exact hset (startPipeline_frame hs).2 (ShellError.isByte_status _)

theorem Proceeds.isByte {before : Option Join} {ps : CommandList} {log : List Turn} {flow : Flow}
    (h : Proceeds before ctx ps t log flow ctx') (ht : ∀ e ∈ t, e.ReportsByte)
    (hc : ctx.lastStatus.IsByte) : ctx'.lastStatus.IsByte := by
  have hattempt {reached : Prop} {status : Option Status} {p : Pipeline} {ctx ctx' : Context}
      {t : List Event} {log : List Turn} {standing : Standing}
      (h : Attempts reached status p ctx t log standing ctx') (ht : ∀ e ∈ t, e.ReportsByte)
      (hc : ctx.lastStatus.IsByte) : ctx'.lastStatus.IsByte := by
    cases h with
    | dropped => exact hc
    | skipped _ => exact hc
    | ran _ hturn => exact hturn.isByte (fun e he => ht e (List.mem_cons_of_mem _ he)) hc
  induction h with
  | nil => exact hc
  | cut h => exact hattempt h ht hc
  | next h _ ih =>
    refine ih (fun e he => ht e (List.mem_append_right _ he)) (hattempt h ?_ hc)
    exact fun e he => ht e (List.mem_append_left _ he)

/-- What a line does keeps the last status in its range. -/
theorem Performs.isByte {line : String} {log : List Turn} {flow : Flow}
    (h : Performs line ctx t log flow ctx') (ht : ∀ e ∈ t, e.ReportsByte)
    (hc : ctx.lastStatus.IsByte) : ctx'.lastStatus.IsByte := by
  cases h with
  | list _ h => exact h.isByte ht hc
  | refused _ _ => exact isByte_statusSyntax

end

end JobShell
