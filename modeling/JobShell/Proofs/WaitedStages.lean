import Mathlib.Data.List.Nodup
import Mathlib.Logic.Function.Basic
import JobShell.Proofs.Reached
import JobShell.Proofs.Requests

/-!
Waiting for a pipeline, for every way in which the waits for its stages can be answered. Each
started stage is waited for once and in its place, whatever has become of those before it. The
status is that of the last stage, found by its process number, and no other stage has a say in it.
-/
namespace JobShell

open Program

/-- How the waits for processes are answered: cut short by a signal some number of times and
then answered in another way. -/
structure WaitAnswers where
  cuts : Pid → Nat
  answer : Pid → Except Errno WaitStatus
  answered : ∀ pid, answer pid ≠ .error .interrupted

namespace WaitAnswers

/-- The exchanges by which a process is waited for. -/
def attend (a : WaitAnswers) (pid : Pid) : List Event :=
  List.replicate (a.cuts pid) (cutShort (.wait pid { untraced := true })) ++
    [.call (.wait pid { untraced := true }) (a.answer pid)]

/-- The answer as the shell can decode it: a report with an unnamed signal is an error. -/
def report (a : WaitAnswers) (pid : Pid) : Except Errno WaitStatus := decodeWait (a.answer pid)

def hasStopped (a : WaitAnswers) (pid : Pid) : Bool :=
  match a.report pid with
  | .ok (.stopped _) => true
  | _ => false

/-- The process has exited with `status`, or a signal has killed or stopped it that makes it
that status. -/
def Gives (a : WaitAnswers) (pid : Pid) (status : Status) : Prop :=
  a.report pid = .ok (.exited status) ∨ ∃ signal : Signal,
    (a.report pid = .ok (.signaled signal) ∨ a.report pid = .ok (.stopped signal)) ∧
      status = 128 + (signal : Int)

/-- What is known of a pipeline once its stages are waited for. -/
structure Tells (a : WaitAnswers) (p : Pipeline) (w : Waited) : Prop where
  status : ∀ status, w.status = some status ↔
    ∃ pid, p.stages.getLast?.bind Stage.pid = some pid ∧ a.Gives pid status
  interrupted : w.interrupted = true ↔
    ∃ pid ∈ p.pids, a.report pid = .ok (.signaled Signal.sigint)
  stopped : w.stopped = p.pids.filter a.hasStopped

/-- The same answers except for one process. -/
def set (a : WaitAnswers) (pid : Pid) (cuts : Nat) (answer : Except Errno WaitStatus)
    (h : answer ≠ .error .interrupted) : WaitAnswers where
  cuts := Function.update a.cuts pid cuts
  answer := Function.update a.answer pid answer
  answered := by
    intro pid'
    by_cases hp : pid' = pid
    · subst hp
      simpa using h
    · simpa [hp] using a.answered pid'

section

variable {a : WaitAnswers} {pid pid' : Pid} {cuts : Nat} {answer : Except Errno WaitStatus}
  {h : answer ≠ .error .interrupted}

theorem attend_set_same : (a.set pid cuts answer h).attend pid =
    List.replicate cuts (cutShort (.wait pid { untraced := true })) ++
      [.call (.wait pid { untraced := true }) answer] := by
  simp [attend, set]

theorem attend_set_other (hp : pid' ≠ pid) :
    (a.set pid cuts answer h).attend pid' = a.attend pid' := by
  simp [attend, set, hp]

theorem report_set_same : (a.set pid cuts answer h).report pid = decodeWait answer := by
  simp [report, set]

theorem report_set_other (hp : pid' ≠ pid) :
    (a.set pid cuts answer h).report pid' = a.report pid' := by
  simp [report, set, hp]

end

/-- What is known once the processes `pids` are waited for, `w` being known before. -/
def noted (a : WaitAnswers) (last : Option Pid) (w : Waited) (pids : List Pid) : Waited :=
  pids.foldl (fun w pid => w.note last pid (a.report pid)) w

section

variable {a : WaitAnswers} {last : Option Pid} {w : Waited} {pids : List Pid}

theorem noted_cons {pid : Pid} : a.noted last w (pid :: pids) =
    a.noted last (w.note last pid (a.report pid)) pids := rfl

/-- Every process is waited for exactly once, in the given order. -/
theorem runs_waitFrom {w' : Waited} {t : List Event} (hd : pids.Nodup) :
    Runs (waitFrom last w pids) t w' ↔
      ∃ a : WaitAnswers, t = pids.flatMap a.attend ∧ w' = a.noted last w pids := by
  induction pids generalizing w t with
  | nil =>
    rw [waitFrom, pure_eq, runs_done]
    constructor
    · intro h
      exact ⟨⟨fun _ => 0, fun _ => .ok .continued, by simp⟩, h⟩
    · rintro ⟨_, h⟩
      exact h
  | cons pid pids ih =>
    obtain ⟨hpid, hpids⟩ := List.nodup_cons.mp hd
    have hother : ∀ pid' ∈ pids, pid' ≠ pid := by
      rintro pid' hmem rfl
      exact hpid hmem
    simp only [waitFrom, bind_eq, runs_bind, runs_retry, ih hpids]
    constructor
    · rintro ⟨_, _, answer, rfl, ⟨hne, n, rfl⟩, a, rfl, rfl⟩
      refine ⟨a.set pid n answer hne, ?_, ?_⟩
      · rw [List.flatMap_cons, attend_set_same,
          List.flatMap_congr fun pid' hp => attend_set_other (hother pid' hp)]
      · rw [noted_cons, report_set_same]
        exact List.foldl_ext _ _ _ fun w pid' hp => by rw [report_set_other (hother pid' hp)]
    · rintro ⟨a, rfl, rfl⟩
      exact ⟨_, _, _, rfl, ⟨a.answered pid, _, rfl⟩, a, rfl, rfl⟩

theorem stopped_noted :
    (a.noted last w pids).stopped = w.stopped ++ pids.filter a.hasStopped := by
  induction pids generalizing w with
  | nil => simp [noted]
  | cons pid pids ih =>
    rw [noted_cons, ih, List.filter_cons]
    unfold hasStopped
    cases a.report pid with
    | error e => rfl
    | ok report => cases report <;> simp [Waited.note]

theorem interrupted_noted : (a.noted last w pids).interrupted = true ↔
    w.interrupted = true ∨ ∃ pid ∈ pids, a.report pid = .ok (.signaled Signal.sigint) := by
  induction pids generalizing w with
  | nil => simp [noted]
  | cons pid pids ih =>
    rw [noted_cons, ih, List.exists_mem_cons_iff, ← or_assoc]
    cases a.report pid with
    | error e => simp [Waited.note]
    | ok report => simp [Waited.note]

/-- No other process than the last one has a say in the status. -/
theorem status_noted_of_notMem (h : ∀ pid ∈ pids, last ≠ some pid) :
    (a.noted last w pids).status = w.status := by
  induction pids generalizing w with
  | nil => rfl
  | cons pid pids ih =>
    rw [noted_cons, ih fun pid' hp => h pid' (List.mem_cons_of_mem pid hp)]
    cases a.report pid with
    | error e => rfl
    | ok report => exact if_neg (h pid List.mem_cons_self)

theorem status_noted {pid : Pid} (hd : pids.Nodup) (hp : pid ∈ pids) (hw : w.status = none)
    (status : Status) :
    (a.noted (some pid) w pids).status = some status ↔ a.Gives pid status := by
  obtain ⟨before, behind, rfl⟩ := List.append_of_mem hp
  have hothers : ∀ pid' ∈ before ++ behind, some pid ≠ some pid' := by
    rintro pid' hmem ⟨rfl⟩
    exact (List.nodup_cons.mp (List.nodup_middle.mp hd)).1 hmem
  have hbefore : (a.noted (some pid) w before).status = none :=
    (status_noted_of_notMem fun pid' hmem =>
      hothers pid' (List.mem_append_left behind hmem)).trans hw
  have hsplit : a.noted (some pid) w (before ++ pid :: behind) = a.noted (some pid)
      ((a.noted (some pid) w before).note (some pid) pid (a.report pid)) behind :=
    List.foldl_append
  rw [hsplit, status_noted_of_notMem fun pid' hmem =>
    hothers pid' (List.mem_append_right before hmem)]
  unfold Gives
  cases a.report pid with
  | error e => simp [Waited.note, hbefore]
  | ok report => cases report <;> simp [Waited.note, WaitStatus.status?, eq_comm]

end

/-- What waiting for the stages of a pipeline makes known is what the answers tell. -/
theorem tells_noted (a : WaitAnswers) {p : Pipeline} (hd : p.pids.Nodup) :
    a.Tells p (a.noted (p.stages.getLast?.bind Stage.pid) {} p.pids) where
  status status := by
    cases hlast : p.stages.getLast?.bind Stage.pid with
    | none =>
      rw [status_noted_of_notMem (by simp)]
      simp
    | some pid =>
      obtain ⟨stage, hstage, hpid⟩ := Option.bind_eq_some_iff.mp hlast
      have hmem : pid ∈ p.pids := List.mem_filterMap.mpr ⟨stage, List.mem_of_getLast? hstage, hpid⟩
      rw [status_noted hd hmem rfl]
      simp
  interrupted := by simp [interrupted_noted]
  stopped := by simp [stopped_noted]

/-- The answers leave nothing open. -/
theorem Tells.unique {a : WaitAnswers} {p : Pipeline} {w w' : Waited} (h : a.Tells p w)
    (h' : a.Tells p w') : w = w' := by
  have hstatus : w.status = w'.status :=
    Option.ext fun status => (h.status status).trans (h'.status status).symm
  have hinterrupted : w.interrupted = w'.interrupted :=
    Bool.eq_iff_iff.mpr (h.interrupted.trans h'.interrupted.symm)
  have hstopped : w.stopped = w'.stopped := h.stopped.trans h'.stopped.symm
  cases w
  cases w'
  simp_all

theorem runs_waitStages {p : Pipeline} (hd : p.pids.Nodup) {t : List Event} {w : Waited} :
    Runs (waitStages p) t w ↔ ∃ a : WaitAnswers, t = p.pids.flatMap a.attend ∧ a.Tells p w := by
  rw [waitStages, runs_waitFrom hd]
  constructor
  · rintro ⟨a, rfl, rfl⟩
    exact ⟨a, rfl, a.tells_noted hd⟩
  · rintro ⟨a, rfl, ha⟩
    exact ⟨a, rfl, ha.unique (a.tells_noted hd)⟩

end WaitAnswers

/-- The terminal may refuse. -/
theorem exists_runs_setForeground (terminal : Terminal) (group : Option Pid) :
    ∃ t e, Runs (terminal.setForeground group) t (.error e, terminal) := by
  unfold Terminal.setForeground
  split
  · exact ⟨[], _, .refl _⟩
  · exact ⟨[.call (.foreground _) (.error .noChild)], _, .call _ (.refl _)⟩

theorem exists_runs_suspend (p : Pipeline) (pgid : Pid) (stopped : List Pid) (ctx : Context) :
    ∃ t ctx', Runs (suspend p pgid stopped ctx) t ctx' := by
  simp only [suspend, bind_eq, pure_eq]
  split
  · exact ⟨_, _, runs_bind.mpr ⟨_, [], (), rfl, runs_printText_written 2 _, .refl _⟩⟩
  · exact ⟨_, _, .refl _⟩

/-- However the waits are answered, waiting in the foreground comes to its end. -/
theorem exists_runs_runForeground {p : Pipeline} {t : List Event} {w : Waited}
    (h : Runs (waitStages p) t w) (pgid : Pid) (ctx : Context) :
    ∃ before after result, Runs (runForeground p pgid ctx) (before ++ (t ++ after)) result := by
  obtain ⟨t₁, e, hrefused⟩ := exists_runs_setForeground ctx.terminal (some pgid)
  have hrelay : Runs (relayInterruptsTo (some pgid))
      [.call (.relayTo (some pgid)) (), .call (.hasArrived Signal.sigint) false] () :=
    .call _ (.call _ (.refl _))
  obtain ⟨before, hlend⟩ : ∃ t₂, Runs (lend pgid ctx) t₂ (false, ctx) :=
    ⟨_, runs_bind.mpr ⟨_, _, _, rfl, hrefused, runs_bind.mpr ⟨_, _, _, rfl, hrelay, .refl _⟩⟩⟩
  have hback : Runs (takeBack false ctx) [.call (.relayTo none) ()] ctx := .call _ (.refl _)
  have hrest : ∃ after result, Runs (do
      let ctx ← takeBack false ctx
      let status := w.status.getD statusFailure
      let p := { p with status := some status }
      let ctx := { ctx with lastStatus := status }
      let ctx ← if w.stopped.isEmpty then pure ctx else suspend p pgid w.stopped ctx
      return (w.interrupted, p, ctx)) after result := by
    dsimp only [bind_eq, pure_eq]
    split
    · exact ⟨_, _, runs_bind.mpr ⟨_, [], ctx, rfl, hback, .refl _⟩⟩
    · obtain ⟨t₃, ctx', hsuspend⟩ := exists_runs_suspend
        { p with status := some (w.status.getD statusFailure) } pgid w.stopped
        { ctx with lastStatus := w.status.getD statusFailure }
      exact ⟨_, _, runs_bind.mpr ⟨_, _, ctx, rfl, hback,
        runs_bind.mpr ⟨t₃, [], ctx', rfl, hsuspend, .refl _⟩⟩⟩
  obtain ⟨after, result, hrest⟩ := hrest
  exact ⟨before, after, result, runs_bind.mpr ⟨_, _, _, rfl, hlend,
    runs_bind.mpr ⟨_, _, _, rfl, h, hrest⟩⟩⟩

/-- Waiting for the stages of a pipeline, however the waits are answered and however often each
is cut short, gets an answer for every started stage exactly once and in order, and tells what
the answers tell: a status exactly if the last stage was started and has exited, been killed or
stopped, an interruption exactly if SIGINT has killed some stage, and the stages that have
stopped. In the foreground that status, or else 1, becomes the status of the pipeline and the
last status, and what has stopped becomes a job, if anything has. -/
theorem stages_waited_for (p : Pipeline) (hd : p.pids.Nodup) :
    (∀ a : WaitAnswers, ∃ w, a.Tells p w) ∧
    (∀ t w, Runs (waitStages p) t w ↔ ∃ a : WaitAnswers, t = p.pids.flatMap a.attend ∧ a.Tells p w) ∧
    ∀ pgid ctx,
      (∀ a : WaitAnswers, ∃ before after result, Runs (runForeground p pgid ctx)
        (before ++ (p.pids.flatMap a.attend ++ after)) result) ∧
      ∀ t interrupted p' ctx', Runs (runForeground p pgid ctx) t (interrupted, p', ctx') →
        ∃ (a : WaitAnswers) (before after : List Event) (w : Waited) (terminal : Terminal),
          t = before ++ (p.pids.flatMap a.attend ++ after) ∧
          (∀ e ∈ before ++ after, ¬ e.request.OnChildren) ∧ a.Tells p w ∧
          interrupted = w.interrupted ∧ p' = { p with status := some (w.status.getD 1) } ∧
          ctx' = { ctx with
            terminal
            lastStatus := w.status.getD 1
            jobs := if w.stopped = [] then ctx.jobs
              else (ctx.jobs.add pgid w.stopped .stopped p.text).2 } := by
  refine ⟨fun a => ⟨_, a.tells_noted hd⟩, fun t w => WaitAnswers.runs_waitStages hd,
    fun pgid ctx => ⟨fun a => ?_, ?_⟩⟩
  · exact exists_runs_runForeground
      ((WaitAnswers.runs_waitStages hd).mpr ⟨a, rfl, a.tells_noted hd⟩) pgid ctx
  intro t interrupted p' ctx' h
  obtain ⟨t₁, t₂, t₃, t₄, handed, ctx₁, w, ctx₂, rfl, hlend, hwait, hback, rfl, rfl, hnotice,
    rfl⟩ := runs_runForeground h
  obtain ⟨terminal, rfl⟩ := lend_takeBack_frame hlend hback
  obtain ⟨a, rfl, ha⟩ := (WaitAnswers.runs_waitStages hd).mp hwait
  refine ⟨a, t₁, t₃ ++ t₄, w, terminal, rfl, ?_, ha, rfl, rfl, ?_⟩
  · have hbefore := ((within_lend ctx pgid).idle (by simp)).events hlend
    have hafter := ((within_takeBack ctx₁ handed).idle (by simp)).events hback
    have hquiet : ∀ e ∈ t₄, ¬ e.request.OnChildren := by
      intro e he hchildren
      cases (hnotice e he).topic_eq.symm.trans hchildren.topic_eq
    simp only [List.mem_append]
    rintro e (he | he | he)
    · exact hbefore e he
    · exact hafter e he
    · exact hquiet e he
  · simp [List.isEmpty_iff, statusFailure]

/-- The first of three stages stops, once the wait for it has been cut short, the second was
never started, and SIGINT kills the last. -/
theorem stages_waited_for_stopped_and_killed :
    let p : Pipeline := {
      stages := [{ argv := ["cat"], pid := some 5 }, { argv := ["head"] },
        { argv := ["sort"], pid := some 7 }]
      join := .sequence }
    let wait (pid : Pid) : Call (Except Errno WaitStatus) := .wait pid { untraced := true }
    let waits := [cutShort (wait 5), .call (wait 5) (.ok (.stopped Signal.sigtstp)),
      .call (wait 7) (.ok (.signaled Signal.sigint))]
    p.pids.Nodup ∧
    Runs (waitStages p) waits { status := some 130, interrupted := true, stopped := [5] } ∧
    ∀ pgid ctx, ∃ before after result,
      Runs (runForeground p pgid ctx) (before ++ (waits ++ after)) result := by
  intro p wait waits
  let a : WaitAnswers := {
    cuts := fun pid => if pid = 5 then 1 else 0
    answer := fun pid =>
      .ok (if pid = 5 then .stopped Signal.sigtstp else .signaled Signal.sigint)
    answered := by simp }
  have hd : p.pids.Nodup := by decide
  obtain ⟨-, hruns, hforeground⟩ := stages_waited_for p hd
  have htells : a.Tells p { status := some 130, interrupted := true, stopped := [5] } := by
    have hlast : p.stages.getLast?.bind Stage.pid = some 7 := rfl
    have hkilled : a.report 7 = .ok (.signaled Signal.sigint) := rfl
    refine ⟨fun status => ?_, by decide, by decide⟩
    simp [hlast, hkilled, WaitAnswers.Gives, Signal.sigint, eq_comm]
  exact ⟨hd, (hruns _ _).mpr ⟨a, rfl, htells⟩, fun pgid ctx => (hforeground pgid ctx).1 a⟩

end JobShell
