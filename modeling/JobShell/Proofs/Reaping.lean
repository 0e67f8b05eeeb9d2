import JobShell.Proofs.Jobs
import JobShell.Proofs.Line

/-!
Reaping where no process that a job lists has ended. Every job of the shell lists a process, so
such a reap leaves the table as it is.
-/
namespace JobShell

open Program

/-- Whether a process that has been asked about is still there. -/
def stays : Except Errno WaitStatus → Bool
  | .ok report => !report.isTerminated
  | .error e => e == .interrupted

/-- If the event asks about a process, that process is still there. -/
def Event.Keeps : Event → Prop
  | .call (.wait _ _) answer => stays (decodeWait answer) = true
  | _ => True

/-- No process that is asked about has ended. -/
def Quiet (t : List Event) : Prop := ∀ e ∈ t, e.Keeps

/-- Every job lists a process. -/
def JobTable.Manned (jobs : JobTable) : Prop := ∀ job ∈ jobs.values, job.pids ≠ []

theorem JobTable.Manned.add {jobs : JobTable} (h : jobs.Manned) {pids : List Pid}
    (hp : pids ≠ []) (group : Pid) (state : JobState) (text : String) :
    (jobs.add group pids state text).2.Manned := by
  intro job hjob
  obtain rfl | hjob := List.mem_cons.mp ((insert_perm (t := jobs) rfl).subset hjob)
  · exact hp
  · exact h job hjob

theorem JobTable.manned_takeFinished (jobs : JobTable) : jobs.takeFinished.2.Manned := by
  intro job hjob
  rw [values_takeFinished] at hjob
  simpa using (List.mem_filter.mp hjob).2

theorem stillThere_cons (pid : Pid) (pids : List Pid) :
    stillThere (pid :: pids) = (ask (.wait pid { noHang := true })).bind fun answer =>
      (stillThere pids).bind fun rest =>
        done (if stays (decodeWait answer) then pid :: rest else rest) := by
  simp only [stillThere, bind_eq, pure_eq]
  congr 1
  funext answer
  cases decodeWait answer <;> rfl

theorem runs_stillThere_quiet {pids rest : List Pid} {t : List Event} (ht : Quiet t)
    (h : Runs (stillThere pids) t rest) : rest = pids := by
  induction pids generalizing t rest with
  | nil => exact (runs_done.mp h).2
  | cons pid pids ih =>
    rw [stillThere_cons] at h
    simp only [runs_bind, runs_ask] at h
    obtain ⟨_, _, answer, rfl, rfl, t₁, t₂, rest', rfl, hrest, h⟩ := h
    have hkeeps : stays (decodeWait answer) = true :=
      ht (.call (.wait pid { noHang := true }) answer) (by simp)
    have hquiet : Quiet t₁ := fun e he => ht e (by simp [he])
    obtain rfl := ih hquiet hrest
    obtain ⟨-, rfl⟩ := runs_done.mp h
    rw [if_pos hkeeps]

/-- The processes are asked about one after another, and all are still there. -/
def pollsKept (pids : List Pid) : List Event :=
  pids.map fun pid => .call (.wait pid { noHang := true }) (.ok .stillAlive)

theorem quiet_pollsKept (pids : List Pid) : Quiet (pollsKept pids) := by
  intro e he
  obtain ⟨pid, -, rfl⟩ := List.mem_map.mp he
  rfl

theorem runs_pollsKept (pids : List Pid) : Runs (stillThere pids) (pollsKept pids) pids := by
  induction pids with
  | nil => exact .refl _
  | cons pid pids ih =>
    rw [stillThere_cons]
    refine runs_bind.mpr ⟨[_], pollsKept pids, .ok .stillAlive, rfl, runs_ask.mpr rfl, ?_⟩
    exact runs_bind.mpr ⟨_, [], pids, (List.append_nil _).symm, ih, .refl _⟩

theorem keepPids_pids (jobs : List Job) : JobTable.keepPids jobs (jobs.map Job.pids) = jobs := by
  induction jobs with
  | nil => rfl
  | cons job jobs ih => rw [List.map_cons, JobTable.keepPids, ih]

theorem runs_collectEach_quiet {jobs : List Job} {left : List (List Pid)} {t : List Event}
    (ht : Quiet t) (h : Runs (collectEach jobs) t left) : left = jobs.map Job.pids := by
  induction jobs generalizing t left with
  | nil => exact (runs_done.mp h).2
  | cons job jobs ih =>
    simp only [collectEach, bind_eq, pure_eq, runs_bind] at h
    obtain ⟨t₁, _, pids, rfl, hpids, t₂, t₃, rest, rfl, hrest, h⟩ := h
    obtain ⟨rfl, rfl⟩ := runs_done.mp h
    obtain rfl := runs_stillThere_quiet (fun e he => ht e (by simp [he])) hpids
    obtain rfl := ih (fun e he => ht e (by simp [he])) hrest
    rfl

theorem runs_collectEach_kept (jobs : List Job) :
    Runs (collectEach jobs) (pollsKept (pidsOf jobs)) (jobs.map Job.pids) := by
  induction jobs with
  | nil => exact .refl _
  | cons job jobs ih =>
    simp only [collectEach, bind_eq, pure_eq, pidsOf, List.flatMap_cons, pollsKept,
      List.map_append]
    refine runs_bind.mpr ⟨_, _, job.pids, rfl, runs_pollsKept job.pids, ?_⟩
    exact runs_bind.mpr ⟨_, [], _, (List.append_nil _).symm, ih, .refl _⟩

namespace JobTable

theorem retain_pids (jobs : JobTable) : jobs.retain (jobs.values.map Job.pids) = jobs :=
  eq_of_values (by rw [values_retain, keepPids_pids])

theorem takeFinished_of_manned {jobs : JobTable} (h : jobs.Manned) :
    jobs.takeFinished = ([], jobs) := by
  have hnone : jobs.takeFinished.1 = [] := by
    rw [takeFinished_fst, List.filter_eq_nil_iff]
    intro job hjob
    simpa using h job hjob
  have hall : jobs.takeFinished.2 = jobs := by
    refine eq_of_values ?_
    rw [values_takeFinished, List.filter_eq_self]
    intro job hjob
    simpa using h job hjob
  exact Prod.ext hnone hall

/-- Reaping is asking about every process and splitting off the finished jobs. -/
theorem runs_reap {jobs jobs' : JobTable} {t : List Event} {done : List Job} :
    Runs jobs.reap t (done, jobs') ↔ ∃ left, Runs (collectEach jobs.values) t left ∧
      (done, jobs') = (jobs.retain left).takeFinished := by
  simp only [JobTable.reap, bind_eq, pure_eq, runs_bind, runs_done]
  constructor
  · rintro ⟨t₁, _, left, rfl, hcollect, rfl, hsplit⟩
    exact ⟨left, by simpa using hcollect, hsplit⟩
  · rintro ⟨left, hcollect, hsplit⟩
    exact ⟨t, [], left, (List.append_nil t).symm, hcollect, rfl, hsplit⟩

/-- Where all jobs have processes and all of these are still there, a reap changes nothing. -/
theorem runs_reap_kept {jobs : JobTable} (h : jobs.Manned) :
    Runs jobs.reap (pollsKept jobs.listed) ([], jobs) :=
  runs_reap.mpr ⟨_, runs_collectEach_kept _, by rw [retain_pids, takeFinished_of_manned h]⟩

end JobTable

theorem runs_reap {ctx ctx' : Context} {t : List Event} (h : Runs ctx.reap t ctx') :
    ∃ t₁ t₂ left, t = t₁ ++ t₂ ∧ Runs (collectEach ctx.jobs.values) t₁ left ∧
      ctx' = { ctx with jobs := (ctx.jobs.retain left).takeFinished.2 } := by
  obtain ⟨t₁, t₂, ⟨done, jobs⟩, rfl, hreap, h⟩ := runs_bind.mp h
  obtain ⟨left, hcollect, hsplit⟩ := JobTable.runs_reap.mp hreap
  refine ⟨t₁, t₂, left, rfl, hcollect, ?_⟩
  rw [← hsplit]
  dsimp only at h
  split at h
  · obtain ⟨_, _, _, _, _, h⟩ := runs_bind.mp h
    exact (runs_done.mp h).2
  · exact (runs_done.mp h).2

theorem manned_of_reap {ctx ctx' : Context} {t : List Event} (h : Runs ctx.reap t ctx') :
    ctx'.jobs.Manned := by
  obtain ⟨_, _, left, _, _, rfl⟩ := runs_reap h
  exact JobTable.manned_takeFinished _

/-- A quiet reap changes nothing. -/
theorem runs_reap_quiet {ctx ctx' : Context} {t : List Event} (hm : ctx.jobs.Manned) (ht : Quiet t)
    (h : Runs ctx.reap t ctx') : ctx' = ctx := by
  obtain ⟨t₁, t₂, left, rfl, hcollect, rfl⟩ := runs_reap h
  obtain rfl := runs_collectEach_quiet (fun e he => ht e (List.mem_append_left _ he)) hcollect
  rw [JobTable.retain_pids, JobTable.takeFinished_of_manned hm]

theorem exists_reap_quiet {ctx : Context} (hm : ctx.jobs.Manned) :
    ∃ t, Quiet t ∧ Runs ctx.reap t ctx := by
  refine ⟨_, quiet_pollsKept ctx.jobs.listed, ?_⟩
  refine runs_bind.mpr ⟨_, [], _, (List.append_nil _).symm, JobTable.runs_reap_kept hm, ?_⟩
  dsimp only
  split <;> exact .refl _

/-- A new job lists the stages that were started or those that have stopped. -/
theorem TurnsOut.manned {p : Pipeline} {ctx ctx' : Context} {t : List Event} {ending : Ending}
    (h : TurnsOut p ctx t ending ctx') (hm : ctx.jobs.Manned) : ctx'.jobs.Manned := by
  have hset {ctx₁ : Context} (h₁ : ctx₁.jobs = ctx.jobs) (s : Status) :
      (ctx₁.setStatus p s).jobs.Manned := by
    unfold Context.setStatus
    split <;> simpa [h₁] using hm
  have hstart {t : List Event} {started : Except ShellError Started} {p₁ : Pipeline}
      {ctx₁ : Context} (hs : Runs (startPipeline p ctx) t (started, p₁, ctx₁)) :
      ctx₁.jobs = ctx.jobs := by
    obtain ⟨-, cwd, rfl⟩ := startPipeline_frame hs
    rfl
  have hforeground {t : List Event} {p₁ p₂ : Pipeline} {ctx₁ ctx₂ : Context} {pgid : Pid}
      {interrupted : Bool} (h₁ : ctx₁.jobs = ctx.jobs)
      (hf : Runs (runForeground p₁ pgid ctx₁) t (interrupted, p₂, ctx₂)) : ctx₂.jobs.Manned := by
    obtain ⟨_, _, _, _, _, _, waited, _, -, hl, -, hb, -, -, -, rfl⟩ := runs_runForeground hf
    obtain ⟨terminal, rfl⟩ := lend_takeBack_frame hl hb
    dsimp only
    rw [h₁]
    split
    · exact hm
    · rename_i hs
      exact hm.add (by simpa using hs) _ _ _
  cases h with
  | exit hs => rwa [hstart hs]
  | builtin hs => exact hset (hstart hs) _
  | failed hs _ _ => exact hset (hstart hs) _
  | waited hs _ hf _ => exact hforeground (hstart hs) hf
  | interrupted hs _ hf _ => exact hforeground (hstart hs) hf
  | @detached _ _ p₁ _ _ _ hs _ hd =>
    obtain ⟨-, rfl⟩ := runs_detach hd
    have hpids : p₁.pids ≠ [] := by
      obtain ⟨_, result, -, -, hr, -⟩ | ⟨hs, -⟩ := runs_startPipeline hs
      · cases result <;> simp [Except.map] at hr
      · exact (founded_of_group hs).1
    dsimp only
    rw [hstart hs]
    exact hm.add hpids _ _ _

theorem Proceeds.manned {before : Option Join} {ctx ctx' : Context} {ps : CommandList}
    {t : List Event} {log : List Turn} {flow : Flow} (h : Proceeds before ctx ps t log flow ctx')
    (hm : ctx.jobs.Manned) : ctx'.jobs.Manned := by
  have hattempt {reached : Prop} {status : Option Status} {p : Pipeline} {ctx ctx' : Context}
      {t : List Event} {log : List Turn} {standing : Standing}
      (h : Attempts reached status p ctx t log standing ctx') (hm : ctx.jobs.Manned) :
      ctx'.jobs.Manned := by
    cases h with
    | dropped => exact hm
    | skipped _ => exact hm
    | ran _ hturn => exact hturn.manned hm
  induction h with
  | nil => exact hm
  | cut h => exact hattempt h hm
  | next h _ ih => exact ih (hattempt h hm)

end JobShell
