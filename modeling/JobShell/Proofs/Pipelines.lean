import JobShell.Proofs.Children
import JobShell.Proofs.Reached

/-!
Pipelines and their children. A pipeline that is reached starts a process for every stage or
none at all, waits for none but its own, and leaves behind at most one job, which lists those
of its processes that are not collected.
-/
namespace JobShell

open Program Ledger

/-- The ledger when the processes `new` have been started. -/
def Ledger.start (l : Ledger) (new : List Pid) : Ledger :=
  { l with started := l.started ++ new, uncollected := l.uncollected ++ new }

@[simp] theorem start_nil (l : Ledger) : l.start [] = l := by simp [Ledger.start]

theorem Ledger.step_fork {l l' : Ledger} {child : Program Empty} {answer : Except Errno Pid}
    (hs : Step l (.fork child answer) l') : ∃ pid, answer = .ok pid ∧ l' = l.start [pid] := by
  cases hs with
  | @started _ pid _ => exact ⟨pid, rfl, rfl⟩
  | other h => exact absurd trivial h

/-- The job that a pipeline leaves behind under the number `id` when it has started the processes
`new` and those in `seen` were seen to stop. -/
def Pipeline.job? (p : Pipeline) (id : Nat) (new seen : List Pid) : Option Job :=
  let pids := if p.isBackground then new else seen
  let state := if p.isBackground then .running else .stopped
  if pids = [] then none
  else some { id, group := new.head?.getD 0, pids, state, text := p.text }

theorem Pipeline.job?_id (p : Pipeline) {id : Nat} {new seen : List Pid} {job : Job}
    (h : p.job? id new seen = some job) : job.id = id := by
  unfold Pipeline.job? at h
  obtain ⟨-, rfl⟩ : _ ∧ _ = job := by simpa using h
  rfl

/-- The table with one more job, if there is one to add. -/
def JobTable.addIfAny (t : JobTable) : Option Job → JobTable
  | none => t
  | some job => t.insert job

/-- The pipeline `p`, now `p'`, has one process for every stage, led by the first. -/
structure Pipeline.Grouped (p p' : Pipeline) (pgid : Pid) (new : List Pid) : Prop where
  join : p'.join = p.join
  text : p'.text = p.text
  pids : p'.pids = new
  leader : new.head? = some pgid
  allStages : new.length = p.stages.length

/-- A pipeline is started with a process for every stage or without any. -/
inductive Pipeline.Starts (p : Pipeline) (l : Ledger) :
    Except ShellError Started → Pipeline → Ledger → Prop
  | nothing {started : Except ShellError Started} {p' : Pipeline} :
      (∀ pgid, started ≠ .ok (.group pgid)) → p'.pids = [] → Starts p l started p' l
  | group {pgid : Pid} {new : List Pid} {p' : Pipeline} :
      p.Grouped p' pgid new → Starts p l (.ok (.group pgid)) p' (l.start new)

/-- What the pipeline `p` has done to the children and the jobs. -/
structure Pipeline.Ran (p : Pipeline) (jobs : JobTable) (l : Ledger) (new seen : List Pid)
    (jobs' : JobTable) (l' : Ledger) : Prop where
  started : l'.started = l.started ++ new
  allStages : new = [] ∨ new.length = p.stages.length
  stopped : l'.stopped = l.stopped ++ seen
  own : seen.Sublist new
  job : jobs' = jobs.addIfAny (p.job? jobs.freeId new seen)

theorem Accounted.addIfAny {jobs : JobTable} {l l' : Ledger} (h : Accounted jobs l)
    (hl' : l'.Sound) (job : Option Job) (hnew : ∀ j ∈ job, j.id = jobs.freeId ∧ j.pids ≠ [])
    (hp : l'.uncollected.Perm (job.elim [] Job.pids ++ jobs.listed)) :
    Accounted (jobs.addIfAny job) l' := by
  cases job with
  | none => exact ⟨hl', h.nonempty, hp⟩
  | some job =>
    obtain ⟨hid, hpids⟩ := hnew job rfl
    refine ⟨hl', fun job' hjob' => ?_, hp.trans (JobTable.listed_insert hid).symm⟩
    obtain rfl | hmem := List.mem_cons.mp ((JobTable.insert_perm hid).subset hjob')
    · exact hpids
    · exact h.nonempty job' hmem

/-- Starting stages starts one process for each, in order. -/
theorem ensures_startStages (old : List Pid) (pipes : List PipeEnds) (ctx : Context)
    (index : Nat) (group : Option Pid) {l : Ledger} (stages : List Stage) :
    Ensures Step (AllowsNew old) l (startStages pipes ctx index group stages) fun l' r =>
      ∃ new, r.1 = .ok () ∧ r.2.1 = group.or new.head? ∧ r.2.2.map Stage.pid = new.map some ∧
        r.2.2.map Stage.argv = stages.map Stage.argv ∧ l' = l.start new := by
  induction stages generalizing l index group with
  | nil => exact ensures_done ⟨[], rfl, by simp, rfl, rfl, by simp⟩
  | cons stage stages ih =>
    refine Ensures.bind (ensures_start trivial ?_)
    intro answer l₁ hs
    obtain ⟨pid, rfl, rfl⟩ := step_fork hs
    have hgroup : Idle (ask (.setGroup pid (group.getD pid))) := asks_ask.mpr id
    refine hgroup.ensures_bind (fun _ => allowsNew_other) ?_
    intro _ _ _
    refine Ensures.bind ((ih (index + 1) (some (group.getD pid))).mono ?_)
    rintro l₂ ⟨result, group', rest⟩ ⟨new, rfl, rfl, hpids, hargv, rfl⟩
    refine ensures_done ⟨pid :: new, rfl, ?_, ?_, ?_, ?_⟩
    · cases group <;> rfl
    · simpa using hpids
    · simpa using hargv
    · simp [Ledger.start]

theorem text_congr {p q : Pipeline} (h : p.stages.map Stage.argv = q.stages.map Stage.argv) :
    p.text = q.text := by
  have hmap := congrArg (List.map (" ".intercalate ·)) h
  simp only [List.map_map] at hmap
  exact congrArg (" | ".intercalate ·) hmap

theorem pids_of_map {stages : List Stage} {new : List Pid}
    (h : stages.map Stage.pid = new.map some) : stages.filterMap Stage.pid = new := by
  have hmap : stages.filterMap Stage.pid = (stages.map Stage.pid).filterMap id := by
    rw [List.filterMap_map]
    rfl
  rw [hmap, h]
  simp

theorem ensures_startProcesses (old : List Pid) {p : Pipeline} (ctx : Context) {l : Ledger}
    (hp : p.pids = []) :
    Ensures Step (AllowsNew old) l (startProcesses p ctx) fun l' r => p.Starts l r.1 r.2 l' := by
  unfold startProcesses
  split
  · exact ensures_done (.nothing (by simp) hp)
  · refine ((within_openPipes [] _).idle (by decide)).ensures_bind (fun _ => allowsNew_other) ?_
    intro made _ _
    cases made with
    | error e => exact ensures_done (.nothing (by simp) hp)
    | ok pipes =>
      refine Ensures.bind ((ensures_startStages old pipes ctx 0 none p.stages).mono ?_)
      rintro l₁ ⟨result, group, stages⟩ ⟨new, rfl, rfl, hpids, hargv, rfl⟩
      refine ((within_closePipes pipes).idle (by decide)).ensures_bind (fun _ => allowsNew_other) ?_
      intro _ _ _
      have hlength : new.length = p.stages.length := by
        have h₁ := congrArg List.length hpids
        have h₂ := congrArg List.length hargv
        simp only [List.length_map] at h₁ h₂
        omega
      cases new with
      | nil =>
        rw [start_nil]
        exact ensures_done (.nothing (by simp) (pids_of_map hpids))
      | cons pid new =>
        exact ensures_done (.group ⟨rfl, text_congr hargv, pids_of_map hpids, rfl, hlength⟩)

theorem ensures_startPipeline (old : List Pid) {p : Pipeline} {ctx : Context} {l : Ledger}
    (hp : p.pids = []) :
    Ensures Step (AllowsNew old) l (startPipeline p ctx) fun l' r =>
      r.2.2.jobs = ctx.jobs ∧ p.Starts l r.1 r.2.1 l' := by
  have hprocesses : Ensures Step (AllowsNew old) l ((startProcesses p ctx).bind fun started =>
      done (started.1, started.2, ctx)) fun l' r => p.Starts l r.1 r.2.1 l' :=
    Ensures.bind ((ensures_startProcesses old ctx hp).mono fun _ _ h => ensures_done h)
  have hstart : Ensures Step (AllowsNew old) l (startPipeline p ctx) fun l' r =>
      p.Starts l r.1 r.2.1 l' := by
    unfold startPipeline
    split
    · split
      · refine ((within_runInShell ctx _).idle (by decide)).ensures_bind
          (fun _ => allowsNew_other) ?_
        rintro ⟨result, ctx'⟩ _ _
        refine ensures_done (.nothing ?_ hp)
        cases result <;> simp [Except.map]
      · exact hprocesses
    · exact hprocesses
  refine hstart.runs.mono ?_
  rintro l' ⟨started, p', ctx'⟩ ⟨⟨t, hrun, -⟩, hcase⟩
  obtain ⟨-, cwd, rfl⟩ := startPipeline_frame hrun
  exact ⟨rfl, hcase⟩

/-- Waiting in the foreground leaves a job exactly if some stage was seen to stop. -/
theorem ensures_runForeground (old : List Pid) {p : Pipeline} (pgid : Pid) {ctx : Context}
    {l : Ledger} {others : List Pid} (h : l.uncollected.Perm (p.pids ++ others)) (hl : l.Sound)
    (hold : ∀ pid ∈ p.pids, pid ∉ old) :
    Ensures Step (AllowsNew old) l (runForeground p pgid ctx) fun l' r =>
      ∃ seen, seen.Sublist p.pids ∧ l'.stopped = l.stopped ++ seen ∧ l'.started = l.started ∧
        l'.uncollected.Perm (seen ++ others) ∧
        r.2.2.jobs = if seen = [] then ctx.jobs
          else (ctx.jobs.add pgid seen .stopped p.text).2 := by
  refine ((within_lend ctx pgid).idle (by decide)).ensures_bind (fun _ => allowsNew_other) ?_
  rintro ⟨handed, ctx₁⟩ t hlend
  refine Ensures.bind ((ensures_waitFrom old _ {} h hl.nodup hold).mono ?_)
  rintro l₁ waited ⟨seen, hseen, hsub, hst, hstart, hperm⟩
  obtain rfl : waited.stopped = seen := hseen
  refine ((within_takeBack _ handed).idle (by decide)).ensures_bind (fun _ => allowsNew_other) ?_
  intro ctx₂ u hback
  obtain ⟨terminal, rfl⟩ := lend_takeBack_frame hlend hback
  dsimp only
  split
  · rename_i hnone
    refine Ensures.bind (ensures_done (ensures_done ?_))
    refine ⟨_, hsub, hst, hstart, hperm, ?_⟩
    rw [if_pos (by simpa using hnone)]
  · rename_i hsome
    refine ((within_suspend _ _ pgid _).idle (by decide)).ensures_bind (fun _ => allowsNew_other) ?_
    intro ctx₃ v hsuspend
    obtain ⟨-, rfl⟩ := runs_suspend hsuspend
    refine ensures_done ⟨_, hsub, hst, hstart, hperm, ?_⟩
    rw [if_neg (by simpa using hsome)]
    rfl

/-- A pipeline that started nothing has changed nothing. -/
theorem Pipeline.ran_nothing (p : Pipeline) (jobs : JobTable) (l : Ledger) :
    p.Ran jobs l [] [] jobs l := by
  have hjob : p.job? jobs.freeId [] [] = none := by
    unfold Pipeline.job?
    split <;> rfl
  exact ⟨by simp, .inl rfl, by simp, List.Sublist.refl _, by rw [hjob]; rfl⟩

section

variable {p p' : Pipeline} {ctx : Context} {l : Ledger} {pgid : Pid} {new : List Pid}

theorem job?_background (hp : p.Grouped p' pgid new) (hb : p.isBackground = true) (id : Nat)
    (seen : List Pid) : p.job? id new seen =
      some { id, group := pgid, pids := new, state := .running, text := p.text } := by
  have hne : new ≠ [] := by
    rintro rfl
    cases hp.leader
  simp [Pipeline.job?, hb, hne, hp.leader]

theorem job?_foreground (hp : p.Grouped p' pgid new) (hb : p.isBackground = false) (id : Nat)
    (seen : List Pid) : p.job? id new seen = if seen = [] then none else
      some { id, group := pgid, pids := seen, state := .stopped, text := p.text } := by
  simp [Pipeline.job?, hb, hp.leader]

/-- In the background all processes of the pipeline go into its job. -/
theorem ensures_detached (h : Accounted ctx.jobs l) (hl : (l.start new).Sound)
    (hp : p.Grouped p' pgid new) (hb : p.isBackground = true) :
    Ensures Step (AllowsNew l.uncollected) (l.start new) (detach p' pgid ctx) fun l' ctx' =>
      Accounted ctx'.jobs l' ∧ p.Ran ctx.jobs l new [] ctx'.jobs l' := by
  rw [← bind_done (detach p' pgid ctx)]
  refine ((within_detach ctx p' pgid).idle (by decide)).ensures_bind (fun _ => allowsNew_other) ?_
  intro ctx' t hdetach
  obtain ⟨-, rfl⟩ := runs_detach hdetach
  have hjob := job?_background hp hb ctx.jobs.freeId []
  have hadd : (ctx.jobs.add pgid p'.pids .running p'.text).2 =
      ctx.jobs.addIfAny (p.job? ctx.jobs.freeId new []) := by
    rw [hjob, hp.pids, hp.text]
    rfl
  refine ensures_done ⟨?_, rfl, .inr hp.allStages, by simp [Ledger.start],
    List.nil_sublist new, hadd⟩
  have hne : new ≠ [] := by
    rintro rfl
    cases hp.leader
  dsimp only
  rw [hadd, hjob]
  refine h.addIfAny hl _ (by rintro _ ⟨⟩; exact ⟨rfl, hne⟩) ?_
  exact List.perm_append_comm.trans (h.listed.append_left new)

/-- In the foreground those that were seen to stop go into a job. -/
theorem ensures_waited (h : Accounted ctx.jobs l) (hl : (l.start new).Sound)
    (hp : p.Grouped p' pgid new) (hb : p.isBackground = false) :
    Ensures Step (AllowsNew l.uncollected) (l.start new) (runForeground p' pgid ctx) fun l' r =>
      Accounted r.2.2.jobs l' ∧ ∃ seen, p.Ran ctx.jobs l new seen r.2.2.jobs l' := by
  have hperm : (l.start new).uncollected.Perm (p'.pids ++ l.uncollected) := by
    rw [hp.pids]
    exact List.perm_append_comm
  have hold : ∀ pid ∈ p'.pids, pid ∉ l.uncollected := by
    intro pid hmem hin
    rw [hp.pids] at hmem
    exact (List.nodup_append.mp hl.nodup).2.2 pid hin pid hmem rfl
  refine (hl.ensures (ensures_runForeground l.uncollected pgid hperm hl hold)).mono ?_
  rintro l' ⟨interrupted, p₁, ctx'⟩ ⟨hl', seen, hsub, hst, hstart, hperm', hjobs⟩
  dsimp only at hjobs ⊢
  have hjob := job?_foreground hp hb ctx.jobs.freeId seen
  have hadd : ctx'.jobs = ctx.jobs.addIfAny (p.job? ctx.jobs.freeId new seen) := by
    rw [hjobs, hp.text, hjob]
    by_cases hseen : seen = [] <;> simp [hseen, JobTable.addIfAny, JobTable.add]
  rw [hp.pids] at hsub
  refine ⟨?_, seen, hstart, .inr hp.allStages, hst, hsub, hadd⟩
  rw [hadd, hjob]
  have hlisted := hperm'.trans (h.listed.append_left seen)
  by_cases hseen : seen = []
  · rw [if_pos hseen]
    refine h.addIfAny hl' _ (by simp) ?_
    simpa [hseen] using hlisted
  · rw [if_neg hseen]
    exact h.addIfAny hl' _ (by rintro _ ⟨⟩; exact ⟨rfl, hseen⟩) hlisted

end

/-- A reached pipeline keeps the account. It waits for none but its own processes, and the
one job that it may leave lists all of them in the background and in the foreground those
that were seen to stop. -/
theorem ensures_runReached {p : Pipeline} {ctx : Context} {l : Ledger}
    (h : Accounted ctx.jobs l) (hp : p.pids = []) :
    Ensures Step (AllowsNew l.uncollected) l (runReached p ctx) fun l' r =>
      Accounted r.2.jobs l' ∧ ∃ new seen, p.Ran ctx.jobs l new seen r.2.jobs l' := by
  have hset (ctx' : Context) (p' : Pipeline) (s : Status) :
      (ctx'.setStatus p' s).jobs = ctx'.jobs := by
    unfold Context.setStatus
    split <;> rfl
  refine Ensures.bind ((h.sound.ensures (ensures_startPipeline l.uncollected hp)).mono ?_)
  rintro l₁ ⟨started, p', ctx'⟩ ⟨hl₁, hjobs, hstarts⟩
  dsimp only at hjobs hstarts
  rw [← hjobs] at h ⊢
  cases hstarts with
  | nothing hnone hpids =>
    have hkept : Accounted ctx'.jobs l ∧
        ∃ new seen, p.Ran ctx'.jobs l new seen ctx'.jobs l :=
      ⟨h, [], [], p.ran_nothing ctx'.jobs l⟩
    cases started with
    | ok started =>
      cases started with
      | group pgid => exact absurd rfl (hnone pgid)
      | finished outcome =>
        cases outcome with
        | exit code => exact ensures_done hkept
        | status status =>
          refine ensures_done ?_
          rw [hset]
          exact hkept
    | error e =>
      refine ((within_printText _).idle (by decide)).ensures_bind (fun _ => allowsNew_other) ?_
      intro _ _ _
      have hwait : waitStages p' = done {} := by
        unfold waitStages
        rw [hpids]
        rfl
      rw [hwait]
      refine Ensures.bind (ensures_done (ensures_done ?_))
      rw [hset]
      exact hkept
  | @group pgid new _ hgrouped =>
    have hback : p'.isBackground = p.isBackground := by
      unfold Pipeline.isBackground
      rw [hgrouped.join]
    dsimp only
    split
    · rename_i hb
      rw [hback] at hb
      refine Ensures.bind ((ensures_detached h hl₁ hgrouped hb).mono ?_)
      rintro l₂ ctx₂ ⟨hacc, hran⟩
      exact ensures_done ⟨hacc, new, [], hran⟩
    · rename_i hb
      rw [hback, Bool.not_eq_true] at hb
      refine Ensures.bind ((ensures_waited h hl₁ hgrouped hb).mono ?_)
      rintro l₂ ⟨interrupted, p₂, ctx₂⟩ ⟨hacc, seen, hran⟩
      exact ensures_done ⟨hacc, new, seen, hran⟩

end JobShell
