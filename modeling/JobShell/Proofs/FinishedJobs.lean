import Mathlib.Logic.Function.Basic
import JobShell.Proofs.Reaping
import JobShell.Proofs.Requests

/-!
What reaping does with the jobs, given what has become of the processes. Each listed process is
asked about once and without waiting. The jobs of which no process is left are handed out by
increasing id, and the others keep exactly the processes that are left.
-/
namespace JobShell

open Program

/-- What has become of a process, as far as the shell may know. -/
inductive Condition where
  | running
  | stopped
  /-- It has ended by itself and has not been collected. -/
  | exited (code : Status)
  /-- A signal has killed it, and it has not been collected. -/
  | killed (signal : Signal)
  /-- It is no child of the shell, or none any longer. -/
  | noChild
  deriving DecidableEq, Repr

namespace Condition

def isPresent : Condition → Bool
  | running | stopped => true
  | exited _ | killed _ | noChild => false

/-- The process has ended and has not been collected. -/
def hasEnded : Condition → Bool
  | exited _ | killed _ => true
  | running | stopped | noChild => false

/-- The answer to a wait that does not block. -/
def answer : Condition → Except Errno WaitStatus
  | running | stopped => .ok .stillAlive
  | exited code => .ok (.exited code)
  | killed signal => .ok (.signaled signal)
  | noChild => .error .noChild

/-- Asking about a process that has ended collects it. -/
def asked (c : Condition) : Condition := if c.hasEnded then noChild else c

theorem asked_asked (c : Condition) : c.asked.asked = c.asked := by
  cases c <;> rfl

theorem asked_of_isPresent {c : Condition} (h : c.isPresent = true) : c.asked = c := by
  cases c <;> first | rfl | cases h

theorem stays_answer (c : Condition) : stays (decodeWait c.answer) = c.isPresent := by
  cases c with
  | running => rfl
  | stopped => rfl
  | exited code => rfl
  | killed signal => cases hs : signal.isNamed <;> simp [answer, decodeWait, hs] <;> rfl
  | noChild => rfl

end Condition

/-- The condition of each process. -/
abbrev Processes := Pid → Condition

namespace Processes

/-- Waits that do not block, while nothing becomes of the processes but that they are collected.
Those for the processes in `cut` are cut short by a signal. -/
inductive Step (cut : Pid → Bool) (P : Processes) : Event → Processes → Prop
  | cutShort {pid : Pid} {options : WaitOptions} : cut pid = true →
      Step cut P (cutShort (.wait pid options)) P
  | asked {pid : Pid} : cut pid = false →
      Step cut P (.call (.wait pid { noHang := true }) (P pid).answer)
        (Function.update P pid (P pid).asked)
  | other {e : Event} : ¬ e.request.OnChildren → Step cut P e P

variable (cut : Pid → Bool) (P : Processes)

/-- The process stays listed: it is present, or the shell cannot learn about it now. -/
def remains (pid : Pid) : Bool := cut pid || (P pid).isPresent

/-- What asking about the processes comes to: those that have ended are collected. -/
def after (pids : List Pid) : Processes := fun pid =>
  if pid ∈ pids ∧ cut pid = false then (P pid).asked else P pid

/-- How asking about the process is answered. -/
def poll (pid : Pid) : Event :=
  .call (.wait pid { noHang := true }) (if cut pid then .error .interrupted else (P pid).answer)

variable {cut P}

@[simp] theorem after_nil : P.after cut [] = P := by
  funext pid
  simp [after]

theorem after_append (xs ys : List Pid) :
    (P.after cut xs).after cut ys = P.after cut (xs ++ ys) := by
  funext pid
  by_cases hx : pid ∈ xs <;> by_cases hy : pid ∈ ys <;> by_cases hc : cut pid = false <;>
    simp [after, hx, hy, hc, Condition.asked_asked]

theorem after_apply {pid : Pid} {pids : List Pid} : P.after cut pids pid =
    if pid ∈ pids ∧ cut pid = false ∧ (P pid).hasEnded = true then .noChild else P pid := by
  unfold after Condition.asked
  split
  · rename_i hasked
    simp [hasked]
  · rename_i hasked
    rw [if_neg fun h => hasked ⟨h.1, h.2.1⟩]

theorem after_eq {pid : Pid} {pids : List Pid} (h : pid ∉ pids) : P.after cut pids pid = P pid := by
  simp [after, h]

/-- What is asked about one process does not depend on others. -/
theorem map_poll_after {xs ys : List Pid} (h : ∀ pid ∈ ys, pid ∉ xs) :
    ys.map ((P.after cut xs).poll cut) = ys.map (P.poll cut) :=
  List.map_congr_left fun pid hpid => by simp only [poll, after_eq (h pid hpid)]

theorem filter_remains_after {xs ys : List Pid} (h : ∀ pid ∈ ys, pid ∉ xs) :
    ys.filter ((P.after cut xs).remains cut) = ys.filter (P.remains cut) :=
  List.filter_congr fun pid hpid => by simp only [remains, after_eq (h pid hpid)]

theorem step_wait {P' : Processes} {pid : Pid} {answer : Except Errno WaitStatus} :
    Step cut P (.call (.wait pid { noHang := true }) answer) P' ↔
      .call (.wait pid { noHang := true }) answer = P.poll cut pid ∧ P' = P.after cut [pid] := by
  have hafter (hc : cut pid = false) : P.after cut [pid] = Function.update P pid (P pid).asked := by
    funext pid'
    by_cases hp : pid' = pid
    · subst hp
      simp [after, hc]
    · simp [after, hp]
  have hcut (hc : cut pid = true) : P.after cut [pid] = P := by
    funext pid'
    by_cases hp : pid' = pid <;> simp [after, hp, hc]
  constructor
  · intro h
    cases h with
    | cutShort hc => exact ⟨by simp [poll, hc], (hcut hc).symm⟩
    | asked hc => exact ⟨by simp [poll, hc], (hafter hc).symm⟩
    | other hno => exact absurd trivial hno
  · rintro ⟨heq, rfl⟩
    rw [heq, poll]
    cases hc : cut pid with
    | true =>
      rw [hcut hc, if_pos rfl]
      exact .cutShort hc
    | false =>
      rw [hafter hc, if_neg Bool.false_ne_true]
      exact .asked hc

/-- A process that has been asked about is kept exactly if it remains. -/
theorem stays_poll {pid : Pid} {answer : Except Errno WaitStatus}
    (h : .call (.wait pid { noHang := true }) answer = P.poll cut pid) :
    stays (decodeWait answer) = P.remains cut pid := by
  simp only [poll, Event.call.injEq, heq_eq_eq, true_and] at h
  subst h
  cases hc : cut pid with
  | true => simp [remains, hc]; rfl
  | false => simpa [remains, hc] using (P pid).stays_answer

theorem runsIn_stillThere {pids rest : List Pid} {t : List Event} {P' : Processes}
    (hd : pids.Nodup) : RunsIn (Step cut) P (stillThere pids) t rest P' ↔
      t = pids.map (P.poll cut) ∧ rest = pids.filter (P.remains cut) ∧
        P' = P.after cut pids := by
  induction pids generalizing P t rest P' with
  | nil =>
    rw [after_nil]
    exact runsIn_done
  | cons pid pids ih =>
    obtain ⟨hpid, hpids⟩ := List.nodup_cons.mp hd
    have hothers : ∀ pid' ∈ pids, pid' ∉ [pid] := by
      rintro pid' hmem hsame
      exact hpid (List.mem_singleton.mp hsame ▸ hmem)
    have hkeep {answer : Except Errno WaitStatus}
        (h : .call (.wait pid { noHang := true }) answer = P.poll cut pid) :
        (if stays (decodeWait answer) then pid :: pids.filter (P.remains cut)
          else pids.filter (P.remains cut)) = (pid :: pids).filter (P.remains cut) := by
      rw [stays_poll h, List.filter_cons]
    rw [stillThere_cons, runsIn_bind]
    simp only [runsIn_ask, step_wait, runsIn_bind, ih hpids, runsIn_done]
    constructor
    · rintro ⟨_, _, answer, _, rfl, ⟨rfl, hpoll, rfl⟩, _, _, _, _, rfl, ⟨rfl, rfl, rfl⟩, rfl, rfl,
        rfl⟩
      rw [map_poll_after hothers, filter_remains_after hothers, hkeep hpoll, after_append, hpoll]
      exact ⟨by simp, rfl, rfl⟩
    · rintro ⟨rfl, rfl, rfl⟩
      have hpoll : Event.call (.wait pid { noHang := true }) _ = P.poll cut pid := rfl
      refine ⟨[_], _, _, _, rfl, ⟨rfl, hpoll, rfl⟩, _, [], _, _, (List.append_nil _).symm,
        ⟨(map_poll_after hothers).symm, rfl, rfl⟩, rfl, ?_, ?_⟩
      · rw [filter_remains_after hothers, hkeep hpoll]
      · rw [after_append]
        rfl

/-- The jobs with those of their processes that remain. -/
def keep (remains : Pid → Bool) (jobs : List Job) : List Job :=
  jobs.map fun job => { job with pids := job.pids.filter remains }

theorem keepPids_filter (remains : Pid → Bool) (jobs : List Job) :
    JobTable.keepPids jobs (jobs.map fun job => job.pids.filter remains) = keep remains jobs := by
  induction jobs with
  | nil => rfl
  | cons job jobs ih => rw [List.map_cons, JobTable.keepPids, ih, keep, keep, List.map_cons]

theorem pidsOf_keep (remains : Pid → Bool) (jobs : List Job) :
    pidsOf (keep remains jobs) = (pidsOf jobs).filter remains := by
  simp only [pidsOf, keep, List.filter_flatMap, List.flatMap_map]

theorem keep_eq_self {remains : Pid → Bool} {jobs : List Job}
    (h : ∀ pid ∈ pidsOf jobs, remains pid = true) : keep remains jobs = jobs := by
  refine (List.map_congr_left fun job hjob => ?_).trans (List.map_id jobs)
  have hpids : job.pids.filter remains = job.pids :=
    List.filter_eq_self.mpr fun pid hpid => h pid (List.mem_flatMap.mpr ⟨job, hjob, hpid⟩)
  rw [hpids, id]

theorem runsIn_collectEach {jobs : List Job} {left : List (List Pid)} {t : List Event}
    {P' : Processes} (hd : (pidsOf jobs).Nodup) :
    RunsIn (Step cut) P (collectEach jobs) t left P' ↔
      t = (pidsOf jobs).map (P.poll cut) ∧
        left = jobs.map (fun job => job.pids.filter (P.remains cut)) ∧
        P' = P.after cut (pidsOf jobs) := by
  induction jobs generalizing P t left P' with
  | nil =>
    change RunsIn (Step cut) P (done []) t left P' ↔ t = [] ∧ left = [] ∧ P' = P.after cut []
    rw [after_nil]
    exact runsIn_done
  | cons job jobs ih =>
    have hlisted : pidsOf (job :: jobs) = job.pids ++ pidsOf jobs := rfl
    rw [hlisted] at hd ⊢
    obtain ⟨hjob, hrest, hdisjoint⟩ := List.nodup_append.mp hd
    have hothers : ∀ pid ∈ pidsOf jobs, pid ∉ job.pids :=
      fun pid hpid hmem => hdisjoint pid hmem pid hpid rfl
    simp only [collectEach, bind_eq, pure_eq, runsIn_bind, runsIn_stillThere hjob, ih hrest,
      runsIn_done]
    have hleft : jobs.map (fun job' => job'.pids.filter ((P.after cut job.pids).remains cut)) =
        jobs.map fun job => job.pids.filter (P.remains cut) := by
      refine List.map_congr_left fun job' hjob' => ?_
      exact filter_remains_after fun pid hpid =>
        hothers pid (List.mem_flatMap.mpr ⟨job', hjob', hpid⟩)
    constructor
    · rintro ⟨_, _, _, _, rfl, ⟨rfl, rfl, rfl⟩, _, _, _, _, rfl, ⟨rfl, rfl, rfl⟩, rfl, rfl, rfl⟩
      rw [map_poll_after hothers, hleft, after_append]
      exact ⟨by simp, rfl, rfl⟩
    · rintro ⟨rfl, rfl, rfl⟩
      refine ⟨_, _, _, _, List.map_append, ⟨rfl, rfl, rfl⟩, _, [], _, _,
        (List.append_nil _).symm, ⟨(map_poll_after hothers).symm, rfl, rfl⟩, rfl, ?_, ?_⟩
      · rw [hleft, List.map_cons]
      · rw [after_append]

/-- A reap, as far as the conditions of the processes decide it. -/
theorem runsIn_reap {jobs left : JobTable} {t : List Event} {done : List Job} {P' : Processes}
    (hd : jobs.listed.Nodup) : RunsIn (Step cut) P jobs.reap t (done, left) P' ↔
      t = jobs.listed.map (P.poll cut) ∧
        done = (keep (P.remains cut) jobs.values).filter (fun job => job.pids.isEmpty) ∧
        left.values = (keep (P.remains cut) jobs.values).filter (fun job => !job.pids.isEmpty) ∧
        P' = P.after cut jobs.listed := by
  have hsplit : (done, left) = (jobs.retain (jobs.values.map fun job =>
        job.pids.filter (P.remains cut))).takeFinished ↔
      done = (keep (P.remains cut) jobs.values).filter (fun job => job.pids.isEmpty) ∧
        left.values = (keep (P.remains cut) jobs.values).filter fun job => !job.pids.isEmpty := by
    rw [JobTable.eq_takeFinished_iff, JobTable.values_retain, keepPids_filter]
  constructor
  · rintro ⟨hrun, hl⟩
    obtain ⟨lists, hcollect, htaken⟩ := JobTable.runs_reap.mp hrun
    obtain ⟨rfl, rfl, rfl⟩ := (runsIn_collectEach hd).mp ⟨hcollect, hl⟩
    obtain ⟨hdone, hleft⟩ := hsplit.mp htaken
    exact ⟨rfl, hdone, hleft, rfl⟩
  · rintro ⟨rfl, hdone, hleft, rfl⟩
    obtain ⟨hcollect, hl⟩ := (runsIn_collectEach hd).mpr ⟨rfl, rfl, rfl⟩
    exact ⟨JobTable.runs_reap.mpr ⟨_, hcollect, hsplit.mpr ⟨hdone, hleft⟩⟩, hl⟩

/-- Where all processes are present, nothing comes of a reap. -/
theorem runsIn_reap_again {jobs left : JobTable} {t : List Event} {done : List Job}
    {P' : Processes} (hm : jobs.Manned) (hd : jobs.listed.Nodup)
    (hp : ∀ pid ∈ jobs.listed, (P pid).isPresent = true)
    (h : RunsIn (Step cut) P jobs.reap t (done, left) P') :
    done = [] ∧ left = jobs ∧ P' = P := by
  obtain ⟨-, rfl, hleft, rfl⟩ := (runsIn_reap hd).mp h
  have hremains : ∀ pid ∈ jobs.listed, P.remains cut pid = true :=
    fun pid hpid => by rw [remains, hp pid hpid, Bool.or_true]
  rw [keep_eq_self hremains] at hleft ⊢
  refine ⟨?_, JobTable.eq_of_values (hleft.trans ?_), ?_⟩
  · rw [List.filter_eq_nil_iff]
    intro job hjob
    simpa using hm job hjob
  · rw [List.filter_eq_self]
    intro job hjob
    simpa using hm job hjob
  · funext pid
    rw [after]
    split
    · rename_i hasked
      exact Condition.asked_of_isPresent (hp pid hasked.1)
    · rfl

end Processes

theorem isEmpty_filter (remains : Pid → Bool) (pids : List Pid) :
    (pids.filter remains).isEmpty = pids.all fun pid => !remains pid := by
  induction pids with
  | nil => rfl
  | cons pid pids ih => cases hr : remains pid <;> simp [hr, ih]

namespace Processes

theorem keep_filter_finished (remains : Pid → Bool) (jobs : List Job) :
    (keep remains jobs).filter (fun job => job.pids.isEmpty) =
      (jobs.filter fun job => job.pids.all fun pid => !remains pid).map
        fun job => { job with pids := [] } := by
  rw [keep, List.filter_map]
  simp only [Function.comp_def, isEmpty_filter]
  refine List.map_congr_left fun job hjob => ?_
  have hnone := (List.mem_filter.mp hjob).2
  rw [← isEmpty_filter, List.isEmpty_iff] at hnone
  rw [hnone]

theorem keep_filter_left (remains : Pid → Bool) (jobs : List Job) :
    (keep remains jobs).filter (fun job => !job.pids.isEmpty) =
      keep remains (jobs.filter fun job => job.pids.any remains) := by
  rw [keep, List.filter_map]
  simp only [Function.comp_def, isEmpty_filter, List.any_eq_not_all_not]
  rfl

end Processes

/-- Reaping hands out, by increasing id, exactly the jobs none of whose processes is running or
stopped, each without processes and otherwise as it was. The other jobs stay under their ids with
exactly their running and stopped processes. Exactly the listed processes that have ended are
collected; each listed process is asked about once, without blocking, and no other one is. A
process that a signal keeps the shell from learning about stays listed and as it is. If there is
none, reaping again does nothing. -/
theorem reap_removes_finished (jobs : JobTable) (hd : jobs.listed.Nodup) (P : Processes)
    (cut : Pid → Bool) :
    (∃ t done left P', RunsIn (Processes.Step cut) P jobs.reap t (done, left) P') ∧
    ∀ t done left P', RunsIn (Processes.Step cut) P jobs.reap t (done, left) P' →
      t.map Event.request = jobs.listed.map (fun pid => .call (.wait pid { noHang := true })) ∧
      (done.map Job.id).Pairwise (· < ·) ∧
      done = (jobs.values.filter fun job => job.pids.all fun pid => !P.remains cut pid).map
        (fun job => { job with pids := [] }) ∧
      left.values = (jobs.values.filter fun job => job.pids.any (P.remains cut)).map
        (fun job => { job with pids := job.pids.filter (P.remains cut) }) ∧
      (∀ pid, P' pid = if pid ∈ jobs.listed ∧ cut pid = false ∧ (P pid).hasEnded = true
        then .noChild else P pid) ∧
      left.Ordered ∧ left.listed.Nodup ∧
      ((∀ pid ∈ jobs.listed, cut pid = false) → ∀ cut' t' done' left' P'',
        RunsIn (Processes.Step cut') P' left.reap t' (done', left') P'' →
        done' = [] ∧ left' = left ∧ P'' = P') := by
  constructor
  · let t := jobs.listed.map (P.poll cut)
    obtain ⟨hcollect, hl⟩ : RunsIn (Processes.Step cut) P (collectEach jobs.values) t _ _ :=
      (Processes.runsIn_collectEach hd).mpr ⟨rfl, rfl, rfl⟩
    exact ⟨t, _, _, _, JobTable.runs_reap.mpr ⟨_, hcollect, rfl⟩, hl⟩
  intro t done left P' h
  obtain ⟨rfl, hdone, hleft, rfl⟩ := (Processes.runsIn_reap hd).mp h
  have hmanned : left.Manned := by
    intro job hjob
    rw [hleft] at hjob
    simpa using (List.mem_filter.mp hjob).2
  have hlisted : left.listed = jobs.listed.filter (P.remains cut) := by
    rw [JobTable.listed, hleft, pidsOf_filter_nonempty, Processes.pidsOf_keep]
    rfl
  rw [Processes.keep_filter_finished] at hdone
  rw [Processes.keep_filter_left] at hleft
  have hnodup : left.listed.Nodup := hlisted ▸ hd.filter _
  refine ⟨?_, ?_, hdone, hleft, fun pid => Processes.after_apply, left.increasing, hnodup, ?_⟩
  · simp [Processes.poll, Event.request]
  · rw [hdone, List.map_map]
    have hids : (jobs.values.map Job.id).Pairwise (· < ·) := by
      rw [JobTable.map_id_values]
      exact jobs.increasing
    exact List.Pairwise.sublist (List.filter_sublist.map Job.id) hids
  · intro hcut cut' t' done' left' P''
    refine Processes.runsIn_reap_again hmanned hnodup fun pid hpid => ?_
    obtain ⟨hmem, hremains⟩ := List.mem_filter.mp (hlisted ▸ hpid)
    have hpresent : (P pid).isPresent = true := by
      simpa [Processes.remains, hcut pid hmem] using hremains
    rw [Processes.after, Condition.asked_of_isPresent hpresent, ite_self]
    exact hpresent

/-- A job of some `cat`. -/
def mixedJob (id : Nat) (pids : List Pid) : Job :=
  { id, group := 10, pids, state := .running, text := "cat" }

def mixedJobs : JobTable :=
  .ofJobs [mixedJob 1 [10, 11], mixedJob 2 [], mixedJob 4 [12, 13]] (by decide)

/-- One process of the first job has ended and one has stopped. A signal without a name has killed
one of the last job, and the other was collected before. -/
def mixedProcesses : Processes := fun pid =>
  if pid = 10 then .exited 0 else if pid = 11 then .stopped
  else if pid = 12 then .killed 34 else .noChild

/-- The second job has no process, and the last job is finished. -/
theorem reap_removes_finished_mixed :
    mixedJobs.listed.Nodup ∧ ∃ t left P',
      RunsIn (Processes.Step fun _ => false) mixedProcesses mixedJobs.reap t
        ([mixedJob 2 [], mixedJob 4 []], left) P' ∧ left.values = [mixedJob 1 [11]] := by
  have hd : mixedJobs.listed.Nodup := by decide
  obtain ⟨⟨t, done, left, P', h⟩, hall⟩ :=
    reap_removes_finished mixedJobs hd mixedProcesses fun _ => false
  obtain ⟨-, -, hdone, hleft, -⟩ := hall t done left P' h
  have hdone : done = [mixedJob 2 [], mixedJob 4 []] := hdone
  subst hdone
  exact ⟨hd, t, left, P', h, hleft⟩

end JobShell
