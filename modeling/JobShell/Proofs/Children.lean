import JobShell.Proofs.Jobs
import JobShell.Proofs.Requests

/-!
The children of the shell, from start to collection. The ledger follows what the system tells
the shell about them. Waiting for a pipeline leaves uncollected what has stopped, and reaping
leaves uncollected what is listed afterwards.
-/
namespace JobShell

open Program

/-- What has become of the children so far. A number may be given out again once the child
that had it is collected. -/
structure Ledger where
  /-- All children, in the order in which they were started. -/
  started : List Pid := []
  collected : List Pid := []
  uncollected : List Pid := []
  /-- All reports of a stop. -/
  stopped : List Pid := []
  deriving DecidableEq, Repr

/-- Starting a process succeeds with a number that no uncollected child has. Waiting for an
uncollected child reports that it is gone, and thereby collects it, that it has stopped, or,
if the wait must not block, that it is still alive; or the wait is cut short. -/
inductive Ledger.Step : Ledger → Event → Ledger → Prop
  | started {l : Ledger} {child : Program Empty} {pid : Pid} : pid ∉ l.uncollected →
      Step l (.fork child (.ok pid))
        { l with started := l.started ++ [pid], uncollected := l.uncollected ++ [pid] }
  | collected {l : Ledger} {pid : Pid} {options : WaitOptions} {report : WaitStatus} :
      pid ∈ l.uncollected → report.isTerminated = true →
      Step l (.call (.wait pid options) (.ok report))
        { l with collected := l.collected ++ [pid], uncollected := l.uncollected.erase pid }
  | stopped {l : Ledger} {pid : Pid} {options : WaitOptions} {signal : Signal} :
      pid ∈ l.uncollected → options.untraced = true → signal.effect = .stop →
      Step l (.call (.wait pid options) (.ok (.stopped signal)))
        { l with stopped := l.stopped ++ [pid] }
  | alive {l : Ledger} {pid : Pid} {options : WaitOptions} :
      pid ∈ l.uncollected → options.noHang = true →
      Step l (.call (.wait pid options) (.ok .stillAlive)) l
  | cutShort {l : Ledger} {pid : Pid} {options : WaitOptions} :
      Step l (cutShort (.wait pid options)) l
  | unknown {l : Ledger} {pid : Pid} {options : WaitOptions} {answer : Except Errno WaitStatus} :
      pid ∉ l.uncollected → Step l (.call (.wait pid options) answer) l
  | other {l : Ledger} {e : Event} : ¬ e.request.OnChildren → Step l e l

namespace Ledger

/-- Every child started is collected or uncollected, and no two of the latter have one
number. -/
structure Sound (l : Ledger) : Prop where
  conserved : l.started.Perm (l.collected ++ l.uncollected)
  nodup : l.uncollected.Nodup

theorem sound_empty : Sound {} := ⟨List.Perm.refl _, List.nodup_nil⟩

theorem Sound.step {l l' : Ledger} {e : Event} (h : l.Sound) (hs : Step l e l') : l'.Sound := by
  obtain ⟨hc, hn⟩ := h
  cases hs with
  | @started _ pid hpid =>
    refine ⟨?_, ?_⟩
    · rw [← List.append_assoc]
      exact hc.append_right [pid]
    · rw [List.nodup_append]
      refine ⟨hn, by simp, ?_⟩
      rintro a ha b hb rfl
      rw [List.mem_singleton] at hb
      exact hpid (hb ▸ ha)
  | @collected pid _ _ hpid _ =>
    refine ⟨hc.trans ?_, hn.erase pid⟩
    rw [List.append_assoc]
    exact (List.perm_cons_erase hpid).append_left l.collected
  | stopped _ _ _ => exact ⟨hc, hn⟩
  | alive _ _ => exact ⟨hc, hn⟩
  | cutShort => exact ⟨hc, hn⟩
  | unknown _ => exact ⟨hc, hn⟩
  | other _ => exact ⟨hc, hn⟩

theorem Sound.leads {l l' : Ledger} {t : List Event} (h : l.Sound) (hl : Leads Step l t l') :
    l'.Sound :=
  hl.preserves Sound h fun _ _ _ _ hs hstep => hs.step hstep

theorem step_other {l l' : Ledger} {e : Event} (h : ¬ e.request.OnChildren) (hs : Step l e l') :
    l' = l := by
  cases hs with
  | started _ => exact absurd trivial h
  | collected _ _ => exact absurd trivial h
  | stopped _ _ _ => exact absurd trivial h
  | alive _ _ => exact absurd trivial h
  | cutShort => exact absurd trivial h
  | unknown _ => exact absurd trivial h
  | other _ => rfl

/-- What waiting for an uncollected child can report. -/
theorem step_wait {l l' : Ledger} {pid : Pid} {options : WaitOptions}
    {answer : Except Errno WaitStatus} (hpid : pid ∈ l.uncollected)
    (hs : Step l (.call (.wait pid options) answer) l') :
    (∃ report, answer = .ok report ∧ report.isTerminated = true ∧
      l' = { l with collected := l.collected ++ [pid], uncollected := l.uncollected.erase pid }) ∨
    (∃ signal, answer = .ok (.stopped signal) ∧ options.untraced = true ∧
      signal.effect = .stop ∧ l' = { l with stopped := l.stopped ++ [pid] }) ∨
    (answer = .ok .stillAlive ∧ options.noHang = true ∧ l' = l) ∨
    (answer = .error .interrupted ∧ l' = l) := by
  cases hs with
  | collected _ hr => exact .inl ⟨_, rfl, hr, rfl⟩
  | stopped _ hu he => exact .inr (.inl ⟨_, rfl, hu, he, rfl⟩)
  | alive _ ha => exact .inr (.inr (.inl ⟨rfl, ha, rfl⟩))
  | cutShort => exact .inr (.inr (.inr ⟨rfl, rfl⟩))
  | unknown hne => exact absurd hpid hne
  | other ho => exact absurd trivial ho

/-- Any wait is for a child that has not been collected. -/
def Allows (l : Ledger) : Request → Prop
  | .call (.wait pid _) => pid ∈ l.uncollected
  | _ => True

/-- Processes may be started. Waits block and are for uncollected children, none of `old`. -/
def AllowsNew (old : List Pid) (l : Ledger) : Request → Prop
  | .call (.wait pid options) => options.noHang = false ∧ pid ∈ l.uncollected ∧ pid ∉ old
  | _ => True

/-- No process is started. Waits do not block and are for uncollected children. -/
def AllowsPolling (l : Ledger) : Request → Prop
  | .call (.wait pid options) => options.noHang = true ∧ pid ∈ l.uncollected
  | .fork _ => False
  | _ => True

theorem AllowsNew.allows {old : List Pid} {l : Ledger} {r : Request} (h : AllowsNew old l r) :
    Allows l r := by
  unfold Allows
  split
  · exact h.2.1
  · trivial

theorem AllowsPolling.allows {l : Ledger} {r : Request} (h : AllowsPolling l r) :
    Allows l r := by
  unfold Allows
  split
  · exact h.2
  · trivial

theorem allowsNew_other {old : List Pid} {l : Ledger} {r : Request} (h : ¬ r.OnChildren) :
    AllowsNew old l r := by
  unfold AllowsNew
  split
  · exact absurd trivial h
  · trivial

theorem allowsPolling_other {l : Ledger} {r : Request} (h : ¬ r.OnChildren) :
    AllowsPolling l r := by
  unfold AllowsPolling
  split
  · exact absurd trivial h
  · exact absurd trivial h
  · trivial

end Ledger

open Ledger

theorem Signal.isNamed_of_stop {signal : Signal} (h : signal.effect = .stop) :
    signal.isNamed = true := by
  unfold Signal.effect at h
  split at h
  · cases h
  · split at h
    · cases h
    · split at h
      · rename_i hs
        obtain rfl | rfl | rfl | rfl := hs <;> rfl
      · cases h

/-- The report on a child that is gone can be decoded, or it counts as an error. -/
theorem decodeWait_of_terminated {report : WaitStatus} (h : report.isTerminated = true) :
    decodeWait (.ok report) = .ok report ∨ decodeWait (.ok report) = .error .invalid := by
  cases report with
  | exited code => exact .inl rfl
  | signaled signal => cases hs : signal.isNamed <;> simp [decodeWait, hs]
  | stopped signal => cases h
  | continued => cases h
  | stillAlive => cases h

theorem note_stopped_of_terminated {report : WaitStatus} (h : report.isTerminated = true)
    (w : Waited) (last : Option Pid) (pid : Pid) :
    (w.note last pid (decodeWait (.ok report))).stopped = w.stopped := by
  obtain hd | hd := decodeWait_of_terminated h
  · rw [hd]
    cases report with
    | stopped signal => cases h
    | _ => rfl
  · rw [hd]
    rfl

/-- Waiting for a pipeline collects the processes that end and leaves those that stop. -/
theorem ensures_waitFrom (old : List Pid) (last : Option Pid) {l : Ledger} (w : Waited)
    {pids others : List Pid} (h : l.uncollected.Perm (pids ++ others))
    (hn : l.uncollected.Nodup) (hold : ∀ pid ∈ pids, pid ∉ old) :
    Ensures Step (AllowsNew old) l (waitFrom last w pids) fun l' waited =>
      ∃ seen, waited.stopped = w.stopped ++ seen ∧ seen.Sublist pids ∧
        l'.stopped = l.stopped ++ seen ∧ l'.started = l.started ∧
        l'.uncollected.Perm (seen ++ others) := by
  induction pids generalizing l w others with
  | nil => exact ensures_done ⟨[], by simp, List.Sublist.refl _, by simp, rfl, h⟩
  | cons pid pids ih =>
    have hpid : pid ∈ l.uncollected := h.symm.subset List.mem_cons_self
    have hrest : ∀ pid' ∈ pids, pid' ∉ old := fun pid' hp => hold pid' (List.mem_cons_of_mem pid hp)
    refine Ensures.bind (ensures_retry (· = l) rfl ?_ ?_ ?_)
    · rintro _ rfl
      exact ⟨rfl, hpid, hold pid List.mem_cons_self⟩
    · rintro _ l' rfl hs
      obtain ⟨_, ha, -⟩ | ⟨_, ha, -⟩ | ⟨ha, -⟩ | ⟨-, rfl⟩ := step_wait hpid hs
      · cases ha
      · cases ha
      · cases ha
      · rfl
    · rintro l answer l' rfl hne hs
      obtain ⟨report, rfl, hr, rfl⟩ | ⟨signal, rfl, -, he, rfl⟩ | ⟨-, hhang, -⟩ | ⟨rfl, -⟩ :=
        step_wait hpid hs
      · -- the child has ended
        have hperm := (List.perm_cons_erase hpid).symm.trans h
        refine (ih _ hperm.cons_inv (hn.erase pid) hrest).mono ?_
        rintro l' waited ⟨seen, hw, hsub, hst, hl, hp⟩
        rw [note_stopped_of_terminated hr] at hw
        exact ⟨seen, hw, hsub.cons pid, hst, hl, hp⟩
      · -- the child has stopped and joins the others
        have hperm : ({ l with stopped := l.stopped ++ [pid] } : Ledger).uncollected.Perm
            (pids ++ pid :: others) := h.trans List.perm_middle.symm
        refine (ih _ hperm hn hrest).mono ?_
        rintro l' waited ⟨seen, hw, hsub, hst, hl, hp⟩
        simp only [decodeWait, Signal.isNamed_of_stop he, ↓reduceIte, Waited.note] at hw
        refine ⟨pid :: seen, ?_, hsub.cons_cons pid, ?_, hl, hp.trans List.perm_middle⟩
        · rw [hw, List.append_assoc]
          rfl
        · rw [hst, List.append_assoc]
          rfl
      · cases hhang
      · exact absurd rfl hne

/-- Asking about processes drops exactly those that have ended. -/
theorem ensures_stillThere {l : Ledger} {pids others : List Pid}
    (h : l.uncollected.Perm (pids ++ others)) (hn : l.uncollected.Nodup) :
    Ensures Step AllowsPolling l (stillThere pids) fun l' kept =>
      l'.stopped = l.stopped ∧ l'.started = l.started ∧ l'.uncollected.Perm (kept ++ others) := by
  induction pids generalizing l others with
  | nil => exact ensures_done ⟨rfl, rfl, h⟩
  | cons pid pids ih =>
    have hpid : pid ∈ l.uncollected := h.symm.subset List.mem_cons_self
    have hkeep (keep : Bool) (l' : Ledger) (hl : l'.stopped = l.stopped ∧ l'.started = l.started)
        (hn' : l'.uncollected.Nodup)
        (hp : l'.uncollected.Perm ((if keep then [pid] else []) ++ (pids ++ others))) :
        Ensures Step AllowsPolling l' ((stillThere pids).bind fun rest =>
          done (if keep then pid :: rest else rest)) fun l' kept =>
          l'.stopped = l.stopped ∧ l'.started = l.started ∧
            l'.uncollected.Perm (kept ++ others) := by
      have hperm : l'.uncollected.Perm (pids ++ ((if keep then [pid] else []) ++ others)) := by
        refine hp.trans ?_
        cases keep with
        | true => simpa using List.perm_middle.symm
        | false => simp
      refine Ensures.bind ((ih hperm hn').mono ?_)
      rintro l'' rest ⟨hst, hl'', hp''⟩
      refine ensures_done ⟨hst.trans hl.1, hl''.trans hl.2, hp''.trans ?_⟩
      cases keep with
      | true => simp
      | false => simp
    refine Ensures.bind (ensures_ask ⟨rfl, hpid⟩ ?_)
    intro answer l' hs
    obtain ⟨report, rfl, hr, rfl⟩ | ⟨_, -, hu, -⟩ | ⟨rfl, -, rfl⟩ | ⟨rfl, rfl⟩ := step_wait hpid hs
    · have hperm := ((List.perm_cons_erase hpid).symm.trans h).cons_inv
      have hgone := hkeep false { l with
        collected := l.collected ++ [pid], uncollected := l.uncollected.erase pid }
        ⟨rfl, rfl⟩ (hn.erase pid) hperm
      obtain hd | hd := decodeWait_of_terminated hr
      · simp only [hd, hr]
        exact hgone
      · simp only [hd]
        exact hgone
    · cases hu
    · exact hkeep true _ ⟨rfl, rfl⟩ hn h
    · exact hkeep true _ ⟨rfl, rfl⟩ hn h

theorem Ledger.Sound.ensures {α : Type} {allowed : Ledger → Request → Prop} {l : Ledger}
    {p : Program α} {post : Ledger → α → Prop} (hl : l.Sound) (h : Ensures Step allowed l p post) :
    Ensures Step allowed l p fun l' a => l'.Sound ∧ post l' a := by
  refine h.runs.mono ?_
  rintro l' a ⟨⟨t, -, hleads⟩, hpost⟩
  exact ⟨hl.leads hleads, hpost⟩

/-- An idle program leaves the ledger alone, whatever it answers. -/
theorem Idle.ensures_bind {α β : Type} {p : Program α} {f : α → Program β}
    {allowed : Ledger → Request → Prop} {l : Ledger} {post : Ledger → β → Prop} (h : Idle p)
    (ha : ∀ r, ¬ r.OnChildren → allowed l r)
    (hf : ∀ a t, Runs p t a → Ensures Step allowed l (f a) post) :
    Ensures Step allowed l (p.bind f) post := by
  have hp : Ensures Step allowed l p fun l' _ => l' = l :=
    Asks.ensures h (fun _ _ _ he hs => step_other he hs) ha
  refine Ensures.bind (hp.runs.mono ?_)
  rintro l' a ⟨⟨t, hrun, -⟩, rfl⟩
  exact hf a t hrun

/-- The uncollected children are those that the jobs list, each in one job only and once, and
every job lists one. -/
structure Accounted (jobs : JobTable) (l : Ledger) : Prop where
  sound : l.Sound
  nonempty : ∀ job ∈ jobs.values, job.pids ≠ []
  listed : l.uncollected.Perm jobs.listed

open JobTable (tags)

/-- Asking about every job drops exactly the processes that have ended. -/
theorem ensures_collectEach {l : Ledger} (hl : l.Sound) {jobs : List Job} {others : List Pid}
    (h : l.uncollected.Perm (pidsOf jobs ++ others)) :
    Ensures Step AllowsPolling l (collectEach jobs) fun l' left =>
      left.length = jobs.length ∧ l'.stopped = l.stopped ∧ l'.started = l.started ∧
        l'.uncollected.Perm (left.flatten ++ others) := by
  induction jobs generalizing l others with
  | nil => exact ensures_done ⟨rfl, rfl, rfl, h⟩
  | cons job jobs ih =>
    have hperm : l.uncollected.Perm (job.pids ++ (pidsOf jobs ++ others)) := by
      simpa [pidsOf] using h
    refine Ensures.bind ((hl.ensures (ensures_stillThere hperm hl.nodup)).mono ?_)
    rintro l₁ pids ⟨hl₁, hst, hstart, hp⟩
    have hperm : l₁.uncollected.Perm (pidsOf jobs ++ (pids ++ others)) := by
      refine hp.trans ?_
      rw [← List.append_assoc, ← List.append_assoc]
      exact List.perm_append_comm.append_right others
    refine Ensures.bind ((ih hl₁ hperm).mono ?_)
    rintro l₂ rest ⟨hlength, hst', hstart', hp'⟩
    refine ensures_done ⟨?_, hst'.trans hst, hstart'.trans hstart, hp'.trans ?_⟩
    · rw [List.length_cons, List.length_cons, hlength]
    · rw [List.flatten_cons, ← List.append_assoc]
      exact List.perm_append_comm.append_right others

/-- The jobs are split into those that are done, which have no process left, and the others.
No process is started and none is seen to stop. -/
structure JobTable.Reaped (t : JobTable) (l : Ledger) (done : List Job) (t' : JobTable)
    (l' : Ledger) : Prop where
  split : (tags done ++ tags t'.values).Perm (tags t.values)
  finished : ∀ job ∈ done, job.pids = []
  started : l'.started = l.started
  stopped : l'.stopped = l.stopped

/-- Reaping splits the jobs and keeps the account. -/
theorem ensures_reap {t : JobTable} {l : Ledger} (h : Accounted t l) :
    Ensures Step AllowsPolling l t.reap fun l' r =>
      Accounted r.2 l' ∧ t.Reaped l r.1 r.2 l' := by
  have hperm : l.uncollected.Perm (pidsOf t.values ++ []) := by
    simpa [JobTable.listed] using h.listed
  refine Ensures.bind ((h.sound.ensures (ensures_collectEach h.sound hperm)).mono ?_)
  rintro l' left ⟨hl', hlength, hst, hstart, hp⟩
  refine ensures_done ⟨⟨hl', ?_, ?_⟩, ?_, ?_, hstart, hst⟩
  · intro job hjob
    rw [JobTable.values_takeFinished] at hjob
    simpa using (List.mem_filter.mp hjob).2
  · rw [JobTable.listed_takeFinished, JobTable.listed, JobTable.values_retain,
      JobTable.pidsOf_keepPids hlength]
    simpa using hp
  · rw [← JobTable.tags_keepPids t.values left, ← JobTable.values_retain]
    exact JobTable.tags_takeFinished (t.retain left)
  · intro job hjob
    rw [JobTable.takeFinished_fst] at hjob
    simpa using (List.mem_filter.mp hjob).2

theorem ensures_contextReap {ctx : Context} {l : Ledger} (h : Accounted ctx.jobs l) :
    Ensures Step AllowsPolling l ctx.reap fun l' ctx' => Accounted ctx'.jobs l' := by
  refine Ensures.bind ((ensures_reap h).mono ?_)
  rintro l' ⟨done, jobs⟩ ⟨hacc, -⟩
  dsimp only
  split
  · have hidle : Idle (announceDone done) := (within_announceDone done).idle (by decide)
    refine hidle.ensures_bind (fun _ => allowsPolling_other) ?_
    intro _ t _
    exact ensures_done hacc
  · exact ensures_done hacc

end JobShell
