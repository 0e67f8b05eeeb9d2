import Mathlib.Data.List.Sublists
import JobShell.Kernel.Perform

/-!
The processes of the system that programs run on. They are listed by increasing number, and only
their parent takes them off the list. Signals stop processes, let them go on and end them; number,
parent, group, directory and descriptors they leave as they are, and one that has ended stays so.
-/
namespace JobShell.Kernel

/-- Processes are stopped by signals that stop, and end with a status that says so. -/
def Life.Fits : Life → Prop
  | .running => True
  | .stopped signal _ => Signal.effect signal = .stop
  | .ended status => status.isTerminated = true

/-- The open files that a process keeps in being. -/
def Process.openIds (p : Process) : List OpenId :=
  p.files.values.map Slot.file ++ (p.opening.map Opening.file).toList

/-- What a process is at a later time, if it has made no call of its own since. -/
structure Process.Ages (p p' : Process) : Prop where
  pid : p'.pid = p.pid
  parent : p'.parent = p.parent
  group : p'.group = p.group
  cwd : p'.cwd = p.cwd
  replaced : p'.replaced = p.replaced
  fits : p.life.Fits → p'.life.Fits
  ended : p.hasEnded = true → p'.life = p.life
  files : p'.files = p.files ∨ p'.hasEnded = true ∧ p'.files = {}
  opening : ∀ opening, p'.opening = some opening → p.opening = some opening

/-- What an open file is for, which stays as long as it is open. -/
def OpenFile.kind (file : OpenFile) : Subject × Access := (file.subject, file.access)

/-- A system that fits together. -/
structure Sound (k : Kernel) : Prop where
  increasing : (k.processes.map Process.pid).Pairwise (· < ·)
  numbered : ∀ p ∈ k.processes, 0 < p.pid ∧ p.pid < k.nextPid
  fits : ∀ p ∈ k.processes, p.life.Fits
  ordered : ∀ p ∈ k.processes, p.files.Ordered
  opened : ∀ p ∈ k.processes, ∀ id ∈ p.openIds, id < k.openFiles.size
  piped : ∀ file ∈ k.openFiles, ∀ id, file.subject = .pipe id → id < k.pipes.size

/-- What becomes of a system while its processes make no calls, except such as read and write:
they age, and ended ones without a parent go. Files may be opened for a later use. -/
structure Ages (k k' : Kernel) : Prop where
  foreground : k'.tty.foreground = k.tty.foreground
  nextPid : k'.nextPid = k.nextPid
  pipes : k.pipes.size ≤ k'.pipes.size
  kinds : ∀ id file, k.openFile? id = some file →
    ∃ file', k'.openFile? id = some file' ∧ file'.kind = file.kind
  piped : (∀ file ∈ k.openFiles, ∀ id, file.subject = .pipe id → id < k.pipes.size) →
    ∀ file ∈ k'.openFiles, ∀ id, file.subject = .pipe id → id < k'.pipes.size
  pids : (k'.processes.map Process.pid).Sublist (k.processes.map Process.pid)
  older : ∀ p' ∈ k'.processes, ∃ p ∈ k.processes, p.Ages p'
  kept : ∀ p ∈ k.processes, ∀ parent ∈ k'.processes, parent.pid = p.parent →
    parent.hasEnded = false → ∃ p' ∈ k'.processes, p.Ages p'

/-- The same with all files and directories in their places and unchanged. -/
structure Drifts (k k' : Kernel) : Prop extends Ages k k' where
  nodes : k'.nodes = k.nodes

/-- What becomes of a system where only files, pipes and what is open change. -/
structure Grows (k k' : Kernel) : Prop where
  processes : k'.processes = k.processes
  foreground : k'.tty.foreground = k.tty.foreground
  nextPid : k'.nextPid = k.nextPid
  pipes : k.pipes.size ≤ k'.pipes.size
  kinds : ∀ id file, k.openFile? id = some file →
    ∃ file', k'.openFile? id = some file' ∧ file'.kind = file.kind
  piped : (∀ file ∈ k.openFiles, ∀ id, file.subject = .pipe id → id < k.pipes.size) →
    ∀ file ∈ k'.openFiles, ∀ id, file.subject = .pipe id → id < k'.pipes.size

theorem Process.alive_of_running {p : Process} (h : p.isRunning = true) : p.hasEnded = false := by
  cases hlife : p.life with
  | ended status => simp [isRunning, hlife] at h
  | _ => simp [hasEnded, hlife]

theorem Process.Ages.refl (p : Process) : p.Ages p :=
  ⟨rfl, rfl, rfl, rfl, rfl, id, fun _ => rfl, .inl rfl, fun _ => id⟩

/-- What else a process has may be anything. -/
theorem Process.Ages.of_eq {p p' : Process}
    (h : (p'.pid, p'.parent, p'.group, p'.cwd, p'.replaced, p'.life, p'.files, p'.opening) =
      (p.pid, p.parent, p.group, p.cwd, p.replaced, p.life, p.files, p.opening)) : p.Ages p' := by
  simp only [Prod.mk.injEq] at h
  obtain ⟨hpid, hparent, hgroup, hcwd, hreplaced, hlife, hfiles, hopening⟩ := h
  exact ⟨hpid, hparent, hgroup, hcwd, hreplaced, fun hfits => hlife ▸ hfits, fun _ => hlife,
    .inl hfiles, fun _ h => hopening ▸ h⟩

theorem Process.Ages.hasEnded {p p' : Process} (h : p.Ages p') (hp : p.hasEnded = true) :
    p'.hasEnded = true := by
  rw [Process.hasEnded, h.ended hp]
  exact hp

theorem Process.Ages.alive {p p' : Process} (h : p.Ages p') (hp' : p'.hasEnded = false) :
    p.hasEnded = false :=
  Bool.eq_false_iff.mpr fun hp => by simp [h.hasEnded hp] at hp'

theorem Process.Ages.trans {p p' p'' : Process} (h : p.Ages p') (h' : p'.Ages p'') :
    p.Ages p'' where
  pid := h'.pid.trans h.pid
  parent := h'.parent.trans h.parent
  group := h'.group.trans h.group
  cwd := h'.cwd.trans h.cwd
  replaced := h'.replaced.trans h.replaced
  fits hp := h'.fits (h.fits hp)
  ended hp := (h'.ended (h.hasEnded hp)).trans (h.ended hp)
  opening opening ho := h.opening opening (h'.opening opening ho)
  files := by
    obtain heq | ⟨hend, hnone⟩ := h.files <;> obtain heq' | hend' := h'.files
    · exact .inl (heq'.trans heq)
    · exact .inr hend'
    · exact .inr ⟨h'.hasEnded hend, heq'.trans hnone⟩
    · exact .inr hend'

theorem Process.Ages.openIds {p p' : Process} (h : p.Ages p') {id : OpenId}
    (hid : id ∈ p'.openIds) : id ∈ p.openIds := by
  unfold Process.openIds at hid ⊢
  simp only [List.mem_append, Option.mem_toList, Option.map_eq_some_iff] at hid ⊢
  obtain hid | ⟨opening, ho, rfl⟩ := hid
  · obtain heq | ⟨-, hnone⟩ := h.files
    · exact .inl (heq ▸ hid)
    · rw [hnone] at hid
      cases hid
  · exact .inr ⟨opening, h.opening opening ho, rfl⟩

theorem Ages.trans {k k' k'' : Kernel} (h : Ages k k') (h' : Ages k' k'') : Ages k k'' where
  foreground := h'.foreground.trans h.foreground
  nextPid := h'.nextPid.trans h.nextPid
  pipes := Nat.le_trans h.pipes h'.pipes
  piped hk := h'.piped (h.piped hk)
  pids := h'.pids.trans h.pids
  kinds id file hfile := by
    obtain ⟨file', hfile', hkind⟩ := h.kinds id file hfile
    obtain ⟨file'', hfile'', hkind'⟩ := h'.kinds id file' hfile'
    exact ⟨file'', hfile'', hkind'.trans hkind⟩
  older p'' hp'' := by
    obtain ⟨p', hp', hages'⟩ := h'.older p'' hp''
    obtain ⟨p, hp, hages⟩ := h.older p' hp'
    exact ⟨p, hp, hages.trans hages'⟩
  kept p hp parent'' hparent'' hpid hlive := by
    -- A parent that is alive in the end has been so all the time.
    obtain ⟨parent', hparent', hparents⟩ := h'.older parent'' hparent''
    obtain ⟨p', hp', hages⟩ := h.kept p hp parent' hparent' (hparents.pid.symm.trans hpid)
      (hparents.alive hlive)
    obtain ⟨p'', hp'', hages'⟩ :=
      h'.kept p' hp' parent'' hparent'' (hpid.trans hages.parent.symm) hlive
    exact ⟨p'', hp'', hages.trans hages'⟩

theorem Grows.ages {k k' : Kernel} (h : Grows k k') : Ages k k' where
  foreground := h.foreground
  nextPid := h.nextPid
  pipes := h.pipes
  kinds := h.kinds
  piped := h.piped
  pids := by rw [h.processes]
  older p' hp' := ⟨p', h.processes ▸ hp', .refl p'⟩
  kept p hp _ _ _ _ := ⟨p, h.processes ▸ hp, .refl p⟩

theorem Grows.trans {k k' k'' : Kernel} (h : Grows k k') (h' : Grows k' k'') : Grows k k'' where
  processes := h'.processes.trans h.processes
  foreground := h'.foreground.trans h.foreground
  nextPid := h'.nextPid.trans h.nextPid
  pipes := Nat.le_trans h.pipes h'.pipes
  kinds := (h.ages.trans h'.ages).kinds
  piped := (h.ages.trans h'.ages).piped

theorem Grows.of_openFiles {k k' : Kernel} (hprocesses : k'.processes = k.processes)
    (hforeground : k'.tty.foreground = k.tty.foreground) (hnext : k'.nextPid = k.nextPid)
    (hpipes : k.pipes.size ≤ k'.pipes.size) (hfiles : k'.openFiles = k.openFiles) :
    Grows k k' where
  processes := hprocesses
  foreground := hforeground
  nextPid := hnext
  pipes := hpipes
  kinds id file hfile := ⟨file, by rw [openFile?, hfiles]; exact hfile, rfl⟩
  piped hk file hfile id hid := Nat.lt_of_lt_of_le (hk file (hfiles ▸ hfile) id hid) hpipes

theorem Grows.refl (k : Kernel) : Grows k k := .of_openFiles rfl rfl rfl (Nat.le_refl _) rfl

theorem Ages.refl (k : Kernel) : Ages k k := (Grows.refl k).ages

theorem Drifts.refl (k : Kernel) : Drifts k k := ⟨.refl k, rfl⟩

theorem Drifts.trans {k k' k'' : Kernel} (h : Drifts k k') (h' : Drifts k' k'') : Drifts k k'' :=
  ⟨h.toAges.trans h'.toAges, h'.nodes.trans h.nodes⟩

section

variable {k k' : Kernel} {p p' : Process}

namespace Sound

theorem eq_of_pid (hk : k.Sound) (hp : p ∈ k.processes) (hp' : p' ∈ k.processes)
    (h : p.pid = p'.pid) : p = p' := by
  have hnodup : (k.processes.map Process.pid).Nodup := hk.increasing.imp Int.ne_of_lt
  exact List.inj_on_of_nodup_map hnodup hp hp' h

theorem process?_eq_some_iff (hk : k.Sound) {pid : Pid} :
    k.process? pid = some p ↔ p ∈ k.processes ∧ p.pid = pid := by
  unfold process?
  constructor
  · intro h
    exact ⟨List.mem_of_find?_eq_some h, by simpa using List.find?_some h⟩
  · rintro ⟨hp, rfl⟩
    cases hfind : k.processes.find? fun q => q.pid == p.pid with
    | none => exact absurd (beq_self_eq_true p.pid) (List.find?_eq_none.mp hfind p hp)
    | some q =>
      have hpid : q.pid = p.pid := by simpa using List.find?_some hfind
      rw [hk.eq_of_pid (List.mem_of_find?_eq_some hfind) hp hpid]

theorem ages (hk : k.Sound) (h : Ages k k') : k'.Sound where
  increasing := hk.increasing.sublist h.pids
  piped := h.piped hk.piped
  numbered p' hp' := by
    obtain ⟨p, hp, hages⟩ := h.older p' hp'
    rw [hages.pid, h.nextPid]
    exact hk.numbered p hp
  fits p' hp' := by
    obtain ⟨p, hp, hages⟩ := h.older p' hp'
    exact hages.fits (hk.fits p hp)
  ordered p' hp' := by
    obtain ⟨p, hp, hages⟩ := h.older p' hp'
    obtain heq | ⟨-, hnone⟩ := hages.files
    · exact heq ▸ hk.ordered p hp
    · exact hnone ▸ Numbered.ordered_nil
  opened p' hp' id hid := by
    obtain ⟨p, hp, hages⟩ := h.older p' hp'
    have hlt := hk.opened p hp id (hages.openIds hid)
    obtain ⟨file', hfile', -⟩ := h.kinds id k.openFiles[id] (Array.getElem?_eq_getElem hlt)
    exact (Array.getElem?_eq_some_iff.mp hfile').1

end Sound

theorem mem_setProcess {q : Process} :
    q ∈ (k.setProcess p').processes ↔
      q ∈ k.processes ∧ q.pid ≠ p'.pid ∨ q = p' ∧ ∃ p ∈ k.processes, p.pid = p'.pid := by
  unfold setProcess
  simp only [List.mem_map]
  constructor
  · rintro ⟨r, hr, rfl⟩
    split
    · rename_i heq
      exact .inr ⟨rfl, r, hr, by simpa using heq⟩
    · rename_i hne
      exact .inl ⟨hr, by simpa using hne⟩
  · rintro (⟨hq, hne⟩ | ⟨rfl, p, hp, heq⟩)
    · exact ⟨q, hq, if_neg (by simpa using hne)⟩
    · exact ⟨p, hp, if_pos (by simpa using heq)⟩

theorem map_pid_setProcess :
    (k.setProcess p').processes.map Process.pid = k.processes.map Process.pid := by
  unfold setProcess
  rw [List.map_map]
  refine List.map_congr_left fun q _ => ?_
  dsimp only [Function.comp_apply]
  split
  · rename_i heq
    exact (by simpa using heq : q.pid = p'.pid).symm
  · rfl

theorem Sound.drifts_setProcess (hk : k.Sound) (hp : p ∈ k.processes) (h : p.Ages p') :
    Drifts k (k.setProcess p') where
  foreground := rfl
  nextPid := rfl
  pipes := Nat.le_refl _
  kinds _ file hfile := ⟨file, hfile, rfl⟩
  piped := id
  nodes := rfl
  pids := by rw [map_pid_setProcess]
  older q hq := by
    obtain ⟨hq, -⟩ | ⟨rfl, -⟩ := mem_setProcess.mp hq
    · exact ⟨q, hq, .refl q⟩
    · exact ⟨p, hp, h⟩
  kept q hq _ _ _ _ := by
    by_cases heq : q.pid = p'.pid
    · obtain rfl := hk.eq_of_pid hq hp (heq.trans h.pid)
      exact ⟨p', mem_setProcess.mpr (.inr ⟨rfl, q, hq, heq⟩), h⟩
    · exact ⟨q, mem_setProcess.mpr (.inl ⟨hq, heq⟩), .refl q⟩

theorem grows_updatePipe (id : PipeId) (f : Pipe → Pipe) : Grows k (k.updatePipe id f) :=
  .of_openFiles rfl rfl rfl (by simp [updatePipe]) rfl

theorem openFile?_updateOpenFile (id id' : OpenId) (f : OpenFile → OpenFile) :
    (k.updateOpenFile id f).openFile? id' =
      if id = id' then (k.openFile? id').map f else k.openFile? id' := by
  simp only [openFile?, updateOpenFile, Array.getElem?_modify]

theorem grows_updateOpenFile (id : OpenId) {f : OpenFile → OpenFile}
    (hf : ∀ file, (f file).kind = file.kind) : Grows k (k.updateOpenFile id f) where
  processes := rfl
  foreground := rfl
  nextPid := rfl
  pipes := Nat.le_refl _
  kinds id' file hfile := by
    rw [openFile?_updateOpenFile, hfile]
    split
    · exact ⟨f file, rfl, hf file⟩
    · exact ⟨file, rfl, rfl⟩
  piped hk file hfile pipe hpipe := by
    obtain ⟨id', hfile⟩ := Array.mem_iff_getElem?.mp hfile
    have hwas := openFile?_updateOpenFile (k := k) id id' f
    rw [show (k.updateOpenFile id f).openFile? id' = some file from hfile] at hwas
    split at hwas
    · obtain ⟨before, hbefore, rfl⟩ := Option.map_eq_some_iff.mp hwas.symm
      refine hk before (Array.mem_of_getElem? hbefore) pipe ?_
      rw [← hpipe]
      exact (congrArg Prod.fst (hf before)).symm
    · exact hk file (Array.mem_of_getElem? hwas.symm) pipe hpipe

theorem grows_retain (id : OpenId) : Grows k (k.retain id) :=
  grows_updateOpenFile id fun _ => rfl

theorem grows_release (id : OpenId) : Grows k (k.release id) := by
  unfold release
  split
  · exact .refl k
  · have hless : Grows k (k.updateOpenFile id fun file =>
        { file with references := file.references - 1 }) := grows_updateOpenFile id fun _ => rfl
    dsimp only
    split
    · split
      · exact hless.trans (grows_updatePipe _ _)
      · exact hless
    · exact hless

theorem nodes_release (id : OpenId) : (k.release id).nodes = k.nodes := by
  unfold release
  split
  · rfl
  · dsimp only
    split
    · split <;> rfl
    · rfl

theorem grows_foldl {α : Type*} {f : Kernel → α → Kernel} (hf : ∀ k a, Grows k (f k a))
    (l : List α) (k : Kernel) : Grows k (l.foldl f k) := by
  induction l generalizing k with
  | nil => exact .refl k
  | cons a l ih => exact (hf k a).trans (ih (f k a))

theorem drifts_retain (id : OpenId) : Drifts k (k.retain id) := ⟨(grows_retain id).ages, rfl⟩

theorem drifts_release (id : OpenId) : Drifts k (k.release id) :=
  ⟨(grows_release id).ages, nodes_release id⟩

theorem Sound.drifts_foldl {α : Type} {f : Kernel → α → Kernel}
    (hf : ∀ k a, k.Sound → Drifts k (f k a)) (l : List α) {k : Kernel} (hk : k.Sound) :
    Drifts k (l.foldl f k) := by
  induction l generalizing k with
  | nil => exact .refl k
  | cons a l ih => exact (hf k a hk).trans (ih (hk.ages (hf k a hk).toAges))

theorem hasParent_iff (hk : k.Sound) :
    k.hasParent p = true ↔
      ∃ parent ∈ k.processes, parent.pid = p.parent ∧ parent.hasEnded = false := by
  unfold hasParent
  constructor
  · intro h
    split at h
    · rename_i parent hparent
      obtain ⟨hmem, hpid⟩ := hk.process?_eq_some_iff.mp hparent
      exact ⟨parent, hmem, hpid, by simpa using h⟩
    · cases h
  · rintro ⟨parent, hmem, hpid, hlive⟩
    rw [hk.process?_eq_some_iff.mpr ⟨hmem, hpid⟩]
    simpa using hlive

theorem Sound.drifts_sweep (hk : k.Sound) : Drifts k k.sweep where
  foreground := rfl
  nextPid := rfl
  pipes := Nat.le_refl _
  kinds _ file hfile := ⟨file, hfile, rfl⟩
  piped := id
  nodes := rfl
  pids := List.filter_sublist.map _
  older q hq := ⟨q, (List.mem_filter.mp hq).1, .refl q⟩
  kept q hq parent hparent hpid hlive := by
    refine ⟨q, List.mem_filter.mpr ⟨hq, ?_⟩, .refl q⟩
    rw [(hasParent_iff hk).mpr ⟨parent, (List.mem_filter.mp hparent).1, hpid, hlive⟩,
      Bool.true_or]

theorem Sound.drifts_terminate (hk : k.Sound) (hp : p ∈ k.processes) (hlive : p.hasEnded = false)
    {status : WaitStatus} (hstatus : status.isTerminated = true) :
    Drifts k (k.terminate p status) := by
  unfold terminate
  have hgiven : Drifts k (k.releaseAll p) := hk.drifts_foldl (fun _ id _ => drifts_release id) _
  have hp' : p ∈ (k.releaseAll p).processes := by
    rwa [show (k.releaseAll p).processes = k.processes from
      (grows_foldl (fun _ id => grows_release id) _ k).processes]
  have hsound := hk.ages hgiven.toAges
  have hages : p.Ages { p with
      life := .ended status, files := {}, opening := none, wakeAt := none, held := [] } :=
    ⟨rfl, rfl, rfl, rfl, rfl, fun _ => hstatus, fun h => absurd h (by simp [hlive]),
      .inr ⟨rfl, rfl⟩, fun _ h => absurd h (by simp)⟩
  have hended := hsound.drifts_setProcess hp' hages
  exact (hgiven.trans hended).trans (hsound.ages hended.toAges).drifts_sweep

/-- A signal reaches a process that has not ended. -/
theorem Sound.drifts_deliver (hk : k.Sound) (hp : p ∈ k.processes) (hlive : p.hasEnded = false)
    (signal : Signal) : Drifts k (k.deliver p signal).1 := by
  have hstop (h : signal.effect = .stop) :
      Drifts k (k.setProcess { p with life := .stopped signal false }) :=
    hk.drifts_setProcess hp ⟨rfl, rfl, rfl, rfl, rfl, fun _ => h,
      fun h => absurd h (by simp [hlive]), .inl rfl, fun _ => id⟩
  have hends : Drifts k (k.terminate p (.signaled signal)) := hk.drifts_terminate hp hlive rfl
  unfold deliver
  split
  · exact hends
  · split
    · rename_i hsignal
      dsimp only
      split
      · exact .refl k
      · exact hstop (hsignal ▸ rfl)
    · split
      · exact hk.drifts_setProcess hp (.of_eq rfl)
      · split
        · exact hk.drifts_setProcess hp (.of_eq rfl)
        · split
          · exact .refl k
          · split
            · exact hends
            · rename_i heffect
              exact hstop heffect
            · exact .refl k
            · exact .refl k

/-- A process that goes on meets the signals that it has missed, until one ends it. -/
theorem Sound.drifts_resume (hk : k.Sound) (hp : p ∈ k.processes) (hlive : p.hasEnded = false) :
    Drifts k (k.resume p) := by
  unfold resume
  split
  · have hruns : Drifts k (k.setProcess { p with life := .running, held := [] }) :=
      hk.drifts_setProcess hp ⟨rfl, rfl, rfl, rfl, rfl, fun _ => trivial,
        fun h => absurd h (by simp [hlive]), .inl rfl, fun _ => id⟩
    refine hruns.trans ((hk.ages hruns.toAges).drifts_foldl ?_ _)
    intro k signal hk
    split
    · rename_i q hq
      split
      · exact .refl k
      · rename_i hlive
        exact hk.drifts_deliver (hk.process?_eq_some_iff.mp hq).1 (by simpa using hlive) signal
    · exact .refl k
  · exact .refl k

theorem Sound.drifts_signalOne (hk : k.Sound) (pid : Pid) (signal : Signal) :
    Drifts k (k.signalOne pid signal).1 := by
  unfold signalOne
  split
  · exact .refl k
  · rename_i q hq
    obtain ⟨hq, -⟩ := hk.process?_eq_some_iff.mp hq
    split
    · exact .refl k
    · rename_i hlive
      rw [Bool.not_eq_true] at hlive
      split
      · exact .refl k
      · split
        · exact hk.drifts_resume hq hlive
        · exact hk.drifts_deliver hq hlive signal

theorem Sound.drifts_signalGroup (hk : k.Sound) (group : Pid) (signal : Signal) :
    Drifts k (k.signalGroup group signal) :=
  hk.drifts_foldl (fun _ p hk => hk.drifts_signalOne p.pid signal) _

theorem Sound.drifts_signalProcess (hk : k.Sound) (pid : Pid) (signal : Signal) :
    Drifts k (k.signalProcess pid signal) := by
  have hone := hk.drifts_signalOne pid signal
  unfold signalProcess
  split
  · rename_i k' group heq
    rw [heq] at hone
    exact hone.trans ((hk.ages hone.toAges).drifts_signalGroup group signal)
  · rename_i k' heq
    rw [heq] at hone
    exact hone

theorem Sound.drifts_kill (hk : k.Sound) (target : Target) (signal : Signal) :
    Drifts k (k.kill target signal).2 := by
  unfold kill
  split
  · exact .refl k
  · split
    · split
      · exact .refl k
      · exact hk.drifts_signalProcess _ signal
    · split
      · exact hk.drifts_signalGroup _ signal
      · exact .refl k

end

end JobShell.Kernel
