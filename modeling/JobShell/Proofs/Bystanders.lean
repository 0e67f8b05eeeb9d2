import JobShell.Proofs.SystemCalls

/-!
What one process of the system keeps while the others go on. Whatever these do, its descriptors and
its directory stay as they are, and so do its children, who remain on the list, ended or not, until
it collects them.
-/
namespace JobShell.Kernel

def Lives (k : Kernel) (pid : Pid) : Prop :=
  ∃ p ∈ k.processes, p.pid = pid ∧ p.hasEnded = false

def IsChild (k : Kernel) (pid child : Pid) : Prop :=
  ∃ q ∈ k.processes, q.pid = child ∧ q.parent = pid

/-- What was open is open, and on the same, and numbers of processes are given out upwards. -/
structure Extends (k k' : Kernel) : Prop where
  nextPid : k.nextPid ≤ k'.nextPid
  pipes : k.pipes.size ≤ k'.pipes.size
  kinds : ∀ id file, k.openFile? id = some file →
    ∃ file', k'.openFile? id = some file' ∧ file'.kind = file.kind

/-- What a process sees of the others has not changed, either. -/
structure Keeps (pid : Pid) (k k' : Kernel) : Prop extends Extends k k' where
  sound : k'.Sound
  children : k'.Lives pid → ∀ child, k'.IsChild pid child ↔ k.IsChild pid child

/-- A process has the descriptors and the directory that it had, as long as it lives. -/
def Holds (pid : Pid) (k k' : Kernel) : Prop :=
  ∀ p' ∈ k'.processes, p'.pid = pid → p'.hasEnded = false →
    ∃ p ∈ k.processes, p.pid = pid ∧ p.hasEnded = false ∧ p'.files = p.files ∧ p'.cwd = p.cwd

/-- Neither what a process has nor what it sees has changed. -/
structure Spares (pid : Pid) (k k' : Kernel) : Prop extends Keeps pid k k' where
  own : Holds pid k k'

theorem Extends.refl (k : Kernel) : Extends k k :=
  ⟨Int.le_refl _, Nat.le_refl _, fun _ file h => ⟨file, h, rfl⟩⟩

theorem Holds.refl (pid : Pid) (k : Kernel) : Holds pid k k :=
  fun p hp hpid hlive => ⟨p, hp, hpid, hlive, rfl, rfl⟩

section

variable {k k' k'' : Kernel} {p p₁ : Process} {pid : Pid}

theorem Ages.spares (h : Ages k k') (hk : k.Sound) : Spares pid k k' where
  sound := hk.ages h
  nextPid := Int.le_of_eq h.nextPid.symm
  pipes := h.pipes
  kinds := h.kinds
  children hlives child := by
    constructor
    · rintro ⟨q', hq', rfl, rfl⟩
      obtain ⟨q, hq, hages⟩ := h.older q' hq'
      exact ⟨q, hq, hages.pid.symm, hages.parent.symm⟩
    · rintro ⟨q, hq, rfl, rfl⟩
      obtain ⟨parent, hparent, hpid, hlive⟩ := hlives
      obtain ⟨q', hq', hages⟩ := h.kept q hq parent hparent hpid hlive
      exact ⟨q', hq', hages.pid, hages.parent⟩
  own p' hp' hpid hlive := by
    obtain ⟨p, hp, hages⟩ := h.older p' hp'
    have hfiles : p'.files = p.files :=
      hages.files.resolve_right fun hended => by simp [hended.1] at hlive
    exact ⟨p, hp, hages.pid.symm.trans hpid, hages.alive hlive, hfiles, hages.cwd⟩

theorem Sound.of_setProcess (hk : k.Sound) (hp : p ∈ k.processes) (hpid : p₁.pid = p.pid)
    (hlife : p₁.life = p.life) (hordered : p₁.files.Ordered)
    (hopened : ∀ id ∈ p₁.openIds, id < k.openFiles.size) : (k.setProcess p₁).Sound where
  increasing := by
    rw [map_pid_setProcess]
    exact hk.increasing
  piped := hk.piped
  numbered q hq := by
    obtain ⟨hq, -⟩ | ⟨rfl, -⟩ := mem_setProcess.mp hq
    · exact hk.numbered q hq
    · exact hpid ▸ hk.numbered p hp
  fits q hq := by
    obtain ⟨hq, -⟩ | ⟨rfl, -⟩ := mem_setProcess.mp hq
    · exact hk.fits q hq
    · exact hlife ▸ hk.fits p hp
  ordered q hq := by
    obtain ⟨hq, -⟩ | ⟨rfl, -⟩ := mem_setProcess.mp hq
    · exact hk.ordered q hq
    · exact hordered
  opened q hq := by
    obtain ⟨hq, -⟩ | ⟨rfl, -⟩ := mem_setProcess.mp hq
    · exact hk.opened q hq
    · exact hopened

/-- A process may change without changing its number and its parent. -/
theorem isChild_setProcess (hk : k.Sound) (hp : p ∈ k.processes) (hpid : p₁.pid = p.pid)
    (hparent : p₁.parent = p.parent) (child : Pid) :
    (k.setProcess p₁).IsChild pid child ↔ k.IsChild pid child := by
  constructor
  · rintro ⟨q, hq, rfl, rfl⟩
    obtain ⟨hq, -⟩ | ⟨rfl, -⟩ := mem_setProcess.mp hq
    · exact ⟨q, hq, rfl, rfl⟩
    · exact ⟨p, hp, hpid.symm, hparent.symm⟩
  · rintro ⟨q, hq, rfl, rfl⟩
    by_cases heq : q.pid = p₁.pid
    · obtain rfl := hk.eq_of_pid hq hp (heq.trans hpid)
      exact ⟨p₁, mem_setProcess.mpr (.inr ⟨rfl, q, hq, heq⟩), hpid, hparent⟩
    · exact ⟨q, mem_setProcess.mpr (.inl ⟨hq, heq⟩), rfl, rfl⟩

theorem Spares.lives (h : Spares pid k k') (hlives : k'.Lives pid) : k.Lives pid := by
  obtain ⟨p', hp', hpid, hlive⟩ := hlives
  obtain ⟨p, hp, hpid, hlive, -, -⟩ := h.own p' hp' hpid hlive
  exact ⟨p, hp, hpid, hlive⟩

theorem Keeps.trans (h : Keeps pid k k') (h' : Keeps pid k' k'')
    (hlives : k''.Lives pid → k'.Lives pid) : Keeps pid k k'' where
  sound := h'.sound
  nextPid := Int.le_trans h.nextPid h'.nextPid
  pipes := Nat.le_trans h.pipes h'.pipes
  children hend child := (h'.children hend child).trans (h.children (hlives hend) child)
  kinds id file hfile := by
    obtain ⟨file', hfile', hkind⟩ := h.kinds id file hfile
    obtain ⟨file'', hfile'', hkind'⟩ := h'.kinds id file' hfile'
    exact ⟨file'', hfile'', hkind'.trans hkind⟩

theorem Spares.trans (h : Spares pid k k') (h' : Spares pid k' k'') : Spares pid k k'' where
  toKeeps := h.toKeeps.trans h'.toKeeps h'.lives
  own p'' hp'' hpid hlive := by
    obtain ⟨p', hp', hpid', hlive', hfiles', hcwd'⟩ := h'.own p'' hp'' hpid hlive
    obtain ⟨p, hp, hpid, hlive, hfiles, hcwd⟩ := h.own p' hp' hpid' hlive'
    exact ⟨p, hp, hpid, hlive, hfiles'.trans hfiles, hcwd'.trans hcwd⟩

theorem lives_setProcess (hp : p ∈ k.processes) (hpid : p₁.pid = p.pid)
    (hlife : p₁.life = p.life) (h : (k.setProcess p₁).Lives pid) : k.Lives pid := by
  obtain ⟨q, hq, hqpid, hlive⟩ := h
  obtain ⟨hq, -⟩ | ⟨rfl, -⟩ := mem_setProcess.mp hq
  · exact ⟨q, hq, hqpid, hlive⟩
  · exact ⟨p, hp, hpid.symm.trans hqpid, by rwa [Process.hasEnded, ← hlife]⟩

/-- The parts of a call: growth, the change of the caller, and what follows. -/
theorem Serves.parts (h : Serves p p₁ k k') (hk : k.Sound) (hp : p ∈ k.processes) :
    ∃ k₁, k₁.Sound ∧ p ∈ k₁.processes ∧ Spares pid k k₁ ∧ Keeps pid k₁ (k₁.setProcess p₁) ∧
      Ages (k₁.setProcess p₁) k' := by
  obtain ⟨k₁, hgrows, hopened, hages⟩ := h.between
  have hsound := hk.ages hgrows.ages
  have hp' : p ∈ k₁.processes := hgrows.processes ▸ hp
  refine ⟨k₁, hsound, hp', hgrows.ages.spares hk, ⟨⟨Int.le_refl _, Nat.le_refl _, ?_⟩, ?_, ?_⟩,
    hages⟩
  · exact fun _ file hfile => ⟨file, hfile, rfl⟩
  · exact hsound.of_setProcess hp' h.pid h.life (h.ordered (hk.ordered p hp)) hopened
  · exact fun _ child => isChild_setProcess hsound hp' h.pid h.parent child

theorem Serves.keeps (h : Serves p p₁ k k') (hk : k.Sound) (hp : p ∈ k.processes) :
    Keeps pid k k' := by
  obtain ⟨k₁, hsound, hp', hbefore, hcaller, hafter⟩ := h.parts hk hp
  exact (hbefore.toKeeps.trans hcaller (lives_setProcess hp' h.pid h.life)).trans
    (hafter.spares hcaller.sound).toKeeps (hafter.spares hcaller.sound).lives

/-- The caller has in the end what it has become by its call. -/
theorem Serves.own (h : Serves p p₁ k k') {p' : Process} (hp' : p' ∈ k'.processes)
    (hpid : p'.pid = p.pid) (hlive : p'.hasEnded = false) :
    p.hasEnded = false ∧ p'.files = p₁.files ∧ p'.cwd = p₁.cwd := by
  obtain ⟨k₁, -, -, hages⟩ := h.between
  obtain ⟨q, hq, hqages⟩ := hages.older p' hp'
  obtain ⟨-, hne⟩ | ⟨rfl, -⟩ := mem_setProcess.mp hq
  · exact absurd (hqages.pid.symm.trans (hpid.trans h.pid.symm)) hne
  · have halive : p.hasEnded = false := by
      rw [Process.hasEnded, ← h.life]
      exact hqages.alive hlive
    exact ⟨halive, hqages.files.resolve_right fun hended => by simp [hended.1] at hlive, hqages.cwd⟩

/-- For any other process a call is something that happens beside it. -/
theorem Serves.spares (h : Serves p p₁ k k') (hk : k.Sound) (hp : p ∈ k.processes)
    (hne : p.pid ≠ pid) : Spares pid k k' := by
  obtain ⟨k₁, hsound, hp', hbefore, hcaller, hafter⟩ := h.parts hk hp
  have hbeside : Spares pid k₁ (k₁.setProcess p₁) := by
    refine ⟨hcaller, fun q hq hpid hlive => ?_⟩
    obtain ⟨hq, -⟩ | ⟨rfl, -⟩ := mem_setProcess.mp hq
    · exact ⟨q, hq, hpid, hlive, rfl, rfl⟩
    · exact absurd (h.pid.symm.trans hpid) hne
  exact (hbefore.trans hbeside).trans (hafter.spares hcaller.sound)

/-- The same goes for a caller that keeps what it has. -/
theorem Serves.spares_of_same (h : Serves p p₁ k k') (hk : k.Sound) (hp : p ∈ k.processes)
    (hfiles : p₁.files = p.files) (hcwd : p₁.cwd = p.cwd) : Spares pid k k' := by
  by_cases hne : p.pid = pid
  · subst hne
    refine ⟨h.keeps hk hp, fun p' hp' hpid hlive => ?_⟩
    obtain ⟨halive, hfiles', hcwd'⟩ := h.own hp' hpid hlive
    exact ⟨p, hp, rfl, halive, hfiles'.trans hfiles, hcwd'.trans hcwd⟩
  · exact h.spares hk hp hne

theorem Process.Ages.of_stopped {signal : Signal} {reported : Bool}
    (hlife : p.life = .stopped signal reported) (reported' : Bool) :
    p.Ages { p with life := .stopped signal reported' } where
  pid := rfl
  parent := rfl
  group := rfl
  cwd := rfl
  replaced := rfl
  files := .inl rfl
  opening _ := id
  fits hfits := by
    rw [hlife] at hfits
    exact hfits
  ended hended := by simp [Process.hasEnded, hlife] at hended

theorem Sound.spares_reported (hk : k.Sound) {child : Process} (hchild : child ∈ k.processes)
    {signal : Signal} (hlife : child.life = .stopped signal false) :
    Spares pid k (k.setProcess { child with life := .stopped signal true }) :=
  (hk.drifts_setProcess hchild (Process.Ages.of_stopped hlife true)).toAges.spares hk

/-- Whoever waits, descriptors and directories stay. -/
theorem Sound.wait_leaves (hk : k.Sound) {target : Pid} {options : WaitOptions}
    {answer : Except Errno WaitStatus} (h : k.wait p target options = .answer answer k') :
    k'.Sound ∧ Extends k k' ∧ Holds pid k k' := by
  have hsame : Spares pid k k := (Ages.refl k).spares hk
  obtain ⟨-, rfl⟩ | ⟨child, hchild, -, -, hcases⟩ := hk.wait_cases h
  · exact ⟨hk, hsame.toExtends, hsame.own⟩
  · obtain ⟨_, -, -, rfl⟩ | ⟨signal, hlife, -, -, rfl⟩ | ⟨-, -, rfl⟩ := hcases
    · refine ⟨hk.removeProcess _, ⟨hsame.nextPid, hsame.pipes, hsame.kinds⟩, ?_⟩
      intro p' hp' hpid hlive
      exact ⟨p', (List.mem_filter.mp hp').1, hpid, hlive, rfl, rfl⟩
    · have hkept : Spares pid k _ := hk.spares_reported hchild hlife
      exact ⟨hkept.sound, hkept.toExtends, hkept.own⟩
    · exact ⟨hk, hsame.toExtends, hsame.own⟩

theorem wait_kernel (pid : Pid) (options : WaitOptions) :
    (∃ answer k', k.wait p pid options = .answer answer k') ∨
      (k.wait p pid options).kernel = k := by
  have hnothing : (wait.nothingYet k options).kernel = k := by
    unfold wait.nothingYet
    split <;> rfl
  unfold wait
  split
  · exact .inl ⟨_, _, rfl⟩
  · split
    · exact .inl ⟨_, _, rfl⟩
    · split
      · exact .inl ⟨_, _, rfl⟩
      · split
        · exact .inl ⟨_, _, rfl⟩
        · exact .inr hnothing
      · exact .inr hnothing

/-- A process that changes only in what others cannot see, or in its group. -/
theorem Sound.spares_setProcess (hk : k.Sound) (hp : p ∈ k.processes)
    (hpid : p₁.pid = p.pid) (hparent : p₁.parent = p.parent) (hlife : p₁.life = p.life)
    (hfiles : p₁.files = p.files) (hopening : p₁.opening = p.opening) (hcwd : p₁.cwd = p.cwd) :
    Spares pid k (k.setProcess p₁) where
  sound := by
    refine hk.of_setProcess hp hpid hlife (hfiles ▸ hk.ordered p hp) fun id hid => ?_
    exact hk.opened p hp id (by rwa [Process.openIds, ← hfiles, ← hopening])
  children _ := isChild_setProcess hk hp hpid hparent
  nextPid := Int.le_refl _
  pipes := Nat.le_refl _
  kinds _ file hfile := ⟨file, hfile, rfl⟩
  own q hq hqpid hlive := by
    obtain ⟨hq, -⟩ | ⟨rfl, -⟩ := mem_setProcess.mp hq
    · exact ⟨q, hq, hqpid, hlive, rfl, rfl⟩
    · exact ⟨p, hp, hpid.symm.trans hqpid, by rwa [Process.hasEnded, ← hlife], hfiles, hcwd⟩

theorem Sound.spares_setGroup (hk : k.Sound) (target group : Pid) :
    Spares pid k (k.setGroup p target group).2 := by
  generalize hset : k.setGroup p target group = outcome
  obtain ⟨answer, k'⟩ := outcome
  obtain ⟨q, hq, -, -, -, rfl⟩ | ⟨-, rfl, -⟩ := hk.setGroup_cases hset
  · exact hk.spares_setProcess hq rfl rfl rfl rfl rfl rfl
  · exact (Ages.refl _).spares hk

theorem Sound.spares_tty (hk : k.Sound) (tty : Tty) : Spares pid k { k with tty } where
  sound := ⟨hk.increasing, hk.numbered, hk.fits, hk.ordered, hk.opened, hk.piped⟩
  children _ _ := Iff.rfl
  nextPid := Int.le_refl _
  pipes := Nat.le_refl _
  kinds _ file hfile := ⟨file, hfile, rfl⟩
  own p' hp' hpid hlive := ⟨p', hp', hpid, hlive, rfl, rfl⟩

theorem Sound.spares_setForeground (hk : k.Sound) (fd : Fd) (group : Pid) :
    Spares pid k (k.setForeground p fd group).kernel := by
  have hsame : Spares pid k k := (Ages.refl k).spares hk
  unfold setForeground
  split
  · exact hsame
  · split
    · exact (hk.drifts_signalGroup _ _).toAges.spares hk
    · split
      · exact hk.spares_tty _
      · exact hsame

/-- Collecting a child of another process. -/
theorem Sound.spares_removeProcess (hk : k.Sound) {child : Process} (hchild : child ∈ k.processes)
    (hne : child.parent ≠ pid) : Spares pid k (k.removeProcess child.pid) where
  sound := hk.removeProcess child.pid
  nextPid := Int.le_refl _
  pipes := Nat.le_refl _
  kinds _ file hfile := ⟨file, hfile, rfl⟩
  children _ id := by
    constructor
    · rintro ⟨q, hq, hid, hparent⟩
      exact ⟨q, (List.mem_filter.mp hq).1, hid, hparent⟩
    · rintro ⟨q, hq, hid, hparent⟩
      refine ⟨q, List.mem_filter.mpr ⟨hq, ?_⟩, hid, hparent⟩
      rw [bne_iff_ne]
      intro heq
      obtain rfl := hk.eq_of_pid hq hchild heq
      exact hne hparent
  own p' hp' hpid hlive := ⟨p', (List.mem_filter.mp hp').1, hpid, hlive, rfl, rfl⟩

theorem Sound.spares_wait (hk : k.Sound) (target : Pid) (options : WaitOptions)
    (hne : p.pid ≠ pid) : Spares pid k (k.wait p target options).kernel := by
  have hsame : Spares pid k k := (Ages.refl k).spares hk
  obtain ⟨answer, k', hanswer⟩ | heq := wait_kernel (k := k) (p := p) target options
  · rw [hanswer]
    obtain ⟨-, rfl⟩ | ⟨child, hchild, rfl, hparent, hcases⟩ := hk.wait_cases hanswer
    · exact hsame
    · obtain ⟨_, -, -, rfl⟩ | ⟨signal, hlife, -, -, rfl⟩ | ⟨-, -, rfl⟩ := hcases
      · exact hk.spares_removeProcess hchild (hparent ▸ hne)
      · exact hk.spares_reported hchild hlife
      · exact hsame
  · rw [heq]
    exact hsame

/-- A new process is the last one. -/
theorem spawn_spec (k : Kernel) (p : Process) : ∃ k₁, Grows k k₁ ∧
    k.spawn p = (k.nextPid, { k₁ with
      processes := k₁.processes ++ [p.copy k.nextPid], nextPid := k₁.nextPid + 1 }) :=
  ⟨_, grows_foldl (fun _ slot => grows_retain slot.file) p.files.values k, rfl⟩

theorem mem_spawn {q : Process} :
    q ∈ (k.spawn p).2.processes ↔ q ∈ k.processes ∨ q = p.copy k.nextPid := by
  obtain ⟨k₁, hgrows, heq⟩ := spawn_spec k p
  rw [heq, List.mem_append, List.mem_singleton, hgrows.processes]

/-- What a process does, as long as it has not ended, or that time passes. -/
inductive Moves (k : Kernel) : Option Pid → Kernel → Prop
  | call {p : Process} {β : Type} (request : Call β) : p ∈ k.processes → p.hasEnded = false →
      Moves k (some p.pid) (k.perform p request).kernel
  | fork {p : Process} : p ∈ k.processes → p.hasEnded = false →
      Moves k (some p.pid) (k.spawn p).2
  | exit {p : Process} (status : Status) : p ∈ k.processes → p.hasEnded = false →
      Moves k (some p.pid) (k.terminate p (.exited status))
  | tick (clock : Nat) : Moves k none { k with clock }

theorem extends_spawn : Extends k (k.spawn p).2 := by
  obtain ⟨k₁, hgrows, heq⟩ := spawn_spec k p
  rw [heq]
  refine ⟨?_, hgrows.pipes, hgrows.kinds⟩
  exact hgrows.nextPid ▸ Int.le_add_one (Int.le_refl _)

theorem Sound.append (hk : k.Sound) {child : Process} (hnext : 0 < k.nextPid)
    (hpid : child.pid = k.nextPid) (hfits : child.life.Fits)
    (hordered : child.files.Ordered) (hopened : ∀ id ∈ child.openIds, id < k.openFiles.size) :
    Sound { k with processes := k.processes ++ [child], nextPid := k.nextPid + 1 } where
  increasing := by
    rw [List.map_append, List.pairwise_append]
    refine ⟨hk.increasing, List.pairwise_singleton _ _, fun pid hmem last hlast => ?_⟩
    obtain ⟨q, hq, rfl⟩ := List.mem_map.mp hmem
    obtain rfl : last = child.pid := by simpa using hlast
    exact hpid ▸ (hk.numbered q hq).2
  numbered q hq := by
    obtain hq | hq := List.mem_append.mp hq
    · exact ⟨(hk.numbered q hq).1, Int.lt_add_one_of_le (Int.le_of_lt (hk.numbered q hq).2)⟩
    · rw [List.mem_singleton.mp hq, hpid]
      exact ⟨hnext, Int.lt_add_one_of_le (Int.le_refl _)⟩
  fits q hq := by
    obtain hq | hq := List.mem_append.mp hq
    · exact hk.fits q hq
    · exact List.mem_singleton.mp hq ▸ hfits
  ordered q hq := by
    obtain hq | hq := List.mem_append.mp hq
    · exact hk.ordered q hq
    · exact List.mem_singleton.mp hq ▸ hordered
  opened q hq := by
    obtain hq | hq := List.mem_append.mp hq
    · exact hk.opened q hq
    · exact List.mem_singleton.mp hq ▸ hopened
  piped := hk.piped

theorem Sound.spawn (hk : k.Sound) (hp : p ∈ k.processes) : (k.spawn p).2.Sound := by
  obtain ⟨k₁, hgrows, heq⟩ := spawn_spec k p
  rw [heq]
  refine (hk.ages hgrows.ages).append ?_ hgrows.nextPid.symm trivial (hk.ordered p hp) ?_
  · rw [hgrows.nextPid]
    exact Int.lt_trans (hk.numbered p hp).1 (hk.numbered p hp).2
  · intro id hid
    obtain hslot | ⟨_, ho, -⟩ := mem_openIds.mp hid
    · exact hgrows.opened (hk.opened p hp id (mem_openIds.mpr (.inl hslot)))
    · cases ho

theorem Sound.spares_spawn (hk : k.Sound) (hp : p ∈ k.processes) (hne : p.pid ≠ pid)
    (hold : pid < k.nextPid) : Spares pid k (k.spawn p).2 := by
  refine ⟨⟨extends_spawn, hk.spawn hp, fun _ child => ?_⟩, fun q hq hpid hlive => ?_⟩
  · constructor
    · rintro ⟨q, hq, hid, hparent⟩
      obtain hq | rfl := mem_spawn.mp hq
      · exact ⟨q, hq, hid, hparent⟩
      · exact absurd hparent hne
    · rintro ⟨q, hq, hid, hparent⟩
      exact ⟨q, mem_spawn.mpr (.inl hq), hid, hparent⟩
  · obtain hq | rfl := mem_spawn.mp hq
    · exact ⟨q, hq, hpid, hlive, rfl, rfl⟩
    · exact absurd hpid.symm (Int.ne_of_lt hold)

/-- Whatever another process does, a process keeps what it has and what it sees. -/
theorem Moves.spares {mover : Option Pid} (h : Moves k mover k') (hk : k.Sound)
    (hold : pid < k.nextPid) (hne : mover ≠ some pid) : Spares pid k k' := by
  cases h with
  | @call p β request hp hlive =>
    have hne : p.pid ≠ pid := fun heq => hne (congrArg some heq)
    by_cases hspecial : manner request = .special
    · cases request with
      | wait target options => exact hk.spares_wait target options hne
      | setGroup target group => exact hk.spares_setGroup target group
      | setForeground fd group => exact hk.spares_setForeground fd group
      | _ => cases hspecial
    · obtain ⟨p₁, hserves⟩ := hk.serves_perform hp hlive hspecial
      exact hserves.spares hk hp hne
  | fork hp hlive => exact hk.spares_spawn hp (fun heq => hne (congrArg some heq)) hold
  | exit status hp hlive => exact (hk.drifts_terminate hp hlive rfl).toAges.spares hk
  | tick clock =>
    have hages : Ages k { k with clock } := .of_openFiles rfl rfl rfl (Nat.le_refl _) rfl
    exact hages.spares hk

end

end JobShell.Kernel
