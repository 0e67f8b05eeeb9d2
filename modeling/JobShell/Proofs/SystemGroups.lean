import JobShell.Proofs.Groups
import JobShell.Proofs.RunningSystem

/-!
The system puts a shell's children into groups as the crew says. Other exchanges of the shell and
of its children leave all of them where they are, and a new child is in the shell's group.
-/
namespace JobShell

/-- The shell calls or, if a place in the crew is given, the member there, which is still what it
was started as. -/
def Crew.Calls {α : Type} (w : Crew α) (shell : Pid) (caller : Option Nat) (pid : Pid) : Prop :=
  match caller with
  | none => pid = shell
  | some i => ∃ m, w.members[i]? = some m ∧ m.pid = pid ∧ m.replaced = false

namespace Kernel

/-- The shell waits for nobody, nobody moves it, and the group that somebody is to be put into is
no stranger's. -/
def Within (k : Kernel) (shell pid : Pid) : Event → Prop
  | .call (.wait _ _) _ => pid ≠ shell
  | .call (.setGroup target group) _ => 0 ≤ group ∧ target ≠ shell ∧ (pid = shell → target ≠ 0) ∧
      ∀ p ∈ k.processes, p.group = group → p.pid = shell ∨ p.parent = shell
  | _ => True

/-- What matters of a process where it is to be put into a group. -/
def Process.enrolment (p : Process) : Pid × Pid × Pid × Bool :=
  (p.pid, p.parent, p.group, p.replaced)

/-- Nobody has been put into another group, and nobody is gone whose parent lives. -/
structure Unmoved (k k' : Kernel) : Prop where
  older : ∀ p' ∈ k'.processes, ∃ p ∈ k.processes, p'.enrolment = p.enrolment
  kept : ∀ p ∈ k.processes, k'.Lives p.parent → ∃ p' ∈ k'.processes, p'.enrolment = p.enrolment

/-- The children of a shell on the list of processes are the crew. -/
structure Musters {α : Type} (k : Kernel) (shell : Pid) (w : Crew α) : Prop where
  leader : ∃ p ∈ k.processes, p.pid = shell ∧ p.group = w.group
  members : ∀ q ∈ w.members, ∃ p ∈ k.processes, p.enrolment = (q.pid, shell, q.group, q.replaced)
  all : ∀ p ∈ k.processes, p.parent = shell → ∃ q ∈ w.members, q.pid = p.pid
  distinct : (w.members.map Member.pid).Nodup
  apart : ∀ q ∈ w.members, q.pid ≠ shell

section

variable {k k' k'' : Kernel} {p p₁ : Process}

theorem Unmoved.refl (k : Kernel) : Unmoved k k :=
  ⟨fun p hp => ⟨p, hp, rfl⟩, fun p hp _ => ⟨p, hp, rfl⟩⟩

theorem Ages.unmoved (h : Ages k k') : Unmoved k k' where
  older p' hp' := by
    obtain ⟨p, hp, hages⟩ := h.older p' hp'
    exact ⟨p, hp, by simp only [Process.enrolment, hages.pid, hages.parent, hages.group,
      hages.replaced]⟩
  kept p hp hlives := by
    obtain ⟨parent, hparent, hpid, hlive⟩ := hlives
    obtain ⟨p', hp', hages⟩ := h.kept p hp parent hparent hpid hlive
    exact ⟨p', hp', by simp only [Process.enrolment, hages.pid, hages.parent, hages.group,
      hages.replaced]⟩

/-- Of its caller, a call may change whether it has become another program. -/
theorem Serves.unmoved (h : Serves p p₁ k k') (hp : p ∈ k.processes) :
    Unmoved (k.setProcess { p with replaced := p₁.replaced }) k' := by
  obtain ⟨k₁, hgrows, -, hages⟩ := h.between
  have hsame : p₁.enrolment = Process.enrolment { p with replaced := p₁.replaced } := by
    simp only [Process.enrolment, h.pid, h.parent, h.group]
  constructor
  · intro p' hp'
    obtain ⟨q, hq, heq⟩ := hages.unmoved.older p' hp'
    obtain ⟨hq, hne⟩ | ⟨rfl, -⟩ := mem_setProcess.mp hq
    · exact ⟨q, mem_setProcess.mpr (.inl ⟨hgrows.processes ▸ hq, h.pid ▸ hne⟩), heq⟩
    · exact ⟨_, mem_setProcess.mpr (.inr ⟨rfl, p, hp, rfl⟩), heq.trans hsame⟩
  · intro q hq hlives
    obtain ⟨hq, hne⟩ | ⟨rfl, -⟩ := mem_setProcess.mp hq
    · have hq₁ : q ∈ (k₁.setProcess p₁).processes :=
        mem_setProcess.mpr (.inl ⟨hgrows.processes ▸ hq, h.pid ▸ hne⟩)
      exact hages.unmoved.kept q hq₁ hlives
    · have hp₁ : p₁ ∈ (k₁.setProcess p₁).processes :=
        mem_setProcess.mpr (.inr ⟨rfl, p, hgrows.processes ▸ hp, h.pid.symm⟩)
      obtain ⟨p', hp', heq⟩ := hages.unmoved.kept p₁ hp₁ (h.parent ▸ hlives)
      exact ⟨p', hp', heq.trans hsame⟩

/-- Groups change only where somebody asks for it, and processes go only where somebody waits. -/
theorem Sound.unmoved_perform {β : Type} {request : Call β} {answer : β} (hk : k.Sound)
    (hp : p ∈ k.processes) (h : k.perform p request = .answer answer k')
    (hchildren : ¬ (Request.call request).OnChildren)
    (hgroups : ¬ (Request.call request).Regroups) : Unmoved k k' := by
  have hanswer {R : Kernel → Prop} (hR : R (k.perform p request).kernel) : R k' := by
    rwa [h] at hR
  cases hmanner : manner request with
  | quiet => exact hanswer (hk.drifts_quiet hp hmanner).toAges.unmoved
  | files => exact hanswer (hk.ages_files hmanner).unmoved
  | own =>
    obtain ⟨files, opening, cwd, -, hserves⟩ := hk.serves_own hp hmanner
    have hunmoved : Unmoved (k.setProcess p) _ := hserves.unmoved hp
    rw [hk.setProcess_self hp] at hunmoved
    exact hanswer hunmoved
  | leaving => exact hk.eq_of_leaving hp hmanner h ▸ .refl k
  | special =>
    cases request with
    | wait target options => exact absurd trivial hchildren
    | setGroup target group => exact absurd trivial hgroups
    | setForeground fd group =>
      obtain ⟨-, rfl⟩ | ⟨-, rfl⟩ := setForeground_cases h
      · exact ⟨fun p hp => ⟨p, hp, rfl⟩, fun p hp _ => ⟨p, hp, rfl⟩⟩
      · exact .refl k'
    | _ => cases hmanner

end

section

variable {α : Type} {k k' : Kernel} {shell : Pid} {w : Crew α} {m : Member} {i : Nat}

theorem Musters.process (h : k.Musters shell w) (hm : m ∈ w.members) :
    ∃ p ∈ k.processes, p.pid = m.pid ∧ p.parent = shell ∧ p.group = m.group ∧
      p.replaced = m.replaced := by
  obtain ⟨p, hp, heq⟩ := h.members m hm
  simp only [Process.enrolment, Prod.mk.injEq] at heq
  exact ⟨p, hp, heq⟩

theorem Musters.replaced_eq {p : Process} (h : k.Musters shell w) (hk : k.Sound)
    (hm : w.members[i]? = some m) (hp : p ∈ k.processes) (hpid : p.pid = m.pid) :
    p.replaced = m.replaced := by
  obtain ⟨q, hq, hqpid, -, -, hreplaced⟩ := h.process (List.mem_of_getElem? hm)
  rwa [hk.eq_of_pid hp hq (hpid.trans hqpid.symm)]

theorem Musters.unmoved (h : k.Musters shell w) (hk : k.Sound) (hu : Unmoved k k')
    (hlives : k'.Lives shell) : k'.Musters shell w where
  leader := by
    obtain ⟨p', hp', rfl, -⟩ := hlives
    obtain ⟨p, hp, hpid, hgroup⟩ := h.leader
    obtain ⟨q, hq, heq⟩ := hu.older p' hp'
    simp only [Process.enrolment, Prod.mk.injEq] at heq
    obtain rfl := hk.eq_of_pid hq hp (heq.1.symm.trans hpid.symm)
    exact ⟨p', hp', rfl, heq.2.2.1.trans hgroup⟩
  members q hq := by
    obtain ⟨p, hp, heq⟩ := h.members q hq
    have hparent : p.parent = shell := congrArg (·.2.1) heq
    obtain ⟨p', hp', heq'⟩ := hu.kept p hp (hparent ▸ hlives)
    exact ⟨p', hp', heq'.trans heq⟩
  all p' hp' hparent := by
    obtain ⟨p, hp, heq⟩ := hu.older p' hp'
    simp only [Process.enrolment, Prod.mk.injEq] at heq
    obtain ⟨q, hq, hpid⟩ := h.all p hp (heq.2.1.symm.trans hparent)
    exact ⟨q, hq, hpid.trans heq.1.symm⟩
  distinct := h.distinct
  apart := h.apart

theorem Musters.spawn_shell {p : Process} {child : Program Empty} (h : k.Musters shell w)
    (hk : k.Sound) (hp : p ∈ k.processes) (hpid : p.pid = shell) :
    (∀ q ∈ Event.enlisted w.group (.fork child (.ok (k.spawn p).1)), q.pid ≠ 0 ∧
        ∀ q' ∈ w.members, q'.pid ≠ q.pid) ∧
      (k.spawn p).2.Musters shell { w with
        members := w.members ++ Event.enlisted w.group (.fork child (.ok (k.spawn p).1)) } := by
  subst hpid
  have hold {q : Process} (hq : q ∈ k.processes) : q.pid ≠ k.nextPid :=
    Int.ne_of_lt (hk.numbered q hq).2
  have hnew : ∀ q' ∈ w.members, q'.pid ≠ k.nextPid := by
    intro q' hq'
    obtain ⟨r, hr, hrpid, -⟩ := h.process hq'
    exact hrpid ▸ hold hr
  obtain ⟨leader, hleader, hlpid, hgroup⟩ := h.leader
  obtain rfl := hk.eq_of_pid hleader hp hlpid
  refine ⟨fun q hq => ?_, ⟨leader, mem_spawn.mpr (.inl hp), rfl, hgroup⟩, fun q hq => ?_,
    fun r hr hparent => ?_, ?_, fun q hq => ?_⟩
  · rw [List.mem_singleton.mp hq]
    exact ⟨Int.ne_of_gt (Int.lt_trans (hk.numbered leader hp).1 (hk.numbered leader hp).2), hnew⟩
  · obtain hq | hq := List.mem_append.mp hq
    · obtain ⟨r, hr, heq⟩ := h.members q hq
      exact ⟨r, mem_spawn.mpr (.inl hr), heq⟩
    · rw [List.mem_singleton.mp hq]
      exact ⟨_, mem_spawn.mpr (.inr rfl), by rw [← hgroup]; rfl⟩
  · obtain hr | rfl := mem_spawn.mp hr
    · obtain ⟨q, hq, heq⟩ := h.all r hr hparent
      exact ⟨q, List.mem_append_left _ hq, heq⟩
    · exact ⟨_, List.mem_append_right _ (List.mem_singleton_self _), rfl⟩
  · rw [List.map_append, List.nodup_append]
    refine ⟨h.distinct, List.nodup_singleton _, fun pid hpid new hnewpid => ?_⟩
    obtain ⟨q, hq, rfl⟩ := List.mem_map.mp hpid
    rw [List.mem_singleton.mp hnewpid]
    exact hnew q hq
  · obtain hq | hq := List.mem_append.mp hq
    · exact h.apart q hq
    · rw [List.mem_singleton.mp hq]
      exact (hold hp).symm

/-- What only concerns others leaves the crew as it is. -/
theorem Musters.beside (h : k.Musters shell w)
    (hkept : ∀ p ∈ k.processes, p.pid = shell ∨ p.parent = shell → p ∈ k'.processes)
    (hnew : ∀ p ∈ k'.processes, p.parent = shell → p ∈ k.processes) : k'.Musters shell w where
  leader := by
    obtain ⟨leader, hleader, hpid, hgroup⟩ := h.leader
    exact ⟨leader, hkept leader hleader (.inl hpid), hpid, hgroup⟩
  members q hq := by
    obtain ⟨p, hp, heq⟩ := h.members q hq
    have hparent : p.parent = shell := congrArg (·.2.1) heq
    exact ⟨p, hkept p hp (.inr hparent), heq⟩
  all p hp hparent := h.all p (hnew p hp hparent) hparent
  distinct := h.distinct
  apart := h.apart

theorem Musters.spawn_other {p : Process} (h : k.Musters shell w) (hpid : p.pid ≠ shell) :
    (k.spawn p).2.Musters shell w := by
  refine h.beside (fun q hq _ => mem_spawn.mpr (.inl hq)) fun q hq hparent => ?_
  obtain hq | rfl := mem_spawn.mp hq
  · exact hq
  · exact absurd hparent hpid

theorem Musters.removeProcess {child : Process} (h : k.Musters shell w) (hk : k.Sound)
    (hchild : child ∈ k.processes) (hparent : child.parent ≠ shell) (hpid : child.pid ≠ shell) :
    (k.removeProcess child.pid).Musters shell w := by
  refine h.beside (fun q hq hours => List.mem_filter.mpr ⟨hq, ?_⟩) fun q hq _ =>
    (List.mem_filter.mp hq).1
  have hne : q.pid ≠ child.pid := by
    intro hsame
    obtain rfl := hk.eq_of_pid hq hchild hsame
    exact hours.elim hpid hparent
  simpa using hne

/-- One of the crew may change its group or the program it is. -/
theorem Musters.change {q q' : Process} {m' : Member} (h : k.Musters shell w) (hk : k.Sound)
    (hq : q ∈ k.processes) (hm : w.members[i]? = some m) (hpid : q.pid = m.pid)
    (hq' : q'.enrolment = (q.pid, q.parent, m'.group, m'.replaced)) (hm' : m'.pid = m.pid) :
    (k.setProcess q').Musters shell { w with members := w.members.set i m' } := by
  have hmem : m ∈ w.members := List.mem_of_getElem? hm
  have hlt : i < w.members.length := (List.getElem?_eq_some_iff.mp hm).1
  have hpid' : q'.pid = m.pid := (congrArg Prod.fst hq').trans hpid
  have hkeep {r : Process} (hr : r ∈ k.processes) (hne : r.pid ≠ m.pid) :
      r ∈ (k.setProcess q').processes :=
    mem_setProcess.mpr (.inl ⟨hr, fun heq => hne (heq.trans hpid')⟩)
  have hpids := map_pid_set hm hm'
  obtain ⟨r, hr, hrpid, hparent, -⟩ := h.process hmem
  obtain rfl := hk.eq_of_pid hr hq (hrpid.trans hpid.symm)
  refine ⟨?_, fun n hn => ?_, fun p hp hparent' => ?_, hpids ▸ h.distinct, fun n hn => ?_⟩
  · obtain ⟨leader, hleader, rfl, hgroup⟩ := h.leader
    exact ⟨leader, hkeep hleader (h.apart m hmem).symm, rfl, hgroup⟩
  · obtain ⟨j, hj⟩ := List.mem_iff_getElem?.mp hn
    by_cases hij : i = j
    · subst hij
      rw [List.getElem?_set_self hlt] at hj
      obtain rfl := Option.some.inj hj
      refine ⟨q', mem_setProcess.mpr (.inr ⟨rfl, r, hq, hrpid.trans hpid'.symm⟩), ?_⟩
      rw [hq', hrpid, hparent, hm']
    · rw [List.getElem?_set_ne hij] at hj
      obtain ⟨r', hr', heq⟩ := h.members n (List.mem_of_getElem? hj)
      refine ⟨r', hkeep hr' fun hsame => hij ?_, heq⟩
      exact index_eq_of_pid h.distinct hm hj (hsame.symm.trans (congrArg Prod.fst heq))
  · have hlisted : p.pid ∈ w.members.map Member.pid := by
      obtain ⟨hp, -⟩ | ⟨rfl, -⟩ := mem_setProcess.mp hp
      · obtain ⟨n, hn, heq⟩ := h.all p hp hparent'
        exact List.mem_map.mpr ⟨n, hn, heq⟩
      · exact List.mem_map.mpr ⟨m, hmem, hpid'.symm⟩
    exact List.mem_map.mp (hpids ▸ hlisted)
  · obtain hn | rfl := List.mem_or_eq_of_mem_set hn
    · exact h.apart n hn
    · exact hm' ▸ h.apart m hmem

theorem Musters.move_other {q : Process} (h : k.Musters shell w) (hk : k.Sound)
    (hq : q ∈ k.processes) (hparent : q.parent ≠ shell) (hpid : q.pid ≠ shell) (group : Pid) :
    (k.setProcess { q with group }).Musters shell w := by
  refine h.beside (fun p hp hours => mem_setProcess.mpr (.inl ⟨hp, fun hsame => ?_⟩))
    fun p hp hours => ?_
  · obtain rfl := hk.eq_of_pid hp hq hsame
    exact hours.elim hpid hparent
  · obtain ⟨hp, -⟩ | ⟨rfl, -⟩ := mem_setProcess.mp hp
    · exact hp
    · exact absurd hours hparent

theorem Musters.hasGroup_iff {group : Pid} (h : k.Musters shell w) (hk : k.Sound)
    (hgroups : ∀ p ∈ k.processes, p.group = group → p.pid = shell ∨ p.parent = shell) :
    (∃ p ∈ k.processes, p.group = group) ↔ w.HasGroup group := by
  obtain ⟨leader, hleader, hlpid, hlgroup⟩ := h.leader
  constructor
  · rintro ⟨p, hp, rfl⟩
    obtain hpid | hparent := hgroups p hp rfl
    · obtain rfl := hk.eq_of_pid hp hleader (hpid.trans hlpid.symm)
      exact .inl hlgroup
    · obtain ⟨m, hm, hpid⟩ := h.all p hp hparent
      obtain ⟨q, hq, hqpid, -, hgroup, -⟩ := h.process hm
      obtain rfl := hk.eq_of_pid hq hp (hqpid.trans hpid)
      exact .inr ⟨m, hm, hgroup.symm⟩
  · rintro (rfl | ⟨m, hm, rfl⟩)
    · exact ⟨leader, hleader, hlgroup⟩
    · obtain ⟨q, hq, -, -, hgroup, -⟩ := h.process hm
      exact ⟨q, hq, hgroup⟩

variable {caller : Option Nat} {target group : Pid} {p : Process}

theorem meant_eq (hcalls : w.Calls shell caller p.pid) (hmeans : w.Means caller target i m)
    (hself : p.pid = shell → target ≠ 0) : p.meant target = m.pid := by
  obtain ⟨hm, hpid⟩ := hmeans
  unfold Process.meant
  cases caller with
  | none => rw [if_neg (hself hcalls), hpid]
  | some j =>
    obtain ⟨rfl, hpid⟩ := hpid
    obtain ⟨m', hm', hcaller, -⟩ := hcalls
    obtain rfl := Option.some.inj (hm.symm.trans hm')
    split
    · exact hcaller.symm
    · rename_i hne
      exact hpid.resolve_left hne

/-- The system grants what the crew's rules allow. -/
theorem Musters.mayJoin_iff {q : Process} (h : k.Musters shell w) (hk : k.Sound)
    (hcalls : w.Calls shell caller p.pid) (hmeans : w.Means caller target i m)
    (hq : q ∈ k.processes) (hpid : q.pid = m.pid) (hnonneg : 0 ≤ group)
    (hgroups : ∀ p ∈ k.processes, p.group = group → p.pid = shell ∨ p.parent = shell) :
    k.MayJoin p q (m.goal group) ↔ w.MayMove m (m.goal group) := by
  have hmem : m ∈ w.members := List.mem_of_getElem? hmeans.1
  obtain ⟨q', hq', hpid', hparent, -, hreplaced⟩ := h.process hmem
  obtain rfl := hk.eq_of_pid hq' hq (hpid'.trans hpid.symm)
  have hown : (q'.pid = p.pid ∨ q'.parent = p.pid ∧ q'.replaced = false) ↔ m.replaced = false := by
    cases caller with
    | none =>
      obtain rfl : p.pid = shell := hcalls
      have hne : q'.pid ≠ p.pid := hpid ▸ h.apart m hmem
      simp [hne, hparent, hreplaced]
    | some j =>
      obtain ⟨hm, rfl, -⟩ := hmeans
      obtain ⟨m', hm', hcaller, hfresh⟩ := hcalls
      obtain rfl := Option.some.inj (hm.symm.trans hm')
      simp [hpid, hcaller, hfresh]
  have hthere : (m.goal group = q'.pid ∨ ∃ r ∈ k.processes, r.group = m.goal group) ↔
      (m.goal group = m.pid ∨ w.HasGroup (m.goal group)) := by
    rw [hpid]
    by_cases hzero : group = 0
    · simp [Member.goal, hzero]
    · rw [Member.goal, if_neg hzero, h.hasGroup_iff hk hgroups]
  have hgoal : 0 ≤ m.goal group := by
    unfold Member.goal
    split
    · exact hpid ▸ Int.le_of_lt (hk.numbered q' hq).1
    · exact hnonneg
  exact ⟨fun hjoin => ⟨hown.mp hjoin.own, hthere.mp hjoin.there⟩,
    fun hmay => ⟨hown.mpr hmay.1, hgoal, hthere.mpr hmay.2⟩⟩

/-- Who is moved without being one of the crew is no child of the shell, nor the shell. -/
theorem Musters.stranger {q : Process} (h : k.Musters shell w)
    (hcalls : w.Calls shell caller p.pid) (hmeans : ∀ i m, ¬ w.Means caller target i m)
    (hq : q ∈ k.processes) (hpid : q.pid = p.meant target)
    (hown : q.pid = p.pid ∨ q.parent = p.pid ∧ q.replaced = false) (hshell : target ≠ shell)
    (hself : p.pid = shell → target ≠ 0) : q.parent ≠ shell ∧ q.pid ≠ shell := by
  unfold Process.meant at hpid
  cases caller with
  | none =>
    have hcaller : p.pid = shell := hcalls
    rw [if_neg (hself hcaller)] at hpid
    obtain hsame | ⟨hparent, -⟩ := hown
    · exact absurd (hpid.symm.trans (hsame.trans hcaller)) hshell
    · obtain ⟨m, hm, hmpid⟩ := h.all q hq (hparent.trans hcaller)
      obtain ⟨i, hi⟩ := List.mem_iff_getElem?.mp hm
      exact absurd ⟨hi, hmpid.trans hpid⟩ (hmeans i m)
  | some j =>
    obtain ⟨m, hm, hmpid, -⟩ := hcalls
    -- The member moves a child of its own: itself it would have meant.
    have hnot : ¬ (target = 0 ∨ target = p.pid) := fun htarget =>
      hmeans j m ⟨hm, rfl, by rwa [hmpid]⟩
    rw [if_neg fun hzero => hnot (.inl hzero)] at hpid
    obtain hsame | ⟨hparent, -⟩ := hown
    · exact absurd (.inr (hpid.symm.trans hsame)) hnot
    · refine ⟨fun heq => h.apart m (List.mem_of_getElem? hm) ?_, fun heq => hshell ?_⟩
      · exact hmpid.trans (hparent.symm.trans heq)
      · exact hpid.symm.trans heq

/-- So the system moves those that the crew's rules let it move. -/
theorem Musters.setGroup {answer : Except Errno Unit} (h : k.Musters shell w) (hk : k.Sound)
    (hp : p ∈ k.processes) (hcalls : w.Calls shell caller p.pid)
    (hset : k.setGroup p target group = (answer, k'))
    (hwithin : k.Within shell p.pid (.call (.setGroup target group) answer)) :
    ∃ members, w.Regroups caller (.call (.setGroup target group) answer) members ∧
      k'.Musters shell { w with members } := by
  obtain ⟨hnonneg, hshell, hself, hgroups⟩ := hwithin
  by_cases hmeans : ∃ i m, w.Means caller target i m
  · obtain ⟨i, m, hmeans⟩ := hmeans
    have hm : w.members[i]? = some m := hmeans.1
    obtain ⟨q, hq, hpid, -⟩ := h.process (List.mem_of_getElem? hm)
    have hmeant : p.meant target = m.pid := meant_eq hcalls hmeans hself
    have hgoal : p.goal target group = m.goal group := by rw [Process.goal, hmeant]; rfl
    have hmay := h.mayJoin_iff hk hcalls hmeans hq hpid hnonneg hgroups
    have hcases := hk.setGroup_cases hset
    rw [hmeant, hgoal] at hcases
    obtain ⟨q', hq', hpid', hjoin, rfl, rfl⟩ | ⟨⟨e, rfl⟩, rfl, hrefused⟩ := hcases
    · obtain rfl := hk.eq_of_pid hq' hq (hpid'.trans hpid.symm)
      have hreplaced : q'.replaced = m.replaced := h.replaced_eq hk hm hq hpid
      refine ⟨_, .moved hmeans (hmay.mp hjoin), h.change hk hq hm hpid ?_ rfl⟩
      rw [← hreplaced]
      rfl
    · exact ⟨_, .refused e hmeans fun hmove => hrefused q hq hpid (hmay.mpr hmove), h⟩
  · refine ⟨_, .elsewhere fun i m hm => hmeans ⟨i, m, hm⟩, ?_⟩
    obtain ⟨q, hq, hpid, hjoin, -, rfl⟩ | ⟨-, rfl, -⟩ := hk.setGroup_cases hset
    · obtain ⟨hparent, hne⟩ := h.stranger hcalls (fun i m hm => hmeans ⟨i, m, hm⟩) hq hpid
        hjoin.own hshell hself
      exact h.move_other hk hq hparent hne _
    · exact h

theorem Musters.wait {options : WaitOptions} {answer : Except Errno WaitStatus}
    (h : k.Musters shell w) (hk : k.Sound) (hne : p.pid ≠ shell) (hlives : k'.Lives shell)
    (hwait : k.wait p target options = .answer answer k') : k'.Musters shell w := by
  obtain ⟨-, rfl⟩ | ⟨child, hchild, rfl, hparent, hcases⟩ := hk.wait_cases hwait
  · exact h
  · obtain ⟨_, -, -, rfl⟩ | ⟨signal, hlife, -, -, rfl⟩ | ⟨-, -, rfl⟩ := hcases
    · refine h.removeProcess hk hchild (hparent ▸ hne) fun hpid => ?_
      obtain ⟨q, hq, hqpid, -⟩ := hlives
      obtain ⟨-, hgone⟩ := List.mem_filter.mp hq
      exact absurd (hqpid.trans hpid.symm) (by simpa using hgone)
    · exact h.unmoved hk
        (hk.drifts_setProcess hchild (Process.Ages.of_stopped hlife true)).toAges.unmoved hlives
    · exact h

/-- Those who join the crew by an exchange. -/
def joining (w : Crew α) (caller : Option Nat) (e : Event) : List Member :=
  caller.elim (e.enlisted w.group) fun _ => []

theorem joining_eq_nil {β : Type} {request : Call β} {answer : β} :
    joining w caller (.call request answer) = [] := by
  cases caller <;> rfl

/-- Every exchange of the shell and its children moves the crew by its rules, and a new child has
a number that no other has. -/
theorem Exchanges.regroups {e : Event} {pid : Pid} (h : k.Exchanges pid e k') (hk : k.Sound)
    (hm : k.Musters shell w) (hcalls : w.Calls shell caller pid) (hwithin : k.Within shell pid e)
    (hlives : k'.Lives shell) : ∃ members, w.Regroups caller e members ∧
      (∀ q ∈ joining w caller e, q.pid ≠ 0 ∧ ∀ q' ∈ w.members, q'.pid ≠ q.pid) ∧
      k'.Musters shell { w with members := members ++ joining w caller e } := by
  cases h with
  | @call p β request answer _ hp hpid hlive hanswer =>
    subst hpid
    rw [joining_eq_nil]
    suffices h : ∃ members, w.Regroups caller (.call request answer) members ∧
        k'.Musters shell { w with members } by
      obtain ⟨members, hregroups, hmusters⟩ := h
      exact ⟨members, hregroups, fun q hq => (List.not_mem_nil hq).elim,
        (List.append_nil members).symm ▸ hmusters⟩
    by_cases hgroups : (Request.call request).Regroups
    · cases request with
      | setGroup target group =>
        exact hm.setGroup hk hp hcalls (Outcome.now_eq_answer.mp hanswer) hwithin
      | _ => cases hgroups
    · refine ⟨_, .other hgroups, ?_⟩
      by_cases hchildren : (Request.call request).OnChildren
      · cases request with
        | wait target options => exact hm.wait hk hwithin hlives hanswer
        | _ => cases hchildren
      · exact hm.unmoved hk (hk.unmoved_perform hp hanswer hchildren hgroups) hlives
  | @fork p child hp hpid hlive =>
    subst hpid
    refine ⟨_, .other id, ?_⟩
    cases caller with
    | none => exact hm.spawn_shell hk hp hcalls
    | some i =>
      obtain ⟨m, hmem, hmpid, -⟩ := hcalls
      refine ⟨fun q hq => (List.not_mem_nil hq).elim, ?_⟩
      rw [show joining w (some i) _ = [] from rfl, List.append_nil]
      exact hm.spawn_other (hmpid ▸ hm.apart m (List.mem_of_getElem? hmem))

/-- Where the members have got to does not matter to the system. -/
theorem Musters.advance {q q' : Member} (h : k.Musters shell w) (hk : k.Sound)
    (hi : w.members[i]? = some q)
    (hq : (q'.pid, q'.group, q'.replaced) = (q.pid, q.group, q.replaced)) :
    k.Musters shell { w with members := w.members.set i q' } := by
  simp only [Prod.mk.injEq] at hq
  obtain ⟨hpid, hgroup, hreplaced⟩ := hq
  obtain ⟨p, hp, hppid, -, hpgroup, hpreplaced⟩ := h.process (List.mem_of_getElem? hi)
  have hsame : p.enrolment = (p.pid, p.parent, q'.group, q'.replaced) := by
    rw [hgroup, hreplaced, ← hpgroup, ← hpreplaced]
    rfl
  have hmusters := h.change hk hp hi hppid hsame hpid
  rwa [hk.setProcess_self hp] at hmusters

/-- A member that becomes another program is no longer what it was started as. -/
theorem Musters.becomes {outcome : Outcome Errno} {name : String} {argv : List String}
    {env : Environment} (h : k.Musters shell w) (hk : k.Sound) (hp : p ∈ k.processes)
    (hm : w.members[i]? = some m) (hpid : p.pid = m.pid) (hreplaces : Replaces p k outcome)
    (hbecomes : outcome = .become name argv env k') (hlives : k'.Lives shell) :
    k'.Musters shell { w with members := w.members.set i { m with replaced := true } } := by
  obtain ⟨_, rfl⟩ | ⟨p₁, _, _, _, _, rfl, hreplaced, hserves⟩ := hreplaces
  · cases hbecomes
  · cases hbecomes
    have hunmoved := hserves.unmoved hp
    rw [hreplaced] at hunmoved
    have hsound : (k.setProcess { p with replaced := true }).Sound :=
      hk.of_setProcess hp rfl rfl (hk.ordered p hp) (hk.opened p hp)
    have hmarked : (k.setProcess { p with replaced := true }).Musters shell { w with
        members := w.members.set i { m with replaced := true } } := by
      refine h.change hk hp hm hpid ?_ rfl
      obtain ⟨q, hq, hqpid, -, hgroup, -⟩ := h.process (List.mem_of_getElem? hm)
      obtain rfl := hk.eq_of_pid hq hp (hqpid.trans hpid.symm)
      rw [← hgroup]
      rfl
    exact hmarked.unmoved hsound hunmoved hlives

section

variable {e : Event}

/-- An exchange of the shell is a step of the crew, and so is one of a member. -/
theorem Exchanges.crew_shell {rest : Program α} (h : k.Exchanges shell e k') (hk : k.Sound)
    (hm : k.Musters shell w) (hwithin : k.Within shell shell e) (hlives : k'.Lives shell)
    (hs : Program.Steps w.rest [e] rest) :
    ∃ w', w.Step w' ∧ w'.rest = rest ∧ k'.Musters shell w' := by
  have hcalls : w.Calls shell none shell := rfl
  obtain ⟨members, hregroups, hnew, hmusters⟩ := h.regroups hk hm hcalls hwithin hlives
  refine ⟨_, .shell hs hregroups hnew, rfl, ?_⟩
  exact ⟨hmusters.leader, hmusters.members, hmusters.all, hmusters.distinct, hmusters.apart⟩

theorem Exchanges.crew_child {q : Member} {rest : Program Empty} (h : k.Exchanges q.pid e k')
    (hk : k.Sound) (hm : k.Musters shell w) (hi : w.members[i]? = some q)
    (hfresh : q.replaced = false) (hgoing : q.ended = false)
    (hwithin : k.Within shell q.pid e) (hlives : k'.Lives shell)
    (hs : Program.Steps q.rest [e] rest) : ∃ w', w.Step w' ∧ k'.Musters shell w' := by
  have hcalls : w.Calls shell (some i) q.pid := ⟨q, hi, rfl, hfresh⟩
  obtain ⟨members, hregroups, -, hmusters⟩ := h.regroups hk hm hcalls hwithin hlives
  rw [show joining w (some i) e = [] from rfl, List.append_nil] at hmusters
  have hlt : i < members.length := by
    rw [hregroups.length_eq]
    exact (List.getElem?_eq_some_iff.mp hi).1
  have hi' : members[i]? = some members[i] := List.getElem?_eq_getElem hlt
  exact ⟨_, .child hi hfresh hgoing hs hregroups hi', hmusters.advance (h.leaves hk).1 hi' rfl⟩

theorem crew_replaced {q : Member} {rest : Program Empty} {name program : String}
    {argv args : List String} {env env' : Environment} (hk : k.Sound) (hm : k.Musters shell w)
    (hp : p ∈ k.processes) (hi : w.members[i]? = some q) (hpid : p.pid = q.pid)
    (hfresh : q.replaced = false) (hgoing : q.ended = false)
    (hs : Program.Steps q.rest [] rest)
    (hrequest : rest.request? = some (.call (.execSearch name argv env)))
    (hbecomes : k.perform p (.execSearch name argv env) = .become program args env' k')
    (hlives : k'.Lives shell) : ∃ w', w.Step w' ∧ k'.Musters shell w' :=
  ⟨_, .replaced hi hfresh hgoing hs hrequest,
    hm.becomes hk hp hi hpid (hk.replaces_execSearch hp name argv env) hbecomes hlives⟩

end

end

end Kernel

end JobShell
