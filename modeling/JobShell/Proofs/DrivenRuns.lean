import Mathlib.Logic.Relation
import JobShell.Kernel.Machine
import JobShell.Proofs.RunningSystem

/-!
Runs of the machine. A program that the machine drives from outside makes a run in the sense that
all results are about, and its exchanges are those of a living process among others: so every such
run is one of the ledger, and of the descriptors as long as there is room for them.
-/
namespace JobShell.Machine

open Program

/-- Others move, and the process with this number does nothing. -/
def Passes (pid : Pid) : Kernel → Kernel → Prop :=
  Relation.ReflTransGen fun k k' => ∃ mover, k.Moves mover k' ∧ mover ≠ some pid

/-- The process that is driven from outside is no other, nor will one be. -/
structure Fits (driver : Pid) (m : Machine) : Prop where
  sound : m.kernel.Sound
  old : driver < m.kernel.nextPid
  outside : ∀ entry ∈ m.programs, entry.1 ≠ driver

section

variable {driver pid : Pid} {m m' : Machine} {k k' : Kernel}

theorem Fits.spared (h : m.Fits driver) (hkept : Kernel.Spares driver m.kernel k) :
    Fits driver { m with kernel := k } :=
  ⟨hkept.sound, Int.lt_of_lt_of_le h.old hkept.nextPid, h.outside⟩

theorem Fits.setProgram (h : m.Fits driver) (pid : Pid) (program : Program Empty) :
    (m.setProgram pid program).Fits driver where
  sound := h.sound
  old := h.old
  outside entry hentry := by
    obtain ⟨before, hbefore, rfl⟩ := List.mem_map.mp hentry
    split
    · rename_i heq
      exact fun hpid => h.outside before hbefore ((by simpa using heq : before.1 = pid).trans hpid)
    · exact h.outside before hbefore

/-- After a move of another process. -/
theorem Fits.moved {mover : Option Pid} (h : m.Fits driver) (hmoves : m.kernel.Moves mover k)
    (hne : mover ≠ some driver) : Fits driver { m with kernel := k } :=
  h.spared (hmoves.spares h.sound h.old hne)

/-- After an answer to the driven process itself. -/
theorem Fits.own {e : Event} (h : m.Fits driver) (hexchange : m.kernel.Exchanges driver e k) :
    Fits driver { m with kernel := k } := by
  obtain ⟨hsound, hextends, -⟩ := hexchange.leaves h.sound
  exact ⟨hsound, Int.lt_of_lt_of_le h.old hextends.nextPid, h.outside⟩

theorem Fits.fork (h : m.Fits driver) {p : Kernel.Process} (hp : p ∈ m.kernel.processes)
    (child : Program Empty) : (m.fork p child).2.Fits driver where
  sound := h.sound.spawn hp
  old := Int.lt_of_lt_of_le h.old Kernel.extends_spawn.nextPid
  outside entry hentry := by
    obtain hentry | hentry := List.mem_append.mp hentry
    · exact h.outside entry hentry
    · rw [List.mem_singleton.mp hentry]
      exact fun heq => Int.ne_of_lt h.old heq.symm

/-- A turn of another process. -/
theorem runProcess_passes (library : Library) (hne : pid ≠ driver) (quantum : Nat) (did : Bool)
    (program : Program Empty) (h : m.Fits driver) :
    (runProcess library quantum did pid program m).2.Fits driver ∧
      Passes driver m.kernel (runProcess library quantum did pid program m).2.kernel := by
  have hmover : some pid ≠ some driver := fun heq => hne (Option.some.inj heq)
  induction quantum generalizing did program m with
  | zero => exact ⟨h.setProgram pid program, .refl⟩
  | succ quantum ih =>
    unfold runProcess
    split
    · exact ⟨h, .refl⟩
    · rename_i p hp
      obtain ⟨hmem, rfl⟩ := h.sound.process?_eq_some_iff.mp hp
      split
      · exact ⟨h.setProgram p.pid program, .refl⟩
      · rename_i hrunning
        have hlive : p.hasEnded = false := Kernel.Process.alive_of_running (by simpa using hrunning)
        have hcall {β : Type} (request : Call β) : m.kernel.Moves (some p.pid)
            (m.kernel.perform p request).kernel := .call request hmem hlive
        cases program with
        | done value => exact value.elim
        | exit status =>
          have hmoves := Kernel.Moves.exit (status % 256) hmem hlive
          exact ⟨h.moved hmoves hmover, .single ⟨_, hmoves, hmover⟩⟩
        | loop body state next => exact ih did _ h
        | fork child next =>
          obtain ⟨hfits, hpasses⟩ := ih true _ (h.fork hmem child)
          exact ⟨hfits, hpasses.head ⟨_, .fork hmem hlive, hmover⟩⟩
        | call request next =>
          have hmoves := hcall request
          dsimp only
          split
          · rename_i value kernel hanswer
            rw [hanswer] at hmoves
            obtain ⟨hfits, hpasses⟩ := ih true (next value) (h.moved hmoves hmover)
            exact ⟨hfits, hpasses.head ⟨_, hmoves, hmover⟩⟩
          · rename_i kernel hgone
            rw [hgone] at hmoves
            exact ⟨h.moved hmoves hmover, .single ⟨_, hmoves, hmover⟩⟩
          · rename_i name argv env kernel hbecome
            rw [hbecome] at hmoves
            obtain ⟨hfits, hpasses⟩ := ih true (library name argv env) (h.moved hmoves hmover)
            exact ⟨hfits, hpasses.head ⟨_, hmoves, hmover⟩⟩
          · rename_i kernel moved hblock
            rw [hblock] at hmoves
            exact ⟨(h.moved hmoves hmover).setProgram _ _, .single ⟨_, hmoves, hmover⟩⟩

theorem turns_passes (library : Library) (pids : List Pid) (hne : ∀ pid ∈ pids, pid ≠ driver)
    (h : m.Fits driver) : (turns library pids m).2.Fits driver ∧
      Passes driver m.kernel (turns library pids m).2.kernel := by
  induction pids generalizing m with
  | nil => exact ⟨h, .refl⟩
  | cons pid pids ih =>
    obtain ⟨hpid, hpids⟩ := List.forall_mem_cons.mp hne
    unfold turns
    by_cases hrunning : isRunning m.kernel pid
    · rw [if_pos hrunning]
      cases hprogram : m.programs.lookup pid with
      | none => exact ih hpids h
      | some program =>
        obtain ⟨hfits, hpasses⟩ := runProcess_passes library hpid quantum false program h
        obtain ⟨hfits', hpasses'⟩ := ih hpids hfits
        exact ⟨hfits', hpasses.trans hpasses'⟩
    · rw [if_neg hrunning]
      exact ih hpids h

theorem Fits.tidy (h : m.Fits driver) : m.tidy.Fits driver :=
  ⟨h.sound, h.old, fun entry hentry => h.outside entry (List.mem_filter.mp hentry).1⟩

theorem round_passes (library : Library) (h : m.Fits driver) :
    (m.round library).2.Fits driver ∧ Passes driver m.kernel (m.round library).2.kernel := by
  obtain ⟨hfits, hpasses⟩ := turns_passes library (m.programs.map Prod.fst)
    (fun pid hpid => by
      obtain ⟨entry, hentry, rfl⟩ := List.mem_map.mp hpid
      exact h.outside entry hentry) h
  exact ⟨hfits.tidy, hpasses⟩

/-- What passes beside a process is no exchange of it. -/
theorem Passes.sees {fine : Kernel → Event → Prop} {t : List Event} {k'' : Kernel}
    (h : Passes driver k k') (hk : k.Sound) (hold : driver < k.nextPid)
    (hsees : Kernel.Sees driver fine k' t k'') : Kernel.Sees driver fine k t k'' := by
  induction h using Relation.ReflTransGen.head_induction_on with
  | refl => exact hsees
  | head hmove hrest ih =>
    obtain ⟨mover, hmoves, hne⟩ := hmove
    have hkept := hmoves.spares hk hold hne
    have hlater := ih hkept.sound (Int.lt_of_lt_of_le hold hkept.nextPid)
    exact .others (hkept.lives hlater.lives) hmoves hne hlater

/-- What a driven program comes to it comes to in a run, whose exchanges are those of a process
of the system, and the machine is ready for the next program. -/
theorem drive_runs {α : Type} {library : Library} {steps : Nat} {program : Program α} {a : α}
    (h : drive library driver steps program m = (some a, m')) (hm : m.Fits driver) :
    m'.Fits driver ∧ ∃ t, Runs program t a ∧
      Kernel.Sees driver (fun _ _ => True) m.kernel t m'.kernel := by
  induction steps generalizing program m with
  | zero => cases h
  | succ steps ih =>
    unfold drive at h
    split at h
    · cases h
    · rename_i p hp
      obtain ⟨hp, hpid⟩ := hm.sound.process?_eq_some_iff.mp hp
      split at h
      · cases h
      · rename_i halive
        have hlive : p.hasEnded = false := by simpa using halive
        cases program with
        | done value =>
          cases h
          exact ⟨hm, [], .refl _, .nil ⟨p, hp, hpid, hlive⟩⟩
        | exit status => cases h
        | loop body state next =>
          obtain ⟨hfits, t, hruns, hsees⟩ := ih h hm
          exact ⟨hfits, t, .loop hruns, hsees⟩
        | fork child next =>
          obtain ⟨hfits, t, hruns, hsees⟩ := ih h (hm.fork hp child)
          exact ⟨hfits, _, .fork _ hruns, .own (.fork hp hpid hlive) trivial hsees⟩
        | call request next =>
          dsimp only at h
          split at h
          · rename_i value kernel hanswer
            have hexchange := Kernel.Exchanges.call hp hpid hlive hanswer
            obtain ⟨hfits, t, hruns, hsees⟩ := ih h (hm.own hexchange)
            exact ⟨hfits, _, .call _ hruns, .own hexchange trivial hsees⟩
          · cases h
          · cases h
          · rename_i kernel moved hblock
            -- It asks again, after a turn of the others or a time in which nobody does anything.
            have hkept : Kernel.Spares driver m.kernel kernel := hm.sound.spares_block hp hblock
            have hfits : Fits driver { m with kernel } := hm.spared hkept
            have hwaits {m₁ : Machine} (hpasses : Passes driver kernel m₁.kernel)
                (hfits₁ : m₁.Fits driver)
                (h : drive library driver steps (.call request next) m₁ = (some a, m')) :
                m'.Fits driver ∧ ∃ t, Runs (.call request next) t a ∧
                  Kernel.Sees driver (fun _ _ => True) m.kernel t m'.kernel := by
              obtain ⟨hfits', t, hruns, hsees⟩ := ih h hfits₁
              have hlater := hpasses.sees hfits.sound hfits.old hsees
              exact ⟨hfits', t, hruns, .waits hp hpid hlive hblock hlater⟩
            obtain ⟨hfits₁, hpasses⟩ := round_passes library hfits
            split at h
            · rename_i m₁ hround
              rw [hround] at hfits₁ hpasses
              exact hwaits hpasses hfits₁ h
            · rename_i m₁ hround
              rw [hround] at hfits₁ hpasses
              split at h
              · rename_i m₂ hadvance
                obtain ⟨time, -, rfl⟩ := Option.map_eq_some_iff.mp hadvance
                have hmoves := Kernel.Moves.tick (k := m₁.kernel) (max m₁.kernel.clock time)
                have hne : none ≠ some driver := nofun
                exact hwaits (hpasses.tail ⟨_, hmoves, hne⟩) (hfits₁.moved hmoves hne) h
              · cases h

end

end JobShell.Machine
