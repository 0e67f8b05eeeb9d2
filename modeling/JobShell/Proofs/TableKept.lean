import JobShell.Proofs.Launching
import JobShell.Proofs.Reached
import JobShell.Shell

/-!
The shell's own descriptors after a line. What the shell replaces for a built-in it can put
back at every moment, last replaced first, whatever was open before. Starting a pipeline takes
its pipes off again, and nothing else that a line makes the shell do touches descriptors.
-/
namespace JobShell

open Program

/-- Putting back what was saved turns the table `U` into `T`. -/
def Restores (T : Table) : List SavedFd → Table → Prop
  | [], U => U = T
  | (fd, some copy) :: saved, U => ∃ what, U copy = some what ∧
      Restores T saved (Function.update (Function.update U fd (some what)) copy none)
  | (fd, none) :: saved, U => Restores T saved (Function.update U fd none)

section

variable {names : Names} {allowed : Desk → Request → Prop} {d : Desk} {T : Table}

theorem ensures_restoreShell {saved : List SavedFd} (h : Restores T saved d.table)
    (ha : ∀ d r, ¬ r.Creates → allowed d r) :
    Ensures (Desk.Step names) allowed d (restoreShell saved) fun d' _ =>
      d' = { d with table := T } := by
  induction saved generalizing d with
  | nil =>
    obtain rfl : d.table = T := h
    exact ensures_done rfl
  | cons entry saved ih =>
    obtain ⟨fd, copy⟩ := entry
    cases copy with
    | some copy =>
      obtain ⟨what, hcopy, hrest⟩ := h
      refine Ensures.bind ((ensures_duplicate fd hcopy ha).mono ?_)
      rintro d₁ - ⟨-, rfl⟩
      refine Ensures.bind ((ensures_close copy ha).mono ?_)
      rintro d₂ - rfl
      exact ih hrest
    | none =>
      refine Ensures.bind ((ensures_close fd ha).mono ?_)
      rintro d₁ - rfl
      exact ih h

/-- A copy is made of an open descriptor and of no other. With the copy, or without one, the
table can be put back whatever becomes of the descriptor. -/
theorem Restores.save {saved : List SavedFd} {fd least : Fd} {answer : Except Errno Fd}
    {U : Table} (h : Restores T saved d.table)
    (hs : d.table.Step names d.pipes.length (.call (.duplicateFrom fd least) answer) U) :
    Restores T ((fd, answer.toOption) :: saved) U ∧
      ∀ what, Restores T ((fd, answer.toOption) :: saved) (Function.update U fd (some what)) := by
  cases answer with
  | error e =>
    obtain ⟨hclosed, rfl⟩ := hs
    have hback : Function.update d.table fd none = d.table := by
      rw [← hclosed, Function.update_eq_self]
    refine ⟨?_, fun what => ?_⟩ <;> simpa [Restores, Except.toOption, hback] using h
  | ok copy =>
    obtain ⟨hfree, what, hopen, rfl⟩ := hs
    have hne : copy ≠ fd := by
      rintro rfl
      rw [hfree.closed] at hopen
      cases hopen
    have hback : Function.update d.table copy none = d.table := by
      rw [← hfree.closed, Function.update_eq_self]
    -- in both cases the copy still refers to what the descriptor did
    have hundo (x : Option Referent) : Function.update (Function.update (Function.update
        (Function.update d.table copy (some what)) fd x) fd (some what)) copy none = d.table := by
      rw [Function.update_idem, Function.update_comm hne, Function.update_idem,
        Function.update_comm hne.symm, hback, ← hopen, Function.update_eq_self]
    refine ⟨⟨what, Function.update_self .., ?_⟩, fun other => ⟨what, ?_, ?_⟩⟩
    · have hsame := hundo (Function.update d.table copy (some what) fd)
      rw [Function.update_eq_self] at hsame
      rw [hsame]
      exact h
    · rw [Function.update_of_ne hne, Function.update_self]
    · rw [hundo]
      exact h

/-- At every moment all that was replaced so far can be put back. -/
theorem ensures_redirectShell {saved : List SavedFd} (rs : List Redirection)
    (h : Restores T saved d.table) (ha : ∀ d r, ¬ r.Creates → allowed d r) :
    Ensures (Desk.Step names) allowed d (redirectShell saved rs) fun d' r =>
      d' = { d with table := d'.table } ∧ Restores T r.2 d'.table := by
  induction rs generalizing saved d with
  | nil => exact ensures_done ⟨rfl, h⟩
  | cons r rs ih =>
    have hsave : Ensures (Desk.Step names) allowed d
        (ask (.duplicateFrom r.stream.fd firstSavedFd)) fun d' answer =>
          d' = { d with table := d'.table } ∧
          Restores T ((r.stream.fd, answer.toOption) :: saved) d'.table ∧ ∀ what,
            Restores T ((r.stream.fd, answer.toOption) :: saved)
              (Function.update d'.table r.stream.fd (some what)) := by
      refine ensures_ask (ha d _ id) ?_
      intro answer d' hs
      exact ⟨hs.eq_of_not_creates id, h.save hs.table⟩
    refine Ensures.bind (hsave.mono ?_)
    rintro d₁ answer ⟨hd₁, hkept, hreplaced⟩
    refine Ensures.bind ((ensures_apply r ha).mono ?_)
    intro d₂ applied h₂
    cases applied with
    | error e =>
      obtain rfl : d₂ = d₁ := h₂
      exact ensures_done ⟨hd₁, hkept⟩
    | ok value =>
      obtain ⟨what, -, rfl⟩ := h₂
      refine (ih (hreplaced what)).mono ?_
      rintro d₃ r ⟨hd₃, hrest⟩
      refine ⟨?_, hrest⟩
      rw [hd₃, hd₁]

theorem ensures_runInShell_table (stage : Stage) (ctx : Context)
    (ha : ∀ d r, ¬ r.Creates → allowed d r) :
    Ensures (Desk.Step names) allowed d (runInShell stage ctx) fun d' _ => d' = d := by
  unfold runInShell
  split
  · exact ensures_done rfl
  · have hnothing : Restores d.table [] d.table := rfl
    refine Ensures.bind ((ensures_redirectShell stage.redirections hnothing ha).mono ?_)
    rintro d₁ ⟨applied, saved⟩ ⟨hd, hsaved⟩
    have hback : { d₁ with table := d.table } = d := by rw [hd]
    cases applied with
    | ok value =>
      refine Ensures.bind
        ((((within_runBuiltin ctx stage.argv).plain (by decide)).ensures ha).mono ?_)
      rintro d₂ ⟨outcome, ctx'⟩ rfl
      refine Ensures.bind ((ensures_restoreShell hsaved ha).mono ?_)
      rintro d₃ - rfl
      exact ensures_done hback
    | error e =>
      refine Ensures.bind ((ensures_restoreShell hsaved ha).mono ?_)
      rintro d₂ - rfl
      refine Ensures.bind ((((within_printText _).plain (by decide)).ensures ha).mono ?_)
      rintro d₃ - rfl
      exact ensures_done hback

/-- Starting a pipeline leaves the table as it was and, if it works, starts one process for
every stage. -/
theorem ensures_startPipeline_table (p : Pipeline) (ctx : Context) :
    Ensures (Desk.Step names) (Launches p ctx d) d (startPipeline p ctx) fun d' r =>
      d'.table = d.table ∧ ∀ pgid, r.1 = .ok (.group pgid) →
        d'.forks = d.forks + p.stages.length := by
  have hprocesses : Ensures (Desk.Step names) (Launches p ctx d) d
      ((startProcesses p ctx).bind fun started => done (started.1, started.2, ctx)) fun d' r =>
        d'.table = d.table ∧ ∀ pgid, r.1 = .ok (.group pgid) →
          d'.forks = d.forks + p.stages.length :=
    Ensures.bind (ensures_startProcesses_table.mono fun _ _ h => ensures_done h)
  unfold startPipeline
  split
  · split
    · refine Ensures.bind ((ensures_runInShell_table _ ctx launches_other).mono ?_)
      rintro d' ⟨result, ctx'⟩ rfl
      refine ensures_done ⟨rfl, fun pgid h => ?_⟩
      cases result <;> simp [Except.map] at h
    · exact hprocesses
  · exact hprocesses

end

/-- Whenever the program comes to an end the table is as it was. -/
def KeepsTable {α : Type} (names : Names) (p : Program α) : Prop :=
  ∀ t a d d', Runs p t a → Leads (Desk.Step names) d t d' → d'.table = d.table

section

variable {α β : Type} {names : Names} {p : Program α}

theorem keepsTable_done (a : α) : KeepsTable names (done a) := by
  intro t b d d' h hl
  obtain ⟨rfl, -⟩ := runs_done.mp h
  rw [leads_nil.mp hl]

theorem KeepsTable.bind {f : α → Program β} (h : KeepsTable names p)
    (hf : ∀ a, KeepsTable names (f a)) : KeepsTable names (p.bind f) := by
  intro t b d d' hrun hl
  obtain ⟨t₁, t₂, a, rfl, h₁, h₂⟩ := runs_bind.mp hrun
  obtain ⟨d₁, hl₁, hl₂⟩ := leads_append.mp hl
  exact (hf a t₂ b d₁ d' h₂ hl₂).trans (h t₁ a d d₁ h₁ hl₁)

theorem Within.keepsTable {topics : List Topic} (h : Within topics p)
    (ht : .descriptors ∉ topics) : KeepsTable names p := by
  intro t a d d' hrun hl
  refine hl.preserves (fun d₁ => d₁.table = d.table) rfl ?_
  intro e he d₁ d₂ h₁ hs
  have hother : ¬ e.request.OnDescriptors := fun hd => ht (hd.topic_eq ▸ h.events hrun e he)
  rw [(Table.step_other hother).mp hs.table, h₁]

theorem keepsTable_startPipeline (p : Pipeline) (ctx : Context) :
    KeepsTable names (startPipeline p ctx) :=
  fun _ _ _ _ h hl => ((ensures_startPipeline_table p ctx).ends h hl).1

theorem keepsTable_runReached (p : Pipeline) (ctx : Context) :
    KeepsTable names (runReached p ctx) := by
  refine (keepsTable_startPipeline p ctx).bind ?_
  rintro ⟨started, p', ctx'⟩
  cases started with
  | error e =>
    refine KeepsTable.bind ((within_printText _).keepsTable (by decide)) fun _ => ?_
    refine KeepsTable.bind ((within_waitStages p').keepsTable (by decide)) fun _ => ?_
    exact keepsTable_done _
  | ok started =>
    cases started with
    | finished outcome => cases outcome <;> exact keepsTable_done _
    | group pgid =>
      dsimp only
      split
      · refine KeepsTable.bind ((within_detach ctx' p' pgid).keepsTable (by decide)) fun _ => ?_
        exact keepsTable_done _
      · have hforeground : KeepsTable names (runForeground p' pgid ctx') :=
          (within_runForeground ctx' p' pgid).keepsTable (by decide)
        exact hforeground.bind fun _ => keepsTable_done _

theorem keepsTable_runAfter (before : Option Join) (ctx : Context) (ps : List Pipeline) :
    KeepsTable names (runAfter before ctx ps) := by
  induction ps generalizing before ctx with
  | nil => exact keepsTable_done _
  | cons p ps ih =>
    have hask : Within [.interrupts] (ask (.hasArrived Signal.sigint)) := within_ask (by decide)
    refine (hask.keepsTable (by decide)).bind ?_
    intro arrived
    cases arrived with
    | true => exact keepsTable_done _
    | false =>
      simp only [Bool.false_eq_true, ↓reduceIte]
      split
      · refine (keepsTable_runReached p ctx).bind ?_
        rintro ⟨verdict, ctx'⟩
        cases verdict with
        | next => exact ih _ _
        | abandon => exact keepsTable_done _
        | exit code => exact keepsTable_done _
      · exact ih _ _

theorem keepsTable_perform (ctx : Context) (line : String) :
    KeepsTable names (ctx.perform line) := by
  unfold Context.perform
  split
  · exact keepsTable_done _
  · exact keepsTable_runAfter none ctx _
  · exact ((within_printText _).keepsTable (by decide)).bind fun _ => keepsTable_done _

theorem keepsTable_evaluate (ctx : Context) (line : String) :
    KeepsTable names (ctx.evaluate line) := by
  have hforget : Within [.recording] (ask (.forget Signal.sigint)) := within_ask (by decide)
  refine (hforget.keepsTable (by decide)).bind fun _ => ?_
  refine ((within_reap ctx).keepsTable (by decide)).bind fun ctx₁ => ?_
  refine (keepsTable_perform ctx₁ line).bind ?_
  rintro ⟨flow, ctx₂⟩
  exact ((within_reap ctx₂).keepsTable (by decide)).bind fun ctx₃ => keepsTable_done _

end

/-- Whatever opening a path gives, the shell's own descriptors are after a pipeline was started,
and after a line, what they were before. So they are when the shell has redirected its streams
any number of times, or as far as that worked, and put them back. -/
theorem table_kept (names : Names) :
    (∀ p ctx, KeepsTable names (startPipeline p ctx)) ∧
    (∀ ctx line, KeepsTable names (Context.evaluate ctx line)) ∧
    ∀ rs, KeepsTable names ((redirectShell [] rs).bind fun r => restoreShell r.2) := by
  refine ⟨keepsTable_startPipeline, keepsTable_evaluate, ?_⟩
  intro rs t a d d' h hl
  have hnothing : Restores d.table [] d.table := rfl
  have hboth : Ensures (Desk.Step names) (fun _ _ => True) d
      ((redirectShell [] rs).bind fun r => restoreShell r.2) fun d' _ => d'.table = d.table := by
    refine Ensures.bind ((ensures_redirectShell rs hnothing fun _ _ _ => trivial).mono ?_)
    rintro d₁ r ⟨-, hsaved⟩
    refine (ensures_restoreShell hsaved fun _ _ _ => trivial).mono ?_
    rintro d₂ - rfl
    rfl
  exact hboth.ends h hl

/-- With standard input closed the targets of two redirections of one stream are opened on its
descriptor, and standard output has two copies by then. -/
theorem table_kept_twice_redirected :
    let T : Table := fun fd => if fd = 1 ∨ fd = 2 then some (.file 0) else none
    let names : Names := fun _ _ what => what = .file 7
    let ctx : Context := { terminal := { fd := none, shellGroup := 1 }, cwd := "/" }
    let p : Pipeline := { join := .none, stages := [{ argv := ["exit"], redirections :=
      [⟨.stdout, .truncate, "a"⟩, ⟨.stdout, .truncate, "b"⟩] }] }
    let replace (path : String) (copy : Fd) : List Event := [
      .call (.duplicateFrom 1 10) (.ok copy),
      .call (.openFile path Mode.truncate.flags 0o666) (.ok 0),
      .call (.duplicate 0 1) (.ok ()), .call (.close 0) (.ok ())]
    let putBack (copy : Fd) : List Event :=
      [.call (.duplicate copy 1) (.ok ()), .call (.close copy) (.ok ())]
    let t := replace "a" 10 ++ replace "b" 11 ++ putBack 11 ++ putBack 10
    Runs (startPipeline p ctx) t (.ok (.finished (.exit 0)), p, ctx) ∧
      ∃ d', Leads (Desk.Step names) { table := T } t d' ∧ d'.table = T := by
  intro T names ctx p replace putBack t
  have hrun : Runs (startPipeline p ctx) t (.ok (.finished (.exit 0)), p, ctx) := by
    refine .call (Except.ok 10) (.loop (.call (Except.ok 0) (.loop (.call (Except.ok ()) ?_))))
    refine .call (Except.ok ()) (.call (Except.ok 11) (.loop (.call (Except.ok 0) ?_)))
    refine .loop (.call (Except.ok ()) (.call (Except.ok ()) ?_))
    refine .loop (.call (Except.ok ()) (.call (Except.ok ()) ?_))
    refine .loop (.call (Except.ok ()) (.call (Except.ok ()) ?_))
    exact .refl _
  have hleads : ∃ d', Leads (Desk.Step names) { table := T } t d' := by
    have hnext {U : Table} (h₁ : U 10 ≠ none) (h₂ : U 11 = none) : U.LowestFree 10 11 := by
      refine ⟨h₂, by decide, fun k hlt hle => ?_⟩
      obtain rfl : k = 10 := Nat.le_antisymm (Nat.le_of_lt_succ hlt) hle
      exact h₁
    refine exists_leads_cons (.of_table (.saves (.first rfl) rfl)) ?_
    refine exists_leads_cons (.of_table (.opens (.first rfl) rfl)) ?_
    refine exists_leads_cons (.of_table (.copies rfl)) ?_
    refine exists_leads_cons (.of_table .closes) ?_
    refine exists_leads_cons (.of_table (.saves (hnext nofun rfl) rfl)) ?_
    refine exists_leads_cons (.of_table (.opens (.first rfl) rfl)) ?_
    refine exists_leads_cons (.of_table (.copies rfl)) ?_
    refine exists_leads_cons (.of_table .closes) ?_
    refine exists_leads_cons (.of_table (.copies rfl)) ?_
    refine exists_leads_cons (.of_table .closes) ?_
    refine exists_leads_cons (.of_table (.copies rfl)) ?_
    exact exists_leads_cons (.of_table .closes) ⟨_, .nil⟩
  obtain ⟨d', hl⟩ := hleads
  exact ⟨hrun, d', hl, (table_kept names).1 p ctx _ _ _ _ hrun hl⟩

end JobShell
