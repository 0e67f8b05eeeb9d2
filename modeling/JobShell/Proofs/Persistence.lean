import JobShell.Proofs.WorkingDirectory

/-!
What becomes of the shell when a `cd` fails. It puts its descriptors back, says why, and goes on
with the list where it is. No line ends the shell but by an `exit` that stands alone, except that
a shell which cannot write to standard error what it has to say there is aborted.
-/
namespace JobShell

open Program

theorem keepsRunning_evaluateAll (lines : List String) (ctx : Context) :
    KeepsRunning (evaluateAll lines ctx) := by
  induction lines generalizing ctx with
  | nil => exact stays_done ctx
  | cons line lines ih =>
    exact Stays.bind (within_evaluate ctx line).keepsRunning fun evaluated => ih evaluated.2

/-- The exchanges `t` make a lone `cd` fail: it holds a NUL, a redirection cannot be opened, or
there is no such directory to go to. -/
inductive Stage.CdFails (stage : Stage) (args : List String) (ctx : Context) :
    List Event → Prop
  | nul {word : String} : nulWord? [stage] = some word → CdFails stage args ctx []
  | unopened {t : List Event} {e : SetupError} {saved : List SavedFd} :
      nulWord? [stage] = none → Runs (redirectShell [] stage.redirections) t (.error e, saved) →
      CdFails stage args ctx t
  | nowhere {t : List Event} {saved : List SavedFd} :
      nulWord? [stage] = none → Runs (redirectShell [] stage.redirections) t (.ok (), saved) →
      (ctx.destination args.head?).hasNul = true → CdFails stage args ctx t
  | refused {t : List Event} {saved : List SavedFd} {e : Errno} :
      nulWord? [stage] = none → Runs (redirectShell [] stage.redirections) t (.ok (), saved) →
      (ctx.destination args.head?).hasNul = false → CdFails stage args ctx
        (t ++ [.call (.changeDirectory (ctx.destination args.head?)) (.error e)])

/-- The program comes to its end only if all that it writes to standard error is taken. -/
def Heard {α : Type} (q : Program α) : Prop := ∀ t a, Runs q t a → ∀ e ∈ t, ¬ e.Refused

/-- Behind the exchanges `t` of a pipeline that is reached, the shell may still have to wait, to put
descriptors back or to report. As long as what it writes is taken, and only then, it goes on with
the list in the context `ctx'`. -/
def Pipeline.GoesOn (p : Pipeline) (ctx : Context) (t : List Event) (ctx' : Context) : Prop :=
  ∃ rest : Program Unit, Within [.children, .descriptors, .output] rest ∧ Heard rest ∧
    ∀ before ps, reachable before ctx.lastStatus = true →
      Steps (runAfter before ctx (p :: ps)) (inquiry false :: t)
        (rest.bind fun _ => runAfter (some p.join) ctx' ps)

section

variable {α β : Type} {q : Program α}

theorem Heard.bind {f : α → Program β} (h : Heard q) (hf : ∀ a, Heard (f a)) :
    Heard (q.bind f) := by
  intro t b hrun
  obtain ⟨t₁, t₂, a, rfl, hfirst, hrest⟩ := runs_bind.mp hrun
  exact List.forall_mem_append.mpr ⟨h t₁ a hfirst, hf a t₂ b hrest⟩

theorem Within.heard {topics : List Topic} (h : Within topics q) (ho : .output ∉ topics) :
    Heard q := by
  intro t a hrun e he hrefused
  exact ho (hrefused.topic_eq ▸ h.events hrun e he)

theorem heard_printText (text : String) : Heard (printText 2 text) := by
  intro t a hrun e he hrefused
  cases (refused_writeAll_iff (runs_printText.mp hrun)).mp ⟨e, he, hrefused⟩

end

section

variable {p : Pipeline} {stage : Stage} {args : List String} {ctx ctx' : Context}
  {t : List Event}

theorem Pipeline.GoesOn.of_steps (rest : Program Unit)
    (hrest : Within [.children, .descriptors, .output] rest) (hheard : Heard rest)
    (h : Steps (runReached p ctx) t (rest.bind fun _ => done (.next, ctx'))) :
    p.GoesOn ctx t ctx' := by
  refine ⟨rest, hrest, hheard, fun before ps hreached => ?_⟩
  have hlist : Steps (runAfter before ctx (p :: ps)) (inquiry false :: t) _ :=
    steps_runAfter h hreached
  rw [Program.bind_assoc] at hlist
  exact hlist

/-- A lone built-in is run in the shell. -/
theorem runReached_lone (hp : p.stages = [stage]) (hb : stage.isBuiltin = true) (ctx : Context) :
    runReached p ctx = (runInShell stage ctx).bind fun ran =>
      conclude p ran.2 (ran.1.map .finished) := by
  simp only [runReached_eq, startPipeline, hp, hb, ↓reduceIte, bind_eq, pure_eq,
    Program.bind_assoc, done_bind]

theorem isBuiltin_of_cd (hargv : stage.argv = "cd" :: args) : stage.isBuiltin = true := by
  simp [Stage.isBuiltin, Stage.program?, hargv, isBuiltin]

/-- What ends a list of redirections early ends the command with the status 1. -/
theorem status_of_redirectShell {rs : List Redirection} {saved saved' : List SavedFd}
    {e : SetupError} (h : Runs (redirectShell saved rs) t (.error e, saved')) : e.status = 1 := by
  have happly {r : Redirection} {t : List Event} {e : SetupError}
      (h : Runs r.apply t (.error e)) : e.status = 1 := by
    obtain ⟨_, _, opened, -, -, h⟩ := runs_bind.mp h
    cases opened with
    | error cause =>
      obtain ⟨-, he⟩ := runs_done.mp h
      cases he
      rfl
    | ok fd =>
      dsimp only at h
      split at h
      · cases (runs_done.mp h).2
      · obtain ⟨_, _, moved, -, -, h⟩ := runs_bind.mp h
        obtain ⟨_, _, _, -, -, h⟩ := runs_bind.mp h
        cases moved with
        | error cause =>
          obtain ⟨-, he⟩ := runs_done.mp h
          cases he
          rfl
        | ok value => cases (runs_done.mp h).2
  induction rs generalizing saved t with
  | nil => cases (runs_done.mp h).2
  | cons r rs ih =>
    obtain ⟨_, _, copy, -, -, h⟩ := runs_bind.mp h
    obtain ⟨_, _, applied, -, hr, h⟩ := runs_bind.mp h
    cases applied with
    | error e' =>
      obtain ⟨-, he⟩ := runs_done_pair.mp h |>.imp id And.left
      cases he
      exact happly hr
    | ok value => exact ih h

/-- Where a lone built-in stands, there stands its pipeline. -/
theorem steps_runReached_lone {q : Program (Except ShellError Outcome × Context)}
    (h : Steps (runInShell stage ctx) t q) (hp : p.stages = [stage])
    (hb : stage.isBuiltin = true) : Steps (runReached p ctx) t
      (q.bind fun ran => conclude p ran.2 (ran.1.map .finished)) := by
  rw [runReached_lone hp hb]
  exact h.bind _

/-- A `cd` that has failed reports why. -/
theorem steps_runBuiltin_cd {e : ShellError} {u : List Event} (hargv : stage.argv = "cd" :: args)
    (h : Steps (changeDir args.head? ctx) u (done (.error e, ctx))) :
    Steps (runBuiltin stage.argv ctx) u
      ((complain e.message).bind fun _ => done (.status statusFailure, ctx)) := by
  rw [hargv]
  exact h.bind _

/-- Where a `cd` reports that it has failed, there stands its pipeline. -/
theorem Pipeline.GoesOn.of_report {saved : List SavedFd} {e : ShellError} {u : List Event}
    (hp : p.stages = [stage]) (hargv : stage.argv = "cd" :: args) (hnul : nulWord? [stage] = none)
    (hopened : Runs (redirectShell [] stage.redirections) t (.ok (), saved))
    (h : Steps (changeDir args.head? ctx) u (done (.error e, ctx))) :
    p.GoesOn ctx (t ++ u) (ctx.setStatus p statusFailure) := by
  have hshell := (steps_runInShell_opened hnul hopened ctx).trans
    ((steps_runBuiltin_cd hargv h).bind _)
  have hthere := steps_runReached_lone hshell hp (isBuiltin_of_cd hargv)
  refine .of_steps ((complain e.message).bind fun _ => restoreShell saved) ?_ ?_ ?_
  · exact ((within_printText _).mono (by simp)).bind fun _ =>
      (within_restoreShell saved).mono (by simp)
  · exact (heard_printText _).bind fun _ => (within_restoreShell saved).heard (by decide)
  · simpa only [Program.bind_assoc, done_bind, Except.map, conclude, bind_eq, pure_eq] using hthere

/-- Behind a `cd` that has failed the shell goes on with the status 1. -/
theorem Stage.CdFails.goesOn (h : stage.CdFails args ctx t) (hp : p.stages = [stage])
    (hargv : stage.argv = "cd" :: args) : p.GoesOn ctx t (ctx.setStatus p 1) := by
  have hreport (message : String) : Within [.children, .descriptors, .output] (complain message) :=
    (within_printText _).mono (by simp)
  have hb := isBuiltin_of_cd hargv
  cases h with
  | @nul word hnul =>
    have hshell : runInShell stage ctx = done (.error (.nulArgument word), ctx) := by
      simp only [runInShell, hnul, pure_eq]
    have hthere : Steps (runReached p ctx) [] _ :=
      steps_runReached_lone (.refl (runInShell stage ctx)) hp hb
    rw [hshell] at hthere
    refine .of_steps ((complain (ShellError.nulArgument word).message).bind fun _ =>
      (waitStages p).bind fun _ => done ()) ?_ ?_ ?_
    · exact (hreport _).bind fun _ =>
        ((within_waitStages p).mono (by simp)).bind fun _ => within_done ()
    · exact (heard_printText _).bind fun _ =>
        ((within_waitStages p).bind fun _ => within_done ()).heard (by decide)
    · simpa only [Program.bind_assoc, done_bind, Except.map, conclude, bind_eq, pure_eq,
        ShellError.status, statusFailure] using hthere
  | @unopened t e saved hnul hopened =>
    have hthere := steps_runReached_lone (steps_runInShell_unopened hnul hopened ctx) hp hb
    rw [status_of_redirectShell hopened] at hthere
    refine .of_steps ((restoreShell saved).bind fun _ => complain e.message) ?_ ?_ ?_
    · exact ((within_restoreShell saved).mono (by simp)).bind fun _ => hreport _
    · exact ((within_restoreShell saved).heard (by decide)).bind fun _ => heard_printText _
    · simpa only [Program.bind_assoc, done_bind, Except.map, conclude, bind_eq, pure_eq]
        using hthere
  | nowhere hnul hopened hnowhere =>
    have hcd : changeDir args.head? ctx =
        done (.error (.changeDir (ctx.destination args.head?) .nul), ctx) := by
      simp only [changeDir, hnowhere, ↓reduceIte, pure_eq]
    have hfails : Steps (changeDir args.head? ctx) []
        (done (.error (.changeDir (ctx.destination args.head?) .nul), ctx)) := by
      rw [hcd]
      exact .refl _
    have hgoes := Pipeline.GoesOn.of_report hp hargv hnul hopened hfails
    rwa [List.append_nil] at hgoes
  | @refused t saved e hnul hopened hsomewhere =>
    refine .of_report (e := .changeDir (ctx.destination args.head?) (.system e)) hp hargv hnul
      hopened ?_
    simp only [changeDir, hsomewhere, Bool.false_eq_true, ↓reduceIte]
    exact .call (Except.error e) (.refl _)

/-- A `cd` that has failed has not moved the shell. -/
theorem Stage.CdFails.stays (h : stage.CdFails args ctx t) : ∀ e ∈ t, ¬ e.Moves := by
  have hopens {t : List Event} {r : Except SetupError Unit × List SavedFd}
      (h : Runs (redirectShell [] stage.redirections) t r) : ∀ e ∈ t, ¬ e.Moves :=
    (within_redirectShell [] _).stays (by decide) h
  cases h with
  | nul _ => simp
  | unopened _ hopened => exact hopens hopened
  | nowhere _ hopened _ => exact hopens hopened
  | refused _ hopened _ =>
    intro e he
    obtain he | he := List.mem_append.mp he
    · exact hopens hopened e he
    · obtain rfl := List.mem_singleton.mp he
      exact id

/-- A pipeline with several stages asks nothing about the directory. -/
theorem within_runReached_several (hp : p.stages.length ≠ 1) (ctx : Context) :
    Within [.children, .descriptors, .output, .terminal, .interrupts, .other]
      (runReached p ctx) := by
  have hstart : startPipeline p ctx = (startProcesses p ctx).bind fun started =>
      done (started.1, started.2, ctx) := by
    unfold startPipeline
    split
    · rename_i hlone
      simp [hlone] at hp
    · rfl
  rw [runReached_eq, hstart, Program.bind_assoc]
  exact Within.bind ((within_startProcesses ctx p).mono (by simp)) fun started =>
    (within_conclude ctx started.2 started.1).mono (by simp)

/-- No built-in in a longer pipeline moves the shell or ends it. -/
theorem runReached_several {verdict : Verdict} (hp : p.stages.length ≠ 1)
    (h : Runs (runReached p ctx) t (verdict, ctx')) :
    (∀ e ∈ t, ¬ e.Moves) ∧ ctx'.cwd = ctx.cwd ∧ ∀ code, verdict ≠ .exit code := by
  have hwithin := within_runReached_several hp ctx
  have hstays : ∀ e ∈ t, e.request.topic ≠ .directory := by
    intro e he htopic
    have hmem := hwithin.events h e he
    rw [htopic] at hmem
    exact absurd hmem (by decide)
  have hl : Leads DirectoryStep ctx.cwd t ctx.cwd := leads_of_same fun e he => by
    have htopic := hstays e he
    unfold DirectoryStep
    split
    · exact fun _ => rfl
    · exact absurd rfl htopic
    · rfl
  obtain ⟨ending, hturn, rfl⟩ := runs_runReached.mp h
  refine ⟨hwithin.stays (by decide) h, (hturn.directory hl).cwd_eq rfl, fun code hcode => ?_⟩
  cases hturn with
  | exit hs => exact absurd rfl ((startPipeline_several hs hp).2.2 _)
  | builtin hs => exact absurd rfl ((startPipeline_several hs hp).2.2 _)
  | failed =>
    rw [verdict_endsWith] at hcode
    cases hcode
  | _ => cases hcode

/-- A lone `cd` moves the shell or fails. -/
theorem cd_moves_or_fails {result : Except ShellError Started × Pipeline × Context}
    (h : Runs (startPipeline p ctx) t result) (hp : p.stages = [stage])
    (hargv : stage.argv = "cd" :: args) :
    (∃ e ∈ t, e.Moves) ∨ ∃ u v, t = u ++ v ∧ stage.CdFails args ctx u := by
  have hb := isBuiltin_of_cd hargv
  simp only [startPipeline, hp, hb, ↓reduceIte, bind_eq, pure_eq] at h
  obtain ⟨t, w, ⟨outcome, ctx'⟩, rfl, hshell, -⟩ := runs_bind.mp h
  cases runs_runInShell hshell with
  | refused hnul => exact .inr ⟨[], _, rfl, .nul hnul⟩
  | unopened hnul hopened _ _ =>
    rw [List.append_assoc]
    exact .inr ⟨_, _, rfl, .unopened hnul hopened⟩
  | @ran t u v saved outcome ctx' hnul hopened hran _ =>
    rw [hargv, runBuiltin] at hran
    obtain ⟨u₁, u₂, ⟨cd, ctx₁⟩, rfl, hcd, -⟩ := runs_bind.mp hran
    simp only [tryBuiltin, changeDir] at hcd
    split at hcd
    · rename_i hnowhere
      obtain ⟨rfl, -⟩ := runs_done.mp hcd
      rw [List.append_assoc]
      exact .inr ⟨t, _, rfl, .nowhere hnul hopened hnowhere⟩
    · rename_i hsomewhere
      obtain ⟨w₁, w₂, answer, rfl, hasked, -⟩ := runs_bind.mp hcd
      obtain rfl := runs_ask.mp hasked
      cases answer with
      | ok value =>
        exact .inl ⟨.call (.changeDirectory (ctx.destination args.head?)) (.ok value), by simp,
          trivial⟩
      | error e =>
        refine .inr ⟨_, w₂ ++ (u₂ ++ (v ++ w)), ?_,
          .refused (e := e) hnul hopened (by simpa using hsomewhere)⟩
        simp only [List.append_assoc, List.cons_append, List.nil_append]

end

/-- The copy of the working directory is always the directory itself, after any lines and after
each pipeline of a line, and starting a pipeline moves both together or neither. What moves them
is a lone `cd`, in the background as well, without a NUL, with all its redirections open and
carried out; one that is refused, one with a redirection that cannot be opened and any built-in
in a longer pipeline leaves them alone. Behind a `cd` that fails the shell goes on as long as what
it writes to standard error is taken, and only then. It is ended by nothing but a lone `exit` whose
redirections are all open, and aborted only where it cannot write to standard error. -/
theorem cwd_is_directory (p : Pipeline) (ctx : Context) :
    (∀ options environment home lines t ctx' dir dir',
      Runs ((startShell options environment home).bind (evaluateAll lines)) t ctx' →
      Leads DirectoryStep dir t dir' → ctx'.cwd = dir') ∧
    (∀ line x log flow ctx' dir dir', Evaluation line ctx x log flow ctx' →
      Leads DirectoryStep dir x.all dir' → ctx.cwd = dir → ctx'.cwd = dir' ∧ ∀ turn ∈ log,
        ∃ dir₁ dir₂, Leads DirectoryStep dir₁ turn.trace dir₂ ∧
          turn.before.cwd = dir₁ ∧ turn.after.cwd = dir₂) ∧
    (∀ t started p' ctx' dir dir', Runs (startPipeline p ctx) t (started, p', ctx') →
      Leads DirectoryStep dir t dir' →
      ((∃ e ∈ t, e.Moves) → p.Alone "cd" t ∧ started = .ok (.finished (.status 0)) ∧
        ctx' = { ctx with cwd := dir' }) ∧
      ((∀ e ∈ t, ¬ e.Moves) → dir' = dir ∧ ctx' = ctx) ∧
      (∀ stage t₁ t₂ e saved, p.stages = [stage] → stage.isBuiltin = true → t = t₁ ++ t₂ →
        Runs (redirectShell [] stage.redirections) t₁ (.error e, saved) →
        dir' = dir ∧ ctx' = ctx ∧ started = .ok (.finished (.status e.status))) ∧
      (p.stages.length ≠ 1 → dir' = dir ∧ ctx' = ctx ∧
        ∀ outcome, started ≠ .ok (.finished outcome)) ∧
      ∀ code, started = .ok (.finished (.exit code)) →
        p.Alone "exit" t ∧ dir' = dir ∧ ctx' = ctx) ∧
    (∀ stage args, p.stages = [stage] → stage.argv = "cd" :: args →
      (∀ t, stage.CdFails args ctx t →
        (∀ e ∈ t, ¬ e.Moves) ∧ p.GoesOn ctx t (ctx.setStatus p 1)) ∧
      ∀ t result, Runs (startPipeline p ctx) t result →
        (∃ e ∈ t, e.Moves) ∨ ∃ u v, t = u ++ v ∧ stage.CdFails args ctx u) ∧
    (∀ t verdict ctx', p.stages.length ≠ 1 → Runs (runReached p ctx) t (verdict, ctx') →
      (∀ e ∈ t, ¬ e.Moves) ∧ ctx'.cwd = ctx.cwd ∧ ∀ code, verdict ≠ .exit code) ∧
    KeepsRunning (runReached p ctx) ∧
    (∀ lines, KeepsRunning (evaluateAll lines ctx)) ∧
    ∀ line x log code ctx', Evaluation line ctx x log (.exit code) ctx' →
      ∃ turn ∈ log, turn.ending = .exit code ∧ turn.pipeline.Alone "exit" turn.trace := by
  refine ⟨?_, ?_, ?_, ?_, ?_, (within_runReached ctx p).keepsRunning,
    fun lines => keepsRunning_evaluateAll lines ctx, ?_⟩
  · intro options environment home lines t ctx' dir dir' h hl
    obtain ⟨t₁, t₂, ctx₁, rfl, hstart, hlines⟩ := runs_bind.mp h
    obtain ⟨dir₁, hl₁, hl₂⟩ := leads_append.mp hl
    exact evaluateAll_cwd hlines hl₂ (startShell_cwd hstart hl₁)
  · intro line x log flow ctx' dir dir' h hl hc
    exact h.directory hl hc
  · intro t started p' ctx' dir dir' h hl
    obtain ⟨hmoves, hstays⟩ := startPipeline_directory h hl
    refine ⟨hmoves, hstays, ?_, ?_, ?_⟩
    · rintro stage t₁ t₂ e saved hp hb rfl hopened
      obtain ⟨hnone, hctx, hstarted⟩ := startPipeline_unopened h hp hb hopened
      exact ⟨hl.directory_eq hnone, hctx, hstarted⟩
    · intro hp
      obtain ⟨hnone, hctx, hstarted⟩ := startPipeline_several h hp
      exact ⟨hl.directory_eq fun e he hm => hnone e he hm.topic_eq, hctx, hstarted⟩
    · rintro code rfl
      obtain ⟨halone, hctx⟩ := startPipeline_alone h
      have hnone : ∀ e ∈ t, ¬ e.Moves := by
        intro e he hm
        obtain ⟨-, hne, -⟩ := hmoves ⟨e, he, hm⟩
        cases hne
      exact ⟨halone, hl.directory_eq hnone, hctx⟩
  · intro stage args hp hargv
    exact ⟨fun t h => ⟨h.stays, h.goesOn hp hargv⟩, fun t result h => cd_moves_or_fails h hp hargv⟩
  · intro t verdict ctx' hp h
    exact runReached_several hp h
  · intro line x log code ctx' h
    cases h with
    | intro _ hperform _ =>
      cases hperform with
      | list _ h =>
        obtain ⟨turn, ht, hending⟩ := h.report.stops.exit_mem
        have hturn := h.report.turnsOut turn ht
        rw [hending] at hturn
        obtain ⟨p', hs⟩ := hturn.exit_inv
        exact ⟨turn, ht, hending, (startPipeline_alone hs).1⟩

/-- `cd /tmp&` moves the shell and its copy of the directory. -/
theorem cwd_is_directory_background_cd :
    let p : Pipeline := { stages := [{ argv := ["cd", "/tmp"] }], join := .background }
    let t : List Event :=
      [.call (.changeDirectory "/tmp") (.ok ()), .call .workingDirectory (.ok "/tmp")]
    Runs (startPipeline p plainContext) t
        (.ok (.finished (.status 0)), p, { plainContext with cwd := "/tmp" }) ∧
      Leads DirectoryStep "/" t "/tmp" ∧ p.Alone "cd" t := by
  intro p t
  have hrun : Runs (startPipeline p plainContext) t
      (.ok (.finished (.status 0)), p, { plainContext with cwd := "/tmp" }) :=
    .call (Except.ok ()) (.call (Except.ok ("/tmp" : Path)) (.refl _))
  have hchanged : DirectoryStep "/" (.call (.changeDirectory "/tmp") (.ok ())) "/tmp" := by
    rintro ⟨e, he⟩
    cases he
  have hleads : Leads DirectoryStep "/" t "/tmp" := .cons hchanged (.cons ⟨rfl, rfl⟩ .nil)
  have hmoves : ∃ e ∈ t, e.Moves := ⟨_, List.mem_cons_self, trivial⟩
  obtain ⟨-, -, hpipeline, -⟩ := cwd_is_directory p plainContext
  exact ⟨hrun, hleads, ((hpipeline t _ p _ "/" "/tmp" hrun hleads).1 hmoves).1⟩

/-- `cd /nope 2> /dev/full` -/
def unheardCd : Stage :=
  { argv := ["cd", "/nope"], redirections := [⟨.stderr, .truncate, "/dev/full"⟩] }

/-- Standard error is redirected, and there is no such directory. -/
def unheardEvents : List Event :=
  [.call (.duplicateFrom 2 10) (.ok 10), .call (.openFile "/dev/full" Mode.truncate.flags 0o666) (.ok 3),
    .call (.duplicate 3 2) (.ok ()), .call (.close 3) (.ok ()),
    .call (.changeDirectory "/nope") (.error .noEntry)]

/-- The device is full. -/
def unheard : Event :=
  .call (.write 2 (complaint (ShellError.changeDir "/nope" (.system .noEntry)).message).toUTF8)
    (.error .noSpace)

theorem parse_unheard : parse "cd /nope 2> /dev/full ; echo alive" =
    .ok [{ stages := [unheardCd], join := .sequence },
      { stages := [{ argv := ["echo", "alive"] }], join := .none }] := by
  have hcd : Token.scan "cd /nope 2> /dev/full ; echo alive".toList =
      some (⟨.word, "cd"⟩, " /nope 2> /dev/full ; echo alive".toList) := by decide +kernel
  have hpath : Token.scan " /nope 2> /dev/full ; echo alive".toList =
      some (⟨.word, "/nope"⟩, " 2> /dev/full ; echo alive".toList) := by decide +kernel
  have hredirect : Token.scan " 2> /dev/full ; echo alive".toList =
      some (⟨.redirect, "2>"⟩, " /dev/full ; echo alive".toList) := by decide +kernel
  have htarget : Token.scan " /dev/full ; echo alive".toList =
      some (⟨.word, "/dev/full"⟩, " ; echo alive".toList) := by decide +kernel
  have hsequence : Token.scan " ; echo alive".toList =
      some (⟨.sequence, ";"⟩, " echo alive".toList) := by decide +kernel
  have hecho : Token.scan " echo alive".toList =
      some (⟨.word, "echo"⟩, " alive".toList) := by decide +kernel
  have halive : Token.scan " alive".toList = some (⟨.word, "alive"⟩, []) := by decide +kernel
  simp only [parse, build]
  rw [tokens, Token.scanAll_of_some hcd, Token.scanAll_of_some hpath,
    Token.scanAll_of_some hredirect, Token.scanAll_of_some htarget,
    Token.scanAll_of_some hsequence, Token.scanAll_of_some hecho, Token.scanAll_of_some halive,
    Token.scanAll_of_none rfl]
  simp only [buildFrom, buildFrom.close]
  rfl

/-- A `cd` that fails can end the shell, if nobody hears of it. -/
theorem not_always_going_on :
    ∃ list, parse "cd /nope 2> /dev/full ; echo alive" = .ok list ∧
      unheardCd.CdFails ["/nope"] plainContext unheardEvents ∧
      Steps (runList list plainContext) (inquiry false :: (unheardEvents ++ [unheard])) abort := by
  have hnul : nulWord? [unheardCd] = none := by decide
  have hargv : unheardCd.argv = "cd" :: ["/nope"] := rfl
  have hopened : Runs (redirectShell [] unheardCd.redirections)
      [.call (.duplicateFrom 2 10) (.ok 10),
        .call (.openFile "/dev/full" Mode.truncate.flags 0o666) (.ok 3),
        .call (.duplicate 3 2) (.ok ()), .call (.close 3) (.ok ())] (.ok (), [(2, some 10)]) :=
    .call (Except.ok 10) (.loop (.call (Except.ok 3) (.loop (.call (Except.ok ())
      (.call (Except.ok ()) (.refl _))))))
  refine ⟨_, parse_unheard, ?_, ?_⟩
  · exact .refused hnul hopened rfl
  · have hchange : Steps (changeDir (some "/nope") plainContext)
        [.call (.changeDirectory "/nope") (.error .noEntry)]
        (done (.error (.changeDir "/nope" (.system .noEntry)), plainContext)) :=
      .call (Except.error Errno.noEntry) (.refl _)
    have hfull : Steps (complain (ShellError.changeDir "/nope" (.system .noEntry)).message) [unheard]
        abort :=
      steps_printText_refused (by decide +kernel) (by decide) (by decide)
    have hcd : Steps (runBuiltin unheardCd.argv plainContext)
        ([.call (.changeDirectory "/nope") (.error .noEntry)] ++ [unheard]) abort :=
      (steps_runBuiltin_cd hargv hchange).trans (hfull.bind_abort _)
    have hshell := (steps_runInShell_opened hnul hopened plainContext).trans (hcd.bind_abort _)
    have hreached : Steps (runReached { stages := [unheardCd], join := .sequence } plainContext)
        (unheardEvents ++ [unheard]) abort := by
      rw [runReached_lone rfl rfl]
      exact hshell.bind_abort _
    have hlist : Steps (runAfter none plainContext [{ stages := [unheardCd], join := .sequence },
        { stages := [{ argv := ["echo", "alive"] }], join := .none }]) _ _ :=
      steps_runAfter hreached rfl
    rwa [abort_bind] at hlist

end JobShell
