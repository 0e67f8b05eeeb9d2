import JobShell.Proofs.Reached

/-!
Words with a NUL. No such word can be handed to the system, so all words of a pipeline are
looked at before anything of it is begun: one bad word in the last stage keeps the first from
being started. What is reported is the first bad word in the order in which they are read.
-/
namespace JobShell

open Program

/-- What the system would be handed of a stage: the targets of the redirections, then the
words. -/
def Stage.Hands (s : Stage) (word : String) : Prop :=
  (∃ r ∈ s.redirections, r.target = word) ∨ word ∈ s.argv

/-- No stage has a word or a target with a NUL in it. -/
def Pipeline.NulFree (p : Pipeline) : Prop :=
  ∀ s ∈ p.stages, ∀ word, s.Hands word → '\x00' ∉ word.toList

/-- The word is the first one with a NUL: the stages are read from left to right, in each the
targets of the redirections come before the words. -/
def Pipeline.FirstNul (p : Pipeline) (word : String) : Prop :=
  ∃ front back, p.stages.flatMap (fun s => s.redirections.map Redirection.target ++ s.argv) =
    front ++ word :: back ∧ (∀ w ∈ front, '\x00' ∉ w.toList) ∧ '\x00' ∈ word.toList

theorem hasNul_iff (word : String) : Text.hasNul word = true ↔ '\x00' ∈ word.toList := by
  simp [Text.hasNul]

theorem Stage.mem_words {s : Stage} {word : String} : word ∈ s.words ↔ s.Hands word := by
  simp [Stage.words, Stage.Hands]

theorem nulWord?_eq_some_iff {p : Pipeline} {word : String} :
    nulWord? p.stages = some word ↔ p.FirstNul word := by
  simp only [nulWord?, Text.firstWithNul?, List.find?_eq_some_iff_append, hasNul_iff,
    Bool.not_eq_true', ← Bool.not_eq_true]
  constructor
  · rintro ⟨hnul, front, back, heq, hfront⟩
    exact ⟨front, back, heq, hfront, hnul⟩
  · rintro ⟨front, back, heq, hfront, hnul⟩
    exact ⟨hnul, front, back, heq, hfront⟩

theorem nulWord?_eq_none_iff {p : Pipeline} : nulWord? p.stages = none ↔ p.NulFree := by
  simp only [nulWord?, Text.firstWithNul?, List.find?_eq_none, hasNul_iff, List.mem_flatMap,
    Stage.mem_words]
  constructor
  · intro h s hs word hword
    exact h word ⟨s, hs, hword⟩
  · rintro h word ⟨s, hs, hword⟩
    exact h s hs word hword

theorem exists_firstNul {p : Pipeline} (h : ¬ p.NulFree) : ∃ word, p.FirstNul word := by
  rw [← nulWord?_eq_none_iff, ← ne_eq, Option.ne_none_iff_exists'] at h
  obtain ⟨word, hword⟩ := h
  exact ⟨word, nulWord?_eq_some_iff.mp hword⟩

section

variable {p : Pipeline} {ctx : Context} {word : String}

/-- Both in the shell and with processes of its own, the pipeline is given up at once. -/
theorem startPipeline_of_firstNul (h : p.FirstNul word) :
    startPipeline p ctx = done (.error (.nulArgument word), p, ctx) := by
  have hnul := nulWord?_eq_some_iff.mpr h
  have hprocesses : startProcesses p ctx = done (.error (.nulArgument word), p) := by
    simp [startProcesses, hnul, pure_eq]
  unfold startPipeline
  split
  · rename_i stage hstages
    have hshell : runInShell stage ctx = done (.error (.nulArgument word), ctx) := by
      simp [runInShell, ← hstages, hnul, pure_eq]
    split
    · simp [hshell, bind_eq, pure_eq, done_bind, Except.map]
    · simp [hprocesses, bind_eq, pure_eq, done_bind]
  · simp [hprocesses, bind_eq, pure_eq, done_bind]

theorem runReached_of_firstNul (h : p.FirstNul word) :
    runReached p ctx = (complain (ShellError.nulArgument word).message).bind fun _ =>
      (waitStages p).bind fun _ => done (.next, ctx.setStatus p 1) := by
  simp only [runReached, startPipeline_of_firstNul h, bind_eq, pure_eq, done_bind]
  rfl

/-- Without a NUL, what keeps processes from being started is the system. -/
theorem startProcesses_error {p' : Pipeline} {e : ShellError} {t : List Event}
    (hnul : nulWord? p.stages = none) (h : Runs (startProcesses p ctx) t (.error e, p')) :
    ∃ cause, e = .processStart p.text cause := by
  simp only [startProcesses, hnul, bind_eq, pure_eq, runs_bind] at h
  obtain ⟨_, _, made, -, -, h⟩ := h
  cases made with
  | error cause =>
    obtain ⟨-, he, -⟩ := runs_done_pair.mp h
    exact ⟨cause, by simpa using he⟩
  | ok pipes =>
    simp only [runs_bind] at h
    obtain ⟨_, _, ⟨result, group, stages⟩, -, -, _, _, _, -, -, h⟩ := h
    split at h
    · obtain ⟨-, he, -⟩ := runs_done_pair.mp h
      exact ⟨_, by simpa using he⟩
    · obtain ⟨-, he, -⟩ := runs_done_pair.mp h
      cases he
    · obtain ⟨-, he, -⟩ := runs_done_pair.mp h
      exact ⟨_, by simpa using he⟩

theorem startPipeline_ne_nulArgument {p' : Pipeline} {ctx' : Context} {t : List Event}
    (hnul : p.NulFree) :
    ¬ Runs (startPipeline p ctx) t (.error (.nulArgument word), p', ctx') := by
  rw [← nulWord?_eq_none_iff] at hnul
  intro h
  obtain ⟨stage, result, hstages, hrun, hresult, -⟩ | ⟨hrun, -⟩ := runs_startPipeline h
  · cases runs_runInShell hrun with
    | refused hsome => simp [← hstages, hnul] at hsome
    | unopened _ _ _ _ => cases hresult
    | ran _ _ _ _ => cases hresult
  · obtain ⟨cause, he⟩ := startProcesses_error hnul hrun
    cases he

end

/-- A NUL stops a pipeline before anything happens. If any stage of a pipeline has a word or a
target with a NUL, starting the pipeline asks the system for nothing, changes neither the pipeline
nor the context and names the first such word. The list goes on behind the message, with status 1
if the pipeline is in the foreground; nothing is waited for if nothing was started before. Without
a NUL this error does not occur. -/
theorem nul_stops_pipeline (p : Pipeline) (ctx : Context) :
    (¬ p.NulFree → ∃ word, p.FirstNul word ∧
      startPipeline p ctx = done (.error (.nulArgument word), p, ctx) ∧
      ∀ before ps, reachable before ctx.lastStatus = true →
        runAfter before ctx (p :: ps) =
          (ask (.hasArrived Signal.sigint)).bind fun arrived =>
            if arrived then done (.continue, ctx)
            else (complain (ShellError.nulArgument word).message).bind fun _ =>
              (waitStages p).bind fun _ => runAfter (some p.join)
                (if p.isBackground then ctx else { ctx with lastStatus := 1 }) ps) ∧
    (p.pids = [] → waitStages p = done {}) ∧
    (p.NulFree → ∀ t word p' ctx',
      ¬ Runs (startPipeline p ctx) t (.error (.nulArgument word), p', ctx')) := by
  refine ⟨fun hnul => ?stopped, fun hpids => ?unstarted,
    fun hfree _ _ _ _ => startPipeline_ne_nulArgument hfree⟩
  case stopped =>
    obtain ⟨word, hword⟩ := exists_firstNul hnul
    refine ⟨word, hword, startPipeline_of_firstNul hword, fun before ps hreached => ?_⟩
    simp only [runAfter, bind_eq, pure_eq]
    congr 1
    funext arrived
    cases arrived with
    | true => rfl
    | false =>
      simp [hreached, runReached_of_firstNul hword, bind_assoc, done_bind, Context.setStatus]
  case unstarted =>
    simp [waitStages, hpids, waitFrom, pure_eq]

/-- A NUL in the last of two stages keeps the first from being started, and of the bad words the
target of the redirection comes first. -/
theorem nul_stops_pipeline_last_stage :
    let p : Pipeline := { join := .none, stages := [{ argv := ["true"] },
      { argv := ["echo", "a\x00"], redirections := [⟨.stdout, .truncate, "out\x00"⟩] }] }
    let ctx : Context := { terminal := { fd := none, shellGroup := 1 }, cwd := "/" }
    startPipeline p ctx = done (.error (.nulArgument "out\x00"), p, ctx) := by
  intro p ctx
  have hsome : nulWord? p.stages = some "out\x00" := by decide
  have hnul : ¬ p.NulFree := by
    rw [← nulWord?_eq_none_iff, hsome]
    exact nofun
  obtain ⟨word, hword, hstart, -⟩ := (nul_stops_pipeline p ctx).1 hnul
  obtain rfl : "out\x00" = word :=
    Option.some.inj (hsome.symm.trans (nulWord?_eq_some_iff.mpr hword))
  exact hstart

end JobShell
